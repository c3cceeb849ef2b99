import Mathlib.Data.List.Find
import PicoDrone.Analysis.DhcpMessages

/-!
# The leases of the DHCP server

The end of a lease is kept in units of 65536 milliseconds of a clock of 32 bits
(`leaseExpired_iff`). A datagram changes an entry in one of two ways: it gives the lease of a
free entry, or the same client's lease again, or it frees an expired one (`process_lease`). So
an address that a client has been given is given to nobody else for a day (`ack_exclusive`),
and what has been offered is given when it is asked for (`offer_honoured`).
-/

set_option autoImplicit false

namespace PicoDrone.Analysis

open PicoDrone.Library PicoDrone.Model

/-! ## The clock -/

/-- The duration of a lease in milliseconds. -/
def leaseTimeMs : ℕ := defaultLeaseTimeS * 1000

theorem expiry_toNat (e : BitVec 16) :
    (e.setWidth 32 <<< 16 ||| 0xffff#32).toNat = e.toNat * 65536 + 65535 := by
  have he := e.isLt
  have hshift : (e.setWidth 32 <<< 16).toNat = e.toNat <<< 16 := by
    rw [BitVec.toNat_shiftLeft, BitVec.toNat_setWidth, Nat.shiftLeft_eq, Nat.shiftLeft_eq]
    omega
  rw [BitVec.toNat_or, hshift, show (0xffff#32).toNat = 65535 from rfl,
    ← Nat.shiftLeft_add_eq_or_of_lt (by decide), Nat.shiftLeft_eq]

theorem leaseEnd_toNat (t : ℕ) :
    (leaseEnd (BitVec.ofNat 32 t)).toNat = (t + leaseTimeMs) % 4294967296 / 65536 := by
  unfold leaseEnd leaseTimeMs
  rw [BitVec.toNat_setWidth, BitVec.toNat_ushiftRight, BitVec.toNat_add, BitVec.toNat_ofNat,
    BitVec.toNat_ofNat, Nat.shiftRight_eq_div_pow]
  omega

theorem leaseExpired_toNat (l : DhcpLease) (ticks : Word) :
    leaseExpired l ticks = true ↔
      2147483648 ≤ (l.expiry.toNat * 65536 + 65535 + (4294967296 - ticks.toNat)) % 4294967296 := by
  unfold leaseExpired
  rw [decide_eq_true_iff, BitVec.toInt_neg_iff, BitVec.toNat_sub, expiry_toNat]
  omega

/-- INTERNAL: a lease has not expired for a day, and for the rest of the unit in which it ends.
SOURCE: ipstack/dhcpserver.c:224-225, 266 -/
theorem leaseExpired_iff (mac : Mac) {t now : ℕ} (h0 : t ≤ now) (h1 : now < t + 2147483648) :
    leaseExpired ⟨mac, leaseEnd (BitVec.ofNat 32 t)⟩ (BitVec.ofNat 32 now) = true ↔
      (t + leaseTimeMs) / 65536 < now / 65536 := by
  rw [leaseExpired_toNat]
  simp only [leaseEnd_toNat, BitVec.toNat_ofNat]
  unfold leaseTimeMs defaultLeaseTimeS
  omega

/-- INTERNAL: the same where the clock may be read from before the lease. -/
theorem not_leaseExpired (mac : Mac) {t now : ℕ} (h0 : now ≤ t + leaseTimeMs)
    (h1 : t ≤ now + leaseTimeMs) :
    leaseExpired ⟨mac, leaseEnd (BitVec.ofNat 32 t)⟩ (BitVec.ofNat 32 now) = false := by
  rw [← Bool.not_eq_true, leaseExpired_toNat]
  simp only [leaseEnd_toNat, BitVec.toNat_ofNat]
  unfold leaseTimeMs defaultLeaseTimeS at *
  omega

/-! ## The loop of a DISCOVER -/

/-- An entry that a DISCOVER may offer to anybody. -/
def Available (lease : Fin 8 → DhcpLease) (ticks : Fin 8 → Word) (i : Fin 8) : Prop :=
  (lease i).mac = noMac ∨ leaseExpired (lease i) (ticks i) = true

instance (lease : Fin 8 → DhcpLease) (ticks : Fin 8 → Word) (i : Fin 8) :
    Decidable (Available lease ticks i) := inferInstanceAs (Decidable (_ ∨ _))

/-- INTERNAL: the loop frees expired entries of other clients and changes no other ones. The
induction is on the entries to come, of which none is among those behind.
SOURCE: ipstack/dhcpserver.c:212-231 -/
theorem discoverLoop_lease (chaddr : Mac) (ticks : Fin 8 → Word) {is : List (Fin 8)}
    (hnodup : is.Nodup) (lease : Fin 8 → DhcpLease) (yi : Option (Fin 8)) (j : Fin 8) :
    (discoverLoop chaddr ticks is lease yi).1 j = lease j ∨
      (j ∈ is ∧ leaseExpired (lease j) (ticks j) = true ∧
        (discoverLoop chaddr ticks is lease yi).1 j = { lease j with mac := noMac }) := by
  induction is generalizing lease yi with
  | nil => exact Or.inl rfl
  | cons i is ih =>
    obtain ⟨hi, hnodup⟩ := List.nodup_cons.mp hnodup
    have hlater : ∀ yi', (discoverLoop chaddr ticks is lease yi').1 j = lease j ∨
        (j ∈ i :: is ∧ leaseExpired (lease j) (ticks j) = true ∧
          (discoverLoop chaddr ticks is lease yi').1 j = { lease j with mac := noMac }) := by
      intro yi'
      obtain hsame | ⟨hmem, hexpired, hfreed⟩ := ih hnodup lease yi'
      · exact Or.inl hsame
      · exact Or.inr ⟨List.mem_cons_of_mem i hmem, hexpired, hfreed⟩
    rw [discoverLoop]
    split
    · exact Or.inl rfl
    split
    case isFalse => exact hlater _
    simp only
    split
    case isFalse => exact hlater _
    rename_i hexpired
    obtain hsame | ⟨hmem, hexpired', hfreed⟩ := ih hnodup
      (Function.update lease i { lease i with mac := noMac }) (some i)
    · by_cases hj : j = i
      · subst hj
        rw [Function.update_self] at hsame
        exact Or.inr ⟨List.mem_cons_self, hexpired, hsame⟩
      · rw [Function.update_of_ne hj] at hsame
        exact Or.inl hsame
    · have hj : j ≠ i := ne_of_mem_of_not_mem hmem hi
      rw [Function.update_of_ne hj] at hexpired' hfreed
      exact Or.inr ⟨List.mem_cons_of_mem i hmem, hexpired', hfreed⟩

/-- INTERNAL: the loop finds the entry of the client, or else the first one that is available.
SOURCE: ipstack/dhcpserver.c:212-231 -/
theorem discoverLoop_found (chaddr : Mac) (ticks : Fin 8 → Word) {is : List (Fin 8)}
    (hnodup : is.Nodup) (lease : Fin 8 → DhcpLease) (yi : Option (Fin 8)) :
    (discoverLoop chaddr ticks is lease yi).2 =
      (is.find? fun i => (lease i).mac = chaddr).or
        (yi.or (is.find? fun i => Available lease ticks i)) := by
  induction is generalizing lease yi with
  | nil => simp [discoverLoop]
  | cons i is ih =>
    obtain ⟨hi, hnodup⟩ := List.nodup_cons.mp hnodup
    rw [discoverLoop]
    split
    · rename_i hmatch
      simp [hmatch]
    rename_i hother
    rw [List.find?_cons_of_neg (by simpa using hother)]
    split
    · rename_i hnone
      subst hnone
      simp only
      split
      · rename_i hexpired
        have hsame : ∀ j ∈ is,
            (Function.update lease i { lease i with mac := noMac }) j = lease j := by
          intro j hj
          exact Function.update_of_ne (ne_of_mem_of_not_mem hj hi) _ _
        have hfind : (is.find? fun j =>
            ((Function.update lease i { lease i with mac := noMac }) j).mac = chaddr) =
            is.find? fun j => (lease j).mac = chaddr :=
          List.find?_congr fun j hj => by rw [hsame j hj]
        rw [ih hnodup, hfind, List.find?_cons_of_pos (by simp [Available, hexpired])]
        simp
      · rename_i hexpired
        rw [ih hnodup]
        by_cases hfree : (lease i).mac = noMac
        · rw [List.find?_cons_of_pos (by simp [Available, hfree])]
          simp [hfree]
        · rw [List.find?_cons_of_neg (by simp [Available, hfree, hexpired])]
          simp [hfree]
    · rename_i hsome
      rw [ih hnodup]
      obtain ⟨k, rfl⟩ := Option.ne_none_iff_exists'.mp hsome
      simp

/-- INTERNAL: the entry that the loop finds belongs to the client or to nobody.
SOURCE: ipstack/dhcpserver.c:212-231 -/
theorem discoverLoop_entry {chaddr : Mac} {ticks : Fin 8 → Word} {is : List (Fin 8)}
    (hnodup : is.Nodup) {lease : Fin 8 → DhcpLease} {yi : Option (Fin 8)}
    (hyi : ∀ j, yi = some j → j ∉ is ∧ (lease j).mac = noMac) {k : Fin 8}
    (hfound : (discoverLoop chaddr ticks is lease yi).2 = some k) :
    ((discoverLoop chaddr ticks is lease yi).1 k).mac = chaddr ∨
      ((discoverLoop chaddr ticks is lease yi).1 k).mac = noMac := by
  induction is generalizing lease yi with
  | nil => exact Or.inr (hyi k hfound).2
  | cons i is ih =>
    obtain ⟨hi, hnodup⟩ := List.nodup_cons.mp hnodup
    rw [discoverLoop] at hfound ⊢
    split at hfound
    · rename_i hmatch
      rw [if_pos hmatch]
      obtain rfl := Option.some.inj hfound
      exact Or.inl hmatch
    rename_i hother
    rw [if_neg hother]
    split at hfound
    · rename_i hnone
      rw [if_pos hnone]
      simp only at hfound ⊢
      split at hfound
      · rename_i hexpired
        rw [if_pos hexpired]
        refine ih hnodup (fun j hj => ?_) hfound
        obtain rfl := Option.some.inj hj
        exact ⟨hi, by rw [Function.update_self]⟩
      · rename_i hexpired
        rw [if_neg hexpired]
        refine ih hnodup (fun j hj => ?_) hfound
        split at hj
        · rename_i hfree
          obtain rfl := Option.some.inj hj
          exact ⟨hi, hfree⟩
        · rw [hnone] at hj
          cases hj
    · rename_i hsome
      rw [if_neg hsome]
      refine ih hnodup (fun j hj => ?_) hfound
      exact ⟨fun hmem => (hyi j hj).1 (List.mem_cons_of_mem i hmem), (hyi j hj).2⟩

theorem discover_found (chaddr : Mac) (ticks : Fin 8 → Word) (lease : Fin 8 → DhcpLease) :
    (discover chaddr ticks lease).2 =
      ((List.finRange 8).find? fun i => (lease i).mac = chaddr).or
        ((List.finRange 8).find? fun i => Available lease ticks i) := by
  unfold discover
  rw [discoverLoop_found chaddr ticks (List.nodup_finRange 8), Option.none_or]

theorem discover_eq_none_iff (chaddr : Mac) (ticks : Fin 8 → Word) (lease : Fin 8 → DhcpLease) :
    (discover chaddr ticks lease).2 = none ↔
      ∀ i, (lease i).mac ≠ chaddr ∧ ¬ Available lease ticks i := by
  rw [discover_found, Option.or_eq_none_iff, List.find?_eq_none, List.find?_eq_none]
  simp only [List.mem_finRange, decide_eq_true_eq, true_imp_iff]
  exact forall_and.symm

/-! ## One datagram -/

/-- The lease that a datagram is given by an ACK, whether or not lwIP sends it. -/
def granted (d : DhcpServer) (q : DhcpDatagram) : Option (Fin 8) :=
  if dhcpMinSize ≤ q.payload.length then
    (dhcpDecide d (dhcpMessage d q) q.ticks).2.bind fun r =>
      if r.1 = dhcpAck then some r.2 else none
  else none

theorem process_server (d : DhcpServer) (q : DhcpDatagram) :
    (dhcpServerProcess d q).1 = { d with lease := (dhcpServerProcess d q).1.lease } := by
  unfold dhcpServerProcess
  split
  · rfl
  · split <;> rfl

theorem process_ip (d : DhcpServer) (q : DhcpDatagram) : (dhcpServerProcess d q).1.ip = d.ip := by
  rw [process_server]

/-- INTERNAL: what a datagram does with one entry: nothing; it frees an expired lease; or it gives
the lease to a client that had it or to one that nobody has.
SOURCE: ipstack/dhcpserver.c:178-289 -/
theorem process_lease (d : DhcpServer) (q : DhcpDatagram) (i : Fin 8) :
    ((dhcpServerProcess d q).1.lease i = d.lease i ∧ granted d q ≠ some i) ∨
      (leaseExpired (d.lease i) (q.ticks i) = true ∧ granted d q ≠ some i ∧
        (dhcpServerProcess d q).1.lease i = { d.lease i with mac := noMac }) ∨
      (((d.lease i).mac = payloadMac q.payload ∨ (d.lease i).mac = noMac) ∧
        granted d q = some i ∧ (dhcpServerProcess d q).1.lease i =
          ⟨payloadMac q.payload, leaseEnd (q.ticks 0)⟩) := by
  by_cases hsize : dhcpMinSize ≤ q.payload.length
  case neg =>
    rw [process_short d (Nat.lt_of_not_le hsize), granted, if_neg hsize]
    exact Or.inl ⟨rfl, by simp⟩
  rw [process_eq d hsize, granted, if_pos hsize, ← dhcpMessage_mac d hsize]
  obtain ⟨msgtype, wanted, hdecide⟩ | hdecide := dhcpDecide_cases d (dhcpMessage d q) q.ticks
  case inr =>
    rw [hdecide]
    exact Or.inl ⟨rfl, by simp⟩
  rw [hdecide]
  obtain ⟨-, hswitch⟩ | ⟨yi, lease, -, -, hclaim, hswitch⟩ | ⟨-, hswitch⟩ :=
    dhcpSwitch_cases d (msgMac (dhcpMessage d q).cell) msgtype wanted q.ticks
  · rw [hswitch]
    have hoffer : ∀ found : Option (Fin 8), ((found.map fun yi => (dhcpOffer, yi)).bind
        fun r => if r.1 = dhcpAck then some r.2 else none) ≠ some i := by
      intro found
      cases found with
      | none => simp
      | some k => simp [dhcpOffer, dhcpAck]
    obtain hsame | ⟨-, hexpired, hfreed⟩ := discoverLoop_lease
      (msgMac (dhcpMessage d q).cell) (fun i => q.ticks i) (List.nodup_finRange 8) d.lease none i
    · exact Or.inl ⟨hsame, hoffer _⟩
    · exact Or.inr (Or.inl ⟨hexpired, hoffer _, hfreed⟩)
  · rw [hswitch]
    have hack : ((some (dhcpAck, yi)).bind fun r : Byte × Fin 8 =>
        if r.1 = dhcpAck then some r.2 else none) = some yi := rfl
    rw [hack]
    unfold claimLease at hclaim
    by_cases hyi : yi = i
    · subst hyi
      refine Or.inr (Or.inr ?_)
      split at hclaim
      · rename_i hmatch
        obtain rfl := Option.some.inj hclaim
        exact ⟨Or.inl hmatch, rfl, by simp [hmatch]⟩
      · rename_i hother
        rw [Option.ite_none_right_eq_some] at hclaim
        obtain ⟨hfree, hclaim⟩ := hclaim
        obtain rfl := Option.some.inj hclaim
        exact ⟨Or.inr hfree, rfl, by simp⟩
    · have hne : some yi ≠ some i := fun h => hyi (Option.some.inj h)
      refine Or.inl ⟨?_, hne⟩
      split at hclaim
      · obtain rfl := Option.some.inj hclaim
        exact Function.update_of_ne (Ne.symm hyi) _ _
      · rw [Option.ite_none_right_eq_some] at hclaim
        obtain rfl := Option.some.inj hclaim.2
        exact Function.update_of_ne (Ne.symm hyi) _ _
  · rw [hswitch]
    exact Or.inl ⟨rfl, by simp⟩

/-- INTERNAL: what a reply says about the datagram it answers.
SOURCE: ipstack/dhcpserver.c:178-289 -/
theorem reply_reads {d : DhcpServer} {q : DhcpDatagram} {out : UdpDatagram}
    (h : (dhcpServerProcess d q).2 = some out) :
    ∃ yi, (dhcpDecide d (dhcpMessage d q) q.ticks).2 = some (replyType out, yi) ∧
      dhcpMinSize ≤ q.payload.length ∧ replyIp out = leaseIp d yi ∧
      replyMac out = payloadMac q.payload := by
  obtain ⟨type, yi, hdecide, hsize, rfl⟩ := process_sends h
  have htype : replyType ⟨replyPayload d q.payload type yi, ⟨255#8, 255#8, 255#8, 255#8⟩,
      portDhcpClient⟩ = type := replyPayload_type d hsize type yi
  rw [htype]
  exact ⟨yi, hdecide, hsize, replyPayload_ip d hsize type yi _ _,
    replyPayload_mac d hsize type yi⟩

theorem granted_of_ack {d : DhcpServer} {q : DhcpDatagram} {out : UdpDatagram}
    (h : (dhcpServerProcess d q).2 = some out) (hack : replyType out = dhcpAck) :
    ∃ yi, granted d q = some yi ∧ replyIp out = leaseIp d yi := by
  obtain ⟨yi, hdecide, hsize, hip, -⟩ := reply_reads h
  refine ⟨yi, ?_, hip⟩
  rw [granted, if_pos hsize, hdecide, hack]
  rfl

/-- INTERNAL: the entry behind an OFFER.
SOURCE: ipstack/dhcpserver.c:210-239 -/
theorem offered_entry {d : DhcpServer} {q : DhcpDatagram} {out : UdpDatagram}
    (h : (dhcpServerProcess d q).2 = some out) (hoffer : replyType out = dhcpOffer) :
    ∃ yi, replyIp out = leaseIp d yi ∧
      (((dhcpServerProcess d q).1.lease yi).mac = replyMac out ∨
        ((dhcpServerProcess d q).1.lease yi).mac = noMac) := by
  obtain ⟨yi, hdecide, hsize, hip, hmac⟩ := reply_reads h
  refine ⟨yi, hip, ?_⟩
  rw [process_eq d hsize, hmac, ← dhcpMessage_mac d hsize]
  rw [hoffer] at hdecide
  obtain ⟨msgtype, wanted, hswitch⟩ | hnone := dhcpDecide_cases d (dhcpMessage d q) q.ticks
  case inr =>
    rw [hnone] at hdecide
    cases hdecide
  rw [hswitch] at hdecide ⊢
  obtain ⟨-, hcase⟩ | ⟨yi', lease, -, -, -, hcase⟩ | ⟨-, hcase⟩ :=
    dhcpSwitch_cases d (msgMac (dhcpMessage d q).cell) msgtype wanted q.ticks
  · rw [hcase] at hdecide ⊢
    obtain ⟨k, hfound, hpair⟩ := Option.map_eq_some_iff.mp hdecide
    obtain rfl := (Prod.ext_iff.mp hpair).2
    exact discoverLoop_entry (List.nodup_finRange 8) (by simp) hfound
  · rw [hcase] at hdecide
    cases (Prod.ext_iff.mp (Option.some.inj hdecide)).1
  · rw [hcase] at hdecide
    cases hdecide

/-! ## Runs -/

theorem dhcpMachine_step {d d' : DhcpServer} {q : DhcpDatagram}
    (h : dhcpMachine.step d q = some d') : (dhcpServerProcess d q).1 = d' := Option.some.inj h

theorem run_ip {d d' : DhcpServer} {qs : List DhcpDatagram} (h : dhcpMachine.run d qs = some d') :
    d'.ip = d.ip := by
  refine dhcpMachine.run_invariant (fun s => s.ip = d.ip) (fun s q t hs hstep => ?_) rfl h
  rw [← dhcpMachine_step hstep, process_ip, hs]

theorem leaseIp_congr {d d' : DhcpServer} (h : d'.ip = d.ip) (i : Fin 8) :
    leaseIp d' i = leaseIp d i := by
  rw [leaseIp, leaseIp, h]

/-- An entry that a client holds, given or renewed within a day of `t₀`. -/
def HeldSince (client : Mac) (i : Fin 8) (t₀ : ℕ) (d : DhcpServer) : Prop :=
  (d.lease i).mac = client ∧ ∃ t, t₀ ≤ t ∧ t ≤ t₀ + leaseTimeMs ∧
    (d.lease i).expiry = leaseEnd (BitVec.ofNat 32 t)

/-- INTERNAL: within the day, no datagram takes the entry from the client.
SOURCE: ipstack/dhcpserver.c:209-277 -/
theorem heldSince_step {client : Mac} (hclient : client ≠ noMac) {i : Fin 8} {t₀ : ℕ}
    {d d' : DhcpServer} {q : DhcpDatagram} (h : HeldSince client i t₀ d)
    (hclock : ∀ n < 8, t₀ ≤ q.clock n ∧ q.clock n ≤ t₀ + leaseTimeMs)
    (hstep : dhcpMachine.step d q = some d') : HeldSince client i t₀ d' := by
  obtain ⟨hmac, t, hlo, hhi, hexpiry⟩ := h
  rw [← dhcpMachine_step hstep]
  obtain ⟨hsame, -⟩ | ⟨hexpired, -⟩ | ⟨hfrom, -, hgiven⟩ := process_lease d q i
  · exact ⟨by rw [hsame, hmac], t, hlo, hhi, by rw [hsame, hexpiry]⟩
  · have hnow := hclock i i.isLt
    have hvalid := not_leaseExpired (d.lease i).mac (show q.clock i ≤ t + leaseTimeMs by omega)
      (show t ≤ q.clock i + leaseTimeMs by omega)
    rw [← hexpiry] at hvalid
    exact absurd hexpired (Bool.eq_false_iff.mp hvalid)
  · rw [HeldSince, hgiven]
    obtain hsame | hfree := hfrom
    · have hnow := hclock 0 (by omega)
      exact ⟨hsame.symm.trans hmac, q.clock 0, hnow.1, hnow.2, rfl⟩
    · exact absurd (hmac.symm.trans hfree) hclient

/-- CONTRACT: after an ACK to a client, every ACK for the same address is to the same client, until
a day has gone by on the clock of the server, whatever other datagrams come in between.
SOURCE: ipstack/dhcpserver.c:178-289 -/
theorem ack_exclusive {d₀ d₁ d₂ d₃ : DhcpServer} {q₁ q₂ : DhcpDatagram}
    {between : List DhcpDatagram} {a₁ a₂ : UdpDatagram}
    (h₁ : dhcpServerProcess d₀ q₁ = (d₁, some a₁)) (hack₁ : replyType a₁ = dhcpAck)
    (hclient : replyMac a₁ ≠ noMac) (hrun : dhcpMachine.run d₁ between = some d₂)
    (hclock : ∀ q ∈ between, ∀ n < 8,
      q₁.clock 0 ≤ q.clock n ∧ q.clock n ≤ q₁.clock 0 + leaseTimeMs)
    (h₂ : dhcpServerProcess d₂ q₂ = (d₃, some a₂)) (hack₂ : replyType a₂ = dhcpAck)
    (haddress : replyIp a₂ = replyIp a₁) : replyMac a₂ = replyMac a₁ := by
  have hsent₁ : (dhcpServerProcess d₀ q₁).2 = some a₁ := by rw [h₁]
  have hsent₂ : (dhcpServerProcess d₂ q₂).2 = some a₂ := by rw [h₂]
  obtain ⟨i, hgranted₁, hip₁⟩ := granted_of_ack hsent₁ hack₁
  obtain ⟨j, hgranted₂, hip₂⟩ := granted_of_ack hsent₂ hack₂
  obtain ⟨-, -, -, -, hmac₁⟩ := reply_reads hsent₁
  obtain ⟨-, -, -, -, hmac₂⟩ := reply_reads hsent₂
  have hip : d₂.ip = d₀.ip := by
    rw [run_ip hrun, ← show (dhcpServerProcess d₀ q₁).1 = d₁ by rw [h₁], process_ip]
  obtain rfl : j = i := by
    apply leaseIp_injective d₀
    rw [← leaseIp_congr hip, ← hip₂, haddress, hip₁]
  have hstart : HeldSince (replyMac a₁) j (q₁.clock 0) d₁ := by
    obtain ⟨-, hnot⟩ | ⟨-, hnot, -⟩ | ⟨-, -, hgiven⟩ := process_lease d₀ q₁ j
    · exact absurd hgranted₁ hnot
    · exact absurd hgranted₁ hnot
    · rw [show (dhcpServerProcess d₀ q₁).1 = d₁ by rw [h₁]] at hgiven
      refine ⟨by rw [hgiven, hmac₁], q₁.clock 0, le_rfl, Nat.le_add_right _ _, ?_⟩
      rw [hgiven]
      rfl
  have hend : HeldSince (replyMac a₁) j (q₁.clock 0) d₂ := by
    refine dhcpMachine.run_invariant_along _
      (fun _ q => ∀ n < 8, q₁.clock 0 ≤ q.clock n ∧ q.clock n ≤ q₁.clock 0 + leaseTimeMs)
      (fun s q t hs hq hstep => heldSince_step hclient hs hq hstep) hstart ?_ hrun
    exact dhcpMachine.along_of_forall fun q hq _ => hclock q hq
  obtain ⟨-, hnot⟩ | ⟨-, hnot, -⟩ | ⟨hfrom, -, -⟩ := process_lease d₂ q₂ j
  · exact absurd hgranted₂ hnot
  · exact absurd hgranted₂ hnot
  · rw [hmac₂]
    obtain hsame | hfree := hfrom
    · exact hsame.symm.trans hend.1
    · exact absurd (hend.1.symm.trans hfree) hclient

/-- The server when the client 1:2:3:4:5:6 has been given the address that ends in 18. -/
def heldServer : DhcpServer :=
  { apServer with lease := fun i =>
      if i = 2 then ⟨fun k => BitVec.ofNat 8 (k.val + 1), leaseEnd 1000#32⟩ else ⟨noMac, 0#16⟩ }

theorem process_eq_of_lease {d d' : DhcpServer} {q : DhcpDatagram} (hip : d.ip = d'.ip)
    (hnm : d.nm = d'.nm)
    (hlease : ∀ i, ((dhcpServerProcess d q).1.lease i).mac = (d'.lease i).mac ∧
      ((dhcpServerProcess d q).1.lease i).expiry = (d'.lease i).expiry) :
    (dhcpServerProcess d q).1 = d' := by
  rw [process_server, funext fun i => DhcpLease.ext (hlease i).1 (hlease i).2, hip, hnm]

theorem ack_exclusive_renewal : ∃ a₁ a₂,
    (dhcpServerProcess apServer (plainDatagram [1, 2, 3, 4, 5, 6] (requestOptions 18) 1000)).2 =
      some a₁ ∧
    (dhcpServerProcess heldServer (plainDatagram [1, 2, 3, 4, 5, 6] (requestOptions 18) 3000)).2 =
      some a₂ ∧ replyMac a₂ = replyMac a₁ := by
  have hgiven : (dhcpServerProcess apServer
      (plainDatagram [1, 2, 3, 4, 5, 6] (requestOptions 18) 1000)).1 = heldServer :=
    process_eq_of_lease rfl rfl (by decide +kernel)
  have hrefused : dhcpMachine.run heldServer
      [plainDatagram [6, 5, 4, 3, 2, 1] (requestOptions 18) 2000] = some heldServer := by
    refine dhcpMachine.run_cons_eq_some.mpr ⟨heldServer, congrArg some ?_, rfl⟩
    exact process_eq_of_lease rfl rfl (by decide +kernel)
  have h₁ : (dhcpServerProcess apServer
      (plainDatagram [1, 2, 3, 4, 5, 6] (requestOptions 18) 1000)).2.map
        (fun a => (replyType a, replyIp a, decide (replyMac a = noMac))) =
      some (dhcpAck, ⟨192#8, 168#8, 4#8, 18#8⟩, false) := by decide +kernel
  have h₂ : (dhcpServerProcess heldServer
      (plainDatagram [1, 2, 3, 4, 5, 6] (requestOptions 18) 3000)).2.map
        (fun a => (replyType a, replyIp a)) =
      some (dhcpAck, ⟨192#8, 168#8, 4#8, 18#8⟩) := by decide +kernel
  obtain ⟨a₁, ha₁, hreads₁⟩ := Option.map_eq_some_iff.mp h₁
  obtain ⟨a₂, ha₂, hreads₂⟩ := Option.map_eq_some_iff.mp h₂
  obtain ⟨hack₁, hrest⟩ := Prod.ext_iff.mp hreads₁
  obtain ⟨hip₁, hmac₁⟩ := Prod.ext_iff.mp hrest
  obtain ⟨hack₂, hip₂⟩ := Prod.ext_iff.mp hreads₂
  refine ⟨a₁, a₂, ha₁, ha₂, ack_exclusive (Prod.ext hgiven ha₁) hack₁ (of_decide_eq_false hmac₁)
    hrefused (fun p hp n _ => ?_) (Prod.ext rfl ha₂) hack₂ (hip₂.trans hip₁.symm)⟩
  obtain rfl := List.mem_singleton.mp hp
  exact ⟨show 1000 ≤ 2000 by decide, show 2000 ≤ 1000 + leaseTimeMs by decide⟩

/-- No other client is given the lease with this address. -/
def NotGivenToOthers (client : Mac) (address : Ip4) (d : DhcpServer) (q : DhcpDatagram) : Prop :=
  ∀ i, granted d q = some i → leaseIp d i = address → payloadMac q.payload = client

/-- INTERNAL: an entry of a client or of nobody stays so, as long as no other client is given it.
SOURCE: ipstack/dhcpserver.c:209-277 -/
theorem reserved_step {client : Mac} {i : Fin 8} {d d' : DhcpServer} {q : DhcpDatagram}
    (h : (d.lease i).mac = client ∨ (d.lease i).mac = noMac)
    (hothers : NotGivenToOthers client (leaseIp d i) d q)
    (hstep : dhcpMachine.step d q = some d') :
    (d'.lease i).mac = client ∨ (d'.lease i).mac = noMac := by
  rw [← dhcpMachine_step hstep]
  obtain ⟨hsame, -⟩ | ⟨-, -, hfreed⟩ | ⟨-, hgranted, hgiven⟩ := process_lease d q i
  · rw [hsame]
    exact h
  · rw [hfreed]
    exact Or.inr rfl
  · rw [hgiven]
    exact Or.inl (hothers i hgranted rfl)

/-- INTERNAL: a REQUEST for an entry of the client or of nobody. -/
theorem claimLease_of_reserved {client : Mac} (ticks : Word) {lease : Fin 8 → DhcpLease}
    {i : Fin 8} (h : (lease i).mac = client ∨ (lease i).mac = noMac) :
    ∃ lease', claimLease client ticks lease i = some lease' := by
  unfold claimLease
  split
  · exact ⟨_, rfl⟩
  · rename_i hother
    rw [if_pos (h.resolve_left hother)]
    exact ⟨_, rfl⟩

/-- CONTRACT: the address that a client has been offered is acknowledged when the client asks for
it, whatever other datagrams come in between, unless one of them gives it to somebody else.
SOURCE: ipstack/dhcpserver.c:178-289 -/
theorem offer_honoured {d₀ d₁ d₂ : DhcpServer} {q₁ q₂ : DhcpDatagram}
    {between : List DhcpDatagram} {a₁ : UdpDatagram} {opts : List Tlv}
    (h₁ : dhcpServerProcess d₀ q₁ = (d₁, some a₁)) (hoffer : replyType a₁ = dhcpOffer)
    (hrun : dhcpMachine.run d₁ between = some d₂)
    (hothers : dhcpMachine.Along (NotGivenToOthers (replyMac a₁) (replyIp a₁)) d₁ between)
    (hpayload : WellFormedPayload q₂.payload opts dhcpRequest)
    (hclient : payloadMac q₂.payload = replyMac a₁)
    (hwanted : (Tlv.first dhcpOptRequestedIp opts).map optionIp = some (replyIp a₁))
    (halloc : q₂.answers.alloc = true) (hsend : q₂.answers.send = errOk) :
    ∃ a₂, (dhcpServerProcess d₂ q₂).2 = some a₂ ∧ replyType a₂ = dhcpAck ∧
      replyIp a₂ = replyIp a₁ ∧ replyMac a₂ = replyMac a₁ := by
  have hsent : (dhcpServerProcess d₀ q₁).2 = some a₁ := by rw [h₁]
  obtain ⟨i, hip₁, hentry⟩ := offered_entry hsent hoffer
  rw [show (dhcpServerProcess d₀ q₁).1 = d₁ by rw [h₁]] at hentry
  have hip : d₁.ip = d₀.ip := by
    rw [← show (dhcpServerProcess d₀ q₁).1 = d₁ by rw [h₁], process_ip]
  have hend : d₂.ip = d₁.ip ∧
      ((d₂.lease i).mac = replyMac a₁ ∨ (d₂.lease i).mac = noMac) := by
    refine dhcpMachine.run_invariant_along
      (fun s => s.ip = d₁.ip ∧ ((s.lease i).mac = replyMac a₁ ∨ (s.lease i).mac = noMac)) _
      (fun s q t hs hq hstep => ?_) ⟨rfl, hentry⟩ hothers hrun
    refine ⟨by rw [← dhcpMachine_step hstep, process_ip, hs.1], reserved_step hs.2 ?_ hstep⟩
    rw [leaseIp_congr (hs.1.trans hip), ← hip₁]
    exact hq
  have haddress : replyIp a₁ = leaseIp d₂ i := by rw [hip₁, leaseIp_congr (hend.1.trans hip)]
  obtain ⟨lease, hclaim⟩ := claimLease_of_reserved (q₂.ticks 0) hend.2
  have hswitch : dhcpSwitch d₂ (payloadMac q₂.payload) dhcpRequest
      ((Tlv.first dhcpOptRequestedIp opts).map optionIp) q₂.ticks =
        (lease, some (dhcpAck, i)) := by
    rw [hwanted, haddress, leaseIp, dhcpSwitch_request, hclient, hclaim]
  have hout : (dhcpServerProcess d₂ q₂).2 = some ⟨replyPayload d₂ q₂.payload dhcpAck i,
      ⟨255#8, 255#8, 255#8, 255#8⟩, portDhcpClient⟩ := by
    rw [process_wellFormed hpayload, hswitch]
    exact (sendReply_eq d₂ hpayload.min_size _).trans (if_pos ⟨halloc, hsend⟩)
  refine ⟨_, hout, replyPayload_type d₂ hpayload.min_size dhcpAck i, ?_, ?_⟩
  · rw [replyPayload_ip d₂ hpayload.min_size, haddress]
  · exact (replyPayload_mac d₂ hpayload.min_size dhcpAck i).trans hclient

theorem offer_honoured_apart : ∃ a₁ a₂,
    (dhcpServerProcess apServer (plainDatagram [6, 5, 4, 3, 2, 1] discoverOptions 1000)).2 =
      some a₁ ∧
    (dhcpServerProcess heldServer (plainDatagram [6, 5, 4, 3, 2, 1] (requestOptions 16) 3000)).2 =
      some a₂ ∧ replyType a₂ = dhcpAck ∧ replyIp a₂ = replyIp a₁ := by
  have hunchanged : (dhcpServerProcess apServer
      (plainDatagram [6, 5, 4, 3, 2, 1] discoverOptions 1000)).1 = apServer :=
    process_eq_of_lease rfl rfl (by decide +kernel)
  have hother : dhcpMachine.step apServer (plainDatagram [1, 2, 3, 4, 5, 6] (requestOptions 18)
      1000) = some heldServer :=
    congrArg some (process_eq_of_lease rfl rfl (by decide +kernel))
  have h₁ : (dhcpServerProcess apServer
      (plainDatagram [6, 5, 4, 3, 2, 1] discoverOptions 1000)).2.map
        (fun a => (replyType a, replyIp a, decide (replyMac a =
          payloadMac (plainDatagram [6, 5, 4, 3, 2, 1] (requestOptions 16) 3000).payload))) =
      some (dhcpOffer, leaseIp apServer 0, true) := by decide +kernel
  have hgranted : granted apServer (plainDatagram [1, 2, 3, 4, 5, 6] (requestOptions 18) 1000) =
      some 2 := by decide +kernel
  obtain ⟨a₁, ha₁, hreads⟩ := Option.map_eq_some_iff.mp h₁
  obtain ⟨hoffer, hrest⟩ := Prod.ext_iff.mp hreads
  obtain ⟨hip, hmac⟩ := Prod.ext_iff.mp hrest
  have hothers : dhcpMachine.Along (NotGivenToOthers (replyMac a₁) (replyIp a₁)) apServer
      [plainDatagram [1, 2, 3, 4, 5, 6] (requestOptions 18) 1000] := by
    refine dhcpMachine.along_cons (fun i hi haddress => ?_) hother trivial
    obtain rfl : 2 = i := Option.some.inj (hgranted.symm.trans hi)
    exact absurd (leaseIp_injective apServer (haddress.trans hip)) (by decide)
  obtain ⟨a₂, ha₂, hack, hsame, -⟩ := offer_honoured (Prod.ext hunchanged ha₁) hoffer
    (dhcpMachine.run_cons_eq_some.mpr ⟨heldServer, hother, rfl⟩) hothers
    (plainDatagram_wellFormed rfl (requestOptions_wellFormed 16) ⟨_, rfl, rfl⟩
      (by rintro o ho; obtain rfl := Option.some.inj ho; exact le_rfl))
    (of_decide_eq_true hmac).symm
    (show (some _ : Option Ip4) = some (replyIp a₁) from by rw [show replyIp a₁ = _ from hip]; rfl)
    rfl rfl
  exact ⟨a₁, a₂, ha₁, ha₂, hack, hsame⟩

/-! ## Who is served -/

/-- CONTRACT: a DISCOVER gets an OFFER of the client's own entry if it has one, and otherwise of the
first entry that is free or has expired; it gets no answer exactly if every entry is held by
another client and has not expired.
SOURCE: ipstack/dhcpserver.c:210-239 -/
theorem discover_answer {q : DhcpDatagram} {opts : List Tlv}
    (hpayload : WellFormedPayload q.payload opts dhcpDiscover)
    (halloc : q.answers.alloc = true) (hsend : q.answers.send = errOk) (d : DhcpServer) :
    (dhcpServerProcess d q).2 =
        (((List.finRange 8).find? fun i => (d.lease i).mac = payloadMac q.payload).or
          ((List.finRange 8).find? fun i => Available d.lease (fun i => q.ticks i) i)).map
          (fun yi => ⟨replyPayload d q.payload dhcpOffer yi, ⟨255#8, 255#8, 255#8, 255#8⟩,
            portDhcpClient⟩) ∧
      ((dhcpServerProcess d q).2 = none ↔
        ∀ i, (d.lease i).mac ≠ payloadMac q.payload ∧ (d.lease i).mac ≠ noMac ∧
          leaseExpired (d.lease i) (q.ticks i) = false) := by
  have hswitch : (dhcpSwitch d (payloadMac q.payload) dhcpDiscover
      ((Tlv.first dhcpOptRequestedIp opts).map optionIp) q.ticks).2 =
        (discover (payloadMac q.payload) (fun i => q.ticks i) d.lease).2.map
          fun yi => (dhcpOffer, yi) := rfl
  have hout : (dhcpServerProcess d q).2 =
      (discover (payloadMac q.payload) (fun i => q.ticks i) d.lease).2.map
        (fun yi => ⟨replyPayload d q.payload dhcpOffer yi, ⟨255#8, 255#8, 255#8, 255#8⟩,
          portDhcpClient⟩) := by
    rw [process_wellFormed hpayload]
    simp only [hswitch]
    cases (discover (payloadMac q.payload) (fun i => q.ticks i) d.lease).2 with
    | none => rfl
    | some yi => exact (sendReply_eq d hpayload.min_size _).trans (if_pos ⟨halloc, hsend⟩)
  refine ⟨by rw [hout, discover_found], ?_⟩
  rw [hout, Option.map_eq_none_iff, discover_eq_none_iff]
  simp only [Available, not_or, Bool.not_eq_true]

theorem discover_answer_empty :
    (dhcpServerProcess apServer (plainDatagram [1, 2, 3, 4, 5, 6] discoverOptions 1000)).2 ≠
      none := by
  intro h
  have hheld := (discover_answer (plainDatagram_wellFormed rfl discoverOptions_wellFormed
    ⟨_, rfl, rfl⟩ (by rintro o ⟨⟩)) rfl rfl apServer).2.mp h
  exact (hheld 0).2.1 rfl

/-- CONTRACT: where all the entries have been given to other clients at known times, a DISCOVER gets
no answer exactly until the clock leaves the unit of 65536 milliseconds in which the first of
the leases ends.
SOURCE: ipstack/dhcpserver.c:210-239, 266 -/
theorem full_pool_answer {q : DhcpDatagram} {opts : List Tlv} {d : DhcpServer}
    {client : Fin 8 → Mac} {given : Fin 8 → ℕ}
    (hpayload : WellFormedPayload q.payload opts dhcpDiscover)
    (halloc : q.answers.alloc = true) (hsend : q.answers.send = errOk)
    (hlease : ∀ i, d.lease i = ⟨client i, leaseEnd (BitVec.ofNat 32 (given i))⟩)
    (hother : ∀ i, client i ≠ noMac ∧ client i ≠ payloadMac q.payload)
    (hclock : ∀ i : Fin 8, given i ≤ q.clock i ∧ q.clock i < given i + 2147483648) :
    (dhcpServerProcess d q).2 = none ↔
      ∀ i : Fin 8, q.clock i / 65536 ≤ (given i + leaseTimeMs) / 65536 := by
  rw [(discover_answer hpayload halloc hsend d).2]
  refine forall_congr' fun i => ?_
  have hexpired := leaseExpired_iff (client i) (hclock i).1 (hclock i).2
  rw [← not_lt, ← hexpired, hlease i]
  simp only [hother i, ne_eq, not_false_eq_true, true_and, Bool.not_eq_true]
  rfl

theorem full_pool_answer_second :
    (dhcpServerProcess
      { apServer with lease := fun i => ⟨fun _ => BitVec.ofNat 8 (i.val + 1), leaseEnd 1000#32⟩ }
      (plainDatagram [1, 2, 3, 4, 5, 6] discoverOptions 2000)).2 = none :=
  (full_pool_answer
    (plainDatagram_wellFormed rfl discoverOptions_wellFormed ⟨_, rfl, rfl⟩ (by rintro o ⟨⟩)) rfl
    rfl (fun _ => rfl) (by decide +kernel)
    (fun _ => ⟨show 1000 ≤ 2000 by decide, show 2000 < 1000 + 2147483648 by decide⟩)).mpr
    fun _ => show 2000 / 65536 ≤ (1000 + leaseTimeMs) / 65536 by decide

end PicoDrone.Analysis
