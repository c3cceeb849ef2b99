import PicoDrone.Library.Tlv
import PicoDrone.Model.DhcpServer

/-!
# DHCP messages

The search for an option finds the first one of a well-formed field (`optFind_encode`), so
what the server does with a well-formed datagram does not depend on what the stack held
(`process_wellFormed`). A reply repeats the request but for the operation and the address, and
its options can be read back (`reply_format`).
-/

set_option autoImplicit false

namespace PicoDrone.Analysis

open PicoDrone.Library PicoDrone.Model

/-! ## The search -/

/-- A field of options that ends inside of the part that is searched. -/
structure WellFormedOptions (opts : List Tlv) : Prop where
  codes : ∀ o ∈ opts, o.code ≠ dhcpOptEnd
  lengths : ∀ o ∈ opts, o.value.length < 256
  fits : (Tlv.encode opts).length < 308

/-- INTERNAL: the search from the beginning of some options, by induction on the options.
SOURCE: ipstack/dhcpserver.c:141-149 -/
theorem optFindLoop_encode {opt : ℕ → Byte} {cmd : Byte} {opts : List Tlv} {fuel pos : ℕ}
    (hmem : Holds opt pos (Tlv.encode opts ++ [dhcpOptEnd]))
    (hcodes : ∀ o ∈ opts, o.code ≠ dhcpOptEnd) (hlengths : ∀ o ∈ opts, o.value.length < 256)
    (hfits : pos + (Tlv.encode opts).length < 308) (hfuel : 308 ≤ pos + fuel) :
    optFindLoop opt cmd fuel pos = Tlv.place cmd pos opts := by
  induction opts generalizing fuel pos with
  | nil =>
    have hend : opt pos = dhcpOptEnd := hmem 0 (by simp)
    cases fuel with
    | zero => rfl
    | succ fuel =>
      rw [optFindLoop, if_neg (by rw [hend]; simp)]
      rfl
  | cons o opts ih =>
    rw [Tlv.encode_cons, List.append_assoc, holds_append] at hmem
    rw [Tlv.encode_cons, List.length_append, Tlv.bytes_length] at hfits
    obtain ⟨hcode, hlength, -⟩ := Tlv.holds_bytes hmem.1
    cases fuel with
    | zero => omega
    | succ fuel =>
      have hin : pos < 308 ∧ opt pos ≠ dhcpOptEnd := by
        refine ⟨by omega, ?_⟩
        rw [hcode]
        exact hcodes o List.mem_cons_self
      have hval : (opt (pos + 1)).toNat = o.value.length := by
        rw [hlength, BitVec.toNat_ofNat]
        exact Nat.mod_eq_of_lt (hlengths o List.mem_cons_self)
      rw [optFindLoop, if_pos hin, hcode, hval, Tlv.place]
      split
      · rfl
      · rw [Tlv.bytes_length]
        refine ih ?_ (fun p hp => hcodes p (List.mem_cons_of_mem o hp))
          (fun p hp => hlengths p (List.mem_cons_of_mem o hp)) (by omega) (by omega)
        rw [← Tlv.bytes_length]
        exact hmem.2

/-- CONTRACT: on a well-formed field of options `opt_find` returns the place of the first option
with the code, and nothing if there is none.
SOURCE: ipstack/dhcpserver.c:141-149 -/
theorem optFind_encode {opt : ℕ → Byte} {opts : List Tlv}
    (hmem : Holds opt 0 (Tlv.encode opts ++ [dhcpOptEnd])) (hwf : WellFormedOptions opts)
    (cmd : Byte) :
    optFind opt cmd = Tlv.place cmd 0 opts ∧
      (optFind opt cmd = none ↔ Tlv.first cmd opts = none) ∧
      ∀ p, optFind opt cmd = some p →
        ∃ o, Tlv.first cmd opts = some o ∧ opt p = cmd ∧ Holds opt (p + 2) o.value := by
  have hfind : optFind opt cmd = Tlv.place cmd 0 opts :=
    optFindLoop_encode hmem hwf.codes hwf.lengths (by have := hwf.fits; omega) (by omega)
  refine ⟨hfind, by rw [hfind, Tlv.place_eq_none_iff], fun p hp => ?_⟩
  rw [hfind] at hp
  obtain ⟨o, hfirst, hbytes, -⟩ := Tlv.place_eq_some (holds_append.mp hmem).1 hp
  obtain ⟨hcode, -, hvalue⟩ := Tlv.holds_bytes hbytes
  refine ⟨o, hfirst, ?_, hvalue⟩
  rw [hcode]
  simpa using List.find?_some hfirst

/-! ## Requests -/

/-- The hardware address in a payload. -/
def payloadMac (payload : List Byte) : Mac := msgMac fun i => payload.getD i 0#8

/-- The address in the value of an option. -/
def optionIp (o : Tlv) : Ip4 :=
  ⟨o.value.getD 0 0#8, o.value.getD 1 0#8, o.value.getD 2 0#8, o.value.getD 3 0#8⟩

/-- A payload with well-formed options behind the magic cookie: it says its type, and if it asks
for an address, the option has room for one. -/
structure WellFormedPayload (payload : List Byte) (opts : List Tlv) (type : Byte) : Prop where
  options : WellFormedOptions opts
  placed : ∃ header rest, header.length = optAt ∧
    payload = header ++ (Tlv.encode opts ++ [dhcpOptEnd]) ++ rest
  type : ∃ o, Tlv.first dhcpOptMsgType opts = some o ∧ o.value.head? = some type
  wanted : ∀ o, Tlv.first dhcpOptRequestedIp opts = some o → 4 ≤ o.value.length

theorem msgMac_congr {f g : ℕ → Byte} (h : ∀ i, 28 ≤ i → i < 34 → f i = g i) :
    msgMac f = msgMac g := by
  funext k
  exact h _ (by simp [chaddrAt]) (by simp only [chaddrAt]; omega)

/-- INTERNAL: a byte of the message that neither `op` nor `yiaddr` covers.
SOURCE: ipstack/dhcpserver.c:192-198 -/
theorem dhcpMessage_cell (d : DhcpServer) (q : DhcpDatagram) {i : ℕ} (h0 : 0 < i)
    (hyi : i < 16 ∨ 20 ≤ i) :
    (dhcpMessage d q).cell i = (q.payload.take 548).getD i (q.stack i) := by
  unfold dhcpMessage
  rw [Region.put_cell_of_outside _ (by simp only [yiaddrAt, Ip4.bytes_length]; omega),
    Region.put_cell_of_outside _ (by simp only [List.length_singleton]; omega)]
  simp [Region.put]

/-- INTERNAL: such a byte that the datagram reaches. -/
theorem dhcpMessage_payload (d : DhcpServer) (q : DhcpDatagram) {i : ℕ} (h0 : 0 < i)
    (hyi : i < 16 ∨ 20 ≤ i) (hlen : i < q.payload.length) (h548 : i < 548) :
    (dhcpMessage d q).cell i = q.payload[i] := by
  rw [dhcpMessage_cell d q h0 hyi, List.getD_eq_getElem?_getD, List.getElem?_take, if_pos h548,
    List.getElem?_eq_getElem hlen, Option.getD_some]

theorem WellFormedPayload.min_size {payload : List Byte} {opts : List Tlv} {type : Byte}
    (h : WellFormedPayload payload opts type) : dhcpMinSize ≤ payload.length := by
  obtain ⟨header, rest, hheader, rfl⟩ := h.placed
  obtain ⟨o, hfirst, hvalue⟩ := h.type
  have hmem : o ∈ opts := List.mem_of_find?_eq_some hfirst
  have hone : 1 ≤ o.value.length := by
    cases hcase : o.value with
    | nil => simp [hcase] at hvalue
    | cons b bs => simp
  have hle : o.bytes.length ≤ (Tlv.encode opts).length := by
    have hsub : o.bytes.Sublist (Tlv.encode opts) := by
      rw [Tlv.encode, List.flatMap]
      exact List.sublist_flatten_of_mem (List.mem_map_of_mem hmem)
    exact hsub.length_le
  rw [Tlv.bytes_length] at hle
  simp only [List.length_append, List.length_singleton, hheader, optAt, dhcpMinSize]
  omega

/-- INTERNAL: the options of a well-formed payload are in the message. -/
theorem WellFormedPayload.holds {q : DhcpDatagram} {opts : List Tlv} {type : Byte}
    (h : WellFormedPayload q.payload opts type) (d : DhcpServer) :
    Holds (msgOpt (dhcpMessage d q)) 0 (Tlv.encode opts ++ [dhcpOptEnd]) := by
  intro i hi
  obtain ⟨header, rest, hheader, hpayload⟩ := h.placed
  have hfits := h.options.fits
  have hin : i < (Tlv.encode opts).length + 1 := by simpa using hi
  have hlen : optAt + i < q.payload.length := by
    rw [hpayload, List.length_append, List.length_append, hheader]
    omega
  rw [Nat.zero_add, msgOpt, dhcpMessage_payload d q (by simp only [optAt]; omega)
    (by simp only [optAt]; omega) hlen (by simp only [optAt]; omega)]
  simp only [hpayload]
  rw [List.getElem_append_left (by rw [List.length_append, hheader]; omega),
    List.getElem_append_right (by omega)]
  simp only [hheader, Nat.add_sub_cancel_left]

theorem dhcpMessage_mac (d : DhcpServer) {q : DhcpDatagram}
    (hsize : dhcpMinSize ≤ q.payload.length) :
    msgMac (dhcpMessage d q).cell = payloadMac q.payload := by
  simp only [dhcpMinSize] at hsize
  apply msgMac_congr
  intro i hlo hhi
  rw [dhcpMessage_payload d q (by omega) (by omega) (by omega) (by omega),
    List.getD_eq_getElem?_getD, List.getElem?_eq_getElem (by omega), Option.getD_some]

/-- INTERNAL: what the server decides about a well-formed datagram depends on the hardware
address, the type and the wanted address in it, and on nothing that the stack held.
SOURCE: ipstack/dhcpserver.c:200-277 -/
theorem dhcpDecide_wellFormed {q : DhcpDatagram} {opts : List Tlv} {type : Byte}
    (h : WellFormedPayload q.payload opts type) (d : DhcpServer) (ticks : ℕ → Word) :
    dhcpDecide d (dhcpMessage d q) ticks =
      dhcpSwitch d (payloadMac q.payload) type
        ((Tlv.first dhcpOptRequestedIp opts).map optionIp) ticks := by
  have hmac := dhcpMessage_mac d h.min_size
  have hfind := optFind_encode (h.holds d) h.options
  have hwanted : ((optFind (msgOpt (dhcpMessage d q)) dhcpOptRequestedIp).map fun o =>
      Ip4.mk (msgOpt (dhcpMessage d q) (o + 2)) (msgOpt (dhcpMessage d q) (o + 3))
        (msgOpt (dhcpMessage d q) (o + 4)) (msgOpt (dhcpMessage d q) (o + 5))) =
      (Tlv.first dhcpOptRequestedIp opts).map optionIp := by
    obtain ⟨-, hnone, hsome⟩ := hfind dhcpOptRequestedIp
    cases hp : optFind (msgOpt (dhcpMessage d q)) dhcpOptRequestedIp with
    | none => rw [hnone.mp hp]; rfl
    | some p =>
      obtain ⟨o, hfirst, -, hvalue⟩ := hsome p hp
      have hfour := h.wanted o hfirst
      have hbyte : ∀ k (hk : k < 4), msgOpt (dhcpMessage d q) (p + (2 + k)) =
          o.value.getD k 0#8 := by
        intro k hk
        rw [← Nat.add_assoc, hvalue k (by omega), List.getD_eq_getElem?_getD,
          List.getElem?_eq_getElem (by omega), Option.getD_some]
      rw [hfirst, Option.map_some, Option.map_some]
      simp only [optionIp, ← hbyte 0 (by omega), ← hbyte 1 (by omega), ← hbyte 2 (by omega),
        ← hbyte 3 (by omega)]
  obtain ⟨-, hnone, hsome⟩ := hfind dhcpOptMsgType
  obtain ⟨o, hfirst, hhead⟩ := h.type
  unfold dhcpDecide
  cases hp : optFind (msgOpt (dhcpMessage d q)) dhcpOptMsgType with
  | none =>
    rw [hnone.mp hp] at hfirst
    cases hfirst
  | some p =>
    obtain ⟨o', hfirst', -, hvalue⟩ := hsome p hp
    obtain rfl : o = o' := Option.some.inj (hfirst.symm.trans hfirst')
    have htype : msgOpt (dhcpMessage d q) (p + 2) = type := by
      cases hcase : o.value with
      | nil => simp [hcase] at hhead
      | cons b bs =>
        have hcell := hvalue 0 (by simp [hcase])
        simp only [hcase, List.head?_cons, Option.some.injEq] at hhead
        simpa [hcase, hhead] using hcell
    simp only [hwanted, hmac, hp, htype]

/-! ## Replies -/

/-- The options of a reply. -/
def replyOptions (d : DhcpServer) (type : Byte) : List Tlv :=
  [⟨dhcpOptMsgType, [type]⟩, ⟨dhcpOptServerId, d.ip.bytes⟩, ⟨dhcpOptSubnetMask, d.nm.bytes⟩,
    ⟨dhcpOptRouter, d.ip.bytes⟩, ⟨dhcpOptDns, d.ip.bytes⟩,
    ⟨dhcpOptIpLeaseTime, [0x00#8, 0x01#8, 0x51#8, 0x80#8]⟩]

theorem replyOptions_wellFormed (d : DhcpServer) (type : Byte) :
    WellFormedOptions (replyOptions d type) where
  codes := by simp [replyOptions, dhcpOptMsgType, dhcpOptServerId, dhcpOptSubnetMask,
    dhcpOptRouter, dhcpOptDns, dhcpOptIpLeaseTime, dhcpOptEnd]
  lengths := by simp [replyOptions]
  fits := by simp [replyOptions]

/-- INTERNAL: the writers of the options write one block.
SOURCE: ipstack/dhcpserver.c:236-237, 267-268, 279-284 -/
theorem dhcpReply_eq (d : DhcpServer) (type : Byte) (yi : Fin 8) (msg : DhcpMsg) :
    dhcpReply d type yi msg =
      ((msg.put (yiaddrAt + 3) [dhcpsBaseIp + BitVec.ofNat 8 yi]).put optAt
        (Tlv.encode (replyOptions d type) ++ [dhcpOptEnd]), 274) := by
  simp only [dhcpReply, optWriteU8, optWriteN, optWriteU32, Ip4.bytes_length]
  generalize msg.put (yiaddrAt + 3) [dhcpsBaseIp + BitVec.ofNat 8 yi] = m
  repeat rw [Region.put_put _ (by simp)]
  simp [replyOptions, Tlv.encode, Tlv.bytes, optAt, defaultLeaseTimeS]

/-- The bytes of a reply to a request: the request, but for the operation, the address and the
options. -/
def replyPayload (d : DhcpServer) (request : List Byte) (type : Byte) (yi : Fin 8) : List Byte :=
  dhcpOffer :: (request.drop 1).take 15 ++
    [d.ip.a, d.ip.b, d.ip.c, dhcpsBaseIp + BitVec.ofNat 8 yi] ++ (request.drop 20).take 220 ++
    (Tlv.encode (replyOptions d type) ++ [dhcpOptEnd])

/-- INTERNAL: the reply in the buffer.
SOURCE: ipstack/dhcpserver.c:192-198, 236-237, 279-284 -/
theorem reply_slice {d : DhcpServer} {q : DhcpDatagram} {type : Byte} {yi : Fin 8}
    (hsize : dhcpMinSize ≤ q.payload.length) :
    (dhcpReply d type yi (dhcpMessage d q)).1.slice 0 274 =
      replyPayload d q.payload type yi := by
  simp only [dhcpMinSize] at hsize
  rw [dhcpReply_eq]
  generalize hopts : Tlv.encode (replyOptions d type) ++ [dhcpOptEnd] = opts
  have hblock : opts.length = 34 := by simp [← hopts, replyOptions]
  have hkeep : ∀ i, i < 240 → i ≠ 19 →
      (((dhcpMessage d q).put (yiaddrAt + 3) [dhcpsBaseIp + BitVec.ofNat 8 yi]).put optAt
        opts).cell i = (dhcpMessage d q).cell i := by
    intro i hi hne
    rw [Region.put_cell_of_outside _ (by simp only [optAt]; omega),
      Region.put_cell_of_outside _ (by simp only [yiaddrAt, List.length_singleton]; omega)]
  have hecho : ∀ pos len, 0 < pos → pos + len ≤ 16 ∨ 20 ≤ pos → pos + len ≤ 240 →
      (((dhcpMessage d q).put (yiaddrAt + 3) [dhcpsBaseIp + BitVec.ofNat 8 yi]).put optAt
        opts).slice pos len = (q.payload.drop pos).take len := by
    intro pos len h0 hyi hle
    have hlen : ((q.payload.drop pos).take len).length = len := by
      rw [List.length_take, List.length_drop]
      omega
    refine (Region.slice_eq_iff hlen.symm).mpr fun i hi => ?_
    rw [hkeep (pos + i) (by omega) (by omega),
      dhcpMessage_payload d q (by omega) (by omega) (by omega) (by omega), List.getElem_take,
      List.getElem_drop]
  have hop : (((dhcpMessage d q).put (yiaddrAt + 3) [dhcpsBaseIp + BitVec.ofNat 8 yi]).put optAt
      opts).slice 0 1 = [dhcpOffer] := by
    refine (Region.slice_eq_iff (show 1 = [dhcpOffer].length from rfl)).mpr fun i hi => ?_
    obtain rfl : i = 0 := by simpa using hi
    rw [hkeep _ (by omega) (by omega)]
    unfold dhcpMessage
    rw [Region.put_cell_of_outside _ (by simp [yiaddrAt])]
    rfl
  have haddress : (((dhcpMessage d q).put (yiaddrAt + 3)
      [dhcpsBaseIp + BitVec.ofNat 8 yi]).put optAt opts).slice 16 4 =
      [d.ip.a, d.ip.b, d.ip.c, dhcpsBaseIp + BitVec.ofNat 8 yi] := by
    -- the last byte of the address is written twice
    have hput : (dhcpMessage d q).put (yiaddrAt + 3) [dhcpsBaseIp + BitVec.ofNat 8 yi] =
        (((Region.mk q.stack).put 0 (q.payload.take 548)).put 0 [dhcpOffer]).put yiaddrAt
          ([d.ip.a, d.ip.b, d.ip.c] ++ [dhcpsBaseIp + BitVec.ofNat 8 yi]) := by
      unfold dhcpMessage
      rw [show d.ip.bytes = [d.ip.a, d.ip.b, d.ip.c] ++ [d.ip.d] from rfl,
        ← Region.put_put _
          (show yiaddrAt + 3 = yiaddrAt + [d.ip.a, d.ip.b, d.ip.c].length from rfl),
        Region.put_cover _ _ (by simp)]
      exact Region.put_put _ rfl
    rw [hput]
    refine (Region.slice_eq_iff
      (show 4 = [d.ip.a, d.ip.b, d.ip.c, dhcpsBaseIp + BitVec.ofNat 8 yi].length from rfl)).mpr ?_
    exact Region.holds_put (Region.put_holds _ _ _) (by simp [optAt])
  have hoptions : (((dhcpMessage d q).put (yiaddrAt + 3)
      [dhcpsBaseIp + BitVec.ofNat 8 yi]).put optAt opts).slice optAt 34 = opts :=
    Region.slice_put _ hblock.symm
  rw [show 274 = 1 + (15 + (4 + (220 + 34))) from rfl, Region.slice_add, Region.slice_add,
    Region.slice_add, Region.slice_add]
  simp only [Nat.reduceAdd]
  rw [hop, hecho 1 15 (by omega) (by omega) (by omega), haddress,
    hecho 20 220 (by omega) (by omega) (by omega)]
  rw [show (240 : ℕ) = optAt from rfl, hoptions, replyPayload, hopts]
  simp

/-- The sending of a reply, to everybody. -/
def sendReply (d : DhcpServer) (q : DhcpDatagram) (r : Byte × Fin 8) : Option UdpDatagram :=
  (socketSendto q.answers (replyPayload d q.payload r.1 r.2) ⟨255#8, 255#8, 255#8, 255#8⟩
    portDhcpClient).2

/-- INTERNAL: handling a datagram is deciding, and sending the reply.
SOURCE: ipstack/dhcpserver.c:178-289 -/
theorem process_eq (d : DhcpServer) {q : DhcpDatagram} (hsize : dhcpMinSize ≤ q.payload.length) :
    dhcpServerProcess d q =
      ({ d with lease := (dhcpDecide d (dhcpMessage d q) q.ticks).1 },
        (dhcpDecide d (dhcpMessage d q) q.ticks).2.bind (sendReply d q)) := by
  have hmin : ¬ min q.payload.length 548 < dhcpMinSize := by
    simp only [dhcpMinSize] at hsize ⊢
    omega
  have hsend : ∀ r : Byte × Fin 8,
      dhcpSend q.answers (dhcpReply d r.1 r.2 (dhcpMessage d q)) = sendReply d q r := by
    intro r
    have hlen : (dhcpReply d r.1 r.2 (dhcpMessage d q)).2 = 274 := by rw [dhcpReply_eq]
    rw [dhcpSend, sendReply, hlen, reply_slice hsize]
  unfold dhcpServerProcess
  rw [if_neg (Nat.not_lt.mpr hsize), if_neg hmin]
  simp only [hsend]

theorem process_short (d : DhcpServer) {q : DhcpDatagram} (hsize : q.payload.length < dhcpMinSize) :
    dhcpServerProcess d q = (d, none) := by
  rw [dhcpServerProcess, if_pos hsize]

theorem replyPayload_length (d : DhcpServer) {request : List Byte}
    (hsize : dhcpMinSize ≤ request.length) (type : Byte) (yi : Fin 8) :
    (replyPayload d request type yi).length = 274 := by
  simp only [dhcpMinSize] at hsize
  simp only [replyPayload, replyOptions, Tlv.encode_cons, Tlv.encode_nil, List.length_append,
    List.length_cons, List.length_take, List.length_drop, List.length_nil, Tlv.bytes_length,
    Ip4.bytes_length]
  omega

/-- INTERNAL: what is sent is the whole reply, and it is sent if lwIP takes it. -/
theorem sendReply_eq (d : DhcpServer) {q : DhcpDatagram} (hsize : dhcpMinSize ≤ q.payload.length)
    (r : Byte × Fin 8) :
    sendReply d q r =
      if q.answers.alloc = true ∧ q.answers.send = errOk then
        some ⟨replyPayload d q.payload r.1 r.2, ⟨255#8, 255#8, 255#8, 255#8⟩, portDhcpClient⟩
      else none := by
  apply socketSendto_of_le
  rw [replyPayload_length d hsize]
  decide

/-- INTERNAL: a datagram that has been sent is the reply to what was decided.
SOURCE: ipstack/dhcpserver.c:178-289 -/
theorem process_sends {d : DhcpServer} {q : DhcpDatagram} {out : UdpDatagram}
    (h : (dhcpServerProcess d q).2 = some out) :
    ∃ type yi, (dhcpDecide d (dhcpMessage d q) q.ticks).2 = some (type, yi) ∧
      dhcpMinSize ≤ q.payload.length ∧
      out = ⟨replyPayload d q.payload type yi, ⟨255#8, 255#8, 255#8, 255#8⟩, portDhcpClient⟩ := by
  by_cases hsize : dhcpMinSize ≤ q.payload.length
  · rw [process_eq d hsize] at h
    obtain ⟨⟨type, yi⟩, hdecide, hsend⟩ := Option.bind_eq_some_iff.mp h
    rw [sendReply_eq d hsize, Option.ite_none_right_eq_some] at hsend
    exact ⟨type, yi, hdecide, hsize, (Option.some.inj hsend.2).symm⟩
  · rw [process_short d (Nat.lt_of_not_le hsize)] at h
    cases h

/-- CONTRACT: a well-formed datagram is answered by its hardware address, its type and the address
it wants: nothing that the stack held has an influence, on the leases or on a byte of the
reply.
SOURCE: ipstack/dhcpserver.c:178-289 -/
theorem process_wellFormed {q : DhcpDatagram} {opts : List Tlv} {type : Byte}
    (h : WellFormedPayload q.payload opts type) (d : DhcpServer) :
    dhcpServerProcess d q =
      ({ d with lease := (dhcpSwitch d (payloadMac q.payload) type
          ((Tlv.first dhcpOptRequestedIp opts).map optionIp) q.ticks).1 },
        (dhcpSwitch d (payloadMac q.payload) type
          ((Tlv.first dhcpOptRequestedIp opts).map optionIp) q.ticks).2.bind
          (sendReply d q)) := by
  rw [process_eq d h.min_size, dhcpDecide_wellFormed h]

/-- INTERNAL: the number of the lease in the last byte of an address. -/
theorem lease_number {last : Byte} (h : (last - dhcpsBaseIp).toNat < 8) :
    last = dhcpsBaseIp + BitVec.ofNat 8 (⟨(last - dhcpsBaseIp).toNat, h⟩ : Fin 8) := by
  simp only [BitVec.ofNat_toNat, BitVec.setWidth_eq]
  rw [BitVec.add_comm, BitVec.sub_add_cancel]

theorem lease_number_eq (yi : Fin 8) :
    ((dhcpsBaseIp + BitVec.ofNat 8 yi) - dhcpsBaseIp).toNat = yi := by
  revert yi
  decide

/-- INTERNAL: a DISCOVER gets an OFFER if there is a lease, a REQUEST for a lease that may be
given gets an ACK, and anything else changes nothing and gets no answer.
SOURCE: ipstack/dhcpserver.c:209-277 -/
theorem dhcpSwitch_cases (d : DhcpServer) (chaddr : Mac) (msgtype : Byte) (wanted : Option Ip4)
    (ticks : ℕ → Word) :
    (msgtype = dhcpDiscover ∧ dhcpSwitch d chaddr msgtype wanted ticks =
      ((discover chaddr (fun i => ticks i) d.lease).1,
        (discover chaddr (fun i => ticks i) d.lease).2.map fun yi => (dhcpOffer, yi))) ∨
    (∃ (yi : Fin 8) (lease : Fin 8 → DhcpLease), msgtype = dhcpRequest ∧
      wanted = some ⟨d.ip.a, d.ip.b, d.ip.c, dhcpsBaseIp + BitVec.ofNat 8 yi⟩ ∧
      claimLease chaddr (ticks 0) d.lease yi = some lease ∧
      dhcpSwitch d chaddr msgtype wanted ticks = (lease, some (dhcpAck, yi))) ∨
    (msgtype ≠ dhcpDiscover ∧ dhcpSwitch d chaddr msgtype wanted ticks = (d.lease, none)) := by
  generalize hr : dhcpSwitch d chaddr msgtype wanted ticks = r
  unfold dhcpSwitch at hr
  split at hr
  · rename_i hdiscover
    exact Or.inl ⟨hdiscover, hr.symm⟩
  rename_i hdiscover
  split at hr
  case isFalse => exact Or.inr (Or.inr ⟨hdiscover, hr.symm⟩)
  rename_i hrequest
  cases wanted with
  | none => exact Or.inr (Or.inr ⟨hdiscover, hr.symm⟩)
  | some o =>
    simp only at hr
    split at hr
    · exact Or.inr (Or.inr ⟨hdiscover, hr.symm⟩)
    rename_i hnet
    obtain ⟨ha, hb, hc⟩ := not_not.mp hnet
    split at hr
    case isFalse => exact Or.inr (Or.inr ⟨hdiscover, hr.symm⟩)
    rename_i hpool
    split at hr
    · exact Or.inr (Or.inr ⟨hdiscover, hr.symm⟩)
    · rename_i lease hclaim
      refine Or.inr (Or.inl ⟨_, lease, hrequest, ?_, hclaim, hr.symm⟩)
      rw [← lease_number hpool, ← ha, ← hb, ← hc]

/-- INTERNAL: a REQUEST for a lease of the server.
SOURCE: ipstack/dhcpserver.c:241-273 -/
theorem dhcpSwitch_request (d : DhcpServer) (chaddr : Mac) (yi : Fin 8) (ticks : ℕ → Word) :
    dhcpSwitch d chaddr dhcpRequest
        (some ⟨d.ip.a, d.ip.b, d.ip.c, dhcpsBaseIp + BitVec.ofNat 8 yi⟩) ticks =
      match claimLease chaddr (ticks 0) d.lease yi with
      | none => (d.lease, none)
      | some lease => (lease, some (dhcpAck, yi)) := by
  have hnumber := lease_number_eq yi
  have hyi : (⟨((dhcpsBaseIp + BitVec.ofNat 8 yi) - dhcpsBaseIp).toNat,
      by rw [hnumber]; exact yi.isLt⟩ : Fin 8) = yi := Fin.ext hnumber
  unfold dhcpSwitch
  rw [if_neg (by decide), if_pos rfl]
  simp only [and_self, not_true_eq_false, if_false]
  rw [dif_pos (by rw [hnumber]; exact yi.isLt)]
  cases hclaim : claimLease chaddr (ticks 0) d.lease yi with
  | none => simp only [hyi, hclaim]
  | some lease => simp only [hyi, hclaim]

/-- INTERNAL: what is done with any message.
SOURCE: ipstack/dhcpserver.c:200-277 -/
theorem dhcpDecide_cases (d : DhcpServer) (msg : DhcpMsg) (ticks : ℕ → Word) :
    (∃ msgtype wanted, dhcpDecide d msg ticks =
      dhcpSwitch d (msgMac msg.cell) msgtype wanted ticks) ∨
    dhcpDecide d msg ticks = (d.lease, none) := by
  unfold dhcpDecide
  simp only
  split
  · exact Or.inr rfl
  · exact Or.inl ⟨_, _, rfl⟩

theorem dhcpSwitch_type {d : DhcpServer} {chaddr : Mac} {msgtype : Byte} {wanted : Option Ip4}
    {ticks : ℕ → Word} {type : Byte} {yi : Fin 8}
    (h : (dhcpSwitch d chaddr msgtype wanted ticks).2 = some (type, yi)) :
    type = dhcpOffer ∨ type = dhcpAck := by
  obtain ⟨-, hswitch⟩ | ⟨yi', lease, -, -, -, hswitch⟩ | ⟨-, hswitch⟩ :=
    dhcpSwitch_cases d chaddr msgtype wanted ticks
  · rw [hswitch, Option.map_eq_some_iff] at h
    obtain ⟨yi', -, hpair⟩ := h
    exact Or.inl (Prod.ext_iff.mp hpair).1.symm
  · rw [hswitch] at h
    exact Or.inr (Prod.ext_iff.mp (Option.some.inj h)).1.symm
  · rw [hswitch] at h
    cases h

/-- The server of the access point at its start.
SOURCE: Network/NetworkClass.cpp:43-45 -/
def apServer : DhcpServer := dhcpServerInit ⟨192#8, 168#8, 4#8, 1#8⟩ ⟨255#8, 255#8, 255#8, 0#8⟩

/-- A datagram of a client with nothing but options. -/
def plainDatagram (mac : List Byte) (opts : List Tlv) (t : ℕ) : DhcpDatagram where
  payload := List.replicate 28 0#8 ++ mac ++ List.replicate 206 0#8 ++
    (Tlv.encode opts ++ [dhcpOptEnd])
  stack _ := 0#8
  clock _ := t
  answers := ⟨true, errOk⟩

def discoverOptions : List Tlv := [⟨dhcpOptMsgType, [dhcpDiscover]⟩]

def requestOptions (last : Byte) : List Tlv :=
  [⟨dhcpOptMsgType, [dhcpRequest]⟩, ⟨dhcpOptRequestedIp, [192#8, 168#8, 4#8, last]⟩]

theorem discoverOptions_wellFormed : WellFormedOptions discoverOptions := by
  constructor <;> decide

theorem requestOptions_wellFormed (last : Byte) : WellFormedOptions (requestOptions last) where
  codes := by simp [requestOptions, dhcpOptMsgType, dhcpOptRequestedIp, dhcpOptEnd]
  lengths := by simp [requestOptions]
  fits := by simp [requestOptions]

theorem plainDatagram_wellFormed {mac : List Byte} {opts : List Tlv} {t : ℕ} {type : Byte}
    (hmac : mac.length = 6) (hopts : WellFormedOptions opts)
    (htype : ∃ o, Tlv.first dhcpOptMsgType opts = some o ∧ o.value.head? = some type)
    (hwanted : ∀ o, Tlv.first dhcpOptRequestedIp opts = some o → 4 ≤ o.value.length) :
    WellFormedPayload (plainDatagram mac opts t).payload opts type where
  options := hopts
  placed := ⟨List.replicate 28 0#8 ++ mac ++ List.replicate 206 0#8, [],
    by rw [List.length_append, List.length_append, List.length_replicate, hmac,
      List.length_replicate, optAt], (List.append_nil _).symm⟩
  type := htype
  wanted := hwanted

theorem process_wellFormed_discover :
    (dhcpServerProcess apServer (plainDatagram [1, 2, 3, 4, 5, 6] discoverOptions 1000)).2 =
      sendReply apServer (plainDatagram [1, 2, 3, 4, 5, 6] discoverOptions 1000)
        (dhcpOffer, 0) := by
  rw [process_wellFormed (plainDatagram_wellFormed rfl discoverOptions_wellFormed
    ⟨_, rfl, rfl⟩ (by rintro o ⟨⟩))]
  have hswitch : (dhcpSwitch apServer
      (payloadMac (plainDatagram [1, 2, 3, 4, 5, 6] discoverOptions 1000).payload) dhcpDiscover
      ((Tlv.first dhcpOptRequestedIp discoverOptions).map optionIp)
      (plainDatagram [1, 2, 3, 4, 5, 6] discoverOptions 1000).ticks).2 =
        some (dhcpOffer, 0) := by decide +kernel
  simp only [hswitch]
  rfl

/-! ## Reading a reply -/

/-- The type that the first option of a reply gives. -/
def replyType (out : UdpDatagram) : Byte := out.payload.getD (optAt + 2) 0#8

/-- The address in a reply. -/
def replyIp (out : UdpDatagram) : Ip4 :=
  ⟨out.payload.getD 16 0#8, out.payload.getD 17 0#8, out.payload.getD 18 0#8,
    out.payload.getD 19 0#8⟩

/-- The client that a reply is for. -/
def replyMac (out : UdpDatagram) : Mac := payloadMac out.payload

/-- The address of a lease. -/
def leaseIp (d : DhcpServer) (yi : Fin 8) : Ip4 :=
  ⟨d.ip.a, d.ip.b, d.ip.c, dhcpsBaseIp + BitVec.ofNat 8 yi⟩

theorem leaseIp_injective (d : DhcpServer) : Function.Injective (leaseIp d) := by
  intro i j h
  have hlast : dhcpsBaseIp + BitVec.ofNat 8 i = dhcpsBaseIp + BitVec.ofNat 8 j := congrArg Ip4.d h
  have hi := lease_number_eq i
  rw [hlast, lease_number_eq j] at hi
  exact Fin.ext hi.symm

/-- INTERNAL: where the parts of a reply are. -/
theorem replyPayload_options (d : DhcpServer) {request : List Byte}
    (hsize : dhcpMinSize ≤ request.length) (type : Byte) (yi : Fin 8) :
    Holds (fun i => (replyPayload d request type yi).getD (optAt + i) 0#8) 0
      (Tlv.encode (replyOptions d type) ++ [dhcpOptEnd]) := by
  simp only [dhcpMinSize] at hsize
  have hhead : (dhcpOffer :: (request.drop 1).take 15 ++
      [d.ip.a, d.ip.b, d.ip.c, dhcpsBaseIp + BitVec.ofNat 8 yi] ++
      (request.drop 20).take 220).length = optAt := by
    simp only [List.length_append, List.length_cons, List.length_take, List.length_drop,
      List.length_nil, optAt]
    omega
  intro i hi
  simp only [Nat.zero_add]
  rw [replyPayload, List.getD_eq_getElem?_getD,
    List.getElem?_append_right (by rw [hhead]; omega), hhead, Nat.add_sub_cancel_left,
    List.getElem?_eq_getElem hi, Option.getD_some]

theorem replyPayload_type (d : DhcpServer) {request : List Byte}
    (hsize : dhcpMinSize ≤ request.length) (type : Byte) (yi : Fin 8) :
    (replyPayload d request type yi).getD (optAt + 2) 0#8 = type := by
  have h := replyPayload_options d hsize type yi 2 (by simp [replyOptions])
  simpa [replyOptions, Tlv.encode, Tlv.bytes] using h

theorem replyPayload_ip (d : DhcpServer) {request : List Byte}
    (hsize : dhcpMinSize ≤ request.length) (type : Byte) (yi : Fin 8) (dest : Ip4) (port : ℕ) :
    replyIp ⟨replyPayload d request type yi, dest, port⟩ = leaseIp d yi := by
  simp only [dhcpMinSize] at hsize
  have hhead : (dhcpOffer :: (request.drop 1).take 15).length = 16 := by
    simp only [List.length_cons, List.length_take, List.length_drop]
    omega
  have hbyte : ∀ k, k < 4 → (replyPayload d request type yi).getD (16 + k) 0#8 =
      (leaseIp d yi).bytes.getD k 0#8 := by
    intro k hk
    rw [replyPayload, List.append_assoc, List.append_assoc, List.getD_eq_getElem?_getD,
      List.getElem?_append_right (by rw [hhead]; omega), hhead, Nat.add_sub_cancel_left,
      List.getElem?_append_left (by simpa using hk)]
    rfl
  simp only [replyIp]
  rw [hbyte 0 (by omega), hbyte 1 (by omega), hbyte 2 (by omega), hbyte 3 (by omega)]
  rfl

theorem replyPayload_mac (d : DhcpServer) {request : List Byte}
    (hsize : dhcpMinSize ≤ request.length) (type : Byte) (yi : Fin 8) :
    payloadMac (replyPayload d request type yi) = payloadMac request := by
  simp only [dhcpMinSize] at hsize
  apply msgMac_congr
  intro i hlo hhi
  have hhead : (dhcpOffer :: (request.drop 1).take 15 ++
      [d.ip.a, d.ip.b, d.ip.c, dhcpsBaseIp + BitVec.ofNat 8 yi]).length = 20 := by
    simp only [List.length_append, List.length_cons, List.length_take, List.length_drop,
      List.length_nil]
    omega
  rw [replyPayload, List.append_assoc, List.getD_eq_getElem?_getD, List.getD_eq_getElem?_getD,
    List.getElem?_append_right (by rw [hhead]; omega), hhead,
    List.getElem?_append_left (by rw [List.length_take, List.length_drop]; omega),
    List.getElem?_take, if_pos (by omega), List.getElem?_drop]
  congr 2
  omega

/-- CONTRACT: every datagram that the server sends is a broadcast of 274 bytes that repeats the
request but for the operation and the address, which is one of the eight of its network. The
search of the server itself finds every option of the reply, with its value.
SOURCE: ipstack/dhcpserver.c:178-289 -/
theorem reply_format {d : DhcpServer} {q : DhcpDatagram} {out : UdpDatagram}
    (h : (dhcpServerProcess d q).2 = some out) :
    ∃ type yi, (type = dhcpOffer ∨ type = dhcpAck) ∧
      out = ⟨replyPayload d q.payload type yi, ⟨255#8, 255#8, 255#8, 255#8⟩, portDhcpClient⟩ ∧
      out.payload.length = 274 ∧
      ∀ o ∈ replyOptions d type, ∃ p,
        optFind (fun i => out.payload.getD (optAt + i) 0#8) o.code = some p ∧
          Holds (fun i => out.payload.getD (optAt + i) 0#8) p o.bytes := by
  obtain ⟨type, yi, hdecide, hsize, rfl⟩ := process_sends h
  have htype : type = dhcpOffer ∨ type = dhcpAck := by
    obtain ⟨msgtype, wanted, hswitch⟩ | hnone := dhcpDecide_cases d (dhcpMessage d q) q.ticks
    · exact dhcpSwitch_type (hswitch ▸ hdecide)
    · rw [hnone] at hdecide
      cases hdecide
  have hlen := replyPayload_length d hsize type yi
  refine ⟨type, yi, htype, rfl, hlen, fun o ho => ?_⟩
  have hmem := replyPayload_options d hsize type yi
  obtain ⟨hfind, -, -⟩ := optFind_encode hmem (replyOptions_wellFormed d type) o.code
  have hfirst : Tlv.first o.code (replyOptions d type) = some o := by
    simp only [replyOptions, List.mem_cons, List.not_mem_nil, or_false] at ho
    obtain rfl | rfl | rfl | rfl | rfl | rfl := ho <;> rfl
  have hsome : (Tlv.place o.code 0 (replyOptions d type)).isSome :=
    Tlv.place_isSome_iff.mpr (by rw [hfirst]; rfl)
  obtain ⟨p, hp⟩ := Option.isSome_iff_exists.mp hsome
  obtain ⟨o', hfirst', hbytes, -⟩ := Tlv.place_eq_some (holds_append.mp hmem).1 hp
  obtain rfl : o = o' := Option.some.inj (hfirst.symm.trans hfirst')
  exact ⟨p, hfind.trans hp, hbytes⟩

theorem reply_format_offer : ∃ out,
    (dhcpServerProcess apServer (plainDatagram [1, 2, 3, 4, 5, 6] discoverOptions 1000)).2 =
      some out ∧ out.payload.length = 274 := by
  have hsome : (dhcpServerProcess apServer
      (plainDatagram [1, 2, 3, 4, 5, 6] discoverOptions 1000)).2.isSome = true := by
    decide +kernel
  obtain ⟨out, hout⟩ := Option.isSome_iff_exists.mp hsome
  obtain ⟨-, -, -, -, hlen, -⟩ := reply_format hout
  exact ⟨out, hout, hlen⟩

end PicoDrone.Analysis
