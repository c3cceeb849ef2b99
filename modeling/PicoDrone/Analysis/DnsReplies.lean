import PicoDrone.Library.DomainName
import PicoDrone.Model.DnsServer

/-!
# What the DNS server sends

Whatever the datagram, the server stays inside of its buffer (`dns_inside`). A query for a name is
answered with that name and the address of the server, and a resolver reads both in the
reply (`query_resolved`). Where the datagram ends inside of the question, the reply shows
what the stack held (`reply_discloses_iff`).
-/

set_option autoImplicit false

namespace PicoDrone.Analysis

open PicoDrone.Library PicoDrone.Model

/-- The message on the stack.
SOURCE: ipstack/dnsserver.c:107-110 -/
def dnsMessage (q : DnsDatagram) : DnsMsg :=
  (Region.mk q.stack : DnsMsg).put 0 (q.payload.take maxDnsMsgSize)

/-- `msg_len`. -/
def dnsMsgLen (q : DnsDatagram) : ℕ := min q.payload.length maxDnsMsgSize

theorem dnsMessage_received {q : DnsDatagram} {i : ℕ} (h : i < dnsMsgLen q) :
    (dnsMessage q).cell i = q.payload.getD i 0#8 := by
  simp only [dnsMsgLen, maxDnsMsgSize] at h
  have hi : i < q.payload.length := by omega
  simp [dnsMessage, Region.put, maxDnsMsgSize, hi, show i < 300 by omega]

theorem dnsMessage_stack {q : DnsDatagram} {i : ℕ} (h : dnsMsgLen q ≤ i) :
    (dnsMessage q).cell i = q.stack i := by
  unfold dnsMsgLen at h
  have hlen : (q.payload.take maxDnsMsgSize).length ≤ i := by
    rw [List.length_take]
    omega
  simp only [dnsMessage, Region.put, Nat.zero_le, if_true, Nat.sub_zero]
  rw [List.getD_eq_getElem?_getD, List.getElem?_eq_none hlen, Option.getD_none]

/-- The checks of the header.
SOURCE: ipstack/dnsserver.c:111-147 -/
def HeaderAccepted (q : DnsDatagram) : Prop :=
  dnsHeaderSize ≤ dnsMsgLen q ∧
    ((dnsMessage q).cell 2 ++ (dnsMessage q).cell 3) >>> 15 &&& 0x1#16 = 0#16 ∧
    ((dnsMessage q).cell 2 ++ (dnsMessage q).cell 3) >>> 11 &&& 0xf#16 = 0#16 ∧
    1#16 ≤ (dnsMessage q).cell 4 ++ (dnsMessage q).cell 5

instance (q : DnsDatagram) : Decidable (HeaderAccepted q) := inferInstanceAs (Decidable (_ ∧ _))

/-- Where the name of the question ends, if the server answers.
SOURCE: ipstack/dnsserver.c:111-177 -/
def questionEnd (q : DnsDatagram) : Option ℕ :=
  if HeaderAccepted q then
    match questionLoop (dnsMessage q) (dnsMsgLen q) maxDnsMsgSize dnsHeaderSize with
    | some (some e) => if e - dnsHeaderSize > 255 then none else some e
    | _ => none
  else none

/-- The reply to a question whose name ends at `e`: the identification, the other fields of the
header, the question as it is in the buffer, and the answer. -/
def dnsReply (d : DnsServer) (q : DnsDatagram) (e : ℕ) : List Byte :=
  q.payload.take 2 ++ dnsReplyFields ++
    (dnsMessage q).slice dnsHeaderSize (e + 4 - dnsHeaderSize) ++ dnsAnswer d

/-- A query for a name, with what comes behind the question. -/
def queryBytes (id flags count : BitVec 16) (counts : List Byte) (name : List (List Byte))
    (type class' : BitVec 16) (rest : List Byte) : List Byte :=
  htons id ++ htons flags ++ htons count ++ counts ++ nameBytes name ++ htons type ++
    htons class' ++ rest

/-- The server of the access point, a query for a name of one label, and one that ends in front of
the question. -/
def apDns : DnsServer := ⟨⟨192#8, 168#8, 4#8, 1#8⟩⟩

def plainQuery : DnsDatagram where
  payload := queryBytes 7#16 0x100#16 1#16 (List.replicate 6 0#8) [[97#8, 98#8]] 1#16 1#16 []
  stack _ := 0#8
  src := ⟨192#8, 168#8, 4#8, 16#8⟩
  srcPort := 5353
  answers := ⟨true, errOk⟩

def cutQuery : DnsDatagram :=
  { plainQuery with payload := plainQuery.payload.take 12, stack := fun i => BitVec.ofNat 8 i }

/-! ## Inside of the buffer -/

/-- INTERNAL: the loop only looks at bytes before its end, and goes on from where it is.
SOURCE: ipstack/dnsserver.c:154-170 -/
theorem questionLoop_inside {msg : DnsMsg} {stop : ℕ} (hstop : stop ≤ maxDnsMsgSize)
    (fuel ptr : ℕ) :
    ∃ r, questionLoop msg stop fuel ptr = some r ∧
      ∀ e, r = some e → ptr ≤ e ∧ e ≤ max ptr (stop + 63) := by
  induction fuel generalizing ptr with
  | zero => exact ⟨_, rfl, fun e he => by obtain rfl := Option.some.inj he; omega⟩
  | succ fuel ih =>
    rw [questionLoop]
    split
    case isFalse => exact ⟨_, rfl, fun e he => by obtain rfl := Option.some.inj he; omega⟩
    rename_i hin
    rw [Region.load_of_lt (by omega)]
    simp only [Option.bind_eq_bind, Option.bind_some]
    split
    · exact ⟨_, rfl, fun e he => by obtain rfl := Option.some.inj he; omega⟩
    split
    · exact ⟨_, rfl, fun e he => by cases he⟩
    · rename_i hlabel
      obtain ⟨r, hr, hbounds⟩ := ih (ptr + 1 + (msg.cell ptr).toNat)
      refine ⟨r, hr, fun e he => ?_⟩
      have := hbounds e he
      omega

theorem questionEnd_bounds {q : DnsDatagram} {e : ℕ} (h : questionEnd q = some e) :
    HeaderAccepted q ∧ questionLoop (dnsMessage q) (dnsMsgLen q) maxDnsMsgSize dnsHeaderSize =
      some (some e) ∧ dnsHeaderSize ≤ e ∧ e ≤ 267 ∧ e ≤ dnsMsgLen q + 63 := by
  unfold questionEnd at h
  split at h
  case isFalse => cases h
  rename_i haccepted
  obtain ⟨r, hr, hbounds⟩ := @questionLoop_inside (dnsMessage q) _
    (Nat.min_le_right q.payload.length maxDnsMsgSize) maxDnsMsgSize dnsHeaderSize
  rw [show min q.payload.length maxDnsMsgSize = dnsMsgLen q from rfl] at hr hbounds
  rw [hr] at h
  cases r with
  | none => cases h
  | some e' =>
    simp only at h
    split at h
    · cases h
    · rename_i hlen
      obtain rfl := Option.some.inj h
      have hle := hbounds e' rfl
      have hheader := haccepted.1
      simp only [dnsHeaderSize] at hlen hle hheader ⊢
      exact ⟨haccepted, hr, by omega, by omega, by omega⟩

/-- INTERNAL: the reply in the buffer.
SOURCE: ipstack/dnsserver.c:183-214 -/
theorem dnsReply_slice {d : DnsServer} {q : DnsDatagram} {e : ℕ} (hheader : dnsHeaderSize ≤ e)
    (hlen : dnsHeaderSize ≤ dnsMsgLen q) :
    (((dnsMessage q).put (e + 4) (dnsAnswer d)).put 2 dnsReplyFields).slice 0 (e + 4 + 16) =
      dnsReply d q e := by
  simp only [dnsHeaderSize] at hheader hlen
  have hparts : e + 4 + 16 = 2 + (10 + ((e + 4 - 12) + 16)) := by omega
  rw [hparts, Region.slice_add, Region.slice_add, Region.slice_add, dnsReply, List.append_assoc,
    List.append_assoc]
  simp only [Nat.zero_add, Nat.reduceAdd]
  refine congrArg₂ (· ++ ·) ?_ (congrArg₂ (· ++ ·) ?_ (congrArg₂ (· ++ ·) ?_ ?_))
  · have hpayload : 2 ≤ q.payload.length := by
      unfold dnsMsgLen at hlen
      omega
    refine (Region.slice_eq_iff (by rw [List.length_take]; omega)).mpr fun i hi => ?_
    rw [List.length_take] at hi
    rw [Region.put_cell_of_outside _ (by omega), Region.put_cell_of_outside _ (by omega),
      dnsMessage_received (by omega), Nat.zero_add, List.getElem_take,
      List.getD_eq_getElem?_getD, List.getElem?_eq_getElem (by omega), Option.getD_some]
  · exact Region.slice_put _ rfl
  · refine (Region.slice_eq_iff (by rw [Region.slice_length]; rfl)).mpr fun i hi => ?_
    rw [Region.slice_length] at hi
    simp only [dnsHeaderSize] at hi
    rw [Region.put_cell_of_outside _ (Or.inr (show 2 + 10 ≤ 12 + i by omega)),
      Region.put_cell_of_outside _ (by omega)]
    simp [Region.slice, dnsHeaderSize]
  · rw [show 12 + (e + 4 - 12) = e + 4 by omega]
    refine (Region.slice_eq_iff (show 16 = (dnsAnswer d).length from rfl)).mpr ?_
    exact Region.holds_put (Region.put_holds _ _ _)
      (Or.inr (show 2 + 10 ≤ e + 4 by omega))

theorem dnsReply_length {d : DnsServer} {q : DnsDatagram} {e : ℕ} (hheader : dnsHeaderSize ≤ e)
    (hlen : dnsHeaderSize ≤ dnsMsgLen q) : (dnsReply d q e).length = e + 20 := by
  rw [← dnsReply_slice hheader hlen, Region.slice_length]

/-- INTERNAL: handling a datagram is finding the end of the question, and sending the reply.
SOURCE: ipstack/dnsserver.c:103-218 -/
theorem dnsServerProcess_eq (d : DnsServer) (q : DnsDatagram) :
    dnsServerProcess d q = some ((questionEnd q).bind fun e =>
      if q.answers.alloc = true ∧ q.answers.send = errOk then
        some ⟨dnsReply d q e, q.src, q.srcPort⟩ else none) := by
  have hcopy : (Region.mk q.stack : DnsMsg).copyIn 0 (q.payload.take maxDnsMsgSize) =
      some (dnsMessage q) :=
    Region.copyIn_of_le (by rw [List.length_take]; omega)
  have hfield : ∀ pos, pos < 12 → dnsField (dnsMessage q) pos =
      some ((dnsMessage q).cell pos ++ (dnsMessage q).cell (pos + 1)) := by
    intro pos hpos
    simp only [dnsField, maxDnsMsgSize, Option.bind_eq_bind]
    rw [Region.load_of_lt (by omega), Region.load_of_lt (by omega)]
    rfl
  unfold dnsServerProcess
  simp only [Option.bind_eq_bind, hcopy, Option.bind_some, hfield 2 (by omega),
    hfield 4 (by omega)]
  rw [show min q.payload.length maxDnsMsgSize = dnsMsgLen q from rfl]
  have hignored : ¬ HeaderAccepted q → (questionEnd q).bind (fun e =>
      if q.answers.alloc = true ∧ q.answers.send = errOk then
        some (UdpDatagram.mk (dnsReply d q e) q.src q.srcPort) else none) = none := by
    intro h
    rw [questionEnd, if_neg h]
    rfl
  split
  · rename_i hshort
    rw [hignored fun h => absurd h.1 (Nat.not_le.mpr hshort)]
  rename_i hlen
  split
  · rename_i hresponse
    rw [hignored fun h => hresponse h.2.1]
  rename_i hquery
  split
  · rename_i hopcode
    rw [hignored fun h => hopcode h.2.2.1]
  rename_i hstandard
  split
  · rename_i hcount
    rw [hignored fun h => absurd h.2.2.2 (BitVec.not_le.mpr hcount)]
  rename_i hcount
  have haccepted : HeaderAccepted q :=
    ⟨Nat.le_of_not_lt hlen, not_not.mp hquery, not_not.mp hstandard, BitVec.not_lt.mp hcount⟩
  obtain ⟨r, hr, -⟩ := @questionLoop_inside (dnsMessage q) _
    (Nat.min_le_right q.payload.length maxDnsMsgSize) maxDnsMsgSize dnsHeaderSize
  rw [show min q.payload.length maxDnsMsgSize = dnsMsgLen q from rfl] at hr
  have hend : questionEnd q =
      r.bind fun e => if e - dnsHeaderSize > 255 then none else some e := by
    rw [questionEnd, if_pos haccepted, hr]
    cases r with
    | none => rfl
    | some e => rfl
  rw [hr, Option.bind_some]
  cases r with
  | none => rw [hend]; rfl
  | some e =>
    rw [Option.bind_some] at hend
    simp only
    split
    · rename_i hlong
      rw [if_pos hlong] at hend
      rw [hend]
      rfl
    rename_i hfits
    rw [if_neg hfits] at hend
    obtain ⟨-, -, hheader, hbound, -⟩ := questionEnd_bounds hend
    have hanswer : (dnsAnswer d).length = 16 := rfl
    have hfields : dnsReplyFields.length = 10 := rfl
    rw [Region.copyIn_of_le (by simp only [maxDnsMsgSize, hanswer]; omega), Option.bind_some,
      Region.copyIn_of_le (by simp only [maxDnsMsgSize, hfields]; omega), Option.bind_some,
      Region.copyOut_of_le (by simp only [maxDnsMsgSize]; omega), Option.bind_some,
      dnsReply_slice hheader haccepted.1, hend, Option.bind_some,
      socketSendto_of_le (by rw [dnsReply_length hheader haccepted.1]; omega)]

/-- CONTRACT: for every datagram, whatever the stack held, the server loads and stores inside of its
buffer; what it sends goes back to the sender and has between 32 and 287 bytes.
SOURCE: ipstack/dnsserver.c:103-218 -/
theorem dns_inside (d : DnsServer) (q : DnsDatagram) :
    ∃ r, dnsServerProcess d q = some r ∧ ∀ out, r = some out →
      32 ≤ out.payload.length ∧ out.payload.length ≤ 287 ∧ out.dest = q.src ∧
        out.port = q.srcPort := by
  refine ⟨_, dnsServerProcess_eq d q, fun out hout => ?_⟩
  obtain ⟨e, hend, hsend⟩ := Option.bind_eq_some_iff.mp hout
  obtain ⟨haccepted, -, hheader, hbound, -⟩ := questionEnd_bounds hend
  rw [Option.ite_none_right_eq_some] at hsend
  obtain rfl := Option.some.inj hsend.2
  simp only [dnsReply_length hheader haccepted.1]
  simp only [dnsHeaderSize] at hheader
  exact ⟨by omega, by omega, trivial, trivial⟩

/-! ## What is answered -/

/-- INTERNAL: what the loop has gone over is some labels, and the end of a name unless the datagram
ends there. The induction is on the iterations that are left.
SOURCE: ipstack/dnsserver.c:154-170 -/
theorem questionLoop_reads {msg : DnsMsg} {stop fuel ptr e : ℕ} (hstop : stop ≤ maxDnsMsgSize)
    (hfuel : stop ≤ ptr + fuel) (h : questionLoop msg stop fuel ptr = some (some e)) :
    ptr ≤ e ∧ ∃ name, (∀ label ∈ name, IsLabel label) ∧
      (msg.slice ptr (e - ptr) = nameBytes name ∨
        stop ≤ e ∧ msg.slice ptr (e - ptr) = name.flatMap labelBytes) := by
  have hdone : ∀ p, stop ≤ p → some (some p) = some (some e) → p ≤ e ∧ ∃ name,
      (∀ label ∈ name, IsLabel label) ∧ (msg.slice p (e - p) = nameBytes name ∨
        stop ≤ e ∧ msg.slice p (e - p) = name.flatMap labelBytes) := by
    intro p hle heq
    obtain rfl := Option.some.inj (Option.some.inj heq)
    exact ⟨le_rfl, [], by simp, Or.inr ⟨hle, by simp [Region.slice]⟩⟩
  induction fuel generalizing ptr with
  | zero => exact hdone ptr (by omega) h
  | succ fuel ih =>
    rw [questionLoop] at h
    split at h
    case isFalse hout => exact hdone ptr (by omega) h
    rename_i hin
    rw [Region.load_of_lt (by omega)] at h
    simp only [Option.bind_eq_bind, Option.bind_some] at h
    split at h
    · rename_i hzero
      obtain rfl := Option.some.inj (Option.some.inj h)
      refine ⟨by omega, [], by simp, Or.inl ?_⟩
      rw [Nat.add_sub_cancel_left]
      simp [Region.slice, hzero]
    rename_i hnonzero
    split at h
    · cases h
    rename_i hshort
    have hpos : 0 < (msg.cell ptr).toNat := by
      rw [Nat.pos_iff_ne_zero]
      intro hzero
      exact hnonzero (BitVec.eq_of_toNat_eq hzero)
    obtain ⟨hle, name, hlabels, hname⟩ := ih (by omega) h
    have hsplit : msg.slice ptr (e - ptr) = labelBytes (msg.slice (ptr + 1) (msg.cell ptr).toNat) ++
        msg.slice (ptr + 1 + (msg.cell ptr).toNat) (e - (ptr + 1 + (msg.cell ptr).toNat)) := by
      rw [show e - ptr = 1 + ((msg.cell ptr).toNat +
        (e - (ptr + 1 + (msg.cell ptr).toNat))) by omega, Region.slice_add, Region.slice_add,
        labelBytes, Region.slice_length, BitVec.ofNat_toNat, BitVec.setWidth_eq]
      rfl
    refine ⟨by omega, msg.slice (ptr + 1) (msg.cell ptr).toNat :: name, ?_, ?_⟩
    · refine List.forall_mem_cons.mpr ⟨?_, hlabels⟩
      rw [IsLabel, Region.slice_length]
      exact ⟨hpos, by omega⟩
    · rw [hsplit, nameBytes_cons, List.flatMap_cons]
      obtain hended | ⟨hreached, hcut⟩ := hname
      · exact Or.inl (by rw [hended])
      · exact Or.inr ⟨hreached, by rw [hcut]⟩

/-- CONTRACT: the question of every reply is a name of labels of one to 63 bytes without pointers,
at most 255 bytes long; its end is missing only where the datagram ends before it.
SOURCE: ipstack/dnsserver.c:149-177 -/
theorem answered_question {d : DnsServer} {q : DnsDatagram} {out : UdpDatagram}
    (h : dnsServerProcess d q = some (some out)) :
    HeaderAccepted q ∧ out.payload.length ≤ 255 + 32 ∧
      ∃ name, (∀ label ∈ name, IsLabel label) ∧
        ((out.payload.drop 12).take (out.payload.length - 32) = nameBytes name ∨
          dnsMsgLen q + 20 ≤ out.payload.length ∧
            (out.payload.drop 12).take (out.payload.length - 32) = name.flatMap labelBytes) := by
  rw [dnsServerProcess_eq] at h
  obtain ⟨e, hend, hsend⟩ := Option.bind_eq_some_iff.mp (Option.some.inj h)
  obtain ⟨haccepted, hloop, hheader, hbound, -⟩ := questionEnd_bounds hend
  rw [Option.ite_none_right_eq_some] at hsend
  obtain rfl := Option.some.inj hsend.2
  have hmin := haccepted.1
  have hlen := dnsReply_length (d := d) hheader hmin
  simp only [dnsHeaderSize] at hheader hmin
  obtain ⟨-, name, hlabels, hname⟩ := questionLoop_reads (Nat.min_le_right _ _)
    (by simp only [dnsHeaderSize]; omega) hloop
  have hquestion : ((dnsReply d q e).drop 12).take (e + 20 - 32) =
      (dnsMessage q).slice dnsHeaderSize (e - dnsHeaderSize) := by
    have hfront : (q.payload.take 2 ++ dnsReplyFields).length = 12 := by
      have hfields : dnsReplyFields.length = 10 := rfl
      have htwo : 2 ≤ q.payload.length := by
        simp only [dnsMsgLen] at hmin
        omega
      rw [List.length_append, List.length_take, hfields]
      omega
    have hparts : e + 4 - dnsHeaderSize = (e - dnsHeaderSize) + 4 := by
      simp only [dnsHeaderSize]
      omega
    rw [dnsReply, hparts, Region.slice_add, List.append_assoc, ← hfront, List.drop_left,
      List.append_assoc]
    refine List.take_left' ?_
    rw [Region.slice_length]
    simp only [dnsHeaderSize]
    omega
  refine ⟨haccepted, by simp only [hlen]; omega, name, hlabels, ?_⟩
  simp only [hlen, hquestion]
  obtain hended | ⟨hreached, hcut⟩ := hname
  · exact Or.inl hended
  · have hreached' : dnsMsgLen q ≤ e := hreached
    exact Or.inr ⟨by omega, hcut⟩

theorem answered_question_plain : ∃ out, dnsServerProcess apDns plainQuery = some (some out) ∧
    out.payload.length ≤ 287 := by
  have hsome : ((dnsServerProcess apDns plainQuery).bind id).isSome = true := by decide +kernel
  obtain ⟨out, hout⟩ := Option.isSome_iff_exists.mp hsome
  obtain ⟨r, hr, rfl⟩ := Option.bind_eq_some_iff.mp hout
  exact ⟨out, hr, (answered_question hr).2.1⟩

/-! ## What the stack held -/

theorem questionLoop_congr {msg msg' : DnsMsg} {stop : ℕ}
    (h : ∀ i < stop, msg.cell i = msg'.cell i) (fuel ptr : ℕ) :
    questionLoop msg stop fuel ptr = questionLoop msg' stop fuel ptr := by
  induction fuel generalizing ptr with
  | zero => rfl
  | succ fuel ih =>
    rw [questionLoop, questionLoop]
    split
    · rename_i hin
      have hload : msg.load ptr = msg'.load ptr := by
        rw [Region.load, Region.load, h ptr hin]
      rw [hload]
      simp only [ih]
    · rfl

/-- INTERNAL: whether there is a reply, and where the question ends, is for the datagram to say.
SOURCE: ipstack/dnsserver.c:111-177 -/
theorem questionEnd_stack (q : DnsDatagram) (stack : ℕ → Byte) :
    questionEnd { q with stack := stack } = questionEnd q := by
  have hcell : ∀ i < dnsMsgLen q,
      (dnsMessage { q with stack := stack }).cell i = (dnsMessage q).cell i := by
    intro i hi
    rw [dnsMessage_received hi, dnsMessage_received (q := { q with stack := stack }) hi]
  have haccepted : HeaderAccepted { q with stack := stack } ↔ HeaderAccepted q := by
    unfold HeaderAccepted
    refine and_congr_right fun hlen => ?_
    simp only [dnsHeaderSize] at hlen
    have hlen' : 12 ≤ dnsMsgLen q := hlen
    rw [hcell 2 (by omega), hcell 3 (by omega), hcell 4 (by omega), hcell 5 (by omega)]
  unfold questionEnd
  simp only [haccepted]
  have hloop : questionLoop (dnsMessage { q with stack := stack }) (dnsMsgLen q) maxDnsMsgSize
      dnsHeaderSize = questionLoop (dnsMessage q) (dnsMsgLen q) maxDnsMsgSize dnsHeaderSize :=
    questionLoop_congr hcell _ _
  rw [← hloop]
  rfl

/-- CONTRACT: a reply shows what the stack held at every place from the end of the datagram on up
to the answer, at most 67 bytes; it depends on nothing but the datagram exactly if the datagram
reaches up to the answer.
SOURCE: ipstack/dnsserver.c:103-218 -/
theorem reply_discloses_iff {d : DnsServer} {q : DnsDatagram} {out : UdpDatagram}
    (h : dnsServerProcess d q = some (some out)) :
    ((∀ stack, dnsServerProcess d { q with stack := stack } = dnsServerProcess d q) ↔
        out.payload.length ≤ dnsMsgLen q + 16) ∧
      out.payload.length ≤ dnsMsgLen q + 16 + 67 ∧
      ∀ i, dnsMsgLen q ≤ i → i + 16 < out.payload.length →
        out.payload[i]? = some (q.stack i) := by
  rw [dnsServerProcess_eq] at h
  obtain ⟨e, hend, hsend⟩ := Option.bind_eq_some_iff.mp (Option.some.inj h)
  obtain ⟨haccepted, -, hheader, hbound, hover⟩ := questionEnd_bounds hend
  rw [Option.ite_none_right_eq_some] at hsend
  obtain ⟨hanswers, hout⟩ := hsend
  obtain rfl := Option.some.inj hout
  have hlen := dnsReply_length (d := d) hheader haccepted.1
  simp only [hlen]
  have hother : ∀ stack, dnsServerProcess d { q with stack := stack } =
      some (some ⟨dnsReply d { q with stack := stack } e, q.src, q.srcPort⟩) := by
    intro stack
    rw [dnsServerProcess_eq, questionEnd_stack, hend, Option.bind_some, if_pos hanswers]
  have hshown : ∀ (stack : ℕ → Byte) (i : ℕ), dnsMsgLen q ≤ i → i < e + 4 →
      (dnsReply d { q with stack := stack } e)[i]? = some (stack i) := by
    intro stack i hlo hhi
    have hmin := haccepted.1
    simp only [dnsHeaderSize] at hmin hheader
    rw [← dnsReply_slice (q := { q with stack := stack }) hheader haccepted.1]
    simp only [Region.slice, List.getElem?_map, List.getElem?_range (show i < e + 4 + 16 by omega),
      Option.map_some, Nat.zero_add]
    rw [Region.put_cell_of_outside _ (Or.inr (show 2 + 10 ≤ i by omega)),
      Region.put_cell_of_outside _ (by omega),
      dnsMessage_stack (show dnsMsgLen { q with stack := stack } ≤ i from hlo)]
  refine ⟨⟨fun hsame => ?_, fun hreach stack => ?_⟩, by omega, fun i hlo hhi => ?_⟩
  · by_contra hshort
    have hone := hshown (fun i => q.stack i + 1#8) (dnsMsgLen q) le_rfl (by omega)
    have hzero := hshown q.stack (dnsMsgLen q) le_rfl (by omega)
    have hstack := hsame fun i => q.stack i + 1#8
    rw [hother, dnsServerProcess_eq, hend, Option.bind_some, if_pos hanswers] at hstack
    have hpayload := congrArg UdpDatagram.payload (Option.some.inj (Option.some.inj hstack))
    simp only at hpayload
    rw [hpayload, hzero] at hone
    have hnext : ∀ b : Byte, b ≠ b + 1#8 := by decide
    exact hnext _ (Option.some.inj hone)
  · rw [hother, dnsServerProcess_eq, hend, Option.bind_some, if_pos hanswers]
    have hquestion : (dnsMessage { q with stack := stack }).slice dnsHeaderSize
        (e + 4 - dnsHeaderSize) = (dnsMessage q).slice dnsHeaderSize (e + 4 - dnsHeaderSize) := by
      refine Region.slice_congr fun i hi => ?_
      simp only [dnsHeaderSize] at hi ⊢
      rw [dnsMessage_received (q := { q with stack := stack })
        (show 12 + i < dnsMsgLen q by omega), dnsMessage_received (by omega)]
    rw [dnsReply, hquestion]
    rfl
  · exact hshown q.stack i hlo (by omega)

theorem reply_discloses_cut : ∃ out, dnsServerProcess apDns cutQuery = some (some out) ∧
    out.payload[13]? = some 13#8 := by
  have hsome : (((dnsServerProcess apDns cutQuery).bind id).map fun out =>
      out.payload.length) = some 32 := by decide +kernel
  obtain ⟨out, hout, hlen⟩ := Option.map_eq_some_iff.mp hsome
  obtain ⟨r, hr, rfl⟩ := Option.bind_eq_some_iff.mp hout
  exact ⟨out, hr, (reply_discloses_iff hr).2.2 13 (by decide) (by rw [hlen]; decide)⟩

/-! ## Resolving a name -/

/-- A field of 16 bits at a place of a message. -/
def fieldAt (msg : List Byte) (pos : ℕ) : Option (BitVec 16) := do
  let hi ← msg[pos]?
  let lo ← msg[pos + 1]?
  some (hi ++ lo)

/-- A resource record. -/
structure DnsRecord where
  name : List (List Byte)
  type : BitVec 16
  class' : BitVec 16
  ttl : BitVec 32
  data : List Byte

/-- A record at a place of a message. -/
def recordAt (msg : List Byte) (pos : ℕ) : Option DnsRecord := do
  let name ← readName msg msg.length pos
  let p ← skipName msg msg.length pos
  let type ← fieldAt msg p
  let class' ← fieldAt msg (p + 2)
  let ttlHi ← fieldAt msg (p + 4)
  let ttlLo ← fieldAt msg (p + 6)
  let length ← fieldAt msg (p + 8)
  some ⟨name, type, class', ttlHi ++ ttlLo, (msg.drop (p + 10)).take length.toNat⟩

/-- What a resolver reads in a message with one question and one answer. -/
structure DnsReading where
  id : BitVec 16
  flags : BitVec 16
  counts : List (BitVec 16)
  name : List (List Byte)
  type : BitVec 16
  class' : BitVec 16
  answer : DnsRecord

def readReply (msg : List Byte) : Option DnsReading := do
  let id ← fieldAt msg 0
  let flags ← fieldAt msg 2
  let questions ← fieldAt msg 4
  let answers ← fieldAt msg 6
  let authorities ← fieldAt msg 8
  let additionals ← fieldAt msg 10
  let name ← readName msg msg.length 12
  let p ← skipName msg msg.length 12
  let type ← fieldAt msg p
  let class' ← fieldAt msg (p + 2)
  let answer ← recordAt msg (p + 4)
  some ⟨id, flags, [questions, answers, authorities, additionals], name, type, class', answer⟩

theorem htons_append (x : BitVec 16) : (x >>> 8).setWidth 8 ++ x.setWidth 8 = x := by
  have hx := x.isLt
  apply BitVec.eq_of_toNat_eq
  rw [BitVec.toNat_append, BitVec.toNat_setWidth, BitVec.toNat_setWidth, BitVec.toNat_ushiftRight,
    Nat.shiftRight_eq_div_pow, ← Nat.shiftLeft_add_eq_or_of_lt (Nat.mod_lt _ (by decide)),
    Nat.shiftLeft_eq]
  omega

theorem getElem?_behind {α : Type*} (before tail : List α) (k : ℕ) :
    (before ++ tail)[before.length + k]? = tail[k]? := by
  rw [List.getElem?_append_right (by omega), Nat.add_sub_cancel_left]

theorem fieldAt_behind (before tail : List Byte) (k : ℕ) :
    fieldAt (before ++ tail) (before.length + k) = fieldAt tail k := by
  rw [fieldAt, fieldAt, Nat.add_assoc, getElem?_behind, getElem?_behind]

/-- INTERNAL: the loop goes over a name that is all there, by induction on its labels.
SOURCE: ipstack/dnsserver.c:154-170 -/
theorem questionLoop_name {msg : DnsMsg} {stop fuel ptr : ℕ} {name : List (List Byte)}
    (hlabels : ∀ label ∈ name, IsLabel label) (hmem : Holds msg.cell ptr (nameBytes name))
    (hstop : ptr + (nameBytes name).length ≤ stop) (hsize : stop ≤ maxDnsMsgSize)
    (hfuel : name.length < fuel) :
    questionLoop msg stop fuel ptr = some (some (ptr + (nameBytes name).length)) := by
  induction name generalizing fuel ptr with
  | nil =>
    obtain ⟨fuel, rfl⟩ := Nat.exists_eq_succ_of_ne_zero (by omega : fuel ≠ 0)
    have hend : msg.cell ptr = 0#8 := hmem 0 (by simp)
    simp only [nameBytes_nil, List.length_singleton] at hstop ⊢
    rw [Nat.succ_eq_add_one, questionLoop, if_pos (by omega), Region.load_of_lt (by omega), hend]
    rfl
  | cons label name ih =>
    rw [List.length_cons] at hfuel
    obtain ⟨fuel, rfl⟩ := Nat.exists_eq_succ_of_ne_zero (by omega : fuel ≠ 0)
    obtain ⟨hnat, hne, -⟩ := label_length (hlabels label List.mem_cons_self)
    rw [nameBytes_cons, holds_append] at hmem
    rw [nameBytes_cons, List.length_append, labelBytes_length] at hstop ⊢
    have hfirst : msg.cell ptr = BitVec.ofNat 8 label.length :=
      hmem.1 0 (by rw [labelBytes_length]; omega)
    have hshort := (hlabels label List.mem_cons_self).2
    rw [Nat.succ_eq_add_one, questionLoop, if_pos (by omega), Region.load_of_lt (by omega), hfirst]
    simp only [Option.bind_eq_bind, Option.bind_some, if_neg hne, hnat]
    have hmem' := hmem.2
    rw [labelBytes_length] at hmem'
    rw [if_neg (by omega), show ptr + 1 + label.length = ptr + (label.length + 1) by omega,
      ih (fun l hl => hlabels l (List.mem_cons_of_mem label hl)) hmem' (by omega) (by omega)]
    congr 2
    omega

/-- INTERNAL: what the server does with a query for a name.
SOURCE: ipstack/dnsserver.c:103-218 -/
theorem query_reply {id flags count : BitVec 16} {counts : List Byte} {name : List (List Byte)}
    {type class' : BitVec 16} {rest : List Byte} {q : DnsDatagram}
    (hpayload : q.payload = queryBytes id flags count counts name type class' rest)
    (hcounts : counts.length = 6) (hquery : flags >>> 15 &&& 0x1#16 = 0#16)
    (hstandard : flags >>> 11 &&& 0xf#16 = 0#16) (hcount : 1#16 ≤ count)
    (hlabels : ∀ label ∈ name, IsLabel label) (hname : (nameBytes name).length ≤ 255)
    (d : DnsServer) :
    questionEnd q = some (12 + (nameBytes name).length) ∧
      dnsReply d q (12 + (nameBytes name).length) =
        htons id ++ dnsReplyFields ++ nameBytes name ++ htons type ++ htons class' ++
          dnsAnswer d := by
  have hlen : q.payload.length = 16 + (nameBytes name).length + rest.length := by
    rw [hpayload]
    simp only [queryBytes, htons, List.length_append, List.length_cons, List.length_nil, hcounts]
    omega
  have hreach : 16 + (nameBytes name).length ≤ dnsMsgLen q := by
    simp only [dnsMsgLen, maxDnsMsgSize]
    omega
  have hquestion : Holds (dnsMessage q).cell 12
      (nameBytes name ++ (htons type ++ htons class')) := by
    intro i hi
    simp only [List.length_append, htons, List.length_cons, List.length_nil] at hi
    have hsplit : q.payload = (htons id ++ htons flags ++ htons count ++ counts) ++
        ((nameBytes name ++ (htons type ++ htons class')) ++ rest) := by
      rw [hpayload]
      simp [queryBytes]
    have hheader : (htons id ++ htons flags ++ htons count ++ counts).length = 12 := by
      simp [htons, hcounts]
    rw [dnsMessage_received (by omega), hsplit, List.getD_eq_getElem?_getD,
      List.getElem?_append_right (by omega), hheader, Nat.add_sub_cancel_left,
      List.getElem?_append_left (by simp [htons]; omega), List.getElem?_eq_getElem,
      Option.getD_some]
  have haccepted : HeaderAccepted q := by
    have hfield : ∀ i < 6, (dnsMessage q).cell i = (queryBytes id flags count counts name type
        class' rest).getD i 0#8 := by
      intro i hi
      rw [dnsMessage_received (by omega), hpayload]
    unfold HeaderAccepted
    rw [hfield 2 (by omega), hfield 3 (by omega), hfield 4 (by omega), hfield 5 (by omega)]
    have hflags : (queryBytes id flags count counts name type class' rest).getD 2 0#8 ++
        (queryBytes id flags count counts name type class' rest).getD 3 0#8 = flags :=
      htons_append flags
    have hcount' : (queryBytes id flags count counts name type class' rest).getD 4 0#8 ++
        (queryBytes id flags count counts name type class' rest).getD 5 0#8 = count :=
      htons_append count
    rw [hflags, hcount']
    exact ⟨by simp only [dnsHeaderSize]; omega, hquery, hstandard, hcount⟩
  have hlabelcount := @length_lt_nameBytes name
  have hend : questionEnd q = some (12 + (nameBytes name).length) := by
    have hloop : questionLoop (dnsMessage q) (dnsMsgLen q) maxDnsMsgSize dnsHeaderSize =
        some (some (12 + (nameBytes name).length)) :=
      questionLoop_name hlabels (holds_append.mp hquestion).1
        (by simp only [dnsHeaderSize]; omega) (Nat.min_le_right _ _)
        (by simp only [maxDnsMsgSize]; omega)
    rw [questionEnd, if_pos haccepted, hloop]
    exact if_neg (show ¬ 12 + (nameBytes name).length - 12 > 255 by omega)
  refine ⟨hend, ?_⟩
  have hslice : (dnsMessage q).slice dnsHeaderSize
      (12 + (nameBytes name).length + 4 - dnsHeaderSize) =
        nameBytes name ++ (htons type ++ htons class') := by
    refine (Region.slice_eq_iff ?_).mpr hquestion
    simp only [dnsHeaderSize, List.length_append, htons, List.length_cons, List.length_nil]
    omega
  have hid : q.payload.take 2 = htons id := by
    rw [hpayload]
    rfl
  rw [dnsReply, hslice, hid]
  simp

/-- CONTRACT: a standard query whose name has at most 255 bytes is answered, and in the answer a
resolver reads the identification and the question of the query, and one record for the name
asked for: the address of the server, for 60 seconds.
SOURCE: ipstack/dnsserver.c:103-218 -/
theorem query_resolved {id flags count : BitVec 16} {counts : List Byte}
    {name : List (List Byte)} {type class' : BitVec 16} {rest : List Byte} {q : DnsDatagram}
    (hpayload : q.payload = queryBytes id flags count counts name type class' rest)
    (hcounts : counts.length = 6) (hquery : flags >>> 15 &&& 0x1#16 = 0#16)
    (hstandard : flags >>> 11 &&& 0xf#16 = 0#16) (hcount : 1#16 ≤ count)
    (hlabels : ∀ label ∈ name, IsLabel label) (hname : (nameBytes name).length ≤ 255)
    (halloc : q.answers.alloc = true) (hsend : q.answers.send = errOk) (d : DnsServer) :
    ∃ out, dnsServerProcess d q = some (some out) ∧ out.dest = q.src ∧ out.port = q.srcPort ∧
      readReply out.payload = some ⟨id, 0x8480#16, [1#16, 1#16, 0#16, 0#16], name, type, class',
        ⟨name, 1#16, 1#16, 60#32, d.ip.bytes⟩⟩ := by
  obtain ⟨hend, hreply⟩ := query_reply hpayload hcounts hquery hstandard hcount hlabels hname d
  refine ⟨⟨dnsReply d q (12 + (nameBytes name).length), q.src, q.srcPort⟩, ?_, rfl, rfl, ?_⟩
  · rw [dnsServerProcess_eq, hend, Option.bind_some, if_pos ⟨halloc, hsend⟩]
  simp only [hreply]
  -- the parts of the reply, before the name, up to the end of the name, and after it
  let header := htons id ++ dnsReplyFields
  let tail := htons type ++ (htons class' ++ dnsAnswer d)
  have hmsg : htons id ++ dnsReplyFields ++ nameBytes name ++ htons type ++ htons class' ++
      dnsAnswer d = header ++ nameBytes name ++ tail := by
    simp [header, tail]
  rw [hmsg]
  generalize hwhole : header ++ nameBytes name ++ tail = msg
  have hbehind : (header ++ nameBytes name).length = 12 + (nameBytes name).length := by
    rw [List.length_append]
    rfl
  have hlen : msg.length = 12 + (nameBytes name).length + 20 := by
    rw [← hwhole, List.length_append, hbehind]
    rfl
  have hlabelcount := @length_lt_nameBytes name
  have hfield : ∀ k, fieldAt msg (12 + (nameBytes name).length + k) = fieldAt tail k := by
    intro k
    rw [← hwhole, ← hbehind]
    exact fieldAt_behind _ _ k
  have hread : ∀ fuel, name.length < fuel → readName msg fuel 12 = some name := by
    intro fuel hfuel
    rw [← hwhole, List.append_assoc]
    exact readName_nameBytes hlabels hfuel header tail
  have hskip : skipName msg msg.length 12 = some (12 + (nameBytes name).length) := by
    rw [← hwhole, List.append_assoc]
    refine skipName_nameBytes hlabels ?_ header tail
    rw [← List.append_assoc, hwhole, hlen]
    omega
  have hanswer : recordAt msg (12 + (nameBytes name).length + 4) =
      some ⟨name, 1#16, 1#16, 60#32, d.ip.bytes⟩ := by
    have hhi : msg[12 + (nameBytes name).length + 4]? = some 0xc0#8 := by
      rw [← hwhole, ← hbehind]
      exact getElem?_behind _ _ 4
    have hlo : msg[12 + (nameBytes name).length + 4 + 1]? = some 12#8 := by
      rw [← hwhole, ← hbehind]
      exact getElem?_behind _ _ 5
    obtain ⟨hname', hskip'⟩ := readName_pointer (msg.length - 1) hhi hlo
    rw [show msg.length - 1 + 1 = msg.length by omega] at hname' hskip'
    have hdata : (msg.drop (12 + (nameBytes name).length + 16)).take 4 = d.ip.bytes := by
      rw [← hwhole, ← hbehind, ← List.drop_drop, List.drop_left]
      rfl
    have htype : fieldAt msg (12 + (nameBytes name).length + 4 + 2) = some 1#16 := hfield 6
    have hclass : fieldAt msg (12 + (nameBytes name).length + 4 + 2 + 2) = some 1#16 := hfield 8
    have httl : fieldAt msg (12 + (nameBytes name).length + 4 + 2 + 4) = some 0#16 := hfield 10
    have httl' : fieldAt msg (12 + (nameBytes name).length + 4 + 2 + 6) = some 60#16 := hfield 12
    have hlength : fieldAt msg (12 + (nameBytes name).length + 4 + 2 + 8) = some 4#16 := hfield 14
    rw [recordAt, hname', show (12#8).toNat = 12 from rfl, hread _ (by omega), hskip']
    simp only [Option.bind_eq_bind, Option.bind_some, htype, hclass, httl, httl', hlength]
    rw [show 12 + (nameBytes name).length + 4 + 2 + 10 = 12 + (nameBytes name).length + 16 by omega,
      show (4#16).toNat = 4 from rfl, hdata]
    rfl
  have hid : fieldAt msg 0 = some id := by
    rw [← hwhole]
    exact congrArg some (htons_append id)
  have hheader : fieldAt msg 2 = some 0x8480#16 ∧ fieldAt msg 4 = some 1#16 ∧
      fieldAt msg 6 = some 1#16 ∧ fieldAt msg 8 = some 0#16 ∧ fieldAt msg 10 = some 0#16 := by
    rw [← hwhole]
    exact ⟨rfl, rfl, rfl, rfl, rfl⟩
  have htype : fieldAt msg (12 + (nameBytes name).length) = some type :=
    (hfield 0).trans (congrArg some (htons_append type))
  have hclass : fieldAt msg (12 + (nameBytes name).length + 2) = some class' :=
    (hfield 2).trans (congrArg some (htons_append class'))
  obtain ⟨hflags, hquestions, hanswers, hauthorities, hadditionals⟩ := hheader
  rw [readReply, hread _ (by omega), hskip]
  simp only [Option.bind_eq_bind, Option.bind_some, hid, hflags, hquestions, hanswers,
    hauthorities, hadditionals, htype, hclass, hanswer]

theorem query_resolved_plain : ∃ out, dnsServerProcess apDns plainQuery = some (some out) ∧
    (readReply out.payload).map (fun r => (r.answer.name, r.answer.data)) =
      some ([[97#8, 98#8]], [192#8, 168#8, 4#8, 1#8]) := by
  obtain ⟨out, hout, -, -, hread⟩ := query_resolved (q := plainQuery) rfl rfl (by decide)
    (by decide) (by decide) (by simp [IsLabel]) (by decide) rfl rfl apDns
  exact ⟨out, hout, by rw [hread]; rfl⟩

end PicoDrone.Analysis
