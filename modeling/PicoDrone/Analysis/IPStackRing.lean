import PicoDrone.Model.IPStack

/-!
# The receive ring is a bounded queue

`tcp_client_recv` and `read` keep the indexes of the ring in place (`RingInv`) and never
leave the buffer. What they do to the unread bytes (`contents`) is what a queue of capacity
`bufSize` does (`RxQueue`): a callback appends what fits of its pbuf, a read takes bytes
from the front. Every run of callbacks and reads refines the queue (`run_queue`).
-/

set_option autoImplicit false

namespace PicoDrone.Analysis

open PicoDrone.Library PicoDrone.Model

variable {α : Type}

/-! ## Appending -/

/-- The unread bytes, oldest first. -/
def contents (s : IPStack α) : List α := s.buffer.ring s.rd s.count

/-- The indexes of the ring belong together, and the count of dropped bytes has 32 bits. -/
structure RingInv (s : IPStack α) : Prop where
  count_le : s.count ≤ bufSize
  rd_lt : s.rd < bufSize
  wr_lt : s.wr < bufSize
  wr_eq : s.wr = (s.rd + s.count) % bufSize
  dropped_lt : s.dropped < 2 ^ 32

theorem RingInv.frame {s : IPStack α} (h : RingInv s) (tcpPcb : Option ℕ) (connected : Bool)
    (log : RxLog α) : RingInv { s with tcpPcb := tcpPcb, connected := connected, log := log } :=
  ⟨h.count_le, h.rd_lt, h.wr_lt, h.wr_eq, h.dropped_lt⟩

/-- The object `s'` is `s` with the bytes `xs` appended to its ring. -/
structure Appends (s s' : IPStack α) (xs : List α) : Prop where
  inv : RingInv s'
  contents_eq : contents s' = contents s ++ xs
  count_eq : s'.count = s.count + xs.length
  appended : s'.log.appended = s.log.appended ++ xs
  delivered : s'.log.delivered = s.log.delivered
  acked : s'.log.acked = s.log.acked
  dropped : s'.dropped = s.dropped
  tcpPcb : s'.tcpPcb = s.tcpPcb
  connected : s'.connected = s.connected

theorem Appends.trans {s s' s'' : IPStack α} {xs ys : List α} (h : Appends s s' xs)
    (h' : Appends s' s'' ys) : Appends s s'' (xs ++ ys) := by
  refine ⟨h'.inv, ?_, ?_, ?_, h'.delivered.trans h.delivered, h'.acked.trans h.acked,
    h'.dropped.trans h.dropped, h'.tcpPcb.trans h.tcpPcb, h'.connected.trans h.connected⟩
  · rw [h'.contents_eq, h.contents_eq, List.append_assoc]
  · rw [h'.count_eq, h.count_eq, List.length_append, Nat.add_assoc]
  · rw [h'.appended, h.appended, List.append_assoc]

theorem copyPartial_length {p : Pbuf α} {len offset : ℕ} (h : offset + len ≤ p.totLen) :
    (p.copyPartial len offset).length = len := by
  unfold Pbuf.totLen at h
  simp [Pbuf.copyPartial]
  omega

/-- INTERNAL: the cells behind the unread bytes take a piece that ends before the end of the
buffer. -/
theorem contents_put {s : IPStack α} (h : RingInv s) (piece : List α)
    (hend : s.wr + piece.length ≤ bufSize) (hroom : s.count + piece.length ≤ bufSize) :
    (s.buffer.put s.wr piece).ring s.rd (s.count + piece.length) = contents s ++ piece :=
  Region.ring_append s.buffer h.rd_lt h.wr_eq hend hroom

/-- INTERNAL: the copy of the rest appends it.
SOURCE: ipstack/IPStack.cpp:188-190 -/
theorem recvRest_appends {p : Pbuf α} {k offset : ℕ} {s : IPStack α} (h : RingInv s)
    (hend : s.wr + k ≤ bufSize) (hroom : s.count + k ≤ bufSize)
    (hsome : offset + k ≤ p.totLen) :
    ∃ s', recvRest p k offset s = some s' ∧ Appends s s' (p.copyPartial k offset) := by
  have hbuf : bufSize = 2048 := rfl
  have hlen := copyPartial_length hsome
  have hpiece : s.buffer.copyIn s.wr (p.copyPartial k offset) =
      some (s.buffer.put s.wr (p.copyPartial k offset)) := Region.copyIn_of_le (by omega)
  have hcount : u16 (s.count + k) = s.count + k := u16_add (by omega)
  have hwr : u16 (u16 (s.wr + (p.copyPartial k offset).length) % bufSize) =
      (s.wr + k) % bufSize := by
    rw [hlen, hbuf, u16_add (by omega), u16_of_fits (by omega) (by omega)]
    omega
  have hrest : recvRest p k offset s = some { s with
      buffer := s.buffer.put s.wr (p.copyPartial k offset)
      count := s.count + k
      wr := (s.wr + k) % bufSize
      log := { s.log with appended := s.log.appended ++ p.copyPartial k offset } } := by
    simp only [recvRest, hpiece, hcount, hwr, Option.bind_eq_bind, Option.bind_some]
  refine ⟨_, hrest, ⟨hroom, h.rd_lt, Nat.mod_lt _ (by decide), ?_, h.dropped_lt⟩, ?_,
    congrArg (s.count + ·) hlen.symm, rfl, rfl, rfl, rfl, rfl, rfl⟩
  · simp only
    rw [h.wr_eq, Nat.mod_add_mod, Nat.add_assoc]
  · have := contents_put h (p.copyPartial k offset) (by omega) (by omega)
    rwa [hlen] at this

/-- INTERNAL: the copy up to the end of the buffer appends it, and leaves a rest that ends
before the end of the buffer.
SOURCE: ipstack/IPStack.cpp:171-187 -/
theorem recvFirst_appends {p : Pbuf α} {k : ℕ} {s : IPStack α} (h : RingInv s)
    (hroom : s.count + k ≤ bufSize) (hsome : k ≤ p.totLen) :
    ∃ s' first, first ≤ k ∧ recvFirst p k (s.wr + k) s = some (s', k - first, first) ∧
      Appends s s' (p.copyPartial first 0) ∧ s'.wr + (k - first) ≤ bufSize := by
  have hbuf : bufSize = 2048 := rfl
  have hwr := h.wr_lt
  by_cases hend : s.wr + k > bufSize
  · -- the copy goes up to the end and the writer starts again at index 0
    have hlen : (p.copyPartial (bufSize - s.wr) 0).length = bufSize - s.wr :=
      copyPartial_length (by omega)
    have hfirst : u16 (bufSize - s.wr) = bufSize - s.wr := u16_sub hwr.le (by omega)
    have hpiece : s.buffer.copyIn s.wr (p.copyPartial (bufSize - s.wr) 0) =
        some (s.buffer.put s.wr (p.copyPartial (bufSize - s.wr) 0)) :=
      Region.copyIn_of_le (by omega)
    have hcount : u16 (s.count + (bufSize - s.wr : ℕ)) = s.count + (bufSize - s.wr) :=
      u16_add (by omega)
    have hleft : u16 (k - (bufSize - s.wr : ℕ)) = k - (bufSize - s.wr) :=
      u16_sub (by omega) (by omega)
    have hrun : recvFirst p k (s.wr + k) s = some ({ s with
        buffer := s.buffer.put s.wr (p.copyPartial (bufSize - s.wr) 0)
        wr := 0
        count := s.count + (bufSize - s.wr)
        log := { s.log with
          appended := s.log.appended ++ p.copyPartial (bufSize - s.wr) 0 } },
        k - (bufSize - s.wr), bufSize - s.wr) := by
      rw [recvFirst, if_pos hend]
      simp only [hfirst, hpiece, hlen, hcount, hleft, Option.bind_eq_bind, Option.bind_some]
      rw [if_pos (by omega)]
    refine ⟨_, bufSize - s.wr, by omega, hrun, ⟨⟨?_, h.rd_lt, (by decide : 0 < bufSize), ?_,
      h.dropped_lt⟩, ?_,
      congrArg (s.count + ·) hlen.symm, rfl, rfl, rfl, rfl, rfl, rfl⟩, ?_⟩
    · simp only
      omega
    · have heq := h.wr_eq
      simp only [hbuf] at heq ⊢
      omega
    · have := contents_put h (p.copyPartial (bufSize - s.wr) 0) (by omega) (by omega)
      rwa [hlen] at this
    · simp only
      omega
  · refine ⟨s, 0, Nat.zero_le k, by rw [recvFirst, if_neg hend]; rfl, ⟨h, ?_, rfl, ?_, rfl, rfl,
      rfl, rfl, rfl⟩, by omega⟩
    · simp [Pbuf.copyPartial]
    · simp [Pbuf.copyPartial]

/-- The bytes of a pbuf that fit in the ring. -/
def fitting (s : IPStack α) (p : Pbuf α) : List α := p.payload.take (bufSize - s.count)

/-- The object `s'` is `s` after the callback with `p`: what fits is appended, the rest is
counted as dropped, and all of it is acknowledged. -/
structure Receives (s s' : IPStack α) (p : Pbuf α) : Prop where
  inv : RingInv s'
  contents_eq : contents s' = contents s ++ fitting s p
  appended : s'.log.appended = s.log.appended ++ fitting s p
  delivered : s'.log.delivered = s.log.delivered
  acked : s'.log.acked = s.log.acked + p.totLen
  dropped : s'.dropped = (s.dropped + (p.totLen - (fitting s p).length)) % 2 ^ 32
  tcpPcb : s'.tcpPcb = s.tcpPcb
  connected : s'.connected = s.connected

/-- INTERNAL: the check for bytes that do not fit counts them.
SOURCE: ipstack/IPStack.cpp:173-176 -/
theorem recvDrop_dropped {s : IPStack α} (h : RingInv s) (p : Pbuf α) {k : ℕ}
    (hk : k ≤ p.totLen) :
    recvDrop p k s = { s with dropped := (s.dropped + (p.totLen - k)) % 2 ^ 32 } := by
  have hlt := h.dropped_lt
  have hp : p.totLen ≤ 65535 := p.totLen_le
  unfold recvDrop
  by_cases hless : k < p.totLen
  · rw [if_pos hless]
    congr 1
    rw [u32_of_fits (x := (p.totLen : ℤ) - k) (by omega) (by omega)]
    unfold u32
    omega
  · have hsame : (s.dropped + (p.totLen - k)) % 2 ^ 32 = s.dropped := by omega
    rw [if_neg hless, hsame]

theorem fitting_length (s : IPStack α) (p : Pbuf α) :
    (fitting s p).length = min (bufSize - s.count) p.totLen := by
  simp [fitting, Pbuf.totLen]

/-- INTERNAL: the two pieces of a copy are the bytes that fit. -/
theorem fitting_pieces (s : IPStack α) (p : Pbuf α) {first : ℕ}
    (hle : first ≤ (fitting s p).length) :
    p.copyPartial first 0 ++ p.copyPartial ((fitting s p).length - first) first = fitting s p := by
  have hall : fitting s p = p.payload.take (first + ((fitting s p).length - first)) := by
    rw [Nat.add_sub_cancel' hle, fitting_length]
    unfold fitting Pbuf.totLen
    rw [List.take_eq_take_iff]
    omega
  conv_rhs => rw [hall, List.take_add]
  rfl

/-- INTERNAL: the callback for a pbuf.
SOURCE: ipstack/IPStack.cpp:150-197 -/
theorem tcpClientRecv_receives {s : IPStack α} (h : RingInv s) (p : Pbuf α) :
    ∃ s', tcpClientRecv s (some p) = some s' ∧ Receives s s' p := by
  have hbuf : bufSize = 2048 := rfl
  have hcount := h.count_le
  have hp : p.totLen ≤ 65535 := p.totLen_le
  have hfit := fitting_length s p
  by_cases hzero : p.totLen > 0
  · have havailable : u16 (bufSize - s.count) = bufSize - s.count := u16_sub hcount (by omega)
    have hk : (if u16 (bufSize - s.count) > p.totLen then p.totLen
        else u16 (bufSize - s.count)) = (fitting s p).length := by
      rw [havailable, hfit]
      split_ifs <;> omega
    have hend : u16 (s.wr + (fitting s p).length) = s.wr + (fitting s p).length := by
      have hwr := h.wr_lt
      exact u16_add (by omega)
    have hdrop := recvDrop_dropped h p (k := (fitting s p).length) (by omega)
    have hinv : RingInv (recvDrop p (fitting s p).length s) := by
      rw [hdrop]
      exact ⟨h.count_le, h.rd_lt, h.wr_lt, h.wr_eq, Nat.mod_lt _ (by decide)⟩
    have hsame : (recvDrop p (fitting s p).length s).wr = s.wr ∧
        (recvDrop p (fitting s p).length s).count = s.count := by
      rw [hdrop]
      exact ⟨rfl, rfl⟩
    obtain ⟨s₁, first, hle, hrun₁, happ₁, hfits⟩ := recvFirst_appends (p := p)
      (k := (fitting s p).length) hinv (by omega) (by omega)
    obtain ⟨s₂, hrun₂, happ₂⟩ := recvRest_appends (p := p) (k := (fitting s p).length - first)
      happ₁.inv hfits (by rw [happ₁.count_eq, copyPartial_length (by omega)]; omega)
      (show first + ((fitting s p).length - first) ≤ p.totLen by omega)
    have happ := happ₁.trans happ₂
    rw [fitting_pieces s p hle] at happ
    refine ⟨{ s₂ with log := { s₂.log with acked := s₂.log.acked + p.totLen } }, ?_, ⟨?_, ?_, ?_,
      ?_, ?_, ?_, ?_, ?_⟩⟩
    · rw [hsame.1] at hrun₁
      simp only [tcpClientRecv, if_pos hzero, hk, hend, hrun₁, hrun₂, Option.bind_eq_bind,
        Option.bind_some]
    · exact happ.inv.frame s₂.tcpPcb s₂.connected _
    · refine happ.contents_eq.trans ?_
      rw [hdrop]
      rfl
    · refine happ.appended.trans ?_
      rw [hdrop]
    · refine happ.delivered.trans ?_
      rw [hdrop]
    · simp only [happ.acked, hdrop]
    · simp only [happ.dropped, hdrop]
    · refine happ.tcpPcb.trans ?_
      rw [hdrop]
    · refine happ.connected.trans ?_
      rw [hdrop]
  · -- an empty pbuf
    have hnone : fitting s p = [] := by
      rw [← List.length_eq_zero_iff, hfit]
      omega
    have hlt := h.dropped_lt
    refine ⟨s, by simp only [tcpClientRecv, if_neg hzero], ⟨h, ?_, ?_, rfl, ?_, ?_, rfl, rfl⟩⟩
    · rw [hnone, List.append_nil]
    · rw [hnone, List.append_nil]
    · omega
    · rw [hnone, List.length_nil]
      omega

/-! ## Reading -/

/-- The object `s'` is `s` after the copy of a read that asks for `len` bytes and returns
`out`. -/
structure Delivers (s s' : IPStack α) (out : List α) : Prop where
  inv : RingInv s'
  contents_eq : contents s = out ++ contents s'
  appended : s'.log.appended = s.log.appended
  delivered : s'.log.delivered = s.log.delivered ++ out
  acked : s'.log.acked = s.log.acked
  dropped : s'.dropped = s.dropped
  tcpPcb : s'.tcpPcb = s.tcpPcb
  connected : s'.connected = s.connected

/-- The object after `k` bytes were copied out. -/
def afterCopy (s : IPStack α) (k : ℕ) : IPStack α :=
  { s with
    rd := (s.rd + k) % bufSize
    count := s.count - k
    log := { s.log with delivered := s.log.delivered ++ s.buffer.ring s.rd k } }

/-- INTERNAL: a copy that goes up to the end of the buffer and on from index 0.
SOURCE: ipstack/IPStack.cpp:211-222 -/
theorem readCopy_wrap {s : IPStack α} (h : RingInv s) {len : ℤ} {k : ℕ}
    (hbytes : (if (s.count : ℤ) < len then (s.count : ℤ) else len) = k) (hk : k ≤ s.count)
    (hend : s.rd + k > bufSize) :
    readCopy len s = some (afterCopy s k, s.buffer.ring s.rd k, (k : ℤ)) := by
  have hbuf : bufSize = 2048 := rfl
  have hcount := h.count_le
  have hrd := h.rd_lt
  have hrdEnd : u16 (s.rd + k) = s.rd + k := u16_add (by omega)
  have hnonzero : (k : ℤ) ≠ 0 := by omega
  have hfirst : u16 (bufSize - s.rd) = bufSize - s.rd := u16_sub hrd.le (by omega)
  have hcopy : s.buffer.copyOut s.rd (bufSize - s.rd) =
      some (s.buffer.slice s.rd (bufSize - s.rd)) := Region.copyOut_of_le (by omega)
  have hrest : u32 (k - (bufSize - s.rd : ℕ)) = k - (bufSize - s.rd) :=
    u32_sub (by omega) (by omega)
  have hcopy' : s.buffer.copyOut 0 (k - (bufSize - s.rd)) =
      some (s.buffer.slice 0 (k - (bufSize - s.rd))) := Region.copyOut_of_le (by omega)
  have hring : s.buffer.slice s.rd (bufSize - s.rd) ++
      s.buffer.slice 0 (k - (bufSize - s.rd)) = s.buffer.ring s.rd k := by
    rw [← Region.ring_eq_two_slices _ (by omega) (by omega),
      show bufSize - s.rd + (k - (bufSize - s.rd)) = k by omega]
  have hrd' : u16 (k - (bufSize - s.rd : ℕ)) = (s.rd + k) % bufSize := by
    rw [u16_sub (by omega) (by omega), Nat.mod_eq_sub_mod (by omega), Nat.mod_eq_of_lt (by omega)]
    omega
  have hcount' : u16 (u16 (s.count - (bufSize - s.rd : ℕ)) - (k - (bufSize - s.rd : ℕ))) =
      s.count - k := by
    rw [u16_sub (by omega) (by omega), u16_of_fits (by omega) (by omega)]
    omega
  have hne : bufSize - s.rd ≠ 0 := by omega
  simp only [readCopy, hbytes, if_pos hnonzero, hrdEnd, if_pos hend, hfirst, if_pos hne, hcopy,
    hrest, hcopy', hrd', hcount', hring, Option.bind_eq_bind, Option.bind_some, afterCopy]
  rw [Int.sub_add_cancel]

/-- INTERNAL: a copy in one piece.
SOURCE: ipstack/IPStack.cpp:223-226 -/
theorem readCopy_straight {s : IPStack α} (h : RingInv s) {len : ℤ} {k : ℕ} (hzero : k ≠ 0)
    (hbytes : (if (s.count : ℤ) < len then (s.count : ℤ) else len) = k) (hk : k ≤ s.count)
    (hend : ¬ s.rd + k > bufSize) :
    readCopy len s = some (afterCopy s k, s.buffer.ring s.rd k, (k : ℤ)) := by
  have hbuf : bufSize = 2048 := rfl
  have hcount := h.count_le
  have hrd := h.rd_lt
  have hrdEnd : u16 (s.rd + k) = s.rd + k := u16_add (by omega)
  have hnonzero : (k : ℤ) ≠ 0 := by omega
  have hsize : u32 k = k := by
    rw [u32_of_fits (by omega) (by omega)]
    omega
  have hleft : u16 (s.count - k) = s.count - k := u16_sub (by omega) (by omega)
  have hcopy : s.buffer.copyOut s.rd k = some (s.buffer.ring s.rd k) := by
    rw [Region.ring_eq_slice _ (by omega)]
    exact Region.copyOut_of_le (by omega)
  have hrd' : u16 ((s.rd + k) % bufSize) = (s.rd + k) % bufSize := by
    rw [hbuf, u16_of_fits (by omega) (by omega)]
    omega
  simp only [readCopy, hbytes, if_pos hnonzero, hrdEnd, if_neg hend, hsize, hcopy, hrd', hleft,
    Option.bind_eq_bind, Option.bind_some, afterCopy]

theorem afterCopy_delivers {s : IPStack α} (h : RingInv s) {k : ℕ} (hk : k ≤ s.count) :
    Delivers s (afterCopy s k) (s.buffer.ring s.rd k) := by
  have hcount := h.count_le
  have hsplit : contents s = s.buffer.ring s.rd k ++
      s.buffer.ring ((s.rd + k) % bufSize) (s.count - k) := by
    rw [← Region.ring_add, show k + (s.count - k) = s.count by omega]
    rfl
  have hwr : (s.rd + s.count) % bufSize = ((s.rd + k) % bufSize + (s.count - k)) % bufSize := by
    rw [Nat.mod_add_mod, show s.rd + k + (s.count - k) = s.rd + s.count by omega]
  refine ⟨⟨?_, Nat.mod_lt _ (by decide), h.wr_lt, h.wr_eq.trans hwr, h.dropped_lt⟩, hsplit, rfl,
    rfl, rfl, rfl, rfl, rfl⟩
  simp only [afterCopy]
  omega

/-- INTERNAL: the copy of a read takes the smaller of the count and the length asked for
from the front of the ring.
SOURCE: ipstack/IPStack.cpp:207-230 -/
theorem readCopy_delivers {s : IPStack α} (h : RingInv s) {len : ℤ} (hlen : 0 ≤ len) :
    ∃ s' out, readCopy len s = some (s', out, (out.length : ℤ)) ∧
      out.length = min s.count len.toNat ∧ Delivers s s' out := by
  obtain ⟨k, hk⟩ : ∃ k : ℕ, k = min s.count len.toNat := ⟨_, rfl⟩
  have hbytes : (if (s.count : ℤ) < len then (s.count : ℤ) else len) = k := by
    split_ifs <;> omega
  by_cases hzero : k = 0
  · refine ⟨s, [], ?_, by simpa [hzero] using hk, ⟨h, rfl, rfl, by simp, rfl, rfl, rfl, rfl⟩⟩
    simp only [readCopy, hbytes, hzero]
    rfl
  · refine ⟨afterCopy s k, s.buffer.ring s.rd k, ?_, by simpa using hk,
      afterCopy_delivers h (by omega)⟩
    rw [Region.ring_length]
    by_cases hend : s.rd + k > bufSize
    · exact readCopy_wrap h hbytes (by omega) hend
    · exact readCopy_straight h hzero hbytes (by omega) hend

/-! ## The queue -/

/-- A queue of bounded capacity with the bytes it has taken and given out, and the number of
bytes it was offered. -/
structure RxQueue (α : Type) where
  items : List α
  appended : List α
  delivered : List α
  offered : ℕ
  bound : items.length ≤ bufSize
  conserved : delivered ++ items = appended
  offered_ge : appended.length ≤ offered

namespace RxQueue

/-- The queue that has not been used. -/
def empty : RxQueue α := ⟨[], [], [], 0, Nat.zero_le _, rfl, le_rfl⟩

theorem append_bound (q : RxQueue α) (xs : List α) :
    (q.items ++ xs.take (bufSize - q.items.length)).length ≤ bufSize := by
  have hbound := q.bound
  rw [List.length_append, List.length_take]
  omega

theorem append_offered_ge (q : RxQueue α) (xs : List α) (k : ℕ) :
    (q.appended ++ xs.take k).length ≤ q.offered + xs.length := by
  have hoffered := q.offered_ge
  rw [List.length_append, List.length_take]
  omega

/-- The queue takes the bytes of a pbuf that fit. -/
def offer (q : RxQueue α) : Option (Pbuf α) → RxQueue α
  | none => q
  | some p =>
    { items := q.items ++ p.payload.take (bufSize - q.items.length)
      appended := q.appended ++ p.payload.take (bufSize - q.items.length)
      delivered := q.delivered
      offered := q.offered + p.totLen
      bound := append_bound q p.payload
      conserved := by rw [← q.conserved, List.append_assoc]
      offered_ge := append_offered_ge q p.payload _ }

/-- The queue gives out its first bytes. -/
def poll (q : RxQueue α) (len : ℕ) : RxQueue α :=
  { items := q.items.drop len
    appended := q.appended
    delivered := q.delivered ++ q.items.take len
    offered := q.offered
    bound := by
      have := q.bound
      rw [List.length_drop]
      omega
    conserved := by rw [List.append_assoc, List.take_append_drop, q.conserved]
    offered_ge := q.offered_ge }

/-- A callback or a read on the queue. -/
def event (q : RxQueue α) : RxEvent α → RxQueue α
  | .recv p => q.offer p
  | .read len polls =>
    (pollLoop (m := Id) (fun q p => pure (offer q p)) (fun q => q.items.length) len polls q).poll
      len.toNat

end RxQueue

/-- The object holds the bytes of a queue. -/
structure QueueRefines (q : RxQueue α) (s : IPStack α) : Prop where
  inv : RingInv s
  items : contents s = q.items
  appended : s.log.appended = q.appended
  delivered : s.log.delivered = q.delivered
  acked : s.log.acked = q.offered
  dropped : s.dropped = (q.offered - q.appended.length) % 2 ^ 32

theorem QueueRefines.count_eq {q : RxQueue α} {s : IPStack α} (h : QueueRefines q s) :
    s.count = q.items.length := by
  rw [← h.items, contents, Region.ring_length]

/-- INTERNAL: a callback offers its pbuf to the queue. -/
theorem recv_refines {q : RxQueue α} {s : IPStack α} (h : QueueRefines q s)
    (p : Option (Pbuf α)) :
    ∃ s', tcpClientRecv s p = some s' ∧ QueueRefines (q.offer p) s' := by
  cases p with
  | none => exact ⟨s, rfl, h⟩
  | some p =>
    obtain ⟨s', hrun, hrecv⟩ := tcpClientRecv_receives h.inv p
    have hfit : fitting s p = p.payload.take (bufSize - q.items.length) := by
      rw [fitting, h.count_eq]
    refine ⟨s', hrun, hrecv.inv, ?_, ?_, hrecv.delivered.trans h.delivered, ?_, ?_⟩
    · rw [hrecv.contents_eq, h.items, hfit]
      rfl
    · rw [hrecv.appended, h.appended, hfit]
      rfl
    · rw [hrecv.acked, h.acked]
      rfl
    · have hge := q.offered_ge
      have hle : (fitting s p).length ≤ p.totLen := by
        rw [fitting, List.length_take]
        exact min_le_right _ _
      rw [hrecv.dropped, h.dropped]
      simp only [RxQueue.offer, ← hfit, List.length_append]
      omega

/-- INTERNAL: the polls of a read offer the pbufs of its callbacks to the queue. -/
theorem pollLoop_refines (len : ℤ) (polls : List (List (Option (Pbuf α)))) {q : RxQueue α}
    {s : IPStack α} (h : QueueRefines q s) :
    ∃ s', pollLoop tcpClientRecv IPStack.count len polls s = some s' ∧
      QueueRefines (pollLoop (m := Id) (fun q p => pure (RxQueue.offer q p))
        (fun q => q.items.length) len polls q) s' := by
  have hround : ∀ (round : List (Option (Pbuf α))) (q : RxQueue α) (s : IPStack α),
      QueueRefines q s → ∃ s', round.foldlM tcpClientRecv s = some s' ∧
        QueueRefines (round.foldl RxQueue.offer q) s' := by
    intro round
    induction round with
    | nil => exact fun q s h => ⟨s, rfl, h⟩
    | cons p round ih =>
      intro q s h
      obtain ⟨s₁, hrun₁, h₁⟩ := recv_refines h p
      obtain ⟨s₂, hrun₂, h₂⟩ := ih _ _ h₁
      exact ⟨s₂, by rw [List.foldlM_cons, hrun₁]; exact hrun₂, h₂⟩
  induction polls generalizing q s with
  | nil => exact ⟨s, rfl, h⟩
  | cons round rounds ih =>
    obtain ⟨s₁, hrun₁, h₁⟩ := hround round q s h
    have hspec : pollLoop (m := Id) (fun q p => pure (RxQueue.offer q p))
        (fun q => q.items.length) len (round :: rounds) q =
          if ((round.foldl RxQueue.offer q).items.length : ℤ) < len then
            pollLoop (m := Id) (fun q p => pure (RxQueue.offer q p)) (fun q => q.items.length)
              len rounds (round.foldl RxQueue.offer q)
          else round.foldl RxQueue.offer q := by
      rw [pollLoop, List.foldlM_pure]
      rfl
    rw [hspec]
    simp only [pollLoop, hrun₁, Option.bind_eq_bind, Option.bind_some, h₁.count_eq]
    split
    · exact ih h₁
    · exact ⟨s₁, rfl, h₁⟩

/-- INTERNAL: a read offers the pbufs of its callbacks to the queue, and then takes its first
bytes.
SOURCE: ipstack/IPStack.cpp:200-231 -/
theorem read_refines {len : ℤ} (hlen : 0 ≤ len) (polls : List (List (Option (Pbuf α))))
    {q : RxQueue α} {s : IPStack α} (h : QueueRefines q s) :
    ∃ s₁ s' out, pollLoop tcpClientRecv IPStack.count len polls s = some s₁ ∧
      IPStack.read len polls s = some (s', out, (out.length : ℤ)) ∧
      out.length = min s₁.count len.toNat ∧ Delivers s₁ s' out ∧
      QueueRefines (q.event (.read len polls)) s' := by
  obtain ⟨s₁, hpoll, h₁⟩ := pollLoop_refines len polls h
  obtain ⟨s', out, hcopy, hout, hdel⟩ := readCopy_delivers h₁.inv hlen
  refine ⟨s₁, s', out, hpoll, ?_, hout, hdel, ?_⟩
  · simp only [IPStack.read, hpoll, Option.bind_eq_bind, Option.bind_some, hcopy]
  · have hitems := hdel.contents_eq
    rw [h₁.items] at hitems
    have htake : ∀ xs : List α, xs = out ++ contents s' → xs.length = s₁.count →
        xs.take len.toNat = out ∧ xs.drop len.toNat = contents s' := by
      rintro xs rfl hcount
      obtain hle | hgt := Nat.le_total len.toNat s₁.count
      · exact ⟨List.take_left' (by omega), List.drop_left' (by omega)⟩
      · have hnil : contents s' = [] := by
          rw [← List.length_eq_zero_iff]
          rw [List.length_append] at hcount
          omega
        rw [hnil, List.append_nil] at hcount ⊢
        exact ⟨List.take_of_length_le (by omega), List.drop_of_length_le (by omega)⟩
    obtain ⟨htake, hdrop⟩ := htake _ hitems h₁.count_eq.symm
    refine ⟨hdel.inv, hdrop.symm, hdel.appended.trans h₁.appended, ?_,
      hdel.acked.trans h₁.acked, hdel.dropped.trans h₁.dropped⟩
    rw [hdel.delivered, h₁.delivered, ← htake]
    rfl

/-- The lengths that reads ask for are not negative. -/
def LenNonneg : RxEvent α → Prop
  | .recv _ => True
  | .read len _ => 0 ≤ len

/-- INTERNAL: every run of callbacks and reads exists and refines the queue. -/
theorem run_queue (buffer : Region bufSize α) (events : List (RxEvent α))
    (hlen : ∀ e ∈ events, LenNonneg e) :
    ∃ s, (rxMachine α).run (IPStack.construct buffer) events = some s ∧
      QueueRefines (events.foldl RxQueue.event RxQueue.empty) s := by
  refine (rxMachine α).run_refines RxQueue.event QueueRefines LenNonneg ?_ ?_ hlen
  · intro q s e h he
    cases e with
    | recv p => exact recv_refines h p
    | read len polls =>
      obtain ⟨s₁, s', out, -, hread, -, -, h'⟩ := read_refines he polls h
      exact ⟨s', congrArg (Option.map Prod.fst) hread, h'⟩
  · refine ⟨?_, rfl, rfl, rfl, rfl, rfl⟩
    constructor <;> simp [IPStack.construct, bufSize]

/-- CONTRACT: from the constructor on, no sequence of callbacks and reads leaves the buffer,
and after each of them the indexes belong together, what was delivered and what is unread
are what was appended, and dropped and appended bytes make up the acknowledged ones. The
next callback appends the bytes of its pbuf that fit, and the next read returns the smaller
of the count after its polls and the length asked for.
SOURCE: ipstack/IPStack.cpp:150-231 -/
theorem receive_ring_fifo (buffer : Region bufSize α) (events : List (RxEvent α))
    (hlen : ∀ e ∈ events, LenNonneg e) :
    ∃ s, (rxMachine α).run (IPStack.construct buffer) events = some s ∧
      (s.count ≤ 2048 ∧ s.rd < 2048 ∧ s.wr < 2048 ∧ s.wr = (s.rd + s.count) % 2048) ∧
      s.log.delivered ++ contents s = s.log.appended ∧
      (s.log.appended.length ≤ s.log.acked ∧
        s.dropped = (s.log.acked - s.log.appended.length) % 2 ^ 32) ∧
      (∀ p : Pbuf α, ∃ s', tcpClientRecv s (some p) = some s' ∧
        contents s' = contents s ++ p.payload.take (min (2048 - s.count) p.totLen) ∧
        s'.log.appended = s.log.appended ++ p.payload.take (min (2048 - s.count) p.totLen) ∧
        s'.log.acked = s.log.acked + p.totLen) ∧
      ∀ (len : ℤ) (polls : List (List (Option (Pbuf α)))), 0 ≤ len → ∃ s₁ s' out,
        pollLoop tcpClientRecv IPStack.count len polls s = some s₁ ∧
        IPStack.read len polls s = some (s', out, (out.length : ℤ)) ∧
        (out.length : ℤ) = min (s₁.count : ℤ) len ∧
        contents s₁ = out ++ contents s' ∧ s'.log.delivered = s₁.log.delivered ++ out := by
  obtain ⟨s, hrun, h⟩ := run_queue buffer events hlen
  refine ⟨s, hrun, ⟨h.inv.count_le, h.inv.rd_lt, h.inv.wr_lt, h.inv.wr_eq⟩, ?_, ⟨?_, ?_⟩, ?_, ?_⟩
  · rw [h.delivered, h.items, h.appended]
    exact RxQueue.conserved _
  · rw [h.appended, h.acked]
    exact RxQueue.offered_ge _
  · rw [h.dropped, h.acked, h.appended]
  · intro p
    obtain ⟨s', hrecv, hs'⟩ := tcpClientRecv_receives h.inv p
    have hfit : fitting s p = p.payload.take (min (2048 - s.count) p.totLen) := by
      rw [fitting, List.take_eq_take_iff, bufSize, Pbuf.totLen]
      omega
    rw [← hfit]
    exact ⟨s', hrecv, hs'.contents_eq, hs'.appended, hs'.acked⟩
  · intro len polls hlen
    obtain ⟨s₁, s', out, hpoll, hread, hout, hdel, -⟩ := read_refines hlen polls h
    exact ⟨s₁, s', out, hpoll, hread, by omega, hdel.contents_eq, hdel.delivered⟩

/-- Three bytes received, and a read of five that finds another one in its second poll. -/
theorem receive_ring_fifo_poll :
    ∃ s, (rxMachine Byte).run (IPStack.construct ⟨fun _ => 0#8⟩)
        [.recv (some ⟨[1#8, 2#8, 3#8], by decide⟩),
          .read 5 [[], [some ⟨[4#8], by decide⟩], []]] = some s ∧
      s.log.delivered ++ contents s = s.log.appended := by
  obtain ⟨s, hrun, -, h, -⟩ := receive_ring_fifo ⟨fun _ => 0#8⟩
    [.recv (some ⟨[1#8, 2#8, 3#8], by decide⟩), .read 5 [[], [some ⟨[4#8], by decide⟩], []]]
    (by simp [LenNonneg])
  exact ⟨s, hrun, h⟩

end PicoDrone.Analysis
