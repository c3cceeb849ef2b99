import PicoDrone.Analysis.IPStackPcb

/-!
# Sessions

A run in which every received byte carries the number of the connection it was received on.
`connect` and `disconnect` leave the receive ring as it is, so bytes that a session did not
read are delivered to the next one (`leftover_delivered`). If every `connect` finds the ring
empty, each read delivers bytes of its own session alone (`session_isolation`).
-/

set_option autoImplicit false

namespace PicoDrone.Analysis

open PicoDrone.Library PicoDrone.Model

/-- A byte with the number of the pcb it was received on. -/
abbrev SessionByte := ℕ × Byte

/-- The data of a callback carries its connection, and comes in on no other pcb than the one that
the object holds: a pcb that an earlier `connect` has left allocated may still be there. -/
def Tagged (n : Net SessionByte) : Callback SessionByte → Prop
  | .recv pcb (some p) =>
    (pcb ∈ n.live → n.stack.tcpPcb = some pcb) ∧ ∀ x ∈ p.payload, x.1 = pcb
  | _ => True

/-- The steps of a run made of sessions: nothing is received but on the connection that is open,
and the bytes carry it. -/
def SessionStep (n : Net SessionByte) : NetEvent SessionByte → Prop
  | .read len polls => 0 ≤ len ∧ ∀ round ∈ polls, ∀ c ∈ round, Tagged n c
  | .callback c => Tagged n c
  | _ => True

/-- A connection is opened with an empty ring. -/
def EmptyAtConnect (n : Net SessionByte) : NetEvent SessionByte → Prop
  | .connect addrOk _ _ => addrOk = true → n.stack.count = 0
  | _ => True

/-- Each read that was made with a connection open delivered bytes of that connection. -/
def Isolated (n : Net SessionByte) : Prop :=
  ∀ r ∈ n.reads, ∀ p, r.1 = some p → ∀ x ∈ r.2, x.1 = p

/-- The unread bytes belong to the connection that is open. -/
structure SessionInv (n : Net SessionByte) : Prop where
  ring : RingInv n.stack
  own : ∀ p, n.stack.tcpPcb = some p → ∀ x ∈ contents n.stack, x.1 = p
  isolated : Isolated n

/-- INTERNAL: a callback appends bytes of the open connection. -/
theorem callback_sessionInv {n n' : Net SessionByte} {c : Callback SessionByte}
    (h : SessionInv n) (hc : Tagged n c) (hs : n.callback c = some n') : SessionInv n' := by
  cases c with
  | recv pcb p =>
    simp only [Net.callback, Option.bind_eq_bind] at hs
    split at hs
    · rename_i hlive
      cases p with
      | none =>
        obtain rfl := Option.some.inj hs
        exact ⟨h.ring, h.own, h.isolated⟩
      | some p =>
        obtain ⟨hheld, htag⟩ := hc
        obtain ⟨s, hrecv, hr⟩ := tcpClientRecv_receives h.ring p
        rw [hrecv, Option.bind_some] at hs
        obtain rfl := Option.some.inj hs
        have hown : ∀ q, s.tcpPcb = some q → ∀ x ∈ contents s, x.1 = q := by
          intro q hq x hx
          rw [hr.tcpPcb] at hq
          rw [hr.contents_eq] at hx
          obtain hx | hx := List.mem_append.mp hx
          · exact h.own q hq x hx
          · have hpcb := hheld hlive
            rw [hq] at hpcb
            rw [Option.some.inj hpcb]
            exact htag x (List.mem_of_mem_take hx)
        by_cases hsome : p.totLen > 0
        · rw [if_pos hsome]
          exact ⟨hr.inv, hown, h.isolated⟩
        · rw [if_neg hsome]
          exact ⟨hr.inv, hown, h.isolated⟩
    · cases hs
  | err pcb e =>
    simp only [Net.callback, Option.ite_none_right_eq_some, Option.some.injEq] at hs
    obtain ⟨-, rfl⟩ := hs
    exact ⟨h.ring, h.own, h.isolated⟩
  | connected pcb e =>
    simp only [Net.callback, Option.ite_none_right_eq_some, Option.some.injEq] at hs
    obtain ⟨-, rfl⟩ := hs
    exact ⟨h.ring.frame _ true _, h.own, h.isolated⟩

/-- INTERNAL: what a callback may bring stays so in callbacks that come before it. -/
theorem Tagged.of_harmless {n m : Net SessionByte} {c : Callback SessionByte} (hc : Tagged n c)
    (h : Harmless n m) : Tagged m c := by
  cases c with
  | recv pcb p =>
    cases p with
    | none => trivial
    | some p => exact ⟨fun hlive => h.tcpPcb.trans (hc.1 (h.live pcb hlive)), hc.2⟩
  | err pcb e => trivial
  | connected pcb e => trivial

/-- INTERNAL: a read delivers bytes of the open connection.
SOURCE: ipstack/IPStack.cpp:200-231 -/
theorem read_sessionInv {n n' : Net SessionByte} {len : ℤ}
    {polls : List (List (Callback SessionByte))} (h : SessionInv n) (hlen : 0 ≤ len)
    (hpolls : ∀ round ∈ polls, ∀ c ∈ round, Tagged n c) (hs : n.read len polls = some n') :
    SessionInv n' := by
  obtain ⟨m, hpoll, hs⟩ := Option.bind_eq_some_iff.mp hs
  have hm := (pollLoop_invariant (fun m => SessionInv m ∧ Harmless n m) (Tagged n)
    (fun _ _ _ hm hc ht => ⟨callback_sessionInv hm.1 (hc.of_harmless hm.2) ht,
      hm.2.trans (callback_harmless ht)⟩)
    ⟨h, rfl, fun _ hp => hp, rfl, fun hc => hc⟩ hpolls hpoll).1
  obtain ⟨s', out, hcopy, -, hdel⟩ := readCopy_delivers hm.ring hlen
  rw [hcopy, Option.bind_eq_bind, Option.bind_some] at hs
  obtain rfl := Option.some.inj hs
  have hout : ∀ p, m.stack.tcpPcb = some p → ∀ x ∈ out ++ contents s', x.1 = p := by
    rw [← hdel.contents_eq]
    exact hm.own
  refine ⟨hdel.inv, ?_, ?_⟩
  · intro p hp x hx
    exact hout p (hdel.tcpPcb.symm.trans hp) x (List.mem_append_right out hx)
  · intro r hr p hp x hx
    obtain hr | hr := List.mem_append.mp hr
    · exact hm.isolated r hr p hp x hx
    · obtain rfl := List.mem_singleton.mp hr
      exact hout p hp x (List.mem_append_left _ hx)

/-- INTERNAL: every step of a run made of sessions keeps the invariant if connections are
opened with an empty ring. -/
theorem step_sessionInv {n n' : Net SessionByte} {e : NetEvent SessionByte} (h : SessionInv n)
    (he : SessionStep n e ∧ EmptyAtConnect n e)
    (hs : (netMachine SessionByte).step n e = some n') : SessionInv n' := by
  cases e with
  | connect addrOk alloc err =>
    obtain rfl := Option.some.inj hs
    cases addrOk with
    | false => exact h
    | true =>
      have hcount : n.stack.count = 0 := he.2 rfl
      have hempty : contents n.stack = [] := by
        rw [contents, hcount]
        rfl
      cases alloc with
      | false => exact ⟨h.ring.frame none _ _, fun p hp => (by cases hp), h.isolated⟩
      | true =>
        simp only [Net.connect, Bool.not_true, Bool.false_eq_true, if_false, call_all]
        refine ⟨h.ring.frame _ _ _, fun p _ x hx => ?_, h.isolated⟩
        change x ∈ contents n.stack at hx
        rw [hempty] at hx
        cases hx
  | write len writeErr outputErr =>
    obtain rfl := Option.some.inj hs
    exact ⟨h.ring, h.own, h.isolated⟩
  | read len polls => exact read_sessionInv h he.1.1 he.1.2 hs
  | disconnect err =>
    obtain rfl := Option.some.inj hs
    unfold Net.disconnect
    split
    · exact h
    · dsimp only
      rw [call_all]
      split_ifs
      · exact ⟨h.ring.frame none _ _, fun q hq => (by cases hq), h.isolated⟩
      · exact ⟨h.ring.frame none _ _, fun q hq => (by cases hq), h.isolated⟩
  | callback c => exact callback_sessionInv h he.1 hs

/-- CONTRACT: in a run of sessions in which every `connect` finds the ring empty, and nothing comes
in on a pcb that an earlier `connect` has left allocated, each read between a `connect` and the
next `disconnect` delivers bytes received on that connection alone.
SOURCE: ipstack/IPStack.cpp:36-278 -/
theorem session_isolation (buffer : Region bufSize SessionByte)
    (events : List (NetEvent SessionByte)) (n : Net SessionByte)
    (hsessions : (netMachine SessionByte).Along SessionStep (Net.start buffer) events)
    (hempty : (netMachine SessionByte).Along EmptyAtConnect (Net.start buffer) events)
    (hrun : (netMachine SessionByte).run (Net.start buffer) events = some n) : Isolated n := by
  have hstart : SessionInv (Net.start buffer) := by
    refine ⟨?_, fun p hp => (by cases hp), fun r hr => (by cases hr)⟩
    constructor <;> simp [Net.start, IPStack.construct, bufSize]
  exact ((netMachine SessionByte).run_invariant_along SessionInv
    (fun n e => SessionStep n e ∧ EmptyAtConnect n e) (fun _ _ _ => step_sessionInv) hstart
    (hsessions.and hempty) hrun).isolated

/-- Two bytes received on the first connection. -/
def firstBytes : Callback SessionByte := .recv 0 (some ⟨[(0, 0x61#8), (0, 0x62#8)], by decide⟩)

theorem firstBytes_tagged {n : Net SessionByte} (h : n.stack.tcpPcb = some 0) :
    Tagged n firstBytes :=
  ⟨fun _ => h, by simp⟩

/-- A session that reads both bytes, a connection that fails, and the next one. -/
theorem session_isolation_next :
    ∃ n, (netMachine SessionByte).run (Net.start ⟨fun _ => (0, 0#8)⟩)
        [.connect true true errOk, .callback firstBytes, .read 5 [], .disconnect errOk,
          .connect true true errMem, .connect true true errOk, .read 5 []] = some n ∧
      Isolated n := by
  refine ⟨_, rfl, session_isolation ⟨fun _ => (0, 0#8)⟩
    [.connect true true errOk, .callback firstBytes, .read 5 [], .disconnect errOk,
      .connect true true errMem, .connect true true errOk, .read 5 []] _ ?_ ?_ rfl⟩
  · refine Machine.along_cons _ trivial rfl (Machine.along_cons _ (firstBytes_tagged rfl) rfl
      (Machine.along_cons _ ⟨by decide, fun _ h => (by cases h)⟩ rfl (Machine.along_cons _ trivial
        rfl (Machine.along_cons _ trivial rfl (Machine.along_cons _ trivial rfl
          (Machine.along_cons _ ⟨by decide, fun _ h => (by cases h)⟩ rfl trivial))))))
  · refine Machine.along_cons _ (fun _ => rfl) rfl (Machine.along_cons _ trivial rfl
      (Machine.along_cons _ trivial rfl (Machine.along_cons _ trivial rfl
        (Machine.along_cons _ (fun _ => rfl) rfl (Machine.along_cons _ (fun _ => rfl) rfl
          (Machine.along_cons _ trivial rfl trivial))))))

/-- The first session reads one byte only: the other one is delivered to the second session. -/
theorem leftover_delivered :
    ∃ n, (netMachine SessionByte).run (Net.start ⟨fun _ => (0, 0#8)⟩)
        [.connect true true errOk, .callback firstBytes, .read 1 [], .disconnect errOk,
          .connect true true errOk, .read 5 []] = some n ∧
      (netMachine SessionByte).Along SessionStep (Net.start ⟨fun _ => (0, 0#8)⟩)
        [.connect true true errOk, .callback firstBytes, .read 1 [], .disconnect errOk,
          .connect true true errOk, .read 5 []] ∧ ¬ Isolated n := by
  refine ⟨_, rfl, ?_, ?_⟩
  · exact Machine.along_cons _ trivial rfl (Machine.along_cons _ (firstBytes_tagged rfl) rfl
      (Machine.along_cons _ ⟨by decide, fun _ h => (by cases h)⟩ rfl (Machine.along_cons _ trivial
        rfl (Machine.along_cons _ trivial rfl (Machine.along_cons _
          ⟨by decide, fun _ h => (by cases h)⟩ rfl trivial)))))
  · intro h
    have hbad := h (some 1, [(0, 0x62#8)]) (by decide) 1 rfl (0, 0x62#8) (by decide)
    exact absurd hbad (by decide)

end PicoDrone.Analysis
