import PicoDrone.Analysis.IPStackRing

/-!
# Ownership of the TCP control block

`tcp_pcb` is set by `connect`, cleared by `disconnect` and left alone by the error callback,
although lwIP has freed the pcb by then. The calls into lwIP are made on an allocated pcb,
and no allocated pcb is forgotten (`Safe`), exactly as long as `connect`, `write` and
`disconnect` are called in states that suit them (`PcbCond`).
-/

set_option autoImplicit false

namespace PicoDrone.Analysis

open PicoDrone.Library PicoDrone.Model

variable {α : Type}

/-! ## What the functions do to the pcb -/

/-- INTERNAL: a callback with data leaves `tcp_pcb` alone. -/
theorem tcpClientRecv_tcpPcb {s s' : IPStack α} {p : Option (Pbuf α)}
    (h : tcpClientRecv s p = some s') : s'.tcpPcb = s.tcpPcb := by
  have hdrop : ∀ (p : Pbuf α) (k : ℕ), (recvDrop p k s).tcpPcb = s.tcpPcb := by
    intro p k
    unfold recvDrop
    split <;> rfl
  have hfirst : ∀ (p : Pbuf α) (k e : ℕ) (s : IPStack α) r, recvFirst p k e s = some r →
      r.1.tcpPcb = s.tcpPcb := by
    intro p k e s r hr
    simp only [recvFirst, Option.bind_eq_bind] at hr
    split_ifs at hr
    · obtain ⟨_, -, hr⟩ := Option.bind_eq_some_iff.mp hr
      obtain rfl := Option.some.inj hr
      rfl
    · obtain rfl := Option.some.inj hr
      rfl
    · obtain rfl := Option.some.inj hr
      rfl
  have hrest : ∀ (p : Pbuf α) (k o : ℕ) (s s' : IPStack α), recvRest p k o s = some s' →
      s'.tcpPcb = s.tcpPcb := by
    intro p k o s s' hr
    obtain ⟨_, -, hr⟩ := Option.bind_eq_some_iff.mp hr
    obtain rfl := Option.some.inj hr
    rfl
  cases p with
  | none =>
    obtain rfl := Option.some.inj h
    rfl
  | some p =>
    by_cases hsome : p.totLen > 0
    · simp only [tcpClientRecv, if_pos hsome, Option.bind_eq_bind] at h
      obtain ⟨r, hr, h⟩ := Option.bind_eq_some_iff.mp h
      obtain ⟨s₂, hs₂, h⟩ := Option.bind_eq_some_iff.mp h
      obtain rfl := Option.some.inj h
      exact (hrest _ _ _ _ _ hs₂).trans ((hfirst _ _ _ _ _ hr).trans (hdrop _ _))
    · simp only [tcpClientRecv, if_neg hsome] at h
      obtain rfl := Option.some.inj h
      rfl

/-- INTERNAL: the copy of a read leaves `tcp_pcb` alone. -/
theorem readCopy_tcpPcb {s : IPStack α} {len : ℤ} {r : IPStack α × List α × ℤ}
    (h : readCopy len s = some r) : r.1.tcpPcb = s.tcpPcb := by
  simp only [readCopy, Option.bind_eq_bind] at h
  generalize (if (s.count : ℤ) < len then (s.count : ℤ) else len) = bytesToCopy at h
  split at h
  · split at h
    · obtain ⟨_, -, h⟩ := Option.bind_eq_some_iff.mp h
      obtain ⟨_, -, h⟩ := Option.bind_eq_some_iff.mp h
      obtain rfl := Option.some.inj h
      rfl
    · obtain ⟨_, -, h⟩ := Option.bind_eq_some_iff.mp h
      obtain rfl := Option.some.inj h
      rfl
  · obtain rfl := Option.some.inj h
    rfl

/-- INTERNAL: what every admitted callback keeps, the polls of a read keep. -/
theorem pollLoop_invariant {σ κ : Type} {callback : σ → κ → Option σ} {count : σ → ℕ} {len : ℤ}
    (I : σ → Prop) (P : κ → Prop)
    (hcallback : ∀ s k t, I s → P k → callback s k = some t → I t) {polls : List (List κ)}
    {s t : σ} (hs : I s) (hP : ∀ round ∈ polls, ∀ k ∈ round, P k)
    (h : pollLoop callback count len polls s = some t) : I t := by
  have hround : ∀ (round : List κ) (s t : σ), I s → (∀ k ∈ round, P k) →
      round.foldlM callback s = some t → I t := by
    intro round
    induction round with
    | nil =>
      intro s t hs _ h
      obtain rfl := Option.some.inj h
      exact hs
    | cons k round ih =>
      intro s t hs hP h
      obtain ⟨u, hu, h⟩ := Option.bind_eq_some_iff.mp h
      exact ih u t (hcallback s k u hs (hP k List.mem_cons_self) hu)
        (fun k' hk' => hP k' (List.mem_cons_of_mem k hk')) h
  induction polls generalizing s with
  | nil =>
    obtain rfl := Option.some.inj h
    exact hs
  | cons round rounds ih =>
    obtain ⟨u, hu, h⟩ := Option.bind_eq_some_iff.mp h
    have hIu := hround round s u hs (hP round List.mem_cons_self) hu
    split_ifs at h
    · exact ih hIu (fun r hr => hP r (List.mem_cons_of_mem round hr)) h
    · obtain rfl := Option.some.inj h
      exact hIu

/-- INTERNAL: several calls into lwIP with one pcb. -/
theorem call_all (n : Net α) (pcb : Option ℕ) (fns : List LwipFn) :
    fns.foldl (fun n fn => n.call pcb fn) n =
      { n with calls := n.calls ++ fns.map fun fn => ⟨fn, pcb, n.valid pcb⟩ } := by
  induction fns generalizing n with
  | nil => simp
  | cons fn fns ih =>
    have hvalid : (n.call pcb fn).valid pcb = n.valid pcb := by cases pcb <;> rfl
    rw [List.foldl_cons, ih, hvalid]
    simp [Net.call]

/-! ## The condition -/

/-- Every call was made on an allocated pcb, and every allocated pcb is the one held. -/
structure Safe (n : Net α) : Prop where
  valid : ∀ c ∈ n.calls, c.valid = true
  held : ∀ p ∈ n.live, n.stack.tcpPcb = some p

/-- The calls suit the state: `connect` gets as far as lwIP only when the pcb held, if any,
is freed; `write` is called with an allocated pcb; `disconnect` is not called with a freed
one. -/
def PcbCond (n : Net α) : NetEvent α → Prop
  | .connect addrOk _ _ => addrOk = true → ∀ p, n.stack.tcpPcb = some p → p ∉ n.live
  | .write .. => ∃ p, n.stack.tcpPcb = some p ∧ p ∈ n.live
  | .disconnect _ => ∀ p, n.stack.tcpPcb = some p → p ∈ n.live
  | .read .. => True
  | .callback _ => True

/-- The pcbs allocated so far have smaller numbers than the next one. -/
def Numbered (n : Net α) : Prop := ∀ p ∈ n.live, p < n.next

/-- The objects that differ in their ring, the connected flag and the reads alone, and whose
further calls were all made on allocated pcbs, with no new pcb. -/
structure Harmless (n n' : Net α) : Prop where
  tcpPcb : n'.stack.tcpPcb = n.stack.tcpPcb
  live : ∀ p ∈ n'.live, p ∈ n.live
  next : n'.next = n.next
  calls : (∀ c ∈ n.calls, c.valid = true) → ∀ c ∈ n'.calls, c.valid = true

/-- INTERNAL: a callback is harmless, since lwIP makes it for an allocated pcb.
SOURCE: ipstack/IPStack.cpp:97-197 -/
theorem callback_harmless {n n' : Net α} {c : Callback α} (h : n.callback c = some n') :
    Harmless n n' := by
  cases c with
  | recv pcb p =>
    simp only [Net.callback, Option.bind_eq_bind] at h
    split at h
    · rename_i hlive
      obtain ⟨s, hs, h⟩ := Option.bind_eq_some_iff.mp h
      have hpcb := tcpClientRecv_tcpPcb hs
      cases p with
      | none =>
        obtain rfl := Option.some.inj h
        exact ⟨hpcb, fun _ hp => hp, rfl, fun hc => hc⟩
      | some p =>
        obtain rfl := Option.some.inj h
        split
        · refine ⟨hpcb, fun _ hp => hp, rfl, fun hc c hmem => ?_⟩
          obtain hmem | hmem := List.mem_append.mp hmem
          · exact hc c hmem
          · obtain rfl := List.mem_singleton.mp hmem
            exact decide_eq_true hlive
        · exact ⟨hpcb, fun _ hp => hp, rfl, fun hc => hc⟩
    · cases h
  | err pcb e =>
    simp only [Net.callback, Option.ite_none_right_eq_some, Option.some.injEq] at h
    obtain ⟨-, rfl⟩ := h
    exact ⟨rfl, fun _ hp => List.mem_of_mem_filter hp, rfl, fun hc => hc⟩
  | connected pcb e =>
    simp only [Net.callback, Option.ite_none_right_eq_some, Option.some.injEq] at h
    obtain ⟨-, rfl⟩ := h
    exact ⟨rfl, fun _ hp => hp, rfl, fun hc => hc⟩

theorem Harmless.trans {n n' n'' : Net α} (h : Harmless n n') (h' : Harmless n' n'') :
    Harmless n n'' :=
  ⟨h'.tcpPcb.trans h.tcpPcb, fun p hp => h.live p (h'.live p hp), h'.next.trans h.next,
    fun hc => h'.calls (h.calls hc)⟩

theorem read_harmless {n n' : Net α} {len : ℤ} {polls : List (List (Callback α))}
    (h : n.read len polls = some n') : Harmless n n' := by
  obtain ⟨m, hpoll, h⟩ := Option.bind_eq_some_iff.mp h
  obtain ⟨r, hcopy, h⟩ := Option.bind_eq_some_iff.mp h
  obtain rfl := Option.some.inj h
  have hm := pollLoop_invariant (Harmless n) (fun _ => True)
    (fun _ _ _ hs _ hc => hs.trans (callback_harmless hc))
    ⟨rfl, fun _ hp => hp, rfl, fun hc => hc⟩ (fun _ _ _ _ => trivial) hpoll
  exact hm.trans ⟨readCopy_tcpPcb hcopy, fun _ hp => hp, rfl, fun hc => hc⟩

theorem Harmless.safe {n n' : Net α} (h : Harmless n n') (hn : Safe n) : Safe n' :=
  ⟨h.calls hn.valid, fun p hp => h.tcpPcb.trans (hn.held p (h.live p hp))⟩

theorem valid_iff (n : Net α) (pcb : Option ℕ) :
    n.valid pcb = true ↔ ∃ p, pcb = some p ∧ p ∈ n.live := by
  cases pcb <;> simp [Net.valid]

/-- INTERNAL: some calls with one pcb after good ones are good if and only if the pcb is
allocated. -/
theorem calls_valid_iff {calls : List LwipCall} (hcalls : ∀ c ∈ calls, c.valid = true)
    (pcb : Option ℕ) (v : Bool) (fn : LwipFn) (fns : List LwipFn) :
    (∀ c ∈ calls ++ (fn :: fns).map (fun fn => ⟨fn, pcb, v⟩), c.valid = true) ↔ v = true := by
  constructor
  · intro h
    exact h ⟨fn, pcb, v⟩ (List.mem_append_right _ List.mem_cons_self)
  · intro hv c hc
    obtain hc | hc := List.mem_append.mp hc
    · exact hcalls c hc
    · obtain ⟨_, -, rfl⟩ := List.mem_map.mp hc
      exact hv

/-- INTERNAL: `connect` keeps the property exactly when the pcb held is freed.
SOURCE: ipstack/IPStack.cpp:36-65 -/
theorem connect_safe_iff {n : Net α} (hnum : Numbered n) (hn : Safe n) (addrOk alloc : Bool)
    (err : Err) :
    Safe (n.connect addrOk alloc err).1 ↔ PcbCond n (.connect addrOk alloc err) := by
  cases addrOk with
  | false => exact ⟨fun _ h => (by cases h), fun _ => hn⟩
  | true =>
    cases alloc with
    | false =>
      -- `tcp_pcb` becomes null
      constructor
      · intro h _ p hp hlive
        cases h.held p hlive
      · intro h
        refine ⟨hn.valid, fun p hp => ?_⟩
        exact absurd hp (h rfl p (hn.held p hp))
    | true =>
      have hconn : (n.connect true true err).1 =
          { n.setPcb (some n.next) with
            live := n.next :: n.live
            next := n.next + 1
            calls := n.calls ++ [.tcpArg, .tcpPoll, .tcpSent, .tcpRecv, .tcpErr,
              .tcpConnect].map fun fn => ⟨fn, some n.next, true⟩ } := by
        simp only [Net.connect, Bool.not_true, Bool.false_eq_true, if_false, call_all]
        simp [Net.valid, Net.setPcb]
      rw [hconn]
      constructor
      · intro h _ p hp hlive
        have hsame := h.held p (List.mem_cons_of_mem _ hlive)
        have hlt := hnum p hlive
        rw [Option.some.inj hsame] at hlt
        exact lt_irrefl _ hlt
      · intro h
        refine ⟨(calls_valid_iff hn.valid _ true _ _).mpr rfl, fun p hp => ?_⟩
        obtain rfl | hp := List.mem_cons.mp hp
        · rfl
        · exact absurd hp (h rfl p (hn.held p hp))

/-- INTERNAL: `write` keeps the property exactly when it finds an allocated pcb.
SOURCE: ipstack/IPStack.cpp:233-256 -/
theorem write_safe_iff {n : Net α} (hn : Safe n) (len : ℤ) (writeErr outputErr : Err) :
    Safe (n.write len writeErr outputErr).1 ↔ PcbCond n (.write len writeErr outputErr) := by
  have hwrite : (n.write len writeErr outputErr).1 = { n with
      calls := n.calls ++ [.tcpWrite, .tcpOutput].map fun fn =>
        ⟨fn, n.stack.tcpPcb, n.valid n.stack.tcpPcb⟩ } :=
    call_all n n.stack.tcpPcb [.tcpWrite, .tcpOutput]
  rw [hwrite, PcbCond, ← valid_iff]
  have hcalls := calls_valid_iff hn.valid n.stack.tcpPcb (n.valid n.stack.tcpPcb) .tcpWrite
    [.tcpOutput]
  exact ⟨fun h => hcalls.mp h.valid, fun h => ⟨hcalls.mpr h, hn.held⟩⟩

/-- INTERNAL: `disconnect` keeps the property exactly when the pcb held is allocated.
SOURCE: ipstack/IPStack.cpp:258-278 -/
theorem disconnect_safe_iff {n : Net α} (hn : Safe n) (err : Err) :
    Safe (n.disconnect err).1 ↔ PcbCond n (.disconnect err) := by
  cases hpcb : n.stack.tcpPcb with
  | none =>
    have hsame : (n.disconnect err).1 = n := by simp only [Net.disconnect, hpcb]
    rw [hsame]
    refine ⟨fun _ p hp => ?_, fun _ => hn⟩
    rw [hpcb] at hp
    cases hp
  | some p =>
    obtain ⟨fns, hdisc⟩ : ∃ fns, (n.disconnect err).1 =
        { (n.free p).setPcb none with
          calls := n.calls ++ (LwipFn.tcpArg :: fns).map fun fn =>
            ⟨fn, some p, n.valid (some p)⟩ } := by
      by_cases herr : err = errOk
      · refine ⟨[.tcpPoll, .tcpSent, .tcpRecv, .tcpErr, .tcpClose], ?_⟩
        simp only [Net.disconnect, hpcb, call_all, herr, ne_eq, not_true_eq_false, if_false]
        rfl
      · refine ⟨[.tcpPoll, .tcpSent, .tcpRecv, .tcpErr, .tcpClose, .tcpAbort], ?_⟩
        simp only [Net.disconnect, hpcb, call_all, ne_eq, herr, not_false_eq_true, if_true]
        simp [Net.call, Net.free, Net.setPcb, Net.valid]
    have hcond : PcbCond n (.disconnect err) ↔ n.valid (some p) = true := by
      rw [valid_iff]
      constructor
      · exact fun h => ⟨p, rfl, h p hpcb⟩
      · rintro ⟨q, hq, hlive⟩ q' hq'
        rw [hpcb, hq] at hq'
        exact Option.some.inj hq' ▸ hlive
    rw [hdisc, hcond]
    have hcalls := calls_valid_iff hn.valid (some p) (n.valid (some p)) .tcpArg fns
    refine ⟨fun h => hcalls.mp h.valid, fun h => ⟨hcalls.mpr h, fun q hq => ?_⟩⟩
    -- the only pcb that was allocated is the one freed
    obtain ⟨hq, hne⟩ := List.mem_filter.mp hq
    have hsame := hn.held q hq
    rw [hpcb] at hsame
    simp [Option.some.inj hsame] at hne

/-- INTERNAL: no step allocates a pcb with a number that was given out before. -/
theorem step_numbered {n n' : Net α} {e : NetEvent α} (h : Numbered n)
    (hs : (netMachine α).step n e = some n') : Numbered n' := by
  have hharmless : ∀ {n n' : Net α}, Harmless n n' → Numbered n → Numbered n' := by
    intro n n' hh hn p hp
    rw [hh.next]
    exact hn p (hh.live p hp)
  cases e with
  | connect addrOk alloc err =>
    obtain rfl := Option.some.inj hs
    cases addrOk with
    | false => exact h
    | true =>
      cases alloc with
      | false => exact h
      | true =>
        intro p hp
        simp only [Net.connect, Bool.not_true, Bool.false_eq_true, if_false, call_all] at hp ⊢
        obtain rfl | hp := List.mem_cons.mp hp
        · exact Nat.lt_succ_self _
        · exact Nat.lt_succ_of_lt (h p hp)
  | write len writeErr outputErr =>
    obtain rfl := Option.some.inj hs
    exact h
  | read len polls => exact hharmless (read_harmless hs) h
  | disconnect err =>
    obtain rfl := Option.some.inj hs
    intro p hp
    unfold Net.disconnect at hp ⊢
    split at hp
    · exact h p hp
    · dsimp only at hp ⊢
      rw [call_all] at hp ⊢
      split_ifs at hp ⊢
      · exact h p (List.mem_of_mem_filter hp)
      · exact h p (List.mem_of_mem_filter hp)
  | callback c => exact hharmless (callback_harmless hs) h

/-- CONTRACT: in a run from the constructor, all calls into lwIP were made on an allocated
pcb and no allocated pcb is forgotten, at every state, if and only if every step meets the
condition.
SOURCE: ipstack/IPStack.cpp:36-278 -/
theorem pcb_ownership_iff (buffer : Region bufSize α) (events : List (NetEvent α)) (n : Net α)
    (hrun : (netMachine α).run (Net.start buffer) events = some n) :
    (netMachine α).Always Safe (Net.start buffer) events ↔
      (netMachine α).Along PcbCond (Net.start buffer) events := by
  refine (netMachine α).always_iff_along Numbered Safe PcbCond (fun _ _ _ => step_numbered) ?_
    (fun p hp => by cases hp) ⟨fun c hc => (by cases hc), fun p hp => (by cases hp)⟩ hrun
  intro n e n' hnum hn hs
  cases e with
  | connect addrOk alloc err =>
    obtain rfl := Option.some.inj hs
    exact connect_safe_iff hnum hn addrOk alloc err
  | write len writeErr outputErr =>
    obtain rfl := Option.some.inj hs
    exact write_safe_iff hn len writeErr outputErr
  | read len polls => exact ⟨fun _ => trivial, fun _ => (read_harmless hs).safe hn⟩
  | disconnect err =>
    obtain rfl := Option.some.inj hs
    exact disconnect_safe_iff hn err
  | callback c => exact ⟨fun _ => trivial, fun _ => (callback_harmless hs).safe hn⟩

theorem pcb_ownership_session :
    ∃ n, (netMachine Byte).run (Net.start ⟨fun _ => 0#8⟩)
        [.connect true true errOk, .write 3 errOk errOk, .disconnect errOk] = some n ∧
      ((netMachine Byte).Always Safe (Net.start ⟨fun _ => 0#8⟩)
          [.connect true true errOk, .write 3 errOk errOk, .disconnect errOk] ↔
        (netMachine Byte).Along PcbCond (Net.start ⟨fun _ => 0#8⟩)
          [.connect true true errOk, .write 3 errOk errOk, .disconnect errOk]) :=
  ⟨_, rfl, pcb_ownership_iff ⟨fun _ => 0#8⟩ [.connect true true errOk, .write 3 errOk errOk,
    .disconnect errOk] _ rfl⟩

/-- A connection that the peer resets, and that is then closed: `disconnect` calls into lwIP
with the freed pcb. -/
theorem reset_then_disconnect :
    ∃ n, (netMachine Byte).run (Net.start ⟨fun _ => 0#8⟩)
        [.connect true true errOk, .callback (.err 0 (-14)), .disconnect errOk] = some n ∧
      (⟨.tcpClose, some 0, false⟩ : LwipCall) ∈ n.calls ∧ ¬ Safe n := by
  have hcall : (⟨.tcpClose, some 0, false⟩ : LwipCall) ∈
      [⟨.tcpArg, some 0, true⟩, ⟨.tcpPoll, some 0, true⟩, ⟨.tcpSent, some 0, true⟩,
        ⟨.tcpRecv, some 0, true⟩, ⟨.tcpErr, some 0, true⟩, ⟨.tcpConnect, some 0, true⟩,
        ⟨.tcpArg, some 0, false⟩, ⟨.tcpPoll, some 0, false⟩, ⟨.tcpSent, some 0, false⟩,
        ⟨.tcpRecv, some 0, false⟩, ⟨.tcpErr, some 0, false⟩, ⟨.tcpClose, some 0, false⟩] := by
    decide
  exact ⟨_, rfl, hcall, fun h => absurd (h.valid _ hcall) (by decide)⟩

end PicoDrone.Analysis
