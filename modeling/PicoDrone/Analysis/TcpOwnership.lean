import PicoDrone.Model.TcpServer

/-!
# Who frees a connection state

Receiving, acknowledgements and the poll timer end a connection through the close routine
while its pcb is alive, and that frees the state and the pcb once. The error callback is
entered with the pcb gone: for `ERR_ABRT` it leaves the state allocated, for any other code
it calls lwIP on the freed pcb (`tcp_states_owned_iff`).
-/

set_option autoImplicit false

namespace PicoDrone.Analysis

open PicoDrone.Library PicoDrone.Model

variable {c d : Connection}

/-- The state is allocated exactly as long as the pcb is, was freed once when the pcb is gone,
and nothing was used or freed after it was freed. -/
structure Owned (c : Connection) : Prop where
  alive : c.pcbFreed = false → c.frees = 0
  ended : c.pcbFreed = true → c.frees = 1
  faults : c.faults = []

/-- The event is not the error callback. -/
def NoErrorCallback (_ : Connection) : PcbEvent → Prop
  | .err _ _ => False
  | _ => True

/-! ## An open connection -/

/-- The pcb and the state are both allocated. -/
structure Alive (c : Connection) : Prop where
  pcb : c.pcbFreed = false
  state : c.frees = 0

theorem Owned.alive' (h : Owned c) (hpcb : c.pcbFreed = false) : Alive c := ⟨hpcb, h.alive hpcb⟩

theorem call_of_alive (h : c.pcbFreed = false) : c.call = c := by
  unfold Connection.call
  rw [if_neg (by rw [h]; decide)]

theorem touch_of_alive (h : c.frees = 0) : c.touch = c := if_pos h

/-- A connection after the close routine. -/
def Connection.closed (c : Connection) (err : Err) : Connection :=
  { c with
    frees := 1
    pcbFreed := true
    callbacks := ⟨false, false, false, false, false⟩
    unacked := if err = errOk then c.unacked else [] }

/-- INTERNAL: the close routine frees the state and the pcb, whatever `tcp_close` returns.
SOURCE: src/Network/tcpserver.cpp:117-136 -/
theorem close_of_alive (h : Alive c) (err closeErr : Err) :
    (c.tcpCloseClientConnection err closeErr).2 = Connection.closed c err := by
  obtain ⟨state, frees, pcbFreed, callbacks, unacked, faults⟩ := c
  obtain ⟨rfl, rfl⟩ : pcbFreed = false ∧ frees = 0 := ⟨h.pcb, h.state⟩
  by_cases herr : err = errOk
  · simp only [Connection.tcpCloseClientConnection, Connection.tcpClose, Connection.closed,
      ne_eq, herr, not_true_eq_false, if_false, if_true]
    rfl
  · simp only [Connection.tcpCloseClientConnection, Connection.tcpClose, Connection.closed,
      ne_eq, herr, not_false_eq_true, if_true, if_false]
    rfl

/-! ## The callbacks -/

/-- What a callback makes of a connection that was open: it stays open or goes through the close
routine once. -/
inductive Handled (c : Connection) : Connection → Prop
  | goesOn (s : ConState) (u : List Ref) : Handled c { c with state := s, unacked := u }
  | ends (s : ConState) (u : List Ref) (err : Err) :
      Handled c (Connection.closed { c with state := s, unacked := u } err)

/-- INTERNAL: what is written and queued first does not matter. -/
theorem Handled.of_update {s : ConState} {u : List Ref}
    (h : Handled { c with state := s, unacked := u } d) : Handled c d := by
  cases h with
  | goesOn s' u' => exact Handled.goesOn s' u'
  | ends s' u' err => exact Handled.ends s' u' err

theorem Handled.owned (h : Owned c) (hopen : c.pcbFreed = false) (hd : Handled c d) : Owned d := by
  cases hd with
  | goesOn s u =>
    refine ⟨fun _ => h.alive hopen, fun hpcb => ?_, h.faults⟩
    cases hopen.symm.trans hpcb
  | ends s u err => exact ⟨fun hpcb => (by cases hpcb), fun _ => rfl, h.faults⟩

theorem close_handled (h : Alive c) (err closeErr : Err) :
    Handled c (c.tcpCloseClientConnection err closeErr).2 := by
  rw [close_of_alive h]
  exact Handled.ends c.state c.unacked err

theorem sent_handled (h : Alive c) (closed : Err) (len : ℕ) :
    Handled c (c.tcpServerSent closed len).2 := by
  unfold Connection.tcpServerSent
  rw [touch_of_alive h.state]
  dsimp only
  split
  · have halive : Alive { c with state := { c.state with sentLen := c.state.sentLen + len } } :=
      ⟨h.pcb, h.state⟩
    exact (close_handled halive closed errOk).of_update
  · exact Handled.goesOn _ _

/-- The connection with `sent_len` set back to zero. -/
def Connection.rewind (c : Connection) : Connection :=
  { c with state := { c.state with sentLen := 0 } }

/-- The connection with the first bytes of a buffer queued. -/
def Connection.queue (c : Connection) (buffer : Buffer) (len : ℕ) : Connection :=
  { c with unacked := c.unacked ++ c.refs buffer len }

theorem Alive.queue (h : Alive c) (buffer : Buffer) (len : ℕ) :
    Alive (Connection.queue c buffer len) := ⟨h.pcb, h.state⟩

theorem write_of_alive (h : Alive c) (err : Err) (buffer : Buffer) (len : ℕ) :
    c.tcpWrite err buffer len = if err = errOk then Connection.queue c buffer len else c := by
  unfold Connection.tcpWrite
  rw [call_of_alive h.pcb]
  rfl

/-- INTERNAL: the three ways through the two writes.
SOURCE: src/Network/tcpserver.cpp:239-257 -/
theorem send_cases (h : Alive c) (w : Outcomes) :
    w.headers ≠ errOk ∧ (c.send w).2 = Connection.closed (Connection.rewind c) w.closed ∨
      w.headers = errOk ∧ w.result ≠ errOk ∧ (c.send w).2 = Connection.closed
        (Connection.queue (Connection.rewind c) .headers c.state.headerLen) w.closed ∨
      (c.send w).2 = Connection.queue
        (Connection.queue (Connection.rewind c) .headers c.state.headerLen) .result
        c.state.resultLen := by
  have hrewind : Alive (Connection.rewind c) := ⟨h.pcb, h.state⟩
  have hsend : c.send w =
      let c1 := (Connection.rewind c).tcpWrite w.headers .headers c.state.headerLen
      if w.headers ≠ errOk then c1.tcpCloseClientConnection w.closed w.headers
      else if c1.state.resultLen ≠ 0 then
        let c2 := c1.tcpWrite w.result .result c1.state.resultLen
        if w.result ≠ errOk then c2.tcpCloseClientConnection w.closed w.result
        else (errOk, c2.tcpRecved)
      else (errOk, c1.tcpRecved) := rfl
  rw [hsend, write_of_alive hrewind]
  by_cases hh : w.headers = errOk
  · have hqueue := hrewind.queue .headers c.state.headerLen
    simp only [hh, if_true, ne_eq, not_true_eq_false, if_false, write_of_alive hqueue]
    have hlen : (Connection.queue (Connection.rewind c) .headers c.state.headerLen).state.resultLen
        = c.state.resultLen := rfl
    rw [hlen]
    by_cases hzero : c.state.resultLen = 0
    · refine Or.inr (Or.inr ?_)
      have hnone : ∀ e : Connection, Connection.queue e .result 0 = e := by
        intro e
        simp [Connection.queue, Connection.refs]
      simp only [hzero, not_true_eq_false, if_false, hnone]
      exact call_of_alive hqueue.pcb
    · by_cases hr : w.result = errOk
      · refine Or.inr (Or.inr ?_)
        simp only [hzero, hr, not_false_eq_true, not_true_eq_false, if_true, if_false]
        exact call_of_alive (hqueue.queue .result _).pcb
      · refine Or.inr (Or.inl ⟨trivial, hr, ?_⟩)
        simp only [hzero, hr, not_false_eq_true, if_true, if_false]
        exact close_of_alive hqueue _ _
  · refine Or.inl ⟨hh, ?_⟩
    simp only [hh, ne_eq, not_false_eq_true, if_true, if_false]
    exact close_of_alive hrewind _ _

theorem send_handled (h : Alive c) (w : Outcomes) : Handled c (c.send w).2 := by
  obtain ⟨-, hsend⟩ | ⟨-, -, hsend⟩ | hsend := send_cases h w
  · rw [hsend]
    exact Handled.ends _ c.unacked w.closed
  · rw [hsend]
    exact Handled.ends _ _ w.closed
  · rw [hsend]
    exact Handled.goesOn _ _

/-- INTERNAL: the four ways through the answer to a request.
SOURCE: src/Network/tcpserver.cpp:217-255 -/
theorem respond_cases (pages : Pages) (w : Outcomes) (c : Connection) :
    c.respond pages w = (c.generate pages).tcpCloseClientConnection w.closed errClsd ∨
      (c.generate pages).state.resultLen = 0 ∧ c.respond pages w = (c.generate pages).send w ∨
      c.respond pages w =
        (c.generate pages).generateHeaders.tcpCloseClientConnection w.closed errClsd ∨
      0 < (c.generate pages).state.resultLen ∧
        c.respond pages w = (c.generate pages).generateHeaders.send w := by
  unfold Connection.respond
  dsimp only
  split
  · exact Or.inl rfl
  · split
    · rename_i hpos
      split
      · exact Or.inr (Or.inr (Or.inl rfl))
      · exact Or.inr (Or.inr (Or.inr ⟨hpos, rfl⟩))
    · rename_i hpos
      exact Or.inr (Or.inl ⟨Nat.eq_zero_of_not_pos hpos, rfl⟩)

theorem generate_eq (pages : Pages) (c : Connection) :
    c.generate pages = { c with state := (c.generate pages).state } := by
  simp only [Connection.generate]

theorem generateHeaders_eq (c : Connection) :
    c.generateHeaders = { c with state := c.generateHeaders.state } := by
  simp only [Connection.generateHeaders]

theorem Alive.generate (h : Alive c) (pages : Pages) : Alive (c.generate pages) := by
  rw [generate_eq]
  exact ⟨h.pcb, h.state⟩

theorem Alive.generateHeaders (h : Alive c) : Alive c.generateHeaders := by
  rw [generateHeaders_eq]
  exact ⟨h.pcb, h.state⟩

theorem respond_handled (h : Alive c) (pages : Pages) (w : Outcomes) :
    Handled c (c.respond pages w).2 := by
  have hgen := h.generate pages
  have hhead := hgen.generateHeaders
  have of_gen : ∀ {d : Connection}, Handled (c.generate pages) d → Handled c d := by
    intro d hd
    rw [generate_eq] at hd
    exact hd.of_update
  have of_head : ∀ {d : Connection}, Handled (c.generate pages).generateHeaders d →
      Handled c d := by
    intro d hd
    rw [generateHeaders_eq] at hd
    exact of_gen hd.of_update
  obtain hr | ⟨-, hr⟩ | hr | ⟨-, hr⟩ := respond_cases pages w c
  · rw [hr]
    exact of_gen (close_handled hgen _ _)
  · rw [hr]
    exact of_gen (send_handled hgen w)
  · rw [hr]
    exact of_head (close_handled hhead _ _)
  · rw [hr]
    exact of_head (send_handled hhead w)

theorem receive_alive (h : Alive c) (bytes : List Byte) : Alive (c.receive bytes) := by
  unfold Connection.receive
  rw [touch_of_alive h.state]
  exact ⟨h.pcb, h.state⟩

/-- INTERNAL: the ways through `tcp_server_recv`.
SOURCE: src/Network/tcpserver.cpp:193-259 -/
theorem recv_handled (h : Alive c) (pages : Pages) (w : Outcomes) (p : Option (List Byte)) :
    Handled c (c.tcpServerRecv pages w p).2 := by
  cases p with
  | none => exact close_handled h _ _
  | some bytes =>
    have hreceive := receive_alive h bytes
    have hupdate : c.receive bytes = { c with state := (c.receive bytes).state } := by
      simp only [Connection.receive, touch_of_alive h.state]
    simp only [Connection.tcpServerRecv]
    split
    · rw [hupdate] at hreceive ⊢
      split
      · exact (respond_handled hreceive pages w).of_update
      · rw [Connection.tcpRecved, call_of_alive hreceive.pcb]
        exact Handled.goesOn _ _
    · exact Handled.goesOn _ _

/-- INTERNAL: every function of lwIP that the close routine calls on a freed pcb is recorded.
SOURCE: src/Network/tcpserver.cpp:117-136 -/
theorem close_of_freed (hpcb : c.pcbFreed = true) (hstate : c.frees = 0) (err closeErr : Err) :
    .freedPcb ∈ (c.tcpCloseClientConnection err closeErr).2.faults ∧
      (c.tcpCloseClientConnection err closeErr).2.pcbFreed = true ∧
      (c.tcpCloseClientConnection err closeErr).2.unacked =
        if err = errOk then c.unacked else [] := by
  obtain ⟨state, frees, pcbFreed, callbacks, unacked, faults⟩ := c
  obtain ⟨rfl, rfl⟩ : pcbFreed = true ∧ frees = 0 := ⟨hpcb, hstate⟩
  by_cases herr : err = errOk
  · simp only [Connection.tcpCloseClientConnection, Connection.tcpClose, ne_eq, herr,
      not_true_eq_false, if_false, if_true]
    exact ⟨List.mem_append_right _ List.mem_cons_self, rfl, rfl⟩
  · simp only [Connection.tcpCloseClientConnection, Connection.tcpClose, ne_eq, herr,
      not_false_eq_true, if_true, if_false]
    exact ⟨List.mem_append_right _ List.mem_cons_self, rfl, rfl⟩

/-- INTERNAL: the error callback leaves the state allocated or calls lwIP on the freed pcb.
SOURCE: src/Network/tcpserver.cpp:267-273 -/
theorem err_not_owned (h : Alive c) (closed err : Err) :
    ¬ Owned ({ c with pcbFreed := true, unacked := [] }.tcpServerErr closed err) := by
  intro howned
  have hfrees : ({ c with pcbFreed := true, unacked := [] } : Connection).frees = 0 := h.state
  unfold Connection.tcpServerErr at howned
  rw [touch_of_alive hfrees] at howned
  split at howned
  · obtain ⟨hfault, -⟩ := close_of_freed rfl hfrees closed err
    rw [howned.faults] at hfault
    cases hfault
  · have honce := howned.ended rfl
    rw [hfrees] at honce
    cases honce

/-- INTERNAL: after the error callback the pcb stays freed and nothing is in flight.
SOURCE: src/Network/tcpserver.cpp:267-273 -/
theorem err_gone (h : Alive c) (closed err : Err) :
    ({ c with pcbFreed := true, unacked := [] }.tcpServerErr closed err).pcbFreed = true ∧
      ({ c with pcbFreed := true, unacked := [] }.tcpServerErr closed err).unacked = [] := by
  have hfrees : ({ c with pcbFreed := true, unacked := [] } : Connection).frees = 0 := h.state
  unfold Connection.tcpServerErr
  rw [touch_of_alive hfrees]
  split
  · obtain ⟨-, hfreed, hnone⟩ := close_of_freed rfl hfrees closed err
    exact ⟨hfreed, hnone.trans (ite_self _)⟩
  · exact ⟨rfl, rfl⟩

/-! ## Steps -/

/-- What a step of a connection does: a callback runs that is registered for a pcb that lwIP has
not freed. -/
inductive ConnectionStep (pages : Pages) (c : Connection) : PcbEvent → Connection → Prop
  | recv (w : Outcomes) (p : Option (List Byte)) (hpcb : c.pcbFreed = false)
      (hrecv : c.callbacks.recv = true) :
      ConnectionStep pages c (.recv w p) (c.tcpServerRecv pages w p).2
  | sent (closed : Err) (len : ℕ) (hpcb : c.pcbFreed = false) (hsent : c.callbacks.sent = true)
      (hpos : 0 < len) (hlen : len ≤ c.unacked.length) :
      ConnectionStep pages c (.sent closed len) (c.acknowledge closed len)
  | poll (closed : Err) (hpcb : c.pcbFreed = false) (hpoll : c.callbacks.poll = true) :
      ConnectionStep pages c (.poll closed) (c.tcpServerPoll closed).2
  | err (closed err : Err) (hpcb : c.pcbFreed = false) (herr : c.callbacks.err = true) :
      ConnectionStep pages c (.err closed err)
        ({ c with pcbFreed := true, unacked := [] }.tcpServerErr closed err)

theorem connectionStep_of_step {pages : Pages} {l : PcbEvent} (hstep : c.step pages l = some d) :
    ConnectionStep pages c l d := by
  cases l with
  | recv w p =>
    simp only [Connection.step, Option.ite_none_right_eq_some, Bool.and_eq_true,
      Bool.not_eq_true', Option.some.injEq] at hstep
    obtain ⟨⟨hpcb, hrecv⟩, rfl⟩ := hstep
    exact ConnectionStep.recv w p hpcb hrecv
  | sent closed len =>
    simp only [Connection.step, Option.ite_none_right_eq_some, Bool.and_eq_true,
      Bool.not_eq_true', Option.some.injEq] at hstep
    obtain ⟨⟨⟨hpcb, hsent⟩, hpos, hlen⟩, rfl⟩ := hstep
    exact ConnectionStep.sent closed len hpcb hsent hpos hlen
  | poll closed =>
    simp only [Connection.step, Option.ite_none_right_eq_some, Bool.and_eq_true,
      Bool.not_eq_true', Option.some.injEq] at hstep
    obtain ⟨⟨hpcb, hpoll⟩, rfl⟩ := hstep
    exact ConnectionStep.poll closed hpcb hpoll
  | err closed err =>
    simp only [Connection.step, Option.ite_none_right_eq_some, Bool.and_eq_true,
      Bool.not_eq_true', Option.some.injEq] at hstep
    obtain ⟨⟨hpcb, herr⟩, rfl⟩ := hstep
    exact ConnectionStep.err closed err hpcb herr

/-- INTERNAL: what `tcp_server_accept` hands to lwIP.
SOURCE: src/Network/tcpserver.cpp:275-300 -/
theorem accept_eq {a : Accept} (h : (tcpServerAccept a).2 = some c) :
    c = { Connection.new with callbacks := ⟨true, true, true, true, true⟩ } := by
  unfold tcpServerAccept at h
  split at h
  · cases h
  · split at h
    · cases h
    · exact (Option.some.inj h).symm

/-- INTERNAL: a callback keeps the ownership exactly if it is not the error callback. -/
theorem step_owned_iff (pages : Pages) (c : Connection) (l : PcbEvent) (d : Connection)
    (h : Owned c) (hstep : c.step pages l = some d) : Owned d ↔ NoErrorCallback c l := by
  cases connectionStep_of_step hstep with
  | recv w p hpcb =>
    exact ⟨fun _ => trivial, fun _ => (recv_handled (h.alive' hpcb) pages w p).owned h hpcb⟩
  | sent closed len hpcb =>
    have hacked : Alive { c with unacked := c.unacked.drop len } := ⟨hpcb, h.alive hpcb⟩
    exact ⟨fun _ => trivial, fun _ => (sent_handled hacked closed len).of_update.owned h hpcb⟩
  | poll closed hpcb =>
    exact ⟨fun _ => trivial, fun _ => (close_handled (h.alive' hpcb) _ _).owned h hpcb⟩
  | err closed err hpcb =>
    exact ⟨err_not_owned (h.alive' hpcb) closed err, fun hno => hno.elim⟩

/-! ## Runs -/

/-- CONTRACT: for any number of connections, every order of accepted connections, received data,
closed connections, acknowledgements, poll timers and errors with any code, and everything
that `tcp_write`, `tcp_close` and `calloc` may return, each connection state is allocated as
long as its pcb is and freed once when the connection ends, no callback uses a freed state,
and lwIP is not called on a freed pcb, exactly if the error callback never runs.
SOURCE: src/Network/tcpserver.cpp:117-155, src/Network/tcpserver.cpp:193-300 -/
theorem tcp_states_owned_iff (pages : Pages) (ls : List (FamilyEvent Accept PcbEvent))
    (s : List Connection) (hrun : (serverMachine pages).run [] ls = some s) :
    (serverMachine pages).Always (fun s => ∀ c ∈ s, Owned c) [] ls ↔
      (serverMachine pages).Along (Machine.OnMembers NoErrorCallback) [] ls := by
  apply Machine.family_always_iff_along _ _ _ hrun
  · intro a c hc
    obtain rfl := accept_eq hc
    exact ⟨fun _ => rfl, fun hpcb => (by cases hpcb), rfl⟩
  · exact step_owned_iff pages
  · exact fun c hc => absurd hc List.not_mem_nil

/-- A request, its acknowledgement and the close that follows, then a second connection that the
poll timer ends. -/
theorem tcp_states_owned_iff_two :
    (serverMachine ⟨ascii "<form>", ascii "<ok>"⟩).Always (fun s => ∀ c ∈ s, Owned c) []
      [.spawn ⟨true, errOk, true⟩, .act 0 (.recv ⟨errOk, errOk, errOk⟩ (some (ascii "GET / "))),
        .spawn ⟨true, errOk, true⟩, .act 0 (.sent errMem 10), .act 1 (.poll errMem)] := by
  have hrun : ((serverMachine ⟨ascii "<form>", ascii "<ok>"⟩).run []
      [.spawn ⟨true, errOk, true⟩, .act 0 (.recv ⟨errOk, errOk, errOk⟩ (some (ascii "GET / "))),
        .spawn ⟨true, errOk, true⟩, .act 0 (.sent errMem 10), .act 1 (.poll errMem)]).isSome =
      true := by
    decide +kernel
  obtain ⟨s, hs⟩ := Option.isSome_iff_exists.mp hrun
  refine (tcp_states_owned_iff _ _ s hs).mpr ?_
  apply Machine.along_of_forall
  rintro l hl t
  simp only [List.mem_cons, List.not_mem_nil, or_false] at hl
  obtain rfl | rfl | rfl | rfl | rfl := hl
  · trivial
  · exact fun _ _ => trivial
  · trivial
  · exact fun _ _ => trivial
  · exact fun _ _ => trivial

/-- The peer resets the connection: `tcp_server_err` calls six functions of lwIP on the freed
pcb. After too many retransmissions lwIP reports `ERR_ABRT`, and the state is never freed. -/
theorem error_callback_not_owned :
    ((serverMachine ⟨[], []⟩).run []
        [.spawn ⟨true, errOk, true⟩, .spawn ⟨true, errOk, true⟩,
          .act 0 (.err errOk (-14)), .act 1 (.err errOk errAbrt)]).map
      (fun s => s.map fun c => (c.pcbFreed, c.frees, c.faults.length)) =
      some [(true, 1, 6), (true, 0, 0)] := by
  rfl

end PicoDrone.Analysis
