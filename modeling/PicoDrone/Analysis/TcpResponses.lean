import PicoDrone.Analysis.TcpOwnership

/-!
# Responses in flight

`tcp_write` is given the buffers of the connection state without the copy flag, and the
buffer of the header is also the one that requests are received into. As long as nothing is
received over bytes in flight and no close routine runs while some are, the bytes that lwIP
refers to stay as they were queued, and `sent_len` misses `header_len + result_len` by
what is in flight, so the connection is closed with the last acknowledgement
(`responses_intact`).
-/

set_option autoImplicit false

namespace PicoDrone.Analysis

open PicoDrone.Library PicoDrone.Model

variable {c : Connection}

/-- The bytes in flight are where they were and as they were, and an acknowledgement closes the
connection exactly if it is one of all bytes in flight. -/
structure Intact (c : Connection) : Prop where
  kept : ∀ r ∈ c.unacked, c.frees = 0 ∧ c.state.at r = r.byte
  closes : c.pcbFreed = false → ∀ closed len, 0 < len → len ≤ c.unacked.length →
    ((c.acknowledge closed len).pcbFreed = true ↔ len = c.unacked.length)

/-- Every byte of `headers` in flight at a place that the received bytes are copied to was queued
as the byte that is copied there. -/
def Matches (c : Connection) (bytes : List Byte) : Prop :=
  ∀ r ∈ c.unacked, r.buffer = .headers →
    ∀ b, (bytes.take (2048 - 1))[r.index]? = some b → b = r.byte

/-- No request is received while bytes are in flight, and nothing else over bytes of `headers` in
flight that it differs from; `tcp_write` does not refuse the page after it took the header, and
neither the peer nor the poll timer ends the connection while bytes are in flight, unless
`tcp_close` fails and the connection is aborted. -/
def Undisturbed (c : Connection) : PcbEvent → Prop
  | .recv w (some bytes) =>
    bytes = [] ∨
      if isRequest (c.state.headers.put 0 (bytes.take (2048 - 1))) then
        c.unacked = [] ∧ (w.headers = errOk → w.result ≠ errOk → w.closed ≠ errOk)
      else Matches c bytes
  | .recv w none => c.unacked = [] ∨ w.closed ≠ errOk
  | .poll closed => c.unacked = [] ∨ closed ≠ errOk
  | _ => True

/-! ## Strings -/

@[simp] theorem touch_state (c : Connection) : c.touch.state = c.state := by
  unfold Connection.touch
  split <;> rfl

@[simp] theorem call_state (c : Connection) : c.call.state = c.state := by
  unfold Connection.call
  split <;> rfl

@[simp] theorem write_state (c : Connection) (err : Err) (buffer : Buffer) (len : ℕ) :
    (c.tcpWrite err buffer len).state = c.state := by
  unfold Connection.tcpWrite
  split
  · exact call_state c
  · exact call_state c

/-- INTERNAL: the close routine stores nothing.
SOURCE: src/Network/tcpserver.cpp:117-136 -/
@[simp] theorem close_state (c : Connection) (err closeErr : Err) :
    (c.tcpCloseClientConnection err closeErr).2.state = c.state := by
  by_cases herr : err = errOk
  · simp [Connection.tcpCloseClientConnection, Connection.tcpClose, Connection.free,
      Connection.tcpArg, Connection.tcpPoll, Connection.tcpSent, Connection.tcpRecv,
      Connection.tcpErr, herr]
  · simp [Connection.tcpCloseClientConnection, Connection.tcpClose, Connection.free,
      Connection.tcpArg, Connection.tcpPoll, Connection.tcpSent, Connection.tcpRecv,
      Connection.tcpErr, Connection.tcpAbort, herr]

/-- INTERNAL: the two writes store nothing in the buffers.
SOURCE: src/Network/tcpserver.cpp:239-257 -/
theorem send_headers (c : Connection) (w : Outcomes) :
    (c.send w).2.state.headers = c.state.headers := by
  unfold Connection.send
  dsimp only
  split
  · simp
  · split
    · split
      · simp
      · simp [Connection.tcpRecved]
    · simp [Connection.tcpRecved]

/-- The last byte of `headers` is NUL. -/
def Terminated (c : Connection) : Prop := c.state.headers.cell (2048 - 1) = 0#8

theorem receive_terminated (h : Terminated c) (bytes : List Byte) : Terminated (c.receive bytes) :=
  Region.put_last _ (List.length_take_le _ bytes) h

theorem respond_terminated (h : Terminated c) (pages : Pages) (w : Outcomes) :
    Terminated (c.respond pages w).2 := by
  have hhead : Terminated (c.generate pages).generateHeaders := Region.snprintf_last _ _ h
  obtain hr | ⟨-, hr⟩ | hr | ⟨-, hr⟩ := respond_cases pages w c
  · rw [hr, Terminated, close_state]
    exact h
  · rw [hr, Terminated, send_headers]
    exact h
  · rw [hr, Terminated, close_state]
    exact hhead
  · rw [hr, Terminated, send_headers]
    exact hhead

/-- INTERNAL: every callback leaves the last byte of `headers` alone or stores a NUL there. -/
theorem step_terminated (pages : Pages) (c : Connection) (l : PcbEvent) (d : Connection)
    (h : Terminated c) (hstep : c.step pages l = some d) : Terminated d := by
  cases connectionStep_of_step hstep with
  | recv w p =>
    cases p with
    | none =>
      rw [Terminated, Connection.tcpServerRecv, close_state]
      exact h
    | some bytes =>
      have hreceive := receive_terminated h bytes
      simp only [Connection.tcpServerRecv]
      split
      · split
        · exact respond_terminated hreceive pages w
        · rw [Terminated, Connection.tcpRecved, call_state]
          exact hreceive
      · exact h
  | sent closed len =>
    unfold Connection.acknowledge Connection.tcpServerSent
    dsimp only
    split
    · simpa [Terminated] using h
    · simpa [Terminated] using h
  | poll closed =>
    rw [Terminated, Connection.tcpServerPoll, close_state]
    exact h
  | err closed err =>
    unfold Connection.tcpServerErr
    split
    · simpa [Terminated] using h
    · exact h

/-- INTERNAL: in every run, a request that `strstr` and `sscanf` read ends inside of `headers`.
SOURCE: src/Network/tcpserver.cpp:193-259 -/
theorem requests_terminated (pages : Pages) (ls : List (FamilyEvent Accept PcbEvent))
    (s : List Connection) (hrun : (serverMachine pages).run [] ls = some s) :
    ∀ c ∈ s, ∀ bytes,
      (c.receive bytes).state.headers.string =
        some ((c.receive bytes).state.headers.stringFrom 0) := by
  suffices h : ∀ c ∈ s, Terminated c from fun c hc bytes =>
    Region.string_of_last _ (by decide) (receive_terminated (h c hc) bytes)
  apply Machine.family_run_along (P := fun _ _ => True) _
    (fun c l d h _ hstep => step_terminated pages c l d h hstep) _ _ hrun
  · intro a c hc
    obtain rfl := accept_eq hc
    rfl
  · exact fun c hc => absurd hc List.not_mem_nil
  · apply Machine.along_of_forall
    intro l _ t
    cases l with
    | spawn a => trivial
    | act k l => exact fun _ _ => trivial

/-! ## The invariant -/

/-- Of an open connection, `sent_len` and the bytes in flight make up the response. -/
structure Balanced (c : Connection) : Prop where
  kept : ∀ r ∈ c.unacked, c.frees = 0 ∧ c.state.at r = r.byte
  alive : c.pcbFreed = false → c.frees = 0
  balance : c.pcbFreed = false →
    c.state.sentLen + c.unacked.length = c.state.headerLen + c.state.resultLen

theorem Balanced.alive' (h : Balanced c) (hpcb : c.pcbFreed = false) : Alive c :=
  ⟨hpcb, h.alive hpcb⟩

/-- INTERNAL: `tcp_server_sent` after an acknowledgement.
SOURCE: src/Network/tcpserver.cpp:146-155 -/
theorem acknowledge_cases (h : Alive c) (closed : Err) (len : ℕ) :
    c.state.headerLen + c.state.resultLen ≤ c.state.sentLen + len ∧
        c.acknowledge closed len = Connection.closed { c with
          state := { c.state with sentLen := c.state.sentLen + len }
          unacked := c.unacked.drop len } closed ∨
      c.state.sentLen + len < c.state.headerLen + c.state.resultLen ∧
        c.acknowledge closed len = { c with
          state := { c.state with sentLen := c.state.sentLen + len }
          unacked := c.unacked.drop len } := by
  have htouch : ({ c with unacked := c.unacked.drop len } : Connection).touch =
      { c with unacked := c.unacked.drop len } := touch_of_alive h.state
  unfold Connection.acknowledge Connection.tcpServerSent
  rw [htouch]
  dsimp only
  split
  · rename_i hle
    refine Or.inl ⟨hle, close_of_alive ?_ _ _⟩
    exact ⟨h.pcb, h.state⟩
  · rename_i hlt
    exact Or.inr ⟨Nat.lt_of_not_le hlt, rfl⟩

theorem Balanced.intact (h : Balanced c) : Intact c := by
  refine ⟨h.kept, fun hpcb closed len _ hlen => ?_⟩
  have hbalance := h.balance hpcb
  obtain ⟨hle, hd⟩ | ⟨hlt, hd⟩ := acknowledge_cases (h.alive' hpcb) closed len
  · rw [hd]
    exact ⟨fun _ => by omega, fun _ => rfl⟩
  · rw [hd]
    constructor
    · intro hfreed
      cases hpcb.symm.trans hfreed
    · intro hall
      omega

/-- INTERNAL: a connection that is closed with nothing in flight, or aborted. -/
theorem closed_balanced (err : Err) (h : c.unacked = [] ∨ err ≠ errOk) :
    Balanced (Connection.closed c err) := by
  have hnone : (Connection.closed c err).unacked = [] := by
    unfold Connection.closed
    obtain hu | herr := h
    · simp only [hu, ite_self]
    · simp only [herr, if_false]
  refine ⟨?_, fun hpcb => (by cases hpcb), fun hpcb => (by cases hpcb)⟩
  intro r hr
  rw [hnone] at hr
  cases hr

/-! ## The callbacks -/

theorem acknowledge_balanced (h : Balanced c) (hpcb : c.pcbFreed = false) (closed : Err) {len : ℕ}
    (hlen : len ≤ c.unacked.length) : Balanced (c.acknowledge closed len) := by
  have hbalance := h.balance hpcb
  obtain ⟨hle, hd⟩ | ⟨hlt, hd⟩ := acknowledge_cases (h.alive' hpcb) closed len
  · rw [hd]
    apply closed_balanced
    exact Or.inl (List.drop_of_length_le (by omega))
  · rw [hd]
    refine ⟨fun r hr => h.kept r (List.mem_of_mem_drop hr), h.alive, fun _ => ?_⟩
    simp only [List.length_drop]
    omega

/-- INTERNAL: what is queued is what the buffer holds. -/
theorem refs_kept {buffer : Buffer} {len : ℕ} {r : Ref} (hr : r ∈ c.refs buffer len) :
    c.state.at r = r.byte := by
  obtain ⟨i, -, rfl⟩ := List.mem_map.mp hr
  rfl

/-- INTERNAL: with nothing in flight, the two writes put the response in flight.
SOURCE: src/Network/tcpserver.cpp:239-257 -/
theorem send_balanced (h : Alive c) (hu : c.unacked = []) (w : Outcomes)
    (hw : w.headers = errOk → w.result ≠ errOk → w.closed ≠ errOk) : Balanced (c.send w).2 := by
  obtain ⟨-, hd⟩ | ⟨hh, hr, hd⟩ | hd := send_cases h w
  · rw [hd]
    exact closed_balanced _ (Or.inl hu)
  · rw [hd]
    exact closed_balanced _ (Or.inr (hw hh hr))
  · rw [hd]
    refine ⟨fun r hr => ⟨h.state, ?_⟩, fun _ => h.state, fun _ => ?_⟩
    · simp only [Connection.queue, Connection.rewind, hu, List.nil_append, List.mem_append] at hr
      obtain hr | hr := hr
      · exact refs_kept hr
      · exact refs_kept hr
    · simp only [Connection.queue, Connection.rewind, Connection.refs, hu, List.nil_append,
        List.length_append, List.length_map, List.length_range, Nat.zero_add]

/-- INTERNAL: the answer to a request with nothing in flight.
SOURCE: src/Network/tcpserver.cpp:217-255 -/
theorem respond_balanced (h : Alive c) (hu : c.unacked = []) (pages : Pages) (w : Outcomes)
    (hw : w.headers = errOk → w.result ≠ errOk → w.closed ≠ errOk) :
    Balanced (c.respond pages w).2 := by
  have hgen := h.generate pages
  have hhead := hgen.generateHeaders
  have hu1 : (c.generate pages).unacked = [] := by rw [generate_eq, hu]
  have hu2 : (c.generate pages).generateHeaders.unacked = [] := by rw [generateHeaders_eq, hu1]
  obtain hr | ⟨-, hr⟩ | hr | ⟨-, hr⟩ := respond_cases pages w c
  · rw [hr, close_of_alive hgen]
    exact closed_balanced _ (Or.inl hu1)
  · rw [hr]
    exact send_balanced hgen hu1 w hw
  · rw [hr, close_of_alive hhead]
    exact closed_balanced _ (Or.inl hu2)
  · rw [hr]
    exact send_balanced hhead hu2 w hw

/-- INTERNAL: received bytes that match those in flight change none of them.
SOURCE: src/Network/tcpserver.cpp:204 -/
theorem receive_at {bytes : List Byte} {r : Ref} (hkept : c.state.at r = r.byte)
    (hmatch : r.buffer = .headers →
      ∀ b, (bytes.take (2048 - 1))[r.index]? = some b → b = r.byte) :
    (c.receive bytes).state.at r = r.byte := by
  cases hbuffer : r.buffer with
  | result =>
    rw [← hkept]
    simp only [ConState.at, hbuffer, Connection.receive]
  | headers =>
    simp only [ConState.at, hbuffer, Connection.receive] at hkept ⊢
    by_cases hlt : r.index < (bytes.take (2048 - 1)).length
    · rw [Region.put_zero_cell _ hlt]
      exact hmatch hbuffer _ (List.getElem?_eq_getElem hlt)
    · rw [Region.put_cell_of_outside _ (Or.inr (by omega)), hkept]

theorem recv_balanced (h : Balanced c) (hpcb : c.pcbFreed = false) (pages : Pages) (w : Outcomes)
    (p : Option (List Byte)) (hP : Undisturbed c (.recv w p)) :
    Balanced (c.tcpServerRecv pages w p).2 := by
  have halive := h.alive' hpcb
  cases p with
  | none =>
    simp only [Connection.tcpServerRecv, close_of_alive halive]
    exact closed_balanced _ hP
  | some bytes =>
    obtain rfl | hP := hP
    · exact h
    · simp only [Connection.tcpServerRecv]
      split
      · have hreceive := receive_alive halive bytes
        have hu : (c.receive bytes).unacked = c.unacked := by
          simp only [Connection.receive, touch_of_alive halive.state]
        by_cases hreq : isRequest (c.receive bytes).state.headers
        · rw [if_pos (show isRequest (c.state.headers.put 0 (bytes.take (2048 - 1))) from hreq)]
            at hP
          rw [if_pos hreq]
          exact respond_balanced hreceive (hu.trans hP.1) pages w hP.2
        · rw [if_neg (show ¬ isRequest (c.state.headers.put 0 (bytes.take (2048 - 1))) from hreq)]
            at hP
          rw [if_neg hreq, Connection.tcpRecved, call_of_alive hreceive.pcb]
          refine ⟨fun r hr => ⟨hreceive.state, ?_⟩, fun _ => hreceive.state, fun _ => ?_⟩
          · rw [hu] at hr
            exact receive_at (h.kept r hr).2 (hP r hr)
          · rw [hu]
            exact h.balance hpcb
      · exact h

/-! ## Runs -/

theorem step_balanced (pages : Pages) (c : Connection) (l : PcbEvent) (d : Connection)
    (h : Balanced c) (hP : Undisturbed c l) (hstep : c.step pages l = some d) : Balanced d := by
  cases connectionStep_of_step hstep with
  | recv w p hpcb => exact recv_balanced h hpcb pages w p hP
  | sent closed len hpcb hsent hpos hlen => exact acknowledge_balanced h hpcb closed hlen
  | poll closed hpcb =>
    rw [Connection.tcpServerPoll, close_of_alive (h.alive' hpcb)]
    exact closed_balanced _ hP
  | err closed err hpcb =>
    obtain ⟨hfreed, hnone⟩ := err_gone (h.alive' hpcb) closed err
    refine ⟨?_, fun hp => ?_, fun hp => ?_⟩
    · rw [hnone]
      exact fun r hr => by cases hr
    · cases hp.symm.trans hfreed
    · cases hp.symm.trans hfreed

/-- CONTRACT: for any number of connections and in every run of accepted connections, received
data and acknowledgements in any portions, closed connections, poll timers and errors, with
everything that `tcp_write`, `tcp_close` and `calloc` may return, in which no bytes in
flight are disturbed: the bytes handed to `tcp_write` are neither changed nor freed until
they are acknowledged, and `tcp_server_sent` closes a connection exactly when all bytes
queued on it have been acknowledged.
SOURCE: src/Network/tcpserver.cpp:107-155, src/Network/tcpserver.cpp:193-259 -/
theorem responses_intact (pages : Pages) (ls : List (FamilyEvent Accept PcbEvent))
    (s : List Connection) (hrun : (serverMachine pages).run [] ls = some s)
    (hP : (serverMachine pages).Along (Machine.OnMembers Undisturbed) [] ls) :
    ∀ c ∈ s, Intact c := by
  suffices h : ∀ c ∈ s, Balanced c from fun c hc => (h c hc).intact
  apply Machine.family_run_along _ (step_balanced pages) _ hP hrun
  · intro a c hc
    obtain rfl := accept_eq hc
    exact ⟨fun r hr => (by cases hr), fun _ => rfl, fun _ => rfl⟩
  · exact fun c hc => absurd hc List.not_mem_nil

/-- A request whose response is acknowledged in two portions. -/
theorem responses_intact_portions :
    ∃ s, (serverMachine ⟨ascii "<form>", ascii "<ok>"⟩).run []
        [.spawn ⟨true, errOk, true⟩, .act 0 (.recv ⟨errOk, errOk, errOk⟩ (some (ascii "GET / "))),
          .act 0 (.sent errOk 40), .act 0 (.sent errOk 58)] = some s ∧
      s.map (fun c => (c.unacked, c.frees)) = [([], 1)] ∧ ∀ c ∈ s, Intact c := by
  have hrun : ((serverMachine ⟨ascii "<form>", ascii "<ok>"⟩).run []
      [.spawn ⟨true, errOk, true⟩, .act 0 (.recv ⟨errOk, errOk, errOk⟩ (some (ascii "GET / "))),
        .act 0 (.sent errOk 40), .act 0 (.sent errOk 58)]).map
        (fun s => s.map fun c => (c.unacked, c.frees)) = some [([], 1)] := by
    decide +kernel
  obtain ⟨s, hs, hclosed⟩ := Option.map_eq_some_iff.mp hrun
  refine ⟨s, hs, hclosed, responses_intact _ _ s hs ?_⟩
  apply Machine.along_cons _ trivial rfl
  refine Machine.along_cons _ ?_ rfl ?_
  · intro c hc
    obtain rfl := Option.some.inj hc
    refine Or.inr ?_
    rw [if_pos (by decide +kernel)]
    exact ⟨rfl, fun _ h => absurd rfl h⟩
  · apply Machine.along_of_forall
    intro l hl t
    simp only [List.mem_cons, List.not_mem_nil, or_false] at hl
    obtain rfl | rfl := hl
    · exact fun _ _ => trivial
    · exact fun _ _ => trivial

/-- The head of a POST request comes in one pbuf and its body in the next, as browsers send
them. The body overwrites the response header to the first one while it is in flight. -/
theorem split_request_overwrites :
    ((serverMachine ⟨ascii "<form>", ascii "<ok>"⟩).run []
        [.spawn ⟨true, errOk, true⟩,
          .act 0 (.recv ⟨errOk, errOk, errOk⟩ (some (ascii "POST /connect HTTP/1.1\r\n\r\n"))),
          .act 0 (.recv ⟨errOk, errOk, errOk⟩ (some (ascii "ssid=a&password=b")))]).map
      (fun s => s.map fun c => (c.unacked.head?, c.state.headers.cell 0, c.frees)) =
      some [(some ⟨.headers, 0, 0x48#8⟩, 0x73#8, 0)] := by
  decide +kernel

end PicoDrone.Analysis
