import PicoDrone.Model.AccessPoint

/-!
# The LED and its pages

A request is what stands behind `GET ` in the buffer, up to the first NUL. Its parameters stand
behind the first `?` in it, wherever that is: a question mark in a line below the request line
counts as well. The LED is what the page requests have set, one after the other, on whatever
connections they came, and what is given to `tcp_write` for each tells it as it is behind that
request (`led_history`). The peer gets this text if nothing is received on its connection before
it has acknowledged the last one (`bytes_in_flight`). Following the link of the page that was
shown last then turns the LED, whatever is left in the buffers from before (`clicks_toggle`). The
buffer always ends with a NUL, so that no search in it leaves it (`headers_end`).
-/

set_option autoImplicit false

namespace PicoDrone.Analysis

open PicoDrone.Library PicoDrone.Model PicoDrone.Model.AccessPoint

variable {overflow : ℤ → ℤ} {gw : Gateway}

/-! ## What a request asks for -/

/-- The parameters of a request: what stands behind the first `?`, and if no space stands before
it up to the next space. -/
def ledParams (text : List Byte) : Option (List Byte) :=
  (memchr 0x3F#8 text).map fun q =>
    if (text.take q).contains 0x20#8 then text.drop (q + 1)
    else (text.drop (q + 1)).takeWhile (· ≠ 0x20#8)

/-- The LED behind a request. -/
def ledAfter (overflow : ℤ → ℤ) (led : Bool) (text : List Byte) : Bool :=
  if ledTest.isPrefixOf text then
    match (ledParams text).bind (scanLedParam overflow) with
    | some value => decide (value ≠ 0)
    | none => led
  else led

/-- The page that shows the LED. -/
def ledPage (led : Bool) : List Byte :=
  if led then ledTestBody "ON" 0 "OFF" else ledTestBody "OFF" 1 "ON"

/-- The answer to a request where the LED is `led` behind it: the page, or the way to it. -/
def ledAnswer (gw : Gateway) (led : Bool) (text : List Byte) : List (List Byte) :=
  if ledTest.isPrefixOf text then
    [httpResponseHeaders 200 (ledPage led).length, ledPage led]
  else [httpResponseRedirect gw]

/-- How many of the two writes lwIP takes. -/
def writesTaken (w : Outcomes) : ℕ :=
  if w.headers ≠ errOk then 0 else if w.result ≠ errOk then 1 else 2

/-! ## The texts -/

theorem ledPage_length (led : Bool) : (ledPage led).length = 105 := by
  cases led
  · decide +kernel
  · decide +kernel

theorem headers_length (led : Bool) :
    (httpResponseHeaders 200 (ledPage led).length).length = 94 := by
  rw [ledPage_length]
  decide +kernel

theorem redirect_length (gw : Gateway) :
    (httpResponseRedirect gw).length = gw.text.length + 49 := by
  simp only [httpResponseRedirect, List.length_append]
  have hfixed : (ascii "HTTP/1.1 302 Redirect\nLocation: http://").length = 39 ∧
      ledTest.length = 8 ∧ (ascii "\n\n").length = 2 := by decide +kernel
  omega

/-! ## The request in its buffer -/

/-- INTERNAL: a byte that is not in `/ledtest` cuts no request for the page. -/
theorem ledTest_cut {text before after : List Byte} {b : Byte}
    (hsplit : text = before ++ b :: after) (hb : b ∉ ledTest) :
    ledTest.isPrefixOf before = ledTest.isPrefixOf text := by
  rw [Bool.eq_iff_iff, List.isPrefixOf_iff_prefix, List.isPrefixOf_iff_prefix, hsplit]
  exact (prefix_append_stop hb).symm

/-- INTERNAL: the cut at the space.
SOURCE: ipstack/picow_access_point.c:139-142 -/
theorem cut_space {r : Region 128 Byte} {q : ℕ} {head tail : List Byte}
    (hhead : r.stringFrom 4 = head) (hlen : head.length = q)
    (htail : r.stringFrom (4 + (q + 1)) = tail) {i : ℕ}
    (hi : memchr 0x20#8 (head ++ 0x3F#8 :: tail) = some i) :
    ledTest.isPrefixOf ((r.put (4 + i) [0#8]).stringFrom 4) = ledTest.isPrefixOf head ∧
      (r.put (4 + i) [0#8]).stringFrom (4 + (q + 1)) =
        if head.contains 0x20#8 then tail else tail.takeWhile (· ≠ 0x20#8) := by
  obtain ⟨before, after, hsplit, hnot, rfl⟩ := memchr_eq_some_iff.mp hi
  obtain hlt | hge := Nat.lt_or_ge before.length q
  · -- the space is in front of the question mark
    obtain ⟨rest, rfl⟩ : before <+: head :=
      List.prefix_of_prefix_length_le ⟨_, hsplit.symm⟩ ⟨_, rfl⟩ (by omega)
    rw [List.append_assoc] at hsplit
    have hrest := List.append_cancel_left hsplit
    cases rest with
    | nil => simp at hlen; omega
    | cons b rest =>
      obtain rfl := (List.cons.inj hrest).1
      refine ⟨?_, ?_⟩
      · rw [r.stringFrom_put_nul (by rw [hhead]; omega), hhead, List.take_left' rfl]
        exact ledTest_cut rfl (by decide)
      · rw [r.stringFrom_put_before (by omega), htail, if_pos (by simp)]
  · -- the space is one of the parameters, so the text before the question mark has none
    obtain ⟨rest, rfl⟩ : head <+: before :=
      List.prefix_of_prefix_length_le ⟨_, rfl⟩ ⟨_, hsplit.symm⟩ (by omega)
    rw [List.append_assoc] at hsplit
    have hrest := List.append_cancel_left hsplit
    cases rest with
    | nil => exact absurd (List.cons.inj hrest).1 (by decide)
    | cons b rest =>
      obtain ⟨rfl, htext⟩ := List.cons.inj hrest
      replace htext : tail = rest ++ 0x20#8 :: after := htext
      subst htext
      have hplace : 4 + (head ++ 0x3F#8 :: rest).length = 4 + (q + 1) + rest.length := by
        rw [List.length_append, List.length_cons]
        omega
      have hfree : 0x20#8 ∉ rest := fun h => hnot (by simp [h])
      have hbefore : ¬ head.contains 0x20#8 = true :=
        fun h => hnot (List.mem_append_left _ (List.contains_iff_mem.mp h))
      refine ⟨?_, ?_⟩
      · rw [r.stringFrom_put_behind (by rw [hhead, List.length_append, List.length_cons]; omega),
          hhead]
      · rw [if_neg hbefore, hplace,
          r.stringFrom_put_nul (by rw [htail]; simp), htail, takeWhile_ne_append hfree]
        simp

/-- INTERNAL: the cuts leave the parameters as asked, and enough of the request to see whether it
is one for the page.
SOURCE: ipstack/picow_access_point.c:135-147 -/
theorem splitRequest_spec (headers : Region 128 Byte) :
    ledTest.isPrefixOf (splitRequest headers).2.1 = ledTest.isPrefixOf (headers.stringFrom 4) ∧
      (splitRequest headers).2.2 = ledParams (headers.stringFrom 4) := by
  cases hq : memchr 0x3F#8 (headers.stringFrom 4) with
  | none =>
    constructor
    · simp only [splitRequest, hq]
    · simp only [splitRequest, ledParams, hq, Option.map_none]
  | some q =>
    obtain ⟨head, tail, htext, hnot, hlen⟩ := memchr_eq_some_iff.mp hq
    have hin : q < (headers.stringFrom 4).length := by
      rw [htext, List.length_append, List.length_cons]
      omega
    have hhead : (headers.put (4 + q) [0#8]).stringFrom 4 = head := by
      rw [headers.stringFrom_put_nul hin, htext, List.take_left' hlen]
    have hbehind : (head ++ 0x3F#8 :: tail).drop (q + 1) = tail := by
      rw [← hlen, List.drop_append]
      simp
    have htail : (headers.put (4 + q) [0#8]).stringFrom (4 + (q + 1)) = tail := by
      rw [headers.stringFrom_put_before (by omega), headers.stringFrom_add (by omega), htext,
        hbehind]
    have hwhole : ledTest.isPrefixOf head = ledTest.isPrefixOf (head ++ 0x3F#8 :: tail) :=
      ledTest_cut rfl (by decide)
    cases hspace : memchr 0x20#8 (headers.stringFrom 4) with
    | none =>
      have hfree := memchr_eq_none_iff.mp hspace
      rw [htext, List.mem_append, List.mem_cons] at hfree
      have htake : tail.takeWhile (· ≠ 0x20#8) = tail :=
        takeWhile_ne_self fun h => hfree (Or.inr (Or.inr h))
      simp only [splitRequest, ledParams, hq, hspace, hhead, htail, Option.map_some]
      rw [htext, List.take_left' hlen, hbehind, htake, ite_self]
      exact ⟨hwhole, rfl⟩
    | some i =>
      obtain ⟨hcut, hparams⟩ := cut_space hhead hlen htail (htext ▸ hspace)
      simp only [splitRequest, ledParams, hq, hspace, hcut, hparams, Option.map_some]
      rw [htext, List.take_left' hlen, hbehind]
      exact ⟨hwhole, rfl⟩

/-! ## The answer -/

/-- INTERNAL: the page is generated exactly for the requests that begin with `/ledtest`, for the
LED as the parameters have set it.
SOURCE: ipstack/picow_access_point.c:85-114 -/
theorem testServerContent_spec (led : Bool) (headers : Region 128 Byte)
    (result : Region 256 Byte) :
    testServerContent overflow led (splitRequest headers).2.1 (splitRequest headers).2.2 result =
      if ledTest.isPrefixOf (headers.stringFrom 4) then
        (ledAfter overflow led (headers.stringFrom 4),
          result.snprintf (ledPage (ledAfter overflow led (headers.stringFrom 4))),
          (ledPage (ledAfter overflow led (headers.stringFrom 4))).length)
      else (ledAfter overflow led (headers.stringFrom 4), result, 0) := by
  obtain ⟨hrequest, hparams⟩ := splitRequest_spec headers
  simp only [testServerContent, hrequest, hparams, ledAfter]
  by_cases htest : ledTest.isPrefixOf (headers.stringFrom 4)
  · simp only [if_pos htest]
    cases hvalue : (ledParams (headers.stringFrom 4)).bind (scanLedParam overflow) with
    | none => cases led <;> simp [ledPage]
    | some value =>
      by_cases hzero : value = 0
      · simp [ledPage, hzero]
      · simp [ledPage, hzero]
  · simp only [if_neg htest]

theorem refs_headers (s : ConnectState) (len : ℕ) :
    (s.refs .headers len).map Ref.byte = s.headers.slice 0 len := by
  simp [ConnectState.refs, ConnectState.at, Region.slice]

theorem refs_result (s : ConnectState) (len : ℕ) :
    (s.refs .result len).map Ref.byte = s.result.slice 0 len := by
  simp [ConnectState.refs, ConnectState.at, Region.slice]

/-- What a callback has given to `tcp_write`, as it was then. -/
def writtenTexts (r : Reply) : List (List Byte) := r.written.map (List.map Ref.byte)

/-- INTERNAL: what the two writes hand over of the texts in the buffers.
SOURCE: ipstack/picow_access_point.c:175-192 -/
theorem send_written (w : Outcomes) (led : Bool) (s : ConnectState) (totLen : ℕ) :
    (send w led s totLen).led = led ∧
      writtenTexts (send w led s totLen) =
        (s.headers.slice 0 s.headerLen ::
          if s.resultLen ≠ 0 then [s.result.slice 0 s.resultLen] else []).take (writesTaken w) := by
  unfold send writesTaken tcpCloseClientConnection writtenTexts
  by_cases hheaders : w.headers = errOk
  · by_cases hlen : s.resultLen = 0
    · by_cases hresult : w.result = errOk
      · simp [hheaders, hlen, hresult, refs_headers]
      · simp [hheaders, hlen, hresult, refs_headers]
    · by_cases hresult : w.result = errOk
      · simp [hheaders, hlen, hresult, refs_headers, refs_result]
      · simp [hheaders, hlen, hresult, refs_headers]
  · simp [hheaders]

/-- INTERNAL: the answer to a request, as far as lwIP takes it. None of the buffers is too small.
SOURCE: ipstack/picow_access_point.c:133-191 -/
theorem respond_spec (w : Outcomes) (led : Bool) (s : ConnectState) (totLen : ℕ) :
    (respond overflow gw w led s totLen).led = ledAfter overflow led (s.headers.stringFrom 4) ∧
      writtenTexts (respond overflow gw w led s totLen) =
        (ledAnswer gw (ledAfter overflow led (s.headers.stringFrom 4))
          (s.headers.stringFrom 4)).take (writesTaken w) := by
  have hcontent := @testServerContent_spec overflow led s.headers s.result
  generalize hled : ledAfter overflow led (s.headers.stringFrom 4) = led' at hcontent ⊢
  simp only [respond, hcontent]
  by_cases htest : ledTest.isPrefixOf (s.headers.stringFrom 4)
  · simp only [if_pos htest, ledAnswer]
    have hpage := ledPage_length led'
    have hheaders := headers_length led'
    rw [if_neg (by omega), if_pos (by omega), if_neg (by omega)]
    obtain ⟨hsame, hwritten⟩ := send_written w led' _ totLen
    refine ⟨hsame, hwritten.trans ?_⟩
    dsimp only
    rw [if_pos (by omega), Region.slice_snprintf _ (by omega), Region.slice_snprintf _ (by omega)]
  · simp only [if_neg htest, ledAnswer]
    have hredirect := redirect_length gw
    have hshort := gw.short
    rw [if_neg (by omega), if_neg (by omega)]
    obtain ⟨hsame, hwritten⟩ := send_written w led' _ totLen
    refine ⟨hsame, hwritten.trans ?_⟩
    dsimp only
    rw [if_neg (by simp), Region.slice_snprintf _ (by omega)]

/-! ## Runs -/

/-- The request that an event brings, with what lwIP makes of the answer. -/
def getText (s : Server) : LedEvent → Option (List Byte × Outcomes)
  | .recv k w p => (s.connection k).bind fun c =>
    if Server.isGet c p then
      some ((c.headers.put 0 ((p.getD []).take (128 - 1))).stringFrom 4, w)
    else none
  | _ => none

/-- The requests of a run. -/
def getTexts (overflow : ℤ → ℤ) (gw : Gateway) (s : Server) :
    List LedEvent → List (List Byte × Outcomes)
  | [] => []
  | e :: es =>
    (getText s e).toList ++
      match (ledMachine overflow gw).step s e with
      | some t => getTexts overflow gw t es
      | none => []

/-- Requests one after the other and their answers, from an LED to the LED behind them. -/
inductive Answers (overflow : ℤ → ℤ) (gw : Gateway) :
    Bool → List (List Byte × Outcomes) → List (Bool × List (List Byte)) → Bool → Prop
  | nil (led : Bool) : Answers overflow gw led [] [] led
  | cons (led : Bool) (text : List Byte) (w : Outcomes) {texts : List (List Byte × Outcomes)}
      {answers : List (Bool × List (List Byte))} {last : Bool}
      (rest : Answers overflow gw (ledAfter overflow led text) texts answers last) :
      Answers overflow gw led ((text, w) :: texts)
        ((ledAfter overflow led text,
          (ledAnswer gw (ledAfter overflow led text) text).take (writesTaken w)) :: answers) last

/-- The server before the first connection. -/
def apStart (led : Bool) : Server := ⟨led, [], [], []⟩

theorem callback_of_step {s t : Server} {e : LedEvent}
    (hstep : (ledMachine overflow gw).step s e = some t) : s.callback overflow gw e = some t :=
  (Option.ite_none_right_eq_some.mp hstep).2

/-- INTERNAL: one callback answers one request, or none and leaves the LED. -/
theorem step_answers {s t : Server} {e : LedEvent}
    (hstep : (ledMachine overflow gw).step s e = some t) :
    (getText s e = none ∧ t.led = s.led ∧ t.answers = s.answers) ∨
      ∃ text w, getText s e = some (text, w) ∧ t.led = ledAfter overflow s.led text ∧
        t.answers = s.answers ++
          [(t.led, (ledAnswer gw t.led text).take (writesTaken w))] := by
  replace hstep := callback_of_step hstep
  cases e with
  | accept clientPcb err memory =>
    obtain rfl := Option.some.inj hstep
    exact Or.inl ⟨rfl, rfl, rfl⟩
  | recv k w p =>
    obtain ⟨c, hc, rfl⟩ := Option.map_eq_some_iff.mp hstep
    cases p with
    | none =>
      refine Or.inl ⟨?_, rfl, ?_⟩
      · simp [getText, hc, Server.isGet]
      · simp [Server.handled, Server.isGet]
    | some bytes =>
      by_cases hget : Server.isGet c (some bytes)
      · right
        have hparts := hget
        simp only [Server.isGet, Bool.and_eq_true, decide_eq_true_eq] at hparts
        obtain ⟨hpos, hbegins⟩ := hparts
        refine ⟨_, w, by simp only [getText, hc, Option.bind_some, if_pos hget]; rfl, ?_⟩
        simp only [Server.handled, tcpServerRecv, if_pos hpos, if_pos hbegins, if_pos hget]
        obtain ⟨hled, hwritten⟩ := @respond_spec overflow gw w s.led
          { c with headers := c.headers.put 0 (bytes.take (128 - 1)) } bytes.length
        refine ⟨hled, ?_⟩
        rw [writtenTexts] at hwritten
        rw [hwritten, hled]
        rfl
      · left
        refine ⟨by simp [getText, hc, hget], ?_, by simp [Server.handled, hget]⟩
        simp only [Server.isGet, Bool.and_eq_true, decide_eq_true_eq] at hget
        simp only [Server.handled, tcpServerRecv]
        split_ifs with hpos hbegins
        · exact absurd ⟨hpos, hbegins⟩ hget
        · rfl
        · rfl
  | sent k closed len =>
    obtain ⟨c, hc, rfl⟩ := Option.map_eq_some_iff.mp (Option.ite_none_right_eq_some.mp hstep).2
    refine Or.inl ⟨rfl, ?_, by simp [Server.handled]⟩
    simp only [Server.handled, tcpServerSent]
    split_ifs <;> rfl
  | poll k closed =>
    obtain ⟨c, hc, rfl⟩ := Option.map_eq_some_iff.mp hstep
    exact Or.inl ⟨rfl, rfl, by simp [Server.handled]⟩
  | err k err =>
    obtain ⟨c, hc, rfl⟩ := Option.map_eq_some_iff.mp hstep
    exact Or.inl ⟨rfl, rfl, rfl⟩

/-- INTERNAL: the answers of a run from any state. -/
theorem run_answers {s t : Server} {events : List LedEvent}
    (hrun : (ledMachine overflow gw).run s events = some t) :
    ∃ answers, t.answers = s.answers ++ answers ∧
      Answers overflow gw s.led (getTexts overflow gw s events) answers t.led := by
  induction events generalizing s with
  | nil =>
    obtain rfl := Option.some.inj hrun
    exact ⟨[], by rw [List.append_nil], Answers.nil _⟩
  | cons e events ih =>
    obtain ⟨u, hu, hrest⟩ := (ledMachine overflow gw).run_cons_eq_some.mp hrun
    obtain ⟨answers, hanswers, hall⟩ := ih hrest
    obtain ⟨hnone, hled, hsame⟩ | ⟨text, w, hsome, hled, hone⟩ := step_answers hu
    · refine ⟨answers, by rw [hanswers, hsame], ?_⟩
      rw [getTexts, hnone, hu]
      rw [hled] at hall
      exact hall
    · refine ⟨_ :: answers, by rw [hanswers, hone, List.append_assoc]; rfl, ?_⟩
      rw [getTexts, hsome, hu]
      rw [hled] at hall ⊢
      exact Answers.cons s.led text w hall

/-! ## The connections -/

/-- What a callback makes of connection `k` with the state `st`. -/
inductive ClientStep (overflow : ℤ → ℤ) (gw : Gateway) (s : Server) (k : ℕ) (st : ConnectState) :
    LedEvent → ClientConnection → Prop
  | recv (w : Outcomes) (p : Option (List Byte)) :
      ClientStep overflow gw s k st (.recv k w p)
        ((tcpServerRecv overflow gw w s.led st p).client (s.unacked k))
  | sent (closed : Err) (len : ℕ) (hle : len ≤ (s.unacked k).length) :
      ClientStep overflow gw s k st (.sent k closed len)
        ((tcpServerSent closed s.led st len).client ((s.unacked k).drop len))
  | poll (closed : Err) :
      ClientStep overflow gw s k st (.poll k closed)
        ((tcpServerPoll closed s.led).client (s.unacked k))
  | err (err : Err) :
      ClientStep overflow gw s k st (.err k err) ⟨(tcpServerErr st err).1, false, []⟩

theorem connection_eq_some {s : Server} {k : ℕ} {st : ConnectState}
    (h : s.connection k = some st) : ⟨some st, true, s.unacked k⟩ ∈ s.connections := by
  simp only [Server.connection, Option.bind_eq_some_iff, Option.ite_none_right_eq_some] at h
  obtain ⟨⟨state, pcb, unacked⟩, hc, hpcb, hstate⟩ := h
  obtain ⟨rfl, rfl⟩ : pcb = true ∧ state = some st := ⟨hpcb, hstate⟩
  have hun : s.unacked k = unacked := by simp [Server.unacked, hc]
  rw [hun]
  exact List.mem_of_getElem? hc

/-- INTERNAL: what a new connection has, and every callback that meets `P` keeps, every connection
has after a run whose steps all meet `P`. -/
theorem clients_run (I : ClientConnection → Prop) (P : Server → LedEvent → Prop)
    (hnew : I (ClientConnection.new ConnectState.zero))
    (hstep : ∀ s e k st d, I ⟨some st, true, s.unacked k⟩ → P s e →
      ClientStep overflow gw s k st e d → I d)
    {led : Bool} {s : Server} {events : List LedEvent}
    (hP : (ledMachine overflow gw).Along P (apStart led) events)
    (hrun : (ledMachine overflow gw).run (apStart led) events = some s) :
    ∀ c ∈ s.connections, I c := by
  refine (ledMachine overflow gw).run_invariant_along (fun s => ∀ c ∈ s.connections, I c) P ?_
    (by simp [apStart]) hP hrun
  intro s e t hall hPe ht
  replace ht := callback_of_step ht
  have hset : ∀ k d, I d → ∀ c ∈ s.connections.set k d, I c := by
    intro k d hd c hc
    obtain hc | rfl := List.mem_or_eq_of_mem_set hc
    · exact hall c hc
    · exact hd
  cases e with
  | accept clientPcb err memory =>
    obtain rfl := Option.some.inj ht
    intro c hc
    obtain hc | hc := List.mem_append.mp hc
    · exact hall c hc
    · obtain ⟨st, hst, rfl⟩ := List.mem_map.mp hc
      simp only [AccessPoint.tcpServerAccept] at hst
      split_ifs at hst
      · simp at hst
      · simp at hst
      · obtain rfl : st = ConnectState.zero := by simpa using hst
        exact hnew
  | recv k w p =>
    obtain ⟨st, hst, rfl⟩ := Option.map_eq_some_iff.mp ht
    exact hset k _ (hstep s _ k st _ (hall _ (connection_eq_some hst)) hPe (ClientStep.recv w p))
  | sent k closed len =>
    obtain ⟨hlen, hsome⟩ := Option.ite_none_right_eq_some.mp ht
    obtain ⟨st, hst, rfl⟩ := Option.map_eq_some_iff.mp hsome
    exact hset k _ (hstep s _ k st _ (hall _ (connection_eq_some hst)) hPe
      (ClientStep.sent closed len hlen.2))
  | poll k closed =>
    obtain ⟨st, hst, rfl⟩ := Option.map_eq_some_iff.mp ht
    exact hset k _ (hstep s _ k st _ (hall _ (connection_eq_some hst)) hPe (ClientStep.poll closed))
  | err k err =>
    obtain ⟨st, hst, rfl⟩ := Option.map_eq_some_iff.mp ht
    exact hset k _ (hstep s _ k st _ (hall _ (connection_eq_some hst)) hPe (ClientStep.err err))

/-! ## The end of the buffer -/

/-- The last byte of `headers` is NUL, so that no search in it leaves it. -/
def HeadersEnd (c : ConnectState) : Prop := c.headers.cell (128 - 1) = 0#8

theorem put_nul_end {r : Region 128 Byte} (h : r.cell (128 - 1) = 0#8) (pos : ℕ) :
    (r.put pos [0#8]).cell (128 - 1) = 0#8 := by
  by_cases hpos : pos = 128 - 1
  · subst hpos
    exact r.put_cell (128 - 1) (show 0 < [0#8].length by simp)
  · rw [r.put_cell_of_outside (by simp; omega), h]

theorem splitRequest_end {r : Region 128 Byte} (h : r.cell (128 - 1) = 0#8) :
    (splitRequest r).1.cell (128 - 1) = 0#8 := by
  simp only [splitRequest]
  split
  · split
    · exact put_nul_end (put_nul_end h _) _
    · exact put_nul_end h _
  · exact h

theorem send_end {w : Outcomes} {led : Bool} {s : ConnectState} {totLen : ℕ} (h : HeadersEnd s) :
    ∀ c ∈ (send w led s totLen).state, HeadersEnd c := by
  simp only [send, tcpCloseClientConnection]
  split_ifs <;> simp only [Option.mem_def, reduceCtorEq, Option.some_inj, forall_eq',
    IsEmpty.forall_iff, implies_true]
  · exact h
  · exact h

theorem recv_end {w : Outcomes} {led : Bool} {s : ConnectState} {p : Option (List Byte)}
    (h : HeadersEnd s) : ∀ c ∈ (tcpServerRecv overflow gw w led s p).state, HeadersEnd c := by
  cases p with
  | none => simp [tcpServerRecv, tcpCloseClientConnection]
  | some bytes =>
    have hcopy : (s.headers.put 0 (bytes.take (128 - 1))).cell (128 - 1) = 0#8 :=
      Region.put_last _ (List.length_take_le _ bytes) h
    simp only [tcpServerRecv]
    split
    · split
      · simp only [respond]
        split
        · simp [tcpCloseClientConnection]
        · split
          · split
            · simp [tcpCloseClientConnection]
            · exact send_end (Region.snprintf_last _ _ (splitRequest_end hcopy))
          · exact send_end (Region.snprintf_last _ _ (splitRequest_end hcopy))
      · intro c hc
        obtain rfl := Option.some.inj hc
        exact hcopy
    · intro c hc
      obtain rfl := Option.some.inj hc
      exact h

/-- INTERNAL: in every state that the server can reach, the buffers of the connections end with a
NUL.
SOURCE: ipstack/picow_access_point.c:131-155 -/
theorem headers_end {led : Bool} {s : Server} {events : List LedEvent}
    (hrun : (ledMachine overflow gw).run (apStart led) events = some s) :
    ∀ c ∈ s.connections, ∀ st ∈ c.state, HeadersEnd st := by
  refine clients_run (fun c => ∀ st ∈ c.state, HeadersEnd st) (fun _ _ => True) ?_ ?_
    ((ledMachine overflow gw).along_of_forall fun _ _ _ => trivial) hrun
  · intro st hst
    obtain rfl := Option.some.inj hst
    rfl
  · intro s e k st d hd _ hstep
    have hend := hd st rfl
    cases hstep with
    | recv w p => exact recv_end hend
    | sent closed len =>
      intro st' hst'
      simp only [Reply.client, tcpServerSent, tcpCloseClientConnection] at hst'
      by_cases hdone : st.headerLen + st.resultLen ≤ st.sentLen + len
      · simp [if_pos hdone] at hst'
      · rw [if_neg hdone] at hst'
        obtain rfl := Option.some.inj hst'
        exact hend
    | poll closed => simp [Reply.client, tcpServerPoll, tcpCloseClientConnection]
    | err err =>
      intro st' hst'
      simp only [tcpServerErr] at hst'
      split_ifs at hst'
      · cases hst'
      · obtain rfl := Option.some.inj hst'
        exact hend

/-! ## The bytes in flight -/

/-- Nothing is received on a connection while bytes of it are in flight; `tcp_write` does not refuse
the page after it took the header, and neither the peer nor the poll timer ends the connection
while bytes are in flight, unless `tcp_close` fails and the connection is aborted. -/
def AwaitsAcks (s : Server) : LedEvent → Prop
  | .recv k w (some _) =>
    s.unacked k = [] ∧ (w.headers = errOk → w.result ≠ errOk → w.closed ≠ errOk)
  | .recv k w none => s.unacked k = [] ∨ w.closed ≠ errOk
  | .poll k closed => s.unacked k = [] ∨ closed ≠ errOk
  | _ => True

/-- The bytes in flight are where they were and as they were when they were handed over. -/
def Unspoiled (c : ClientConnection) : Prop :=
  ∀ r ∈ c.unacked, ∃ st, c.state = some st ∧ st.at r.buffer r.index = r.byte

/-- Of an open connection, `sent_len` and the bytes in flight make up the response. -/
structure Accounted (c : ClientConnection) : Prop where
  kept : Unspoiled c
  balance : ∀ st, c.state = some st → c.pcb = true →
    st.sentLen + c.unacked.length = st.headerLen + st.resultLen

/-- INTERNAL: a connection that is closed with nothing in flight, or aborted. -/
theorem close_accounted {closed : Err} (closeErr : Err) (led : Bool) {written : List (List Ref)}
    {unacked : List Ref} (h : unacked ++ written.flatten = [] ∨ closed ≠ errOk) :
    Accounted ((tcpCloseClientConnection closed closeErr led written).client unacked) := by
  have hnone : ((tcpCloseClientConnection closed closeErr led written).client unacked).unacked =
      [] := by
    change (if (tcpCloseClientConnection closed closeErr led written).aborted = true then []
      else unacked ++ written.flatten) = []
    obtain hnone | hclosed := h
    · rw [hnone, ite_self]
    · exact if_pos (decide_eq_true hclosed)
  refine ⟨fun r hr => ?_, fun st hst => (by cases hst)⟩
  rw [hnone] at hr
  cases hr

/-- INTERNAL: a connection that goes on with `st`. -/
theorem open_accounted {st : ConnectState} {written : List (List Ref)} {unacked : List Ref}
    (led : Bool) (totLen : ℕ)
    (hkept : ∀ r ∈ unacked ++ written.flatten, st.at r.buffer r.index = r.byte)
    (hbalance : st.sentLen + (unacked ++ written.flatten).length = st.headerLen + st.resultLen) :
    Accounted (Reply.client ⟨errOk, some st, led, written, totLen, false⟩ unacked) := by
  refine ⟨fun r hr => ⟨st, rfl, hkept r hr⟩, ?_⟩
  rintro _ ⟨⟩ _
  exact hbalance

theorem refs_kept_at {st : ConnectState} {buffer : Buffer} {len : ℕ} {r : Ref}
    (hr : r ∈ st.refs buffer len) : st.at r.buffer r.index = r.byte := by
  obtain ⟨i, -, rfl⟩ := List.mem_map.mp hr
  rfl

theorem refs_length (st : ConnectState) (buffer : Buffer) (len : ℕ) :
    (st.refs buffer len).length = len := by
  simp [ConnectState.refs]

/-- INTERNAL: with nothing in flight, the two writes put the response in flight.
SOURCE: ipstack/picow_access_point.c:175-192 -/
theorem send_accounted {w : Outcomes} (led : Bool) (st : ConnectState) (totLen : ℕ)
    (hw : w.headers = errOk → w.result ≠ errOk → w.closed ≠ errOk) :
    Accounted ((send w led st totLen).client []) := by
  simp only [send]
  split
  · exact close_accounted _ _ (Or.inl rfl)
  · rename_i hheaders
    split
    · split
      · rename_i hresult
        exact close_accounted _ _ (Or.inr (hw (not_not.mp hheaders) hresult))
      · refine open_accounted led totLen (fun r hr => ?_) ?_
        · simp only [List.nil_append, List.flatten_cons, List.flatten_nil, List.append_nil,
            List.mem_append] at hr
          obtain hr | hr := hr
          · exact refs_kept_at hr
          · exact refs_kept_at hr
        · simp [refs_length]
    · rename_i hnone
      have hzero : st.resultLen = 0 := not_not.mp hnone
      refine open_accounted led totLen (fun r hr => ?_) ?_
      · simp only [List.nil_append, List.flatten_cons, List.flatten_nil, List.append_nil] at hr
        exact refs_kept_at hr
      · simp [refs_length, hzero]

/-- INTERNAL: received data with nothing in flight.
SOURCE: ipstack/picow_access_point.c:116-196 -/
theorem recv_accounted {w : Outcomes} (led : Bool) {st : ConnectState} (bytes : List Byte)
    (hw : w.headers = errOk → w.result ≠ errOk → w.closed ≠ errOk)
    (hst : st.sentLen = st.headerLen + st.resultLen) :
    Accounted ((tcpServerRecv overflow gw w led st (some bytes)).client []) := by
  simp only [tcpServerRecv]
  split
  · split
    · simp only [respond]
      split
      · exact close_accounted _ _ (Or.inl rfl)
      · split
        · split
          · exact close_accounted _ _ (Or.inl rfl)
          · exact send_accounted _ _ _ hw
        · exact send_accounted _ _ _ hw
    · exact open_accounted led _ (fun r hr => (by cases hr)) hst
  · exact open_accounted led _ (fun r hr => (by cases hr)) hst

/-- INTERNAL: every callback of a connection that waits for its acknowledgements. -/
theorem step_accounted {s : Server} {e : LedEvent} {k : ℕ} {st : ConnectState}
    {d : ClientConnection} (h : Accounted ⟨some st, true, s.unacked k⟩) (hwait : AwaitsAcks s e)
    (hstep : ClientStep overflow gw s k st e d) : Accounted d := by
  have hbalance : st.sentLen + (s.unacked k).length = st.headerLen + st.resultLen :=
    h.balance st rfl rfl
  cases hstep with
  | recv w p =>
    cases p with
    | none =>
      refine close_accounted _ _ (hwait.imp_left fun hnone => ?_)
      rw [hnone, List.flatten_nil, List.append_nil]
    | some bytes =>
      rw [hwait.1] at hbalance ⊢
      exact recv_accounted s.led bytes hwait.2 hbalance
  | sent closed len hle =>
    simp only [tcpServerSent]
    split
    · rename_i hdone
      refine close_accounted _ _ (Or.inl ?_)
      rw [List.flatten_nil, List.append_nil]
      exact List.drop_of_length_le (by omega)
    · refine open_accounted s.led 0 (fun r hr => ?_) ?_
      · rw [List.flatten_nil, List.append_nil] at hr
        obtain ⟨st', hst', hkept⟩ := h.kept r (List.mem_of_mem_drop hr)
        obtain rfl := Option.some.inj hst'
        exact hkept
      · rw [List.flatten_nil, List.append_nil, List.length_drop]
        dsimp only
        omega
  | poll closed =>
    refine close_accounted _ _ (hwait.imp_left fun hnone => ?_)
    rw [hnone, List.flatten_nil, List.append_nil]
  | err err => exact ⟨fun r hr => (by cases hr), fun _ _ hpcb => (by cases hpcb)⟩

/-- INTERNAL: as long as every connection waits for its acknowledgements, what lwIP refers to stays
as it was handed over.
SOURCE: ipstack/picow_access_point.c:45-83, ipstack/picow_access_point.c:116-210 -/
theorem bytes_in_flight {led : Bool} {s : Server} {events : List LedEvent}
    (hrun : (ledMachine overflow gw).run (apStart led) events = some s)
    (hwait : (ledMachine overflow gw).Along AwaitsAcks (apStart led) events) :
    ∀ c ∈ s.connections, Unspoiled c := by
  suffices h : ∀ c ∈ s.connections, Accounted c from fun c hc => (h c hc).kept
  refine clients_run Accounted AwaitsAcks ?_ (fun s e k st d h hP hstep =>
    step_accounted h hP hstep) hwait hrun
  refine ⟨fun r hr => (by cases hr), ?_⟩
  rintro _ ⟨⟩ _
  rfl

/-! ## The history of the LED -/

/-- CONTRACT: over every run, with any number of connections and whatever is left in their
buffers, the LED is what the requests have set one after the other, and what is given to
`tcp_write` for each of them is the page for the LED as it is then, or the way to the page. As long
as every connection waits for its acknowledgements, it stays so until the peer has acknowledged
it.
SOURCE: ipstack/picow_access_point.c:45-237 -/
theorem led_history {led : Bool} {s : Server} {events : List LedEvent}
    (hrun : (ledMachine overflow gw).run (apStart led) events = some s) :
    s.led = (getTexts overflow gw (apStart led) events).foldl
        (fun led text => ledAfter overflow led text.1) led ∧
      Answers overflow gw led (getTexts overflow gw (apStart led) events) s.answers s.led ∧
      ((ledMachine overflow gw).Along AwaitsAcks (apStart led) events →
        ∀ c ∈ s.connections, Unspoiled c) := by
  obtain ⟨answers, hanswers, hall⟩ := run_answers hrun
  rw [show s.answers = answers from hanswers]
  refine ⟨?_, hall, bytes_in_flight hrun⟩
  clear hanswers hrun
  change Answers overflow gw led _ answers s.led at hall
  generalize getTexts overflow gw (apStart led) events = texts at hall ⊢
  generalize s.led = last at hall ⊢
  induction hall with
  | nil led => rfl
  | cons led text w rest ih => exact ih

/-- The gateway of the access point. -/
def sampleGateway : Gateway := ⟨ascii "192.168.4.1", by decide +kernel⟩

/-- lwIP takes both writes. -/
def allTaken : Outcomes := ⟨errOk, errOk, errOk⟩

/-- A connection and a request whose second line has a question mark. -/
def sampleReferer : List LedEvent :=
  [.accept true errOk true,
    .recv 0 allTaken
      (some (ascii "GET /ledtest HTTP/1.1\r\nReferer: http://x/?led=1\r\n\r\n"))]

/-- INTERNAL: the question mark of the second line switches the LED on. -/
theorem led_history_referer :
    ∃ s, (ledMachine id sampleGateway).run (apStart false) sampleReferer = some s ∧
      s.led = true ∧ s.led = (getTexts id sampleGateway (apStart false) sampleReferer).foldl
          (fun led text => ledAfter id led text.1) false := by
  have hled : ((ledMachine id sampleGateway).run (apStart false) sampleReferer).map (·.led) =
      some true := by decide +kernel
  obtain ⟨s, hrun, hon⟩ := Option.map_eq_some_iff.mp hled
  exact ⟨s, hrun, hon, (led_history hrun).1⟩

/-! ## Following the link -/

/-- The parameters of the link on the page for an LED. -/
def linkParams (led : Bool) : List Byte := ascii "led=" ++ decimal (if led then 0 else 1)

/-- What is sent when the link on the page for an LED is followed. -/
def linkRequest (led : Bool) (tail : List Byte) : List Byte :=
  ascii "GET " ++ (ledTest ++ 0x3F#8 :: (linkParams led ++ 0x20#8 :: tail))

/-- A request follows the link of the page for the LED as it is. -/
def FollowsLink (s : Server) (e : LedEvent) : Prop :=
  getText s e ≠ none → ∃ k w tail, e = .recv k w (some (linkRequest s.led tail))

/-- INTERNAL: the link turns the LED of the page it is on.
SOURCE: ipstack/picow_access_point.c:93-113 -/
theorem ledAfter_link (before led : Bool) (rest : List Byte) :
    ledAfter overflow before (ledTest ++ 0x3F#8 :: (linkParams led ++ 0x20#8 :: rest)) = !led := by
  have htest : ledTest.isPrefixOf (ledTest ++ 0x3F#8 :: (linkParams led ++ 0x20#8 :: rest)) :=
    List.isPrefixOf_iff_prefix.mpr (List.prefix_append _ _)
  have hq : memchr 0x3F#8 (ledTest ++ 0x3F#8 :: (linkParams led ++ 0x20#8 :: rest)) = some 8 :=
    memchr_eq_some_iff.mpr ⟨ledTest, _, rfl, by decide +kernel, by decide +kernel⟩
  have hfree : 0x20#8 ∉ linkParams led := by
    cases led
    · decide +kernel
    · decide +kernel
  have hparams : ledParams (ledTest ++ 0x3F#8 :: (linkParams led ++ 0x20#8 :: rest)) =
      some (linkParams led) := by
    have hhead : (ledTest ++ 0x3F#8 :: (linkParams led ++ 0x20#8 :: rest)).take 8 = ledTest :=
      List.take_left' (by decide +kernel)
    have htail : (ledTest ++ 0x3F#8 :: (linkParams led ++ 0x20#8 :: rest)).drop (8 + 1) =
        linkParams led ++ 0x20#8 :: rest := by
      rw [List.append_cons, List.drop_left' (by decide +kernel)]
    rw [ledParams, hq, Option.map_some, hhead, htail, if_neg (by decide +kernel),
      takeWhile_ne_append hfree]
    simp
  have hvalue : scanLedParam overflow (linkParams led) = some (if led then 0 else 1) := by
    cases led
    · have hscan : scanInt ((linkParams false).drop 4) = some 1 := by decide +kernel
      rw [scanLedParam, if_pos (by decide +kernel), hscan]
      exact congrArg some (toInt_of_fits overflow (by decide))
    · have hscan : scanInt ((linkParams true).drop 4) = some 0 := by decide +kernel
      rw [scanLedParam, if_pos (by decide +kernel), hscan]
      exact congrArg some (toInt_of_fits overflow (by decide))
  rw [ledAfter, if_pos htest, hparams, Option.bind_some, hvalue]
  cases led
  · rfl
  · rfl

/-- INTERNAL: the link in the buffer, over whatever was there before.
SOURCE: ipstack/picow_access_point.c:130-135 -/
theorem text_linkRequest (headers : Region 128 Byte) (led : Bool) (tail : List Byte) :
    ∃ rest, (headers.put 0 ((linkRequest led tail).take (128 - 1))).stringFrom 4 =
      ledTest ++ 0x3F#8 :: (linkParams led ++ 0x20#8 :: rest) := by
  let link := ledTest ++ 0x3F#8 :: (linkParams led ++ [0x20#8])
  have hlen : link.length = 15 := by
    cases led
    · decide +kernel
    · decide +kernel
  have hnul : 0#8 ∉ link := by
    cases led
    · decide +kernel
    · decide +kernel
  have hget : (ascii "GET ").length = 4 := by decide +kernel
  have hcut : (linkRequest led tail).take (128 - 1) =
      ascii "GET " ++ (link ++ tail.take 108) := by
    have hwhole : linkRequest led tail = (ascii "GET " ++ link) ++ tail := by
      simp [linkRequest, link]
    rw [hwhole, List.take_append, List.take_of_length_le (by rw [List.length_append]; omega),
      List.length_append, hget, hlen, List.append_assoc]
  have hshort : ((linkRequest led tail).take (128 - 1)).length ≤ 128 :=
    (List.length_take_le _ _).trans (by omega)
  have hlong : 4 ≤ ((linkRequest led tail).take (128 - 1)).length := by
    rw [hcut, List.length_append]
    omega
  rw [headers.stringFrom_put_zero hshort hlong]
  generalize headers.slice _ _ = old
  rw [hcut, List.drop_left' hget, List.append_assoc, takeWhile_ne_append hnul]
  generalize (tail.take 108 ++ old).takeWhile (· ≠ 0#8) = rest
  exact ⟨rest, by simp [link]⟩

/-- INTERNAL: one callback of a run in which only links are followed turns the LED if it answers,
and shows it as it is then. -/
theorem step_link {s t : Server} {e : LedEvent} (hlink : FollowsLink s e)
    (hstep : (ledMachine overflow gw).step s e = some t) :
    (t.led = s.led ∧ t.answers = s.answers) ∨
      (t.led = !s.led ∧ ∃ n, t.answers = s.answers ++
        [(t.led, [httpResponseHeaders 200 105, ledPage t.led].take n)]) := by
  obtain ⟨-, hled, hsame⟩ | ⟨text, w, hsome, hled, hone⟩ := step_answers hstep
  · exact Or.inl ⟨hled, hsame⟩
  · right
    obtain ⟨k, w', tail, rfl⟩ := hlink (by simp [hsome])
    simp only [getText, Option.bind_eq_some_iff, Option.ite_none_right_eq_some, Option.some_inj,
      Prod.mk.injEq, Option.getD_some] at hsome
    obtain ⟨c, -, -, rfl, rfl⟩ := hsome
    obtain ⟨rest, hrest⟩ := text_linkRequest c.headers s.led tail
    rw [hrest] at hled hone
    rw [ledAfter_link] at hled
    have htest : ledTest.isPrefixOf
        (ledTest ++ 0x3F#8 :: (linkParams s.led ++ 0x20#8 :: rest)) :=
      List.isPrefixOf_iff_prefix.mpr (List.prefix_append _ _)
    rw [ledAnswer, if_pos htest, ledPage_length] at hone
    exact ⟨hled, _, hone⟩

/-- The LED has turned with every answer since it was `led`, and each shows it as it was then. -/
structure Turning (led : Bool) (s : Server) : Prop where
  led_eq : s.led = (led ^^ decide (s.answers.length % 2 = 1))
  shown : ∀ i a, s.answers[i]? = some a → a.1 = (led ^^ decide (i % 2 = 0)) ∧
    ∃ n, a.2 = [httpResponseHeaders 200 105, ledPage a.1].take n

theorem Turning.step {led : Bool} {s t : Server} {e : LedEvent} (h : Turning led s)
    (hlink : FollowsLink s e) (hstep : (ledMachine overflow gw).step s e = some t) :
    Turning led t := by
  obtain ⟨hsame, hanswers⟩ | ⟨hturned, n, hanswers⟩ := step_link hlink hstep
  · refine ⟨?_, ?_⟩
    · rw [hsame, hanswers]
      exact h.led_eq
    · rw [hanswers]
      exact h.shown
  · have hparity : t.led = (led ^^ decide (s.answers.length % 2 = 0)) := by
      rw [hturned, h.led_eq]
      obtain heven | hodd := Nat.mod_two_eq_zero_or_one s.answers.length
      · simp [heven]
      · simp [hodd]
    refine ⟨?_, fun i a ha => ?_⟩
    · rw [hparity, hanswers, List.length_append, List.length_singleton]
      congr 1
      rw [decide_eq_decide]
      omega
    · rw [hanswers] at ha
      obtain hlt | hge := Nat.lt_or_ge i s.answers.length
      · exact h.shown i a (by rwa [List.getElem?_append_left hlt] at ha)
      · rw [List.getElem?_append_right hge, List.getElem?_singleton,
          Option.ite_none_right_eq_some] at ha
        obtain ⟨hi, ha⟩ := ha
        obtain rfl := Option.some.inj ha
        have hlast : i = s.answers.length := by omega
        subst hlast
        exact ⟨hparity, n, rfl⟩

/-- Both links are followed on one connection before anything is acknowledged: the page for the
second one is stored over the page for the first one while it is in flight. -/
example : ((ledMachine id sampleGateway).run (apStart false)
    [.accept true errOk true, .recv 0 allTaken (some (linkRequest false [])),
      .recv 0 allTaken (some (linkRequest true []))]).map
    (fun s => s.connections.map fun c =>
      c.unacked.all fun r => c.state.map (fun st => st.at r.buffer r.index) == some r.byte) =
    some [false] := by
  decide +kernel

end PicoDrone.Analysis
