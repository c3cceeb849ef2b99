import PicoDrone.Model.TlsSession

/-!
# What a call of the TLS client tells

The calling task only waits for `complete`, which `tls_client_close` sets first of all. As long as
it leaves only when no callback has assignments left, the state of the client is not used after
it was freed. If the error callback does not come either, a call returns `true` exactly if the timer
has not come since it began, so also after a failed lookup or a refused connection, and what is not
released are the states and configurations of the calls that got no memory or no pcb
(`tls_calls`). A call that leaves earlier frees a state that the callback goes on with: exactly
those runs fail (`tls_stale_use`).
-/

set_option autoImplicit false

namespace PicoDrone.Analysis

open PicoDrone.Library PicoDrone.Model PicoDrone.Model.TlsSession

variable {overflow : ℤ → ℤ}

/-! ## What the calls amount to -/

/-- The calls as their caller sees them: whether the timer or the error callback has come since the
last one began, the results, the setpoint, what is lost of states and configurations, and how
often lwIP has given a connection up. -/
structure Calls where
  failed : Bool
  results : List Bool
  co2SetPoint : ℤ
  lostStates : ℕ
  lostConfigs : ℕ
  aborts : ℕ

/-- What an event means for the calls. -/
def Calls.after (overflow : ℤ → ℤ) (a : Calls) : TlsEvent → Calls
  | .call o =>
    if o.state = false then
      { a with results := a.results ++ [false], lostConfigs := a.lostConfigs + 1 }
    else if o.pcb = false then
      { a with
        results := a.results ++ [false]
        lostConfigs := a.lostConfigs + 1
        lostStates := a.lostStates + 1 }
    else if o.lookup = errOk ∨ o.lookup = errInprogress then { a with failed := false }
    else a
  | .leave => { a with results := a.results ++ [!a.failed] }
  | .poll _ => { a with failed := true }
  | .err _ => { a with failed := true, aborts := a.aborts + 1 }
  | .recv (some payload) _ =>
    let value := extractCo2Setpoint overflow (payload ++ [0#8]) payload.length
    if 0 < payload.length ∧ 0 ≤ value then { a with co2SetPoint := value } else a
  | _ => a

/-- Before the first call. -/
def Calls.start : Calls := ⟨false, [], 0, 0, 0, 0⟩

/-! ## How a call goes on -/

/-- Where a call is: the assignments left to the callback, the client, the pcb, whether a lookup
is outstanding, whether the timer or the error callback has come, and how many calls of lwIP on a
freed pcb are still ahead. -/
inductive Stage : List Statement → ClientState → Pcb → Bool → Bool → ℕ → Prop
  | lookup : Stage [] ⟨true, false, .ok⟩ .created true false 0
  | opened {p : Pcb} (hp : p = .connecting ∨ p = .connected) :
      Stage [] ⟨true, false, .ok⟩ p false false 0
  | timedOut {p : Pcb} (hp : p ≠ .freed) (closed : Err) :
      Stage [.error .timeout, .complete, .release closed] ⟨true, false, .ok⟩ p false true 0
  | closing {p : Pcb} (hp : p ≠ .freed) (closed : Err) (e : PicoError) :
      Stage [.complete, .release closed] ⟨true, false, e⟩ p false (decide (e ≠ .ok)) 0
  | releasing {p : Pcb} (hp : p ≠ .freed) (closed : Err) (e : PicoError) :
      Stage [.release closed] ⟨true, true, e⟩ p false (decide (e ≠ .ok)) 0
  | aborted (closed : Err) :
      Stage [.complete, .release closed, .error .generic] ⟨true, false, .ok⟩ .freed false true 1
  | abortedReleasing (closed : Err) :
      Stage [.release closed, .error .generic] ⟨true, true, .ok⟩ .freed false true 1
  | abortedError : Stage [.error .generic] ⟨false, true, .ok⟩ .freed false true 0
  | done (e : PicoError) : Stage [] ⟨false, true, e⟩ .freed false (decide (e ≠ .ok)) 0

/-- A pcb that is allocated. -/
def pcbCount (p : Pcb) : ℕ := if p = .freed then 0 else 1

/-- The calling task and what is allocated for it. -/
inductive CallerOk (a : Calls) (s : Tls) : Prop
  | idle (hcaller : s.caller = .idle) (hclient : s.client = none) (hcallback : s.callback = [])
      (hlookup : s.lookup = false) (hpcb : s.pcb = .freed)
      (hstates : s.states = a.lostStates) (hconfigs : s.configs = a.lostConfigs)
      (hpcbs : s.pcbs = 0) (haborts : s.faults.count .freedPcb = a.aborts)
      (hright : .wrongArgument ∉ s.faults)
  | busy (c : ClientState) (owed : ℕ) (hclient : s.client = some c)
      (hstage : Stage s.callback c s.pcb s.lookup a.failed owed)
      (hcaller : s.caller = .waiting ∨ s.caller = .leaving ∧ c.complete = true)
      (hstates : s.states = a.lostStates + 1) (hconfigs : s.configs = a.lostConfigs + 1)
      (hpcbs : s.pcbs = pcbCount s.pcb)
      (haborts : s.faults.count .freedPcb + owed = a.aborts)
      (hright : .wrongArgument ∉ s.faults)
  | lost (c : ClientState) (hcaller : s.caller = .lost) (hclient : s.client = some c)
      (hcallback : s.callback = []) (hlookup : s.lookup = false) (hpcb : s.pcb = .created)

/-- The state behind the calls. -/
structure CallsOk (a : Calls) (s : Tls) : Prop where
  results : s.results = a.results
  co2SetPoint : s.co2SetPoint = a.co2SetPoint
  intact : .freedState ∉ s.faults
  caller : CallerOk a s

/-- The calling task leaves only when no callback is running. -/
def LeavesLast (s : Tls) : TlsEvent → Prop
  | .leave => s.callback = []
  | _ => True

/-- INTERNAL: between two callbacks a call is open, with its lookup or its connection under way, or
the client has been closed. -/
theorem Stage.of_nil {c : ClientState} {p : Pcb} {lookup failed : Bool} {owed : ℕ}
    (h : Stage [] c p lookup failed owed) : owed = 0 ∧
      ((c = ⟨true, false, .ok⟩ ∧ failed = false ∧
          (lookup = true ∧ p = .created ∨
            lookup = false ∧ (p = .connecting ∨ p = .connected))) ∨
        ∃ e, c = ⟨false, true, e⟩ ∧ p = .freed ∧ lookup = false ∧ failed = decide (e ≠ .ok)) := by
  cases h with
  | lookup => exact ⟨rfl, Or.inl ⟨rfl, rfl, Or.inl ⟨rfl, rfl⟩⟩⟩
  | opened hp => exact ⟨rfl, Or.inl ⟨rfl, rfl, Or.inr ⟨rfl, hp⟩⟩⟩
  | done e => exact ⟨rfl, Or.inr ⟨e, rfl, rfl, rfl, rfl⟩⟩

/-! ## The steps -/

/-- INTERNAL: an assignment of a callback brings the call on.
SOURCE: ipstack/tls_common.c:51-101 -/
theorem statement_ok {a : Calls} {s : Tls} {st : Statement} {rest : List Statement}
    (h : CallsOk a s) (hcallback : s.callback = st :: rest) :
    CallsOk a { s.exec st with callback := rest } := by
  obtain ⟨hresults, hsetpoint, hintact, hcaller⟩ := h
  cases hcaller with
  | idle _ _ hnone => simp [hnone] at hcallback
  | lost _ _ _ hnone => simp [hnone] at hcallback
  | busy c owed hclient hstage hcaller hstates hconfigs hpcbs haborts hright =>
    rw [hcallback] at hstage
    obtain ⟨caller, client, pcb, lookup, callback, setpoint, states, configs, pcbs, results,
      faults⟩ := s
    obtain ⟨failed, results', setpoint', lostStates, lostConfigs, aborts⟩ := a
    dsimp only at *
    subst hclient
    cases hstage with
    | timedOut hp closed =>
      exact ⟨hresults, hsetpoint, hintact, .busy _ 0 rfl (.closing hp closed .timeout)
        (hcaller.imp_right fun h => ⟨h.1, h.2⟩) hstates hconfigs hpcbs haborts hright⟩
    | closing hp closed e =>
      exact ⟨hresults, hsetpoint, hintact, .busy _ 0 rfl (.releasing hp closed e)
        (hcaller.imp_right fun h => ⟨h.1, rfl⟩) hstates hconfigs hpcbs haborts hright⟩
    | releasing hp closed e =>
      simp only [Tls.exec, if_pos, if_neg hp]
      refine ⟨hresults, hsetpoint, hintact,
        .busy _ 0 rfl (.done e) hcaller hstates hconfigs ?_ haborts hright⟩
      simp only [pcbCount, if_neg hp] at hpcbs
      simp only [pcbCount, if_pos]
      omega
    | aborted closed =>
      exact ⟨hresults, hsetpoint, hintact, .busy _ 1 rfl (.abortedReleasing closed)
        (hcaller.imp_right fun h => ⟨h.1, rfl⟩) hstates hconfigs hpcbs haborts hright⟩
    | abortedReleasing closed =>
      simp only [Tls.exec, if_pos, Tls.fault]
      refine ⟨hresults, hsetpoint, ?_,
        .busy _ 0 rfl .abortedError hcaller hstates hconfigs hpcbs ?_ ?_⟩
      · simp [hintact]
      · simpa using haborts
      · simp [hright]
    | abortedError =>
      exact ⟨hresults, hsetpoint, hintact, .busy _ 0 rfl (.done .generic) hcaller hstates hconfigs
        hpcbs haborts hright⟩

/-- INTERNAL: a call waits, has failed and lost what it had allocated, or is lost itself.
SOURCE: ipstack/tls_common.c:169-248 -/
theorem call_ok {a : Calls} {s : Tls} (h : CallsOk a s) (hidle : s.caller = .idle)
    (o : OpenAnswers) : CallsOk (a.after overflow (.call o)) (s.call o) := by
  obtain ⟨hresults, hsetpoint, hintact, hcaller⟩ := h
  cases hcaller with
  | busy _ _ _ _ hbusy =>
    rw [hidle] at hbusy
    simp at hbusy
  | lost _ hlost =>
    rw [hidle] at hlost
    cases hlost
  | idle _ hclient hcallback hlookup hpcb hstates hconfigs hpcbs haborts hright =>
    obtain ⟨caller, client, pcb, lookup, callback, setpoint, states, configs, pcbs, results,
      faults⟩ := s
    dsimp only at *
    subst hclient hcallback hlookup
    simp only [Tls.call, Calls.after]
    by_cases hstate : o.state = false
    · simp only [if_pos hstate]
      refine ⟨?_, hsetpoint, hintact, .idle hidle rfl rfl rfl hpcb hstates ?_ hpcbs haborts hright⟩
      · rw [hresults]
      · rw [hconfigs]
    simp only [if_neg hstate]
    by_cases hnew : o.pcb = false
    · simp only [if_pos hnew]
      refine ⟨?_, hsetpoint, hintact, .idle hidle rfl rfl rfl hpcb ?_ ?_ hpcbs haborts hright⟩
      · rw [hresults]
      · rw [hstates]
      · rw [hconfigs]
    simp only [if_neg hnew]
    have hone : pcbs + 1 = 1 := by rw [hpcbs]
    by_cases hcached : o.lookup = errOk
    · -- the host is in the cache
      simp only [if_pos hcached, if_pos (Or.inl hcached), Tls.tlsClientConnectToServerIp]
      by_cases hconnect : o.connect = errOk
      · simp only [if_neg (not_not_intro hconnect), Tls.finish, List.foldl_nil]
        exact ⟨hresults, hsetpoint, hintact, .busy _ 0 rfl (.opened (Or.inl rfl)) (Or.inl rfl)
          (congrArg (· + 1) hstates) (congrArg (· + 1) hconfigs) hone haborts hright⟩
      · simp only [if_pos hconnect, Tls.finish, Tls.tlsClientClose, List.foldl_cons, List.foldl_nil,
          Tls.exec]
        exact ⟨hresults, hsetpoint, hintact, .busy _ 0 rfl (.done .ok) (Or.inl rfl)
          (congrArg (· + 1) hstates) (congrArg (· + 1) hconfigs) hpcbs haborts hright⟩
    simp only [if_neg hcached]
    by_cases hasked : o.lookup = errInprogress
    · simp only [if_pos hasked, if_pos (Or.inr hasked)]
      exact ⟨hresults, hsetpoint, hintact, .busy _ 0 rfl .lookup (Or.inl rfl)
        (congrArg (· + 1) hstates) (congrArg (· + 1) hconfigs) hone haborts hright⟩
    · simp only [if_neg hasked, if_neg (not_or.mpr ⟨hcached, hasked⟩)]
      exact ⟨hresults, hsetpoint, by simp [hintact], .lost _ rfl rfl rfl rfl rfl⟩

/-- SOURCE: ipstack/tls_common.c:249-266 -/
theorem check_ok {a : Calls} {s t : Tls} (h : CallsOk a s) (hwaiting : s.caller = .waiting)
    (hcheck : s.check = some t) : CallsOk a t := by
  obtain ⟨c, hsome, ht⟩ := Option.map_eq_some_iff.mp hcheck
  obtain ⟨hresults, hsetpoint, hintact, hcaller⟩ := h
  by_cases hcomplete : c.complete = true
  · rw [if_pos hcomplete] at ht
    subst ht
    refine ⟨hresults, hsetpoint, hintact, ?_⟩
    cases hcaller with
    | idle _ hclient => simp [hsome] at hclient
    | lost _ hlost => simp [hwaiting] at hlost
    | busy d owed hclient hstage _ hstates hconfigs hpcbs haborts hright =>
      obtain rfl := Option.some.inj (hsome.symm.trans hclient)
      exact .busy c owed hclient hstage (Or.inr ⟨rfl, hcomplete⟩) hstates hconfigs hpcbs haborts
        hright
  · rw [if_neg hcomplete] at ht
    subst ht
    exact ⟨hresults, hsetpoint, hintact, hcaller⟩

/-- INTERNAL: the call ends with what the callbacks have told, and releases what it allocated.
SOURCE: ipstack/tls_common.c:267-270 -/
theorem leave_ok {a : Calls} {s t : Tls} (h : CallsOk a s) (hleaving : s.caller = .leaving)
    (hlast : s.callback = []) (hleave : s.leave = some t) :
    CallsOk (a.after overflow .leave) t := by
  obtain ⟨hresults, hsetpoint, hintact, hcaller⟩ := h
  cases hcaller with
  | idle hidle => simp [hleaving] at hidle
  | lost _ hlost => simp [hleaving] at hlost
  | busy c owed hclient hstage hcaller hstates hconfigs hpcbs haborts hright =>
    rw [Tls.leave, hclient] at hleave
    obtain rfl := Option.some.inj hleave
    have hcomplete : c.complete = true := by
      obtain hwaiting | ⟨-, hcomplete⟩ := hcaller
      · simp [hleaving] at hwaiting
      · exact hcomplete
    rw [hlast] at hstage
    obtain ⟨rfl, ⟨rfl, -, -⟩ | ⟨e, rfl, hpcb, hlookup, hfailed⟩⟩ := hstage.of_nil
    · cases hcomplete
    · rw [hpcb] at hpcbs
      refine ⟨?_, hsetpoint, hintact,
        .idle rfl rfl hlast hlookup hpcb ?_ ?_ hpcbs haborts hright⟩
      · simp [Calls.after, hresults, hfailed]
      · exact Nat.sub_eq_of_eq_add hstates
      · exact Nat.sub_eq_of_eq_add hconfigs

/-- A call waits for a connection that is not closed, and no callback is running. -/
structure OpenCall (a : Calls) (s : Tls) : Prop where
  waiting : s.caller = .waiting
  client : s.client = some ⟨true, false, .ok⟩
  failed : a.failed = false
  states : s.states = a.lostStates + 1
  configs : s.configs = a.lostConfigs + 1
  pcbs : s.pcbs = 1
  aborts : s.faults.count .freedPcb = a.aborts
  right : .wrongArgument ∉ s.faults

/-- INTERNAL: a callback begins in an open call. -/
theorem open_of_callback {a : Calls} {s : Tls} (h : CallsOk a s) (hcallback : s.callback = [])
    (hbegins : s.lookup = true ∨ s.pcb = .connecting ∨ s.pcb = .connected) :
    OpenCall a s ∧ (s.lookup = true ∧ s.pcb = .created ∨
      s.lookup = false ∧ (s.pcb = .connecting ∨ s.pcb = .connected)) := by
  cases h.caller with
  | idle _ _ _ hlookup hpcb => simp [hlookup, hpcb] at hbegins
  | lost _ _ _ _ hlookup hpcb => simp [hlookup, hpcb] at hbegins
  | busy c owed hclient hstage hcaller hstates hconfigs hpcbs haborts hright =>
    rw [hcallback] at hstage
    obtain ⟨rfl, ⟨rfl, hfailed, hwhere⟩ | ⟨e, -, hpcb, hlookup, -⟩⟩ := hstage.of_nil
    · have hwaiting : s.caller = .waiting := by
        obtain hwaiting | ⟨-, hcomplete⟩ := hcaller
        · exact hwaiting
        · cases hcomplete
      have hone : pcbCount s.pcb = 1 := by
        obtain ⟨-, hpcb⟩ | ⟨-, hpcb | hpcb⟩ := hwhere <;> rw [hpcb] <;> rfl
      rw [hone] at hpcbs
      exact ⟨⟨hwaiting, hclient, hfailed, hstates, hconfigs, hpcbs, haborts,
        hright⟩, hwhere⟩
    · simp [hpcb, hlookup] at hbegins

theorem open_of_active {a : Calls} {s : Tls} (h : CallsOk a s) (hcallback : s.callback = [])
    (hactive : s.pcb = .connecting ∨ s.pcb = .connected) : OpenCall a s ∧ s.lookup = false := by
  obtain ⟨hopen, ⟨-, hcreated⟩ | ⟨hlookup, -⟩⟩ := open_of_callback h hcallback (Or.inr hactive)
  · simp [hcreated] at hactive
  · exact ⟨hopen, hlookup⟩

theorem open_of_lookup {a : Calls} {s : Tls} (h : CallsOk a s) (hcallback : s.callback = [])
    (hlookup : s.lookup = true) : OpenCall a s ∧ s.pcb = .created := by
  obtain ⟨hopen, ⟨-, hcreated⟩ | ⟨hnone, -⟩⟩ := open_of_callback h hcallback (Or.inl hlookup)
  · exact ⟨hopen, hcreated⟩
  · simp [hlookup] at hnone

/-- INTERNAL: an open call goes on with a callback, or with a connection. -/
theorem OpenCall.goes_on {a : Calls} {s : Tls} (h : CallsOk a s) (hopen : OpenCall a s) {p : Pcb}
    {lookup failed : Bool} {callback : List Statement} {pcbs owed : ℕ}
    (hstage : Stage callback ⟨true, false, .ok⟩ p lookup failed owed)
    (hpcbs : pcbs = pcbCount p) :
    CallsOk { a with failed := failed, aborts := a.aborts + owed }
      { s with pcb := p, lookup := lookup, callback := callback, pcbs := pcbs } :=
  ⟨h.results, h.co2SetPoint, h.intact, .busy _ owed hopen.client hstage (Or.inl hopen.waiting)
    hopen.states hopen.configs hpcbs (congrArg (· + owed) hopen.aborts) hopen.right⟩

theorem OpenCall.unfailed {a : Calls} {s : Tls} (hopen : OpenCall a s) :
    { a with failed := false, aborts := a.aborts + 0 } = a := by
  obtain ⟨failed, _, _, _, _, _⟩ := a
  obtain rfl := hopen.failed
  rfl

theorem OpenCall.pcbs_eq {a : Calls} {s : Tls} (hopen : OpenCall a s) {p : Pcb} (hp : p ≠ .freed) :
    s.pcbs = pcbCount p := by
  rw [hopen.pcbs, pcbCount, if_neg hp]

/-- INTERNAL: an open call goes on with `tls_client_close`. -/
theorem OpenCall.closes {a : Calls} {s : Tls} (h : CallsOk a s) (hopen : OpenCall a s) {p : Pcb}
    (hp : p ≠ .freed) (closed : Err) :
    CallsOk a { s with pcb := p, lookup := false, callback := Tls.tlsClientClose closed } := by
  have hgo := hopen.goes_on h (.closing hp closed .ok) (hopen.pcbs_eq hp)
  rwa [show decide (PicoError.ok ≠ .ok) = false from rfl, hopen.unfailed] at hgo

/-- INTERNAL: an open call goes on with a connection. -/
theorem OpenCall.connects {a : Calls} {s : Tls} (h : CallsOk a s) (hopen : OpenCall a s) {p : Pcb}
    (hp : p = .connecting ∨ p = .connected) :
    CallsOk a { s with pcb := p, lookup := false, callback := [] } := by
  have hlive : p ≠ .freed := by obtain rfl | rfl := hp <;> simp
  have hgo := hopen.goes_on h (.opened hp) (hopen.pcbs_eq hlive)
  rwa [hopen.unfailed] at hgo

/-- SOURCE: ipstack/tls_common.c:138-166 -/
theorem dnsFound_ok {a : Calls} {s : Tls} (h : CallsOk a s) (hcallback : s.callback = [])
    (hlookup : s.lookup = true) (found : Bool) (connect closed : Err) :
    CallsOk a (s.tlsClientDnsFound found connect closed) := by
  obtain ⟨hopen, hpcb⟩ := open_of_lookup h hcallback hlookup
  have hclosing := hopen.closes h (show s.pcb ≠ .freed by simp [hpcb]) closed
  simp only [Tls.tlsClientDnsFound, Tls.tlsClientConnectToServerIp]
  split
  · split
    · exact hclosing
    · have hgo := hopen.connects h (Or.inl rfl)
      rwa [← hcallback] at hgo
  · exact hclosing

/-- SOURCE: ipstack/tls_common.c:72-87 -/
theorem connected_ok {a : Calls} {s : Tls} (h : CallsOk a s) (hcallback : s.callback = [])
    (hpcb : s.pcb = .connecting) (err write closed : Err) :
    CallsOk a (s.tlsClientConnected err write closed) := by
  obtain ⟨hopen, hlookup⟩ := open_of_active h hcallback (Or.inl hpcb)
  have hclosing : ∀ p : Pcb, p ≠ .freed →
      CallsOk a { s with pcb := p, callback := Tls.tlsClientClose closed } := by
    intro p hp
    have hgo := hopen.closes h hp closed
    rwa [← hlookup] at hgo
  have hsome : s.client ≠ none := by simp [hopen.client]
  simp only [Tls.tlsClientConnected, if_neg hsome]
  split
  · exact hclosing s.pcb (by simp [hpcb])
  · split
    · exact hclosing .connected (by simp)
    · have hgo := hopen.connects h (Or.inr rfl)
      rwa [← hcallback, ← hlookup] at hgo

/-- INTERNAL: the setpoint is no part of where the calls are. -/
theorem CallerOk.setpoint {a : Calls} {s : Tls} (h : CallerOk a s) (value : ℤ) :
    CallerOk { a with co2SetPoint := value } { s with co2SetPoint := value } := by
  cases h with
  | idle h₁ h₂ h₃ h₄ h₅ h₆ h₇ h₈ h₉ hr => exact .idle h₁ h₂ h₃ h₄ h₅ h₆ h₇ h₈ h₉ hr
  | busy c owed h₁ h₂ h₃ h₄ h₅ h₆ h₇ hr => exact .busy c owed h₁ h₂ h₃ h₄ h₅ h₆ h₇ hr
  | lost c h₁ h₂ h₃ h₄ h₅ => exact .lost c h₁ h₂ h₃ h₄ h₅

/-- SOURCE: ipstack/tls_common.c:103-136 -/
theorem recv_ok {a : Calls} {s : Tls} (h : CallsOk a s) (hcallback : s.callback = [])
    (hpcb : s.pcb = .connected) (p : Option (List Byte)) (closed : Err) :
    CallsOk (a.after overflow (.recv p closed)) (s.tlsClientRecv overflow p closed) := by
  cases p with
  | none =>
    obtain ⟨hopen, hlookup⟩ := open_of_active h hcallback (Or.inr hpcb)
    have hgo := hopen.closes h (show s.pcb ≠ .freed by simp [hpcb]) closed
    rwa [← hlookup] at hgo
  | some payload =>
    simp only [Calls.after, Tls.tlsClientRecv]
    by_cases hlen : 0 < payload.length
    · by_cases hvalue : 0 ≤ extractCo2Setpoint overflow (payload ++ [0#8]) payload.length
      · simp only [if_pos hlen, if_pos hvalue, if_pos (And.intro hlen hvalue)]
        exact ⟨h.results, rfl, h.intact, h.caller.setpoint _⟩
      · simp only [if_pos hlen, if_neg hvalue, if_neg (fun h : _ ∧ _ => hvalue h.2)]
        exact h
    · simp only [if_neg hlen, if_neg (fun h : _ ∧ _ => hlen h.1)]
      exact h

/-- SOURCE: ipstack/tls_common.c:89-94 -/
theorem poll_ok {a : Calls} {s : Tls} (h : CallsOk a s) (hcallback : s.callback = [])
    (hactive : s.pcb = .connecting ∨ s.pcb = .connected) (closed : Err) :
    CallsOk (a.after overflow (.poll closed)) (s.tlsClientPoll closed) := by
  obtain ⟨hopen, hlookup⟩ := open_of_active h hcallback hactive
  have hp : s.pcb ≠ .freed := by obtain hp | hp := hactive <;> simp [hp]
  have hgo := hopen.goes_on h (.timedOut hp closed) (hopen.pcbs_eq hp)
  rwa [← hlookup] at hgo

/-- SOURCE: ipstack/tls_common.c:96-101 -/
theorem err_ok {a : Calls} {s : Tls} (h : CallsOk a s) (hcallback : s.callback = [])
    (hactive : s.pcb = .connecting ∨ s.pcb = .connected) (closed : Err) :
    CallsOk (a.after overflow (.err closed)) (s.tlsClientErr closed) := by
  obtain ⟨hopen, hlookup⟩ := open_of_active h hcallback hactive
  have hone : s.pcbs - 1 = pcbCount .freed := by
    rw [hopen.pcbs]
    rfl
  have hgo := hopen.goes_on h (.aborted closed) hone
  rwa [← hlookup] at hgo

/-- INTERNAL: every step keeps the calls in order, if the calling task leaves only when no callback
is running. -/
theorem step_ok {a : Calls} {s t : Tls} {e : TlsEvent} (h : CallsOk a s) (hlast : LeavesLast s e)
    (hstep : (tlsMachine overflow).step s e = some t) : CallsOk (a.after overflow e) t := by
  cases e with
  | call o =>
    obtain ⟨⟨hidle, -⟩, hsome⟩ := Option.ite_none_right_eq_some.mp hstep
    obtain rfl := Option.some.inj hsome
    exact call_ok h hidle o
  | check =>
    obtain ⟨hwaiting, hcheck⟩ := Option.ite_none_right_eq_some.mp hstep
    exact check_ok h hwaiting hcheck
  | leave =>
    obtain ⟨hleaving, hleave⟩ := Option.ite_none_right_eq_some.mp hstep
    exact leave_ok h hleaving hlast hleave
  | statement =>
    cases hcallback : s.callback with
    | nil => simp [tlsMachine, Tls.step, hcallback] at hstep
    | cons st rest =>
      simp only [tlsMachine, Tls.step, hcallback] at hstep
      obtain rfl := Option.some.inj hstep
      exact statement_ok h hcallback
  | dnsFound found connect closed =>
    obtain ⟨⟨hlookup, hcallback⟩, hsome⟩ := Option.ite_none_right_eq_some.mp hstep
    obtain rfl := Option.some.inj hsome
    exact dnsFound_ok h hcallback hlookup found connect closed
  | connected err write closed =>
    obtain ⟨⟨hpcb, hcallback⟩, hsome⟩ := Option.ite_none_right_eq_some.mp hstep
    obtain rfl := Option.some.inj hsome
    exact connected_ok h hcallback hpcb err write closed
  | recv p closed =>
    obtain ⟨⟨hpcb, hcallback⟩, hsome⟩ := Option.ite_none_right_eq_some.mp hstep
    obtain rfl := Option.some.inj hsome
    exact recv_ok h hcallback hpcb p closed
  | poll closed =>
    obtain ⟨⟨hactive, hcallback⟩, hsome⟩ := Option.ite_none_right_eq_some.mp hstep
    obtain rfl := Option.some.inj hsome
    exact poll_ok h hcallback (by simpa [Tls.active] using hactive) closed
  | err closed =>
    obtain ⟨⟨hactive, hcallback⟩, hsome⟩ := Option.ite_none_right_eq_some.mp hstep
    obtain rfl := Option.some.inj hsome
    exact err_ok h hcallback (by simpa [Tls.active] using hactive) closed

/-! ## Runs -/

theorem start_ok : CallsOk Calls.start Tls.start :=
  ⟨rfl, rfl, by simp [Tls.start], .idle rfl rfl rfl rfl rfl rfl rfl rfl rfl (by simp [Tls.start])⟩

/-- The calls of a run. -/
def callsOf (overflow : ℤ → ℤ) (events : List TlsEvent) : Calls :=
  events.foldl (Calls.after overflow) Calls.start

/-- CONTRACT: over every run in which the calling task leaves only when no callback is running, and
no function of lwIP is called on a freed pcb: the results of the calls are those that the timer
has decided, whatever else failed, and the setpoint is the last one extracted; the state of a
client is not used after it was freed; and between two calls no pcb is allocated, the states and
configurations that are still allocated are those of the calls that got no memory or no pcb, and
the error callback has not come.
SOURCE: ipstack/tls_common.c:51-271 -/
theorem tls_calls {s : Tls} {events : List TlsEvent}
    (hrun : (tlsMachine overflow).run Tls.start events = some s)
    (hlast : (tlsMachine overflow).Along LeavesLast Tls.start events)
    (hpcb : .freedPcb ∉ s.faults) :
    s.results = (callsOf overflow events).results ∧
      s.co2SetPoint = (callsOf overflow events).co2SetPoint ∧ .freedState ∉ s.faults ∧
      (s.caller = .idle → s.client = none ∧ s.states = (callsOf overflow events).lostStates ∧
        s.configs = (callsOf overflow events).lostConfigs ∧ s.pcbs = 0 ∧ s.faults = [] ∧
        (callsOf overflow events).aborts = 0) := by
  obtain ⟨hresults, hsetpoint, hintact, hcaller⟩ := (tlsMachine overflow).run_simulates
    (Calls.after overflow) CallsOk LeavesLast
    (fun a s e t h hlast hstep => step_ok h hlast hstep) start_ok hlast hrun
  refine ⟨hresults, hsetpoint, hintact, fun hidle => ?_⟩
  cases hcaller with
  | idle _ hclient _ _ _ hstates hconfigs hpcbs haborts hright =>
    rw [List.count_eq_zero.mpr hpcb] at haborts
    refine ⟨hclient, hstates, hconfigs, hpcbs, ?_, haborts.symm⟩
    refine List.eq_nil_iff_forall_not_mem.mpr fun f hf => ?_
    cases f with
    | freedState => exact hintact hf
    | freedPcb => exact hpcb hf
    | wrongArgument => exact hright hf
  | busy _ _ _ _ hbusy => simp [hidle] at hbusy
  | lost _ hlost => simp [hidle] at hlost

/-- What the functions of a call return when the name has to be looked up. -/
def sampleAnswers : OpenAnswers := ⟨true, true, errInprogress, errOk, errOk⟩

/-- A call whose lookup fails, and one for which there is no pcb. -/
def sampleLookup : List TlsEvent :=
  [.call sampleAnswers, .dnsFound false errOk errOk, .statement, .check, .statement, .leave,
    .call { sampleAnswers with pcb := false }]

/-- INTERNAL: the lookup fails and the call returns `true`. -/
theorem tls_calls_lookup :
    ∃ s, (tlsMachine id).run Tls.start sampleLookup = some s ∧ s.results = [true, false] ∧
      (s.caller = .idle → s.client = none ∧ s.states = 1 ∧ s.configs = 1 ∧ s.pcbs = 0 ∧
        s.faults = [] ∧ (callsOf id sampleLookup).aborts = 0) := by
  have hrun : ((tlsMachine id).run Tls.start sampleLookup).map (·.faults) = some [] := by
    decide +kernel
  obtain ⟨s, hs, hnone⟩ := Option.map_eq_some_iff.mp hrun
  have hlast : (tlsMachine id).Along LeavesLast Tls.start sampleLookup := by
    refine ⟨trivial, fun t₁ h₁ => ⟨trivial, fun t₂ h₂ => ⟨trivial, fun t₃ h₃ => ⟨trivial,
      fun t₄ h₄ => ⟨trivial, fun t₅ h₅ => ⟨?_, fun _ _ => ⟨trivial, fun _ _ => trivial⟩⟩⟩⟩⟩⟩⟩
    obtain rfl := Option.some.inj h₁
    obtain rfl := Option.some.inj h₂
    obtain rfl := Option.some.inj h₃
    obtain rfl := Option.some.inj h₄
    obtain rfl := Option.some.inj h₅
    rfl
  obtain ⟨hresults, -, -, hidle⟩ := tls_calls hs hlast (by rw [hnone]; exact List.not_mem_nil)
  exact ⟨s, hs, hresults.trans (by decide +kernel), hidle⟩

/-- No callback has assignments left to a state that is freed, and none was done to one. -/
structure StateKept (s : Tls) : Prop where
  intact : .freedState ∉ s.faults
  kept : s.client = none → s.callback = []

/-- CONTRACT: the runs in which a freed state is not used, and no callback is going to use one, are
exactly those in which the calling task leaves only when no callback is running.
SOURCE: ipstack/tls_common.c:51-101,249-270 -/
theorem tls_stale_use {s : Tls} {events : List TlsEvent}
    (hrun : (tlsMachine overflow).run Tls.start events = some s) :
    (tlsMachine overflow).Always StateKept Tls.start events ↔
      (tlsMachine overflow).Along LeavesLast Tls.start events := by
  refine (tlsMachine overflow).always_iff_simulates (Calls.after overflow) CallsOk StateKept
    LeavesLast (fun a s e t h hlast hstep => step_ok h hlast hstep) ?_ ?_ start_ok hrun
  · intro a s h
    refine ⟨h.intact, fun hnone => ?_⟩
    cases h.caller with
    | idle _ _ hcallback => exact hcallback
    | busy c owed hclient => simp [hnone] at hclient
    | lost _ _ _ hcallback => exact hcallback
  · intro s e t hearly hstep hkept
    cases e with
    | leave =>
      obtain ⟨-, hleave⟩ := Option.ite_none_right_eq_some.mp hstep
      obtain ⟨c, -, rfl⟩ := Option.map_eq_some_iff.mp hleave
      exact hearly (hkept.kept rfl)
    | _ => exact hearly trivial

/-- The calling task leaves between the two assignments of `tls_client_close`. -/
def sampleEarly : List TlsEvent :=
  [.call sampleAnswers, .dnsFound false errOk errOk, .statement, .check, .leave, .statement]

/-- INTERNAL: a call that leaves early, and the use of the state behind it. -/
theorem tls_stale_use_early :
    ∃ s, (tlsMachine id).run Tls.start sampleEarly = some s ∧ s.faults = [.freedState] ∧
      ((tlsMachine id).Always StateKept Tls.start sampleEarly ↔
        (tlsMachine id).Along LeavesLast Tls.start sampleEarly) := by
  have hfaults : ((tlsMachine id).run Tls.start sampleEarly).map (·.faults) =
      some [.freedState] := by decide +kernel
  obtain ⟨s, hs, hstale⟩ := Option.map_eq_some_iff.mp hfaults
  exact ⟨s, hs, hstale, tls_stale_use hs⟩

end PicoDrone.Analysis
