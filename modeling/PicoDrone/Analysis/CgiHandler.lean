import PicoDrone.Model.NetworkClass

/-!
# The handler of the configuration form

The loop of `cgi_handler` leaves each of its two buffers as a zeroed buffer with the last value
of its parameter in it, whatever came before (`loop_staged`), unless it meets one of the two
parameters without a value (`loop_none`). What the handler then does depends on the two strings
alone (`cgiHandler_of_loop`). With values present it stores the last two values, cut to their
buffers (`cgiHandler_last_values`); valueless parameters are harmless exactly if they have
other names (`malformed_harmless_iff`).
-/

set_option autoImplicit false

namespace PicoDrone.Analysis

open PicoDrone.Library PicoDrone.Model PicoDrone.Model.NetworkClass

/-! ## The two buffers -/

/-- A zeroed buffer after a copy of at most `count` bytes of a value. -/
def staged (n count : ℕ) (value : List Byte) : Region n Byte :=
  Region.put ⟨fun _ => 0#8⟩ 0 (Region.strncpyBytes value count)

/-- INTERNAL: the copy of a value hides the value copied before it.
SOURCE: Network/NetworkClass.cpp:60-62 -/
theorem strncpy_staged {n count : ℕ} (hcount : count ≤ n) (old value : List Byte) :
    (staged n count old).strncpy value count = some (staged n count value) := by
  unfold staged Region.strncpy
  rw [Region.copyIn_of_le (by simpa using hcount), Region.put_cover _ _ (by simp)]

/-- INTERNAL: a zeroed buffer holds the empty value.
SOURCE: Network/NetworkClass.cpp:55-56 -/
theorem staged_nil (n count : ℕ) : staged n count [] = ⟨fun _ => 0#8⟩ := by
  unfold staged Region.put Region.strncpyBytes
  congr 1
  funext i
  simp only [List.take_nil, List.nil_append, List.length_nil, Nat.sub_zero, Nat.zero_le, if_true,
    List.getD_eq_getElem?_getD, List.getElem?_replicate]
  split <;> rfl

/-- INTERNAL: a buffer with room for a terminator holds a string. -/
theorem staged_string {n count : ℕ} (hcount : count < n) (value : List Byte) :
    ∃ text, (staged n count value).string = some text := by
  have hlast : (staged n count value).cell (n - 1) = 0#8 :=
    Region.put_last _ (by rw [Region.strncpyBytes_length]; omega) rfl
  exact ⟨_, Region.string_of_last _ (by omega) hlast⟩

/-- INTERNAL: the string is the value cut to `count` bytes. -/
theorem staged_string_eq {n count : ℕ} (hcount : count < n) {value : List Byte}
    (hnul : 0#8 ∉ value) : (staged n count value).string = some (value.take count) := by
  obtain ⟨r, -, rfl, hstring⟩ := Region.string_strncpy (n := n) ⟨fun _ => 0#8⟩ hcount hnul rfl
  exact hstring

/-! ## The loop -/

/-- The values of the parameters with a name. -/
def valuesOf (name : List Byte) (params : List (List Byte × Option (List Byte))) :
    List (List Byte) :=
  (params.filter fun p => p.1 = name).filterMap Prod.snd

/-- The value of the last parameter with a name; empty if there is none. -/
def lastValue (name : List Byte) (params : List (List Byte × Option (List Byte))) : List Byte :=
  (valuesOf name params).getLastD []

theorem valuesOf_cons_self (name value : List Byte)
    (params : List (List Byte × Option (List Byte))) :
    valuesOf name ((name, some value) :: params) = value :: valuesOf name params := by
  simp [valuesOf]

theorem valuesOf_cons_ne {name : List Byte} {p : List Byte × Option (List Byte)}
    (h : p.1 ≠ name) (params : List (List Byte × Option (List Byte))) :
    valuesOf name (p :: params) = valuesOf name params := by
  simp [valuesOf, h]

/-- A parameter without a value has a name that the handler does not ask for. -/
def Ignored (p : List Byte × Option (List Byte)) : Prop :=
  p.2 = none → p.1 ≠ ascii "ssid" ∧ p.1 ≠ ascii "password"

/-- INTERNAL: the loop leaves the last value of each parameter in its buffer.
SOURCE: Network/NetworkClass.cpp:58-64 -/
theorem loop_staged {params : List (List Byte × Option (List Byte))}
    (h : ∀ p ∈ params, Ignored p) (ssid password : List Byte) :
    params.foldlM cgiParam (staged 32 31 ssid, staged 64 63 password) =
      some (staged 32 31 ((valuesOf (ascii "ssid") params).getLastD ssid),
        staged 64 63 ((valuesOf (ascii "password") params).getLastD password)) := by
  induction params generalizing ssid password with
  | nil => rfl
  | cons p params ih =>
    obtain ⟨hp, hrest⟩ := List.forall_mem_cons.mp h
    obtain ⟨name, value⟩ := p
    have hnames : ascii "password" ≠ ascii "ssid" := by decide
    rw [List.foldlM_cons]
    by_cases hssid : name = ascii "ssid"
    · subst hssid
      cases value with
      | none => exact absurd rfl (hp rfl).1
      | some value =>
        have hstep : cgiParam (staged 32 31 ssid, staged 64 63 password)
            (ascii "ssid", some value) = some (staged 32 31 value, staged 64 63 password) := by
          simp [cgiParam, strncpy_staged (show 31 ≤ 32 by omega)]
        rw [hstep, Option.bind_eq_bind, Option.bind_some, ih hrest, valuesOf_cons_self,
          valuesOf_cons_ne hnames.symm, List.getLastD_cons]
    · by_cases hpassword : name = ascii "password"
      · subst hpassword
        cases value with
        | none => exact absurd rfl (hp rfl).2
        | some value =>
          have hstep : cgiParam (staged 32 31 ssid, staged 64 63 password)
              (ascii "password", some value) =
                some (staged 32 31 ssid, staged 64 63 value) := by
            simp [cgiParam, hnames, strncpy_staged (show 63 ≤ 64 by omega)]
          rw [hstep, Option.bind_eq_bind, Option.bind_some, ih hrest, valuesOf_cons_self,
            valuesOf_cons_ne hnames, List.getLastD_cons]
      · have hstep : cgiParam (staged 32 31 ssid, staged 64 63 password) (name, value) =
            some (staged 32 31 ssid, staged 64 63 password) := by
          simp only [cgiParam, if_neg hssid, if_neg hpassword]
        rw [hstep, Option.bind_eq_bind, Option.bind_some, ih hrest, valuesOf_cons_ne hssid,
          valuesOf_cons_ne hpassword]

/-- INTERNAL: the loop runs into the NULL of a parameter that it asks for.
SOURCE: Network/NetworkClass.cpp:59-62 -/
theorem loop_none {params : List (List Byte × Option (List Byte))}
    (h : ¬ ∀ p ∈ params, Ignored p) (bufs : Region 32 Byte × Region 64 Byte) :
    params.foldlM cgiParam bufs = none := by
  induction params generalizing bufs with
  | nil => exact absurd (fun p hp => by cases hp) h
  | cons p params ih =>
    rw [List.foldlM_cons]
    by_cases hp : Ignored p
    · cases hstep : cgiParam bufs p with
      | none => rfl
      | some bufs' =>
        refine ih (fun hrest => h ?_) bufs'
        exact List.forall_mem_cons.mpr ⟨hp, hrest⟩
    · -- the value is NULL and the name is one of the two
      simp only [Ignored, Classical.not_imp, not_and_or, not_not] at hp
      obtain ⟨hvalue, hname⟩ := hp
      have hstep : cgiParam bufs p = none := by
        obtain hname | hname := hname
        · simp [cgiParam, hvalue, hname]
        · simp [cgiParam, hvalue, hname]
      rw [hstep]
      rfl

/-! ## The rest of the handler -/

/-- INTERNAL: two strings that are not empty are stored, and otherwise nothing changes.
SOURCE: Network/NetworkClass.cpp:24-28 65-72 -/
theorem cgiHandler_of_loop {params : List (List Byte × Option (List Byte))}
    {bufs : Region 32 Byte × Region 64 Byte} {ssid password : List Byte}
    (hloop : params.foldlM cgiParam (⟨fun _ => 0#8⟩, ⟨fun _ => 0#8⟩) = some bufs)
    (hssid : bufs.1.string = some ssid) (hpassword : bufs.2.string = some password)
    (net : NetworkClass) :
    if ssid ≠ [] ∧ password ≠ [] then
      ∃ net', cgiHandler params net = some ("/confirm.html", net') ∧
        net'.ssid.string = some ssid ∧ net'.password.string = some password ∧
        net'.isCredentialsSet = true
    else cgiHandler params net = some ("/index.html", net) := by
  have hfirst := bufs.1.cell_zero_ne_iff hssid
  have hfirst' := bufs.2.cell_zero_ne_iff hpassword
  split
  · rename_i hboth
    obtain ⟨hlen, hnul⟩ := bufs.1.string_bounds hssid
    obtain ⟨hlen', hnul'⟩ := bufs.2.string_bounds hpassword
    obtain ⟨r, hcopy, hr⟩ := net.ssid.string_strcpy hlen hnul
    obtain ⟨r', hcopy', hr'⟩ := net.password.string_strcpy hlen' hnul'
    refine ⟨⟨r, r', true, net.printed ++ [credentialsLine ssid password]⟩, ?_, hr, hr', rfl⟩
    simp only [cgiHandler, hloop, Option.bind_eq_bind, Option.bind_some, hfirst, hfirst',
      if_pos hboth, hssid, hpassword, setCredentials, hcopy, hcopy']
  · rename_i hnone
    simp only [cgiHandler, hloop, Option.bind_eq_bind, Option.bind_some, hfirst, hfirst',
      if_neg hnone]

/-- INTERNAL: the buffers after the loop, from the zeroed ones on. -/
theorem loop_lastValue {params : List (List Byte × Option (List Byte))}
    (h : ∀ p ∈ params, Ignored p) :
    params.foldlM cgiParam (⟨fun _ => 0#8⟩, ⟨fun _ => 0#8⟩) =
      some (staged 32 31 (lastValue (ascii "ssid") params),
        staged 64 63 (lastValue (ascii "password") params)) := by
  have hloop := loop_staged h [] []
  rwa [staged_nil, staged_nil] at hloop

/-- INTERNAL: without a NULL the handler stores two strings that are not empty or changes
nothing. -/
theorem cgiHandler_ignored {params : List (List Byte × Option (List Byte))}
    (h : ∀ p ∈ params, Ignored p) (net : NetworkClass) :
    ∃ ssid password : List Byte,
      if ssid ≠ [] ∧ password ≠ [] then
        ∃ net', cgiHandler params net = some ("/confirm.html", net') ∧
          net'.ssid.string = some ssid ∧ net'.password.string = some password ∧
          net'.isCredentialsSet = true
      else cgiHandler params net = some ("/index.html", net) := by
  obtain ⟨ssid, hssid⟩ := staged_string (show 31 < 32 by omega) (lastValue (ascii "ssid") params)
  obtain ⟨password, hpassword⟩ :=
    staged_string (show 63 < 64 by omega) (lastValue (ascii "password") params)
  exact ⟨ssid, password, cgiHandler_of_loop (loop_lastValue h) hssid hpassword net⟩

/-- INTERNAL: with values present the handler stores the last ones, cut to its buffers.
SOURCE: Network/NetworkClass.cpp:54-73 -/
theorem cgiHandler_values {params : List (List Byte × Option (List Byte))}
    (h : ∀ p ∈ params, ∃ value, p.2 = some value ∧ 0#8 ∉ value) (net : NetworkClass) :
    if lastValue (ascii "ssid") params ≠ [] ∧ lastValue (ascii "password") params ≠ [] then
      ∃ net', cgiHandler params net = some ("/confirm.html", net') ∧
        net'.ssid.string = some ((lastValue (ascii "ssid") params).take 31) ∧
        net'.password.string = some ((lastValue (ascii "password") params).take 63) ∧
        net'.isCredentialsSet = true
    else cgiHandler params net = some ("/index.html", net) := by
  have hignored : ∀ p ∈ params, Ignored p := by
    intro p hp hnone
    obtain ⟨value, hvalue, -⟩ := h p hp
    cases hnone.symm.trans hvalue
  have hnul : ∀ name, 0#8 ∉ lastValue name params := by
    intro name hmem
    obtain hnil | hin := List.mem_cons.mp
      (List.getLastD_mem_cons (l := valuesOf name params) (a := []))
    · rw [lastValue, hnil] at hmem
      cases hmem
    · obtain ⟨p, hp, hvalue⟩ := List.mem_filterMap.mp hin
      obtain ⟨value, hvalue', hnul⟩ := h p (List.mem_of_mem_filter hp)
      rw [hvalue, Option.some_inj] at hvalue'
      exact hnul (hvalue' ▸ hmem)
  have hhandler := cgiHandler_of_loop (loop_lastValue hignored)
    (staged_string_eq (by omega) (hnul (ascii "ssid")))
    (staged_string_eq (by omega) (hnul (ascii "password"))) net
  have htake : ∀ (value : List Byte) (k : ℕ), value.take (k + 1) ≠ [] ↔ value ≠ [] := by
    intro value k
    simp
  simpa only [htake] using hhandler

/-! ## Stored credentials -/

/-- Both static strings are terminated and not empty. -/
def Stored (net : NetworkClass) : Prop :=
  ∃ ssid password, net.ssid.string = some ssid ∧ net.password.string = some password ∧
    ssid ≠ [] ∧ password ≠ []

/-- INTERNAL: no call leaves the flag set without the strings. -/
theorem step_stored {net net' : NetworkClass} {call : Call}
    (h : net.isCredentialsSet = true → Stored net)
    (hs : NetworkClass.machine.step net call = some net') :
    net'.isCredentialsSet = true → Stored net' := by
  cases call with
  | cgiHandler params =>
    obtain ⟨r, hr, rfl⟩ := Option.map_eq_some_iff.mp hs
    by_cases hparams : ∀ p ∈ params, Ignored p
    · obtain ⟨ssid, password, hhandler⟩ := cgiHandler_ignored hparams net
      split at hhandler
      · rename_i hboth
        obtain ⟨net', hnet', hstring, hstring', -⟩ := hhandler
        rw [hnet'] at hr
        obtain rfl := Option.some.inj hr
        exact fun _ => ⟨ssid, password, hstring, hstring', hboth⟩
      · rw [hhandler] at hr
        obtain rfl := Option.some.inj hr
        exact h
    · simp only [cgiHandler, loop_none hparams, Option.bind_eq_bind, Option.bind_none] at hr
      cases hr
  | connect error =>
    obtain ⟨r, hr, rfl⟩ := Option.map_eq_some_iff.mp hs
    simp only [connect, Option.bind_eq_bind, Option.bind_eq_some_iff] at hr
    obtain ⟨ssid, -, password, -, hr⟩ := hr
    split at hr
    · obtain rfl := Option.some.inj hr
      exact h
    · obtain rfl := Option.some.inj hr
      exact h

/-- CONTRACT: with a value present for every parameter the handler stays in its buffers; if the
last value of `ssid` and the last value of `password` are not empty it stores them, cut to 31
and 63 bytes, and otherwise it leaves the members as they are. In every reachable state the
flag implies that both strings are terminated and not empty.
SOURCE: Network/NetworkClass.cpp:9-73 -/
theorem cgiHandler_last_values :
    (∀ (params : List (List Byte × Option (List Byte))),
      (∀ p ∈ params, ∃ value, p.2 = some value ∧ 0#8 ∉ value) → ∀ net : NetworkClass,
        ∃ page net', cgiHandler params net = some (page, net') ∧
          if lastValue (ascii "ssid") params ≠ [] ∧ lastValue (ascii "password") params ≠ [] then
            page = "/confirm.html" ∧
              net'.ssid.string = some ((lastValue (ascii "ssid") params).take 31) ∧
              net'.password.string = some ((lastValue (ascii "password") params).take 63) ∧
              net'.isCredentialsSet = true
          else page = "/index.html" ∧ net'.ssid = net.ssid ∧ net'.password = net.password ∧
            net'.isCredentialsSet = net.isCredentialsSet) ∧
      ∀ (calls : List Call) (net : NetworkClass),
        NetworkClass.machine.run NetworkClass.start calls = some net →
          net.isCredentialsSet = true → Stored net := by
  constructor
  · intro params hvalues net
    have hhandler := cgiHandler_values hvalues net
    split at hhandler
    · rename_i hboth
      obtain ⟨net', hnet', hstring, hstring', hset⟩ := hhandler
      exact ⟨_, net', hnet', by rw [if_pos hboth]; exact ⟨rfl, hstring, hstring', hset⟩⟩
    · rename_i hnone
      exact ⟨_, net, hhandler, by rw [if_neg hnone]; exact ⟨rfl, rfl, rfl, rfl⟩⟩
  · intro calls net hrun
    exact NetworkClass.machine.run_invariant
      (fun net => net.isCredentialsSet = true → Stored net)
      (fun _ _ _ h hs => step_stored h hs) (fun h => by cases h) hrun

/-- The password is sent twice, and the second one, which is longer than the buffer, counts. -/
theorem cgiHandler_last_values_twice :
    ∃ page net', cgiHandler [(ascii "ssid", some (ascii "home")),
        (ascii "password", some (ascii "first")), (ascii "x", some []),
        (ascii "password", some (List.replicate 70 0x61#8))] NetworkClass.start =
          some (page, net') ∧ page = "/confirm.html" ∧
      net'.ssid.string = some (ascii "home") ∧
      net'.password.string = some (List.replicate 63 0x61#8) := by
  obtain ⟨page, net', hrun, hresult⟩ := cgiHandler_last_values.1
    [(ascii "ssid", some (ascii "home")), (ascii "password", some (ascii "first")),
      (ascii "x", some []), (ascii "password", some (List.replicate 70 0x61#8))]
    (by decide) NetworkClass.start
  rw [if_pos (by decide)] at hresult
  exact ⟨page, net', hrun, hresult.1, hresult.2.1, hresult.2.2.1⟩

/-! ## Parameters without a value -/

theorem valuesOf_filter_isSome (name : List Byte)
    (params : List (List Byte × Option (List Byte))) :
    valuesOf name (params.filter fun p => p.2.isSome) = valuesOf name params := by
  induction params with
  | nil => rfl
  | cons p params ih =>
    obtain ⟨name', value⟩ := p
    cases value with
    | none =>
      rw [List.filter_cons_of_neg (by simp), ih]
      by_cases hname : name' = name
      · simp [valuesOf, hname]
      · simp [valuesOf, hname]
    | some value =>
      rw [List.filter_cons_of_pos rfl]
      by_cases hname : name' = name
      · subst hname
        rw [valuesOf_cons_self, valuesOf_cons_self, ih]
      · rw [valuesOf_cons_ne hname, valuesOf_cons_ne hname, ih]

/-- CONTRACT: whatever parameters the server makes of a query, the handler runs into no NULL and
does what it would do without the valueless ones exactly if none of these is called `ssid` or
`password`.
SOURCE: Network/NetworkClass.cpp:54-73 -/
theorem malformed_harmless_iff (params : List (List Byte × Option (List Byte)))
    (net : NetworkClass) :
    (∃ outcome, cgiHandler params net = some outcome ∧
      cgiHandler (params.filter fun p => p.2.isSome) net = some outcome) ↔
      ∀ p ∈ params, p.2 = none → p.1 ≠ ascii "ssid" ∧ p.1 ≠ ascii "password" := by
  constructor
  · rintro ⟨outcome, houtcome, -⟩
    by_contra hparams
    simp only [cgiHandler, loop_none hparams, Option.bind_eq_bind, Option.bind_none] at houtcome
    cases houtcome
  · intro hparams
    have hloop := loop_lastValue hparams
    have hignored : ∀ p ∈ params.filter fun p => p.2.isSome, Ignored p := fun p hp =>
      hparams p (List.mem_of_mem_filter hp)
    have hfilter := loop_lastValue hignored
    have hsame : cgiHandler (params.filter fun p => p.2.isSome) net = cgiHandler params net := by
      simp only [lastValue, valuesOf_filter_isSome] at hfilter
      simp only [cgiHandler, hfilter, hloop, lastValue]
    obtain ⟨ssid, password, hhandler⟩ := cgiHandler_ignored hparams net
    rw [hsame]
    split at hhandler
    · obtain ⟨net', hnet', -⟩ := hhandler
      exact ⟨_, hnet', hnet'⟩
    · exact ⟨_, hhandler, hhandler⟩

/-- A query in which `ssid` has no `=` makes the handler pass NULL to `strncpy`. -/
theorem malformed_query_null :
    ¬ ∀ (query : List Byte) (net : NetworkClass),
      ∃ outcome, cgiHandler (queryParams query) net = some outcome ∧
        cgiHandler ((queryParams query).filter fun p => p.2.isSome) net = some outcome := by
  intro h
  obtain ⟨outcome, houtcome, -⟩ := h (ascii "ssid&password=secret") NetworkClass.start
  have hnull : cgiHandler (queryParams (ascii "ssid&password=secret")) NetworkClass.start = none :=
    rfl
  cases hnull.symm.trans houtcome

end PicoDrone.Analysis
