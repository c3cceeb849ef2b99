import PicoDrone.Library.Machine
import PicoDrone.Model.TlsClient

/-!
# The calls of the TLS client

`run_tls_client_test` of `ipstack/tls_common.c` and the callbacks that lwIP runs for it. The
calling task allocates the state of the client, opens a connection and looks at `complete` until
it is set; then it reads `error`, frees the state and the configuration, and returns. The
callbacks run in a task of lwIP, one at a time, and each of their assignments to the state is
a step of its own: the calling task does not wait for a callback to end. Only
`tls_client_open` takes the lock that the callbacks hold.

lwIP is not part of the repository. It frees the pcb before it runs the error callback, and it
runs no callback for a pcb that is closed, aborted or freed. What its functions return is open.
The configuration is taken to be created. If the lookup cannot be begun, `tls_client_close` takes
the pcb for the state of the client, stores into it and follows its contents as pointers: a run
ends there.
-/

set_option autoImplicit false

namespace PicoDrone.Model.TlsSession

open PicoDrone.Library

/-- `ERR_INPROGRESS`. -/
def errInprogress : Err := -5

/-- What `error` can be: 0, `PICO_ERROR_TIMEOUT` and `PICO_ERROR_GENERIC`. -/
inductive PicoError where
  | ok
  | timeout
  | generic
  deriving DecidableEq, Repr

/-- `TLS_CLIENT_T`; `pcb` tells whether the pointer is set. The request and the timeout are set
once and never change.
SOURCE: ipstack/tls_common.c:20-26 -/
structure ClientState where
  pcb : Bool
  complete : Bool
  error : PicoError
  deriving DecidableEq, Repr

/-- The pcb of the last call. -/
inductive Pcb where
  | freed
  | created
  | connecting
  | connected
  deriving DecidableEq, Repr

/-- Where the calling task is: between two calls, in the loop, behind it, or in `tls_client_close`
with something else than the state. -/
inductive Caller where
  | idle
  | waiting
  | leaving
  | lost
  deriving DecidableEq, Repr

/-- An assignment that a callback has still to do; `release` is the branch of `tls_client_close`
for a pcb that is set, where `altcp_close` returns `closed`. -/
inductive Statement where
  | complete
  | release (closed : Err)
  | error (e : PicoError)
  deriving DecidableEq, Repr

/-- What must not happen: the state is used after it was freed, a function of lwIP is called on a
freed pcb, `tls_client_close` is called with something else than the state. -/
inductive TlsFault where
  | freedState
  | freedPcb
  | wrongArgument
  deriving DecidableEq, Repr

/-- The calling task, the client of its call, the callback that is running, `Co2_SetPoint`, the
numbers of states, configurations and pcbs that are allocated, and the results of the calls so
far. `lookup` is the question to the name server that is not answered; `faults` is a record that
no function reads. -/
structure Tls where
  caller : Caller
  client : Option ClientState
  pcb : Pcb
  lookup : Bool
  callback : List Statement
  co2SetPoint : ℤ
  states : ℕ
  configs : ℕ
  pcbs : ℕ
  results : List Bool
  faults : List TlsFault
  deriving DecidableEq, Repr

/-- What the functions that a call uses return: whether `calloc` and `altcp_tls_new` succeed, and
the results of `dns_gethostbyname`, `altcp_connect` and `altcp_close`. -/
structure OpenAnswers where
  state : Bool
  pcb : Bool
  lookup : Err
  connect : Err
  closed : Err
  deriving DecidableEq, Repr

/-- A step of the calling task, a callback of lwIP or its next assignment. -/
inductive TlsEvent where
  | call (a : OpenAnswers)
  | check
  | leave
  | statement
  | dnsFound (found : Bool) (connect closed : Err)
  | connected (err write closed : Err)
  | recv (p : Option (List Byte)) (closed : Err)
  | poll (closed : Err)
  | err (closed : Err)

namespace Tls

variable (s : Tls)

def fault (f : TlsFault) : Tls := { s with faults := s.faults ++ [f] }

/-- `tls_client_close`.
SOURCE: ipstack/tls_common.c:51-70 -/
def tlsClientClose (closed : Err) : List Statement := [.complete, .release closed]

/-- One assignment of a callback. An aborted pcb is freed like a closed one.
SOURCE: ipstack/tls_common.c:51-101 -/
def exec : Statement → Tls
  | .complete =>
    match s.client with
    | some c => { s with client := some { c with complete := true } }
    | none => s.fault .freedState
  | .release _ =>
    match s.client with
    | some c =>
      if c.pcb then
        let s := { s with client := some { c with pcb := false } }
        if s.pcb = .freed then s.fault .freedPcb
        else { s with pcb := .freed, pcbs := s.pcbs - 1 }
      else s
    | none => s.fault .freedState
  | .error e =>
    match s.client with
    | some c => { s with client := some { c with error := e } }
    | none => s.fault .freedState

/-- The rest of the callback. -/
def finish : Tls := { s.callback.foldl exec s with callback := [] }

/-- `tls_client_connect_to_server_ip`.
SOURCE: ipstack/tls_common.c:138-152 -/
def tlsClientConnectToServerIp (connect closed : Err) : Tls :=
  if connect ≠ errOk then { s with callback := tlsClientClose closed }
  else { s with pcb := .connecting }

/-- `run_tls_client_test` up to the loop, with `tls_client_open`. No callback runs for the pcb
before it is connected, and the lock is held from the lookup on.
SOURCE: ipstack/tls_common.c:169-248 -/
def call (a : OpenAnswers) : Tls :=
  let s := { s with configs := s.configs + 1 }
  if a.state = false then { s with results := s.results ++ [false] }
  else
    let s := { s with states := s.states + 1 }
    if a.pcb = false then { s with results := s.results ++ [false] }
    else
      let s := { s with client := some ⟨true, false, .ok⟩, pcb := .created, pcbs := s.pcbs + 1 }
      if a.lookup = errOk then
        { (s.tlsClientConnectToServerIp a.connect a.closed).finish with caller := .waiting }
      else if a.lookup = errInprogress then { s with lookup := true, caller := .waiting }
      else { s with caller := .lost, faults := s.faults ++ [.wrongArgument] }

/-- The condition of the loop.
SOURCE: ipstack/tls_common.c:249-266 -/
def check : Option Tls :=
  s.client.map fun c => if c.complete then { s with caller := .leaving } else s

/-- The end of the call.
SOURCE: ipstack/tls_common.c:267-270 -/
def leave : Option Tls :=
  s.client.map fun c =>
    { s with
      caller := .idle
      client := none
      states := s.states - 1
      configs := s.configs - 1
      results := s.results ++ [decide (c.error = .ok)] }

/-- `tls_client_dns_found`.
SOURCE: ipstack/tls_common.c:154-166 -/
def tlsClientDnsFound (found : Bool) (connect closed : Err) : Tls :=
  let s := { s with lookup := false }
  if found then s.tlsClientConnectToServerIp connect closed
  else { s with callback := tlsClientClose closed }

/-- `tls_client_connected`.
SOURCE: ipstack/tls_common.c:72-87 -/
def tlsClientConnected (err write closed : Err) : Tls :=
  if err ≠ errOk then { s with callback := tlsClientClose closed }
  else
    let s := if s.client = none then s.fault .freedState else s
    if write ≠ errOk then { s with pcb := .connected, callback := tlsClientClose closed }
    else { s with pcb := .connected }

/-- `tls_client_recv`.
SOURCE: ipstack/tls_common.c:103-136 -/
def tlsClientRecv (overflow : ℤ → ℤ) (p : Option (List Byte)) (closed : Err) : Tls :=
  match p with
  | none => { s with callback := tlsClientClose closed }
  | some payload =>
    if 0 < payload.length then
      let commandValue := extractCo2Setpoint overflow (payload ++ [0#8]) payload.length
      if 0 ≤ commandValue then { s with co2SetPoint := commandValue } else s
    else s

/-- `tls_client_poll`.
SOURCE: ipstack/tls_common.c:89-94 -/
def tlsClientPoll (closed : Err) : Tls :=
  { s with callback := .error .timeout :: tlsClientClose closed }

/-- `tls_client_err`, after lwIP has freed the pcb.
SOURCE: ipstack/tls_common.c:96-101 -/
def tlsClientErr (closed : Err) : Tls :=
  { s with
    pcb := .freed
    pcbs := s.pcbs - 1
    callback := tlsClientClose closed ++ [.error .generic] }

/-- The connection attempt has begun, and the pcb is not freed. -/
def active : Bool := s.pcb = .connecting || s.pcb = .connected

/-- One step. A callback begins when the one before it has ended. -/
def step (overflow : ℤ → ℤ) : TlsEvent → Option Tls
  | .call a => if s.caller = .idle ∧ s.callback = [] then some (s.call a) else none
  | .check => if s.caller = .waiting then s.check else none
  | .leave => if s.caller = .leaving then s.leave else none
  | .statement =>
    match s.callback with
    | [] => none
    | st :: rest => some { s.exec st with callback := rest }
  | .dnsFound found connect closed =>
    if s.lookup ∧ s.callback = [] then some (s.tlsClientDnsFound found connect closed) else none
  | .connected err write closed =>
    if s.pcb = .connecting ∧ s.callback = [] then some (s.tlsClientConnected err write closed)
    else none
  | .recv p closed =>
    if s.pcb = .connected ∧ s.callback = [] then some (s.tlsClientRecv overflow p closed) else none
  | .poll closed => if s.active ∧ s.callback = [] then some (s.tlsClientPoll closed) else none
  | .err closed => if s.active ∧ s.callback = [] then some (s.tlsClientErr closed) else none

end Tls

def tlsMachine (overflow : ℤ → ℤ) : Machine Tls TlsEvent := ⟨fun s => s.step overflow⟩

/-- Before the first call. -/
def Tls.start : Tls := ⟨.idle, none, .freed, false, [], 0, 0, 0, 0, [], []⟩

end PicoDrone.Model.TlsSession
