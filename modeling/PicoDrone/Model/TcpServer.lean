import PicoDrone.Library.CString
import PicoDrone.Library.Family
import PicoDrone.Model.Lwip

/-!
# The configuration web server

The five callbacks of `tcpserver.cpp` and the close routine they share. lwIP is not part of
the repository. Without `TCP_WRITE_FLAG_COPY` it refers to the caller's bytes until the peer
has acknowledged them or the connection is aborted. `tcp_close` with `ERR_OK` and
`tcp_abort` free the pcb, the pcb is freed before the error callback runs, and no callback
fires for a freed pcb or after it was deregistered. What `tcp_write` and `tcp_close` return
is open.

The texts of the two pages go through `snprintf` as formats, and the one of the form has `%`
signs that are no conversions. So the server is parameterised by what `snprintf` makes of
them.
-/

set_option autoImplicit false

namespace PicoDrone.Model

open PicoDrone.Library

/-! ## A connection -/

/-- `TCP_CONNECT_STATE_T`. The members `pcb` and `gw` are set once and never change. -/
structure ConState where
  sentLen : ℕ
  headers : Region 2048 Byte
  result : Region 2048 Byte
  headerLen : ℕ
  resultLen : ℕ

/-- After `calloc`. -/
def ConState.zero : ConState := ⟨0, ⟨fun _ => 0#8⟩, ⟨fun _ => 0#8⟩, 0, 0⟩

/-- The two buffers that `tcp_write` is given. -/
inductive Buffer where
  | headers
  | result
  deriving DecidableEq, Repr

/-- A byte that `tcp_write` was given and the peer has not acknowledged: where it lies and what
it was. -/
structure Ref where
  buffer : Buffer
  index : ℕ
  byte : Byte
  deriving DecidableEq, Repr

/-- What is at the place of a byte in flight. -/
def ConState.at (s : ConState) (r : Ref) : Byte :=
  match r.buffer with
  | .headers => s.headers.cell r.index
  | .result => s.result.cell r.index

/-- The argument and the callbacks that are registered for a pcb. -/
structure Callbacks where
  arg : Bool
  sent : Bool
  recv : Bool
  poll : Bool
  err : Bool
  deriving DecidableEq, Repr

/-- What must not happen: `con_state` is used or freed after it was freed, a function of lwIP is
called on a freed pcb. -/
inductive Fault where
  | freedState
  | doubleFree
  | freedPcb
  deriving DecidableEq, Repr

/-- A connection with its pcb. `frees` counts how often `con_state` was freed; `faults` is a
record that no function reads. -/
structure Connection where
  state : ConState
  frees : ℕ
  pcbFreed : Bool
  callbacks : Callbacks
  unacked : List Ref
  faults : List Fault

namespace Connection

variable (c : Connection)

/-! ## lwIP and the heap -/

/-- A callback reads or writes `*con_state`. -/
def touch : Connection :=
  if c.frees = 0 then c else { c with faults := c.faults ++ [.freedState] }

def free : Connection :=
  { c with
    frees := c.frees + 1
    faults := if c.frees = 0 then c.faults else c.faults ++ [.doubleFree] }

/-- A function of lwIP is called on the pcb. -/
def call : Connection :=
  if c.pcbFreed then { c with faults := c.faults ++ [.freedPcb] } else c

def tcpArg (arg : Bool) : Connection :=
  { c.call with callbacks := { c.call.callbacks with arg := arg } }

def tcpSent (sent : Bool) : Connection :=
  { c.call with callbacks := { c.call.callbacks with sent := sent } }

def tcpRecv (recv : Bool) : Connection :=
  { c.call with callbacks := { c.call.callbacks with recv := recv } }

def tcpPoll (poll : Bool) : Connection :=
  { c.call with callbacks := { c.call.callbacks with poll := poll } }

def tcpErr (err : Bool) : Connection :=
  { c.call with callbacks := { c.call.callbacks with err := err } }

/-- `tcp_close` returns `err`. -/
def tcpClose (err : Err) : Connection :=
  if err = errOk then { c.call with pcbFreed := true } else c.call

def tcpAbort : Connection := { c.call with pcbFreed := true, unacked := [] }

def tcpRecved : Connection := c.call

/-- The first `len` bytes of a buffer. -/
def refs (buffer : Buffer) (len : ℕ) : List Ref :=
  (List.range len).map fun i => ⟨buffer, i, c.state.at ⟨buffer, i, 0#8⟩⟩

/-- `tcp_write` of the first `len` bytes of a buffer without the copy flag returns `err`. -/
def tcpWrite (err : Err) (buffer : Buffer) (len : ℕ) : Connection :=
  if err = errOk then { c.call with unacked := c.call.unacked ++ c.refs buffer len } else c.call

/-! ## The close routine -/

/-- `tcp_close_client_connection` for a pcb that is not NULL, where `tcp_close` returns
`closed`.
SOURCE: src/Network/tcpserver.cpp:117-136 -/
def tcpCloseClientConnection (closed closeErr : Err) : Err × Connection :=
  let c := c.touch
  let c := c.tcpArg false
  let c := c.tcpPoll false
  let c := c.tcpSent false
  let c := c.tcpRecv false
  let c := c.tcpErr false
  let c := c.tcpClose closed
  if closed ≠ errOk then (errAbrt, c.tcpAbort.free) else (closeErr, c.free)

/-! ## The callbacks -/

/-- `tcp_server_sent`.
SOURCE: src/Network/tcpserver.cpp:146-155 -/
def tcpServerSent (closed : Err) (len : ℕ) : Err × Connection :=
  let c := c.touch
  let c := { c with state := { c.state with sentLen := c.state.sentLen + len } }
  if c.state.headerLen + c.state.resultLen ≤ c.state.sentLen then
    c.tcpCloseClientConnection closed errOk
  else (errOk, c)

/-- `tcp_server_poll`.
SOURCE: src/Network/tcpserver.cpp:261-265 -/
def tcpServerPoll (closed : Err) : Err × Connection :=
  c.tcpCloseClientConnection closed errOk

/-- `tcp_server_err`.
SOURCE: src/Network/tcpserver.cpp:267-273 -/
def tcpServerErr (closed err : Err) : Connection :=
  if err ≠ errAbrt then (c.touch.tcpCloseClientConnection closed err).2 else c

end Connection

/-- What `snprintf` makes of `CONNECT_FORM_BODY` and `CONNECT_RESPONSE_BODY`. -/
structure Pages where
  form : List Byte
  response : List Byte

/-- A decimal number. -/
def decimal (n : ℕ) : List Byte := (Nat.toDigits 10 n).map fun d => BitVec.ofNat 8 d.toNat

/-- `HTTP_RESPONSE_HEADERS` with its two numbers. -/
def httpResponseHeaders (status length : ℕ) : List Byte :=
  ascii "HTTP/1.1 " ++ decimal status ++ ascii " OK\nContent-Length: " ++ decimal length ++
    ascii "\nContent-Type: text/html; charset=utf-8\nConnection: close\n\n"

/-- What `sscanf` reads for `%127s`. -/
def firstWord (text : List Byte) : List Byte :=
  ((text.dropWhile isSpace).takeWhile fun b => !isSpace b).take 127

/-- `handle_request`: the text it prints to `result`. `ssid` and `password` of the body are only
shown on the console.
SOURCE: src/Network/tcpserver.cpp:167-191 -/
def handleRequest (pages : Pages) (request : List Byte) (body : Option (List Byte)) : List Byte :=
  let path := firstWord request
  if path = ascii "/connect" then
    match body with
    | some _ => pages.response
    | none => pages.form
  else pages.form

/-- The buffer begins with a GET or a POST request. -/
def isRequest (headers : Region 2048 Byte) : Prop :=
  headers.slice 0 3 = ascii "GET" ∨ headers.slice 0 4 = ascii "POST"

instance (headers : Region 2048 Byte) : Decidable (isRequest headers) :=
  inferInstanceAs (Decidable (_ ∨ _))

/-- The body of a request: what follows the empty line of a POST.
SOURCE: src/Network/tcpserver.cpp:209-215 -/
def requestBody (headers : Region 2048 Byte) : Option (List Byte) :=
  if headers.slice 0 4 = ascii "POST" then
    (strstr (ascii "\r\n\r\n") (headers.stringFrom 0)).map (List.drop 4)
  else none

/-- What lwIP returns to one run of `tcp_server_recv`: for `tcp_write` of the headers and of the
result, and for `tcp_close`. -/
structure Outcomes where
  headers : Err
  result : Err
  closed : Err

namespace Connection

variable (pages : Pages) (w : Outcomes) (c : Connection)

/-- The received bytes are copied to `headers`.
SOURCE: src/Network/tcpserver.cpp:204 -/
def receive (bytes : List Byte) : Connection :=
  { c.touch with
    state := { c.state with headers := c.state.headers.put 0 (bytes.take (2048 - 1)) } }

/-- The page and its length are stored.
SOURCE: src/Network/tcpserver.cpp:208-218 -/
def generate : Connection :=
  let text := handleRequest pages (c.state.headers.stringFrom 4) (requestBody c.state.headers)
  { c with state :=
    { c.state with result := c.state.result.snprintf text, resultLen := text.length } }

/-- The header and its length are stored.
SOURCE: src/Network/tcpserver.cpp:230-231 -/
def generateHeaders : Connection :=
  let text := httpResponseHeaders 200 c.state.resultLen
  { c with state :=
    { c.state with headers := c.state.headers.snprintf text, headerLen := text.length } }

/-- The two writes.
SOURCE: src/Network/tcpserver.cpp:239-254 -/
def send : Err × Connection :=
  let c := { c with state := { c.state with sentLen := 0 } }
  let c := c.tcpWrite w.headers .headers c.state.headerLen
  if w.headers ≠ errOk then c.tcpCloseClientConnection w.closed w.headers
  else if c.state.resultLen ≠ 0 then
    let c := c.tcpWrite w.result .result c.state.resultLen
    if w.result ≠ errOk then c.tcpCloseClientConnection w.closed w.result
    else (errOk, c.tcpRecved)
  else (errOk, c.tcpRecved)

/-- The answer to a request.
SOURCE: src/Network/tcpserver.cpp:217-255 -/
def respond : Err × Connection :=
  let c := c.generate pages
  if 2048 - 1 < c.state.resultLen then c.tcpCloseClientConnection w.closed errClsd
  else if 0 < c.state.resultLen then
    let c := c.generateHeaders
    if 2048 - 1 < c.state.headerLen then c.tcpCloseClientConnection w.closed errClsd
    else c.send w
  else c.send w

/-- `tcp_server_recv` with a chain of pbufs, or with NULL.
SOURCE: src/Network/tcpserver.cpp:193-259 -/
def tcpServerRecv (p : Option (List Byte)) : Err × Connection :=
  match p with
  | none => c.tcpCloseClientConnection w.closed errOk
  | some bytes =>
    if 0 < bytes.length then
      let c := c.receive bytes
      if isRequest c.state.headers then c.respond pages w else (errOk, c.tcpRecved)
    else (errOk, c)

end Connection

/-! ## The server -/

/-- The arguments of `tcp_server_accept`, and whether `calloc` finds memory. -/
structure Accept where
  clientPcb : Bool
  err : Err
  memory : Bool

/-- A pcb with a new `con_state`. -/
def Connection.new : Connection where
  state := ConState.zero
  frees := 0
  pcbFreed := false
  callbacks := ⟨false, false, false, false, false⟩
  unacked := []
  faults := []

/-- `tcp_server_accept`.
SOURCE: src/Network/tcpserver.cpp:275-300 -/
def tcpServerAccept (a : Accept) : Err × Option Connection :=
  if a.err ≠ errOk ∨ a.clientPcb = false then (errVal, none)
  else if a.memory = false then (errMem, none)
  else
    let c := Connection.new.tcpArg true
    let c := c.tcpSent true
    let c := c.tcpRecv true
    let c := c.tcpPoll true
    (errOk, some (c.tcpErr true))

/-- What happens to a connection: data or NULL is received, bytes are acknowledged, the poll
timer fires, lwIP has freed the pcb. The `Err` values are what lwIP returns to the
callback; `err` is its argument. -/
inductive PcbEvent where
  | recv (w : Outcomes) (p : Option (List Byte))
  | sent (closed : Err) (len : ℕ)
  | poll (closed : Err)
  | err (closed err : Err)

namespace Connection

/-- The peer acknowledges `len` bytes.
SOURCE: src/Network/tcpserver.cpp:146-155 -/
def acknowledge (closed : Err) (len : ℕ) (c : Connection) : Connection :=
  ({ c with unacked := c.unacked.drop len }.tcpServerSent closed len).2

/-- One step. The peer acknowledges nothing that was not sent. -/
def step (pages : Pages) (c : Connection) : PcbEvent → Option Connection
  | .recv w p =>
    if !c.pcbFreed && c.callbacks.recv then some (c.tcpServerRecv pages w p).2 else none
  | .sent closed len =>
    if (!c.pcbFreed && c.callbacks.sent) ∧ 0 < len ∧ len ≤ c.unacked.length then
      some (c.acknowledge closed len)
    else none
  | .poll closed =>
    if !c.pcbFreed && c.callbacks.poll then some (c.tcpServerPoll closed).2 else none
  | .err closed err =>
    if !c.pcbFreed && c.callbacks.err then
      some ({ c with pcbFreed := true, unacked := [] }.tcpServerErr closed err)
    else none

end Connection

/-- The callbacks of one connection. -/
def connectionMachine (pages : Pages) : Machine Connection PcbEvent := ⟨Connection.step pages⟩

/-- The server with all connections that it has accepted. -/
def serverMachine (pages : Pages) : Machine (List Connection) (FamilyEvent Accept PcbEvent) :=
  (connectionMachine pages).family fun a => (tcpServerAccept a).2

end PicoDrone.Model
