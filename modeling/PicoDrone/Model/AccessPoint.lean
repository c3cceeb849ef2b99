import PicoDrone.Library.Decimal
import PicoDrone.Library.Machine
import PicoDrone.Model.TcpServer

/-!
# The web server of the access point

`ipstack/picow_access_point.c`: the callbacks that read a GET request into a buffer of 128
bytes, switch the LED and answer with a page or with a redirect. The connections share the
LED. A request is cut in the buffer it was received into, and what is in the buffer from
before lies behind it.

The LED reads back as it was set, `ipaddr_ntoa` gives the gateway as dotted decimals, and what
`%d` makes of an integer that `int` cannot hold is open. What lwIP returns to a callback is
open as well. It refers to the caller's bytes until the peer has acknowledged them or the
connection is aborted, as `tcp_write` is called without the copy flag. The error callback runs
when the pcb is freed already; the runs of the server end where lwIP is called on a freed pcb.
-/

set_option autoImplicit false

namespace PicoDrone.Model.AccessPoint

open PicoDrone.Library

/-- `TCP_CONNECT_STATE_T`. The members `pcb` and `gw` are set once and never change.
SOURCE: ipstack/picow_access_point.c:35-43 -/
structure ConnectState where
  sentLen : ℕ
  headers : Region 128 Byte
  result : Region 256 Byte
  headerLen : ℕ
  resultLen : ℕ

/-- After `calloc`. -/
def ConnectState.zero : ConnectState := ⟨0, ⟨fun _ => 0#8⟩, ⟨fun _ => 0#8⟩, 0, 0⟩

/-- What is at a place of a buffer. -/
def ConnectState.at (s : ConnectState) (buffer : Buffer) (i : ℕ) : Byte :=
  match buffer with
  | .headers => s.headers.cell i
  | .result => s.result.cell i

/-- What `tcp_write` refers to: the first `len` bytes of a buffer. -/
def ConnectState.refs (s : ConnectState) (buffer : Buffer) (len : ℕ) : List Ref :=
  (List.range len).map fun i => ⟨buffer, i, s.at buffer i⟩

/-- The text that `ipaddr_ntoa` makes of the gateway. -/
structure Gateway where
  text : List Byte
  short : text.length ≤ 15

/-- `LED_TEST`. -/
def ledTest : List Byte := ascii "/ledtest"

/-- `LED_TEST_BODY` with its arguments.
SOURCE: ipstack/picow_access_point.c:23 -/
def ledTestBody (state : String) (led : ℕ) (turn : String) : List Byte :=
  ascii "<html><body><h1>Hello from Pico W.</h1><p>Led is " ++ ascii state ++
    ascii "</p><p><a href=\"?led=" ++ decimal led ++ ascii "\">Turn led " ++ ascii turn ++
    ascii "</a></body></html>"

/-- `HTTP_RESPONSE_REDIRECT` with its argument.
SOURCE: ipstack/picow_access_point.c:27 -/
def httpResponseRedirect (gw : Gateway) : List Byte :=
  ascii "HTTP/1.1 302 Redirect\nLocation: http://" ++ gw.text ++ ledTest ++ ascii "\n\n"

/-- `led_state` behind `sscanf` of `LED_PARAM`, and whether it returned 1.
SOURCE: ipstack/picow_access_point.c:94-105 -/
def scanLedParam (overflow : ℤ → ℤ) (params : List Byte) : Option ℤ :=
  if (ascii "led=").isPrefixOf params then (scanInt (params.drop 4)).map (toInt overflow) else none

/-- `test_server_content`: the LED, the buffer `result` and the length of the text.
SOURCE: ipstack/picow_access_point.c:85-114 -/
def testServerContent (overflow : ℤ → ℤ) (led : Bool) (request : List Byte)
    (params : Option (List Byte)) (result : Region 256 Byte) : Bool × Region 256 Byte × ℕ :=
  if ledTest.isPrefixOf request then
    let ledState : ℤ := if led then 1 else 0
    let (led, ledState) : Bool × ℤ :=
      match params.bind (scanLedParam overflow) with
      | some value => (decide (value ≠ 0), value)
      | none => (led, ledState)
    let text := if ledState ≠ 0 then ledTestBody "ON" 0 "OFF" else ledTestBody "OFF" 1 "ON"
    (led, result.snprintf text, text.length)
  else (led, result, 0)

/-- The request and its parameters, cut in the buffer that they lie in.
SOURCE: ipstack/picow_access_point.c:135-147 -/
def splitRequest (headers : Region 128 Byte) :
    Region 128 Byte × List Byte × Option (List Byte) :=
  let request := headers.stringFrom 4
  match memchr 0x3F#8 request with
  | some params =>
    let space := memchr 0x20#8 request
    let headers := headers.put (4 + params) [0#8]
    let headers := match space with
      | some i => headers.put (4 + i) [0#8]
      | none => headers
    (headers, headers.stringFrom 4, some (headers.stringFrom (4 + (params + 1))))
  | none => (headers, request, none)

/-- What a callback does: what it returns, the state of the connection if it is still open, the
LED, what it has given to `tcp_write` with success, the bytes it has acknowledged with
`tcp_recved`, and whether it has called `tcp_abort`. -/
structure Reply where
  returned : Err
  state : Option ConnectState
  led : Bool
  written : List (List Ref)
  recved : ℕ
  aborted : Bool

/-- `tcp_close_client_connection`: what it returns where `tcp_close` returns `closed`. The pcb
and the state are gone in either case.
SOURCE: ipstack/picow_access_point.c:45-64 -/
def tcpCloseClientConnection (closed closeErr : Err) (led : Bool) (written : List (List Ref)) :
    Reply :=
  ⟨if closed ≠ errOk then errAbrt else closeErr, none, led, written, 0, decide (closed ≠ errOk)⟩

/-- `tcp_server_sent`.
SOURCE: ipstack/picow_access_point.c:74-83 -/
def tcpServerSent (closed : Err) (led : Bool) (s : ConnectState) (len : ℕ) : Reply :=
  let s := { s with sentLen := s.sentLen + len }
  if s.headerLen + s.resultLen ≤ s.sentLen then tcpCloseClientConnection closed errOk led []
  else ⟨errOk, some s, led, [], 0, false⟩

/-- `tcp_server_poll`.
SOURCE: ipstack/picow_access_point.c:198-202 -/
def tcpServerPoll (closed : Err) (led : Bool) : Reply :=
  tcpCloseClientConnection closed errOk led []

/-- The two writes.
SOURCE: ipstack/picow_access_point.c:175-192 -/
def send (w : Outcomes) (led : Bool) (s : ConnectState) (totLen : ℕ) : Reply :=
  let s := { s with sentLen := 0 }
  if w.headers ≠ errOk then tcpCloseClientConnection w.closed w.headers led []
  else if s.resultLen ≠ 0 then
    if w.result ≠ errOk then
      tcpCloseClientConnection w.closed w.result led [s.refs .headers s.headerLen]
    else
      ⟨errOk, some s, led, [s.refs .headers s.headerLen, s.refs .result s.resultLen], totLen, false⟩
  else ⟨errOk, some s, led, [s.refs .headers s.headerLen], totLen, false⟩

/-- The answer to a GET request.
SOURCE: ipstack/picow_access_point.c:133-191 -/
def respond (overflow : ℤ → ℤ) (gw : Gateway) (w : Outcomes) (led : Bool) (s : ConnectState)
    (totLen : ℕ) : Reply :=
  let (headers, request, params) := splitRequest s.headers
  let (led, result, resultLen) := testServerContent overflow led request params s.result
  let s := { s with headers := headers, result := result, resultLen := resultLen }
  if 256 - 1 < resultLen then tcpCloseClientConnection w.closed errClsd led []
  else if 0 < resultLen then
    let text := httpResponseHeaders 200 resultLen
    let s := { s with headers := s.headers.snprintf text, headerLen := text.length }
    if 128 - 1 < text.length then tcpCloseClientConnection w.closed errClsd led []
    else send w led s totLen
  else
    let text := httpResponseRedirect gw
    send w led { s with headers := s.headers.snprintf text, headerLen := text.length } totLen

/-- `tcp_server_recv` with a chain of pbufs, or with NULL.
SOURCE: ipstack/picow_access_point.c:116-196 -/
def tcpServerRecv (overflow : ℤ → ℤ) (gw : Gateway) (w : Outcomes) (led : Bool)
    (s : ConnectState) (p : Option (List Byte)) : Reply :=
  match p with
  | none => tcpCloseClientConnection w.closed errOk led []
  | some bytes =>
    if 0 < bytes.length then
      let s := { s with headers := s.headers.put 0 (bytes.take (128 - 1)) }
      if s.headers.slice 0 3 = ascii "GET" then respond overflow gw w led s bytes.length
      else ⟨errOk, some s, led, [], bytes.length, false⟩
    else ⟨errOk, some s, led, [], 0, false⟩

/-- `tcp_server_err` for a connection in whose buffers nothing is in flight any more: its state if
it is not freed, and whether lwIP is called on the freed pcb.
SOURCE: ipstack/picow_access_point.c:204-210 -/
def tcpServerErr (s : ConnectState) (err : Err) : Option ConnectState × Bool :=
  if err ≠ errAbrt then (none, true) else (some s, false)

/-- A connection: its state while it is allocated, whether its pcb is, and the bytes that lwIP
refers to. -/
structure ClientConnection where
  state : Option ConnectState
  pcb : Bool
  unacked : List Ref

/-- After `tcp_server_accept`. -/
def ClientConnection.new (s : ConnectState) : ClientConnection := ⟨some s, true, []⟩

/-- A callback has run, for which lwIP still referred to the bytes `unacked`. -/
def Reply.client (r : Reply) (unacked : List Ref) : ClientConnection where
  state := r.state
  pcb := r.state.isSome
  unacked := if r.aborted then [] else unacked ++ r.written.flatten

/-- The server: the LED, the connections that it has accepted, what it has given to `tcp_write` for
the GET requests, each with the LED behind the request, and whether lwIP has been called on a
freed pcb. -/
structure Server where
  led : Bool
  connections : List ClientConnection
  answers : List (Bool × List (List Byte))
  faults : List Fault

/-- What happens to the server: a connection is accepted, or a callback of one runs. The `Err`
values are what lwIP returns to the callback; `err` is its argument. -/
inductive LedEvent where
  | accept (clientPcb : Bool) (err : Err) (memory : Bool)
  | recv (k : ℕ) (w : Outcomes) (p : Option (List Byte))
  | sent (k : ℕ) (closed : Err) (len : ℕ)
  | poll (k : ℕ) (closed : Err)
  | err (k : ℕ) (err : Err)

/-- `tcp_server_accept`: what it returns, and the state of a new connection.
SOURCE: ipstack/picow_access_point.c:212-237 -/
def tcpServerAccept (clientPcb : Bool) (err : Err) (memory : Bool) : Err × Option ConnectState :=
  if err ≠ errOk ∨ clientPcb = false then (errVal, none)
  else if memory = false then (errMem, none)
  else (errOk, some ConnectState.zero)

namespace Server

/-- The state of a connection whose callbacks run. -/
def connection (s : Server) (k : ℕ) : Option ConnectState :=
  s.connections[k]?.bind fun c => if c.pcb then c.state else none

/-- What lwIP refers to for a connection. -/
def unacked (s : Server) (k : ℕ) : List Ref := (s.connections[k]?.map (·.unacked)).getD []

/-- A callback of connection `k` has run, for which lwIP still referred to the bytes `unacked`. -/
def handled (s : Server) (k : ℕ) (unacked : List Ref) (answers : List (Bool × List (List Byte)))
    (r : Reply) : Server :=
  { s with
    led := r.led
    connections := s.connections.set k (r.client unacked)
    answers := s.answers ++ answers }

/-- A GET request: the buffer behind the copy begins so. -/
def isGet (c : ConnectState) (p : Option (List Byte)) : Bool :=
  match p with
  | some bytes =>
    0 < bytes.length && (c.headers.put 0 (bytes.take (128 - 1))).slice 0 3 = ascii "GET"
  | none => false

/-- One callback. The peer acknowledges nothing that was not sent. -/
def callback (overflow : ℤ → ℤ) (gw : Gateway) (s : Server) : LedEvent → Option Server
  | .accept clientPcb err memory =>
    some { s with
      connections := s.connections ++
        (tcpServerAccept clientPcb err memory).2.toList.map ClientConnection.new }
  | .recv k w p => (s.connection k).map fun c =>
      let r := tcpServerRecv overflow gw w s.led c p
      let texts := r.written.map (List.map Ref.byte)
      s.handled k (s.unacked k) (if isGet c p then [(r.led, texts)] else []) r
  | .sent k closed len =>
    if 0 < len ∧ len ≤ (s.unacked k).length then
      (s.connection k).map fun c =>
        s.handled k ((s.unacked k).drop len) [] (tcpServerSent closed s.led c len)
    else none
  | .poll k closed => (s.connection k).map fun _ =>
      s.handled k (s.unacked k) [] (tcpServerPoll closed s.led)
  | .err k err => (s.connection k).map fun c =>
      { s with
        connections := s.connections.set k ⟨(tcpServerErr c err).1, false, []⟩
        faults := if (tcpServerErr c err).2 then s.faults ++ [.freedPcb] else s.faults }

/-- One step: a callback, as long as lwIP has not been called on a freed pcb. -/
def step (overflow : ℤ → ℤ) (gw : Gateway) (s : Server) (e : LedEvent) : Option Server :=
  if s.faults.isEmpty then s.callback overflow gw e else none

end Server

/-- The server with all connections that it has accepted. -/
def ledMachine (overflow : ℤ → ℤ) (gw : Gateway) : Machine Server LedEvent :=
  ⟨Server.step overflow gw⟩

end PicoDrone.Model.AccessPoint
