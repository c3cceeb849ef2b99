import PicoDrone.Library.CircularBuffer
import PicoDrone.Library.Machine
import PicoDrone.Model.Lwip

/-!
# The TCP client

`IPStack` of `ipstack/IPStack.cpp`: the receive ring that `tcp_client_recv` fills and
`read` empties, and the calls `connect`, `write` and `disconnect` make into lwIP. The bytes
are of any type, so that a run can be followed with bytes that carry their origin.

lwIP is not part of the repository. A pcb is a number. A connection reset frees the pcb
before `tcp_client_err` runs, `tcp_close` frees it when it succeeds and `tcp_abort` always
does.
-/

set_option autoImplicit false

namespace PicoDrone.Model

open PicoDrone.Library

/-- `IPStack::BUF_SIZE`. -/
def bufSize : ℕ := 2048

/-- A chain of pbufs; `tot_len` has 16 bits. -/
structure Pbuf (α : Type) where
  payload : List α
  totLen_le : payload.length ≤ 65535

/-- `tot_len`. -/
def Pbuf.totLen {α : Type} (p : Pbuf α) : ℕ := p.payload.length

/-- The bytes that `pbuf_copy_partial` copies for a length and an offset. -/
def Pbuf.copyPartial {α : Type} (p : Pbuf α) (len offset : ℕ) : List α :=
  (p.payload.drop offset).take len

/-- A record of the bytes copied into the ring, the bytes copied out of it and the total
passed to `tcp_recved`. No function of the object reads it. -/
structure RxLog (α : Type) where
  appended : List α
  delivered : List α
  acked : ℕ

/-- An `IPStack` object. -/
structure IPStack (α : Type) where
  tcpPcb : Option ℕ
  buffer : Region bufSize α
  count : ℕ
  dropped : ℕ
  wr : ℕ
  rd : ℕ
  connected : Bool
  log : RxLog α

/-- The object after its constructor, whatever its buffer holds.
SOURCE: ipstack/IPStack.cpp:16-30 -/
def IPStack.construct {α : Type} (buffer : Region bufSize α) : IPStack α :=
  { tcpPcb := none, buffer := buffer, count := 0, dropped := 0, wr := 0, rd := 0,
    connected := false, log := ⟨[], [], 0⟩ }

/-! ## The receive ring -/

section Receive

variable {α : Type}

/-- The copy up to the end of the buffer. The result is the object, what is left to copy and
`first_copy`.
SOURCE: ipstack/IPStack.cpp:171-187 -/
def recvFirst (p : Pbuf α) (bytesToCopy wrEnd : ℕ) (s : IPStack α) :
    Option (IPStack α × ℕ × ℕ) :=
  if wrEnd > bufSize then
    let firstCopy := u16 (bufSize - s.wr)
    if firstCopy ≠ 0 then do
      let piece := p.copyPartial firstCopy 0
      let buffer ← s.buffer.copyIn s.wr piece
      some ({ s with
        buffer := buffer
        wr := 0
        count := u16 (s.count + firstCopy)
        log := { s.log with appended := s.log.appended ++ piece } },
        u16 (bytesToCopy - piece.length), firstCopy)
    else some ({ s with count := u16 (s.count + firstCopy) }, bytesToCopy, firstCopy)
  else some (s, bytesToCopy, 0)

/-- The copy of the rest.
SOURCE: ipstack/IPStack.cpp:188-190 -/
def recvRest (p : Pbuf α) (bytesToCopy firstCopy : ℕ) (s : IPStack α) : Option (IPStack α) := do
  let piece := p.copyPartial bytesToCopy firstCopy
  let buffer ← s.buffer.copyIn s.wr piece
  some { s with
    buffer := buffer
    wr := u16 (u16 (s.wr + piece.length) % bufSize)
    count := u16 (s.count + bytesToCopy)
    log := { s.log with appended := s.log.appended ++ piece } }

/-- The check for bytes that do not fit.
SOURCE: ipstack/IPStack.cpp:173-176 -/
def recvDrop (p : Pbuf α) (bytesToCopy : ℕ) (s : IPStack α) : IPStack α :=
  if bytesToCopy < p.totLen then
    { s with dropped := u32 (s.dropped + u32 (p.totLen - bytesToCopy)) }
  else s

/-- `IPStack::tcp_client_recv`.
SOURCE: ipstack/IPStack.cpp:150-197 -/
def tcpClientRecv (s : IPStack α) : Option (Pbuf α) → Option (IPStack α)
  | none => some s
  | some p =>
    if p.totLen > 0 then do
      let available := u16 (bufSize - s.count)
      let bytesToCopy := if available > p.totLen then p.totLen else available
      let wrEnd := u16 (s.wr + bytesToCopy)
      let r ← recvFirst p bytesToCopy wrEnd (recvDrop p bytesToCopy s)
      let s ← recvRest p r.2.1 r.2.2 r.1
      some { s with log := { s.log with acked := s.log.acked + p.totLen } }
    else some s

/-- The loop of `read` that polls lwIP, over the callbacks that each poll runs. It goes round
while the list lasts, which is the timeout, and fewer than `len` bytes are there.
SOURCE: ipstack/IPStack.cpp:202-205 -/
def pollLoop {m : Type → Type} [Monad m] {σ κ : Type} (callback : σ → κ → m σ)
    (count : σ → ℕ) (len : ℤ) : List (List κ) → σ → m σ
  | [], s => pure s
  | round :: rounds, s => do
    let s ← round.foldlM callback s
    if count s < len then pollLoop callback count len rounds s else pure s

/-- `IPStack::read` after its polling loop: the object, the bytes stored in the caller's
buffer and the value returned.
SOURCE: ipstack/IPStack.cpp:207-230 -/
def readCopy (len : ℤ) (s : IPStack α) : Option (IPStack α × List α × ℤ) :=
  let bytesToCopy := if s.count < len then (s.count : ℤ) else len
  if bytesToCopy ≠ 0 then
    let rdEnd := u16 (s.rd + bytesToCopy)
    if rdEnd > bufSize then
      let firstCopy := u16 (bufSize - s.rd)
      let rest := if firstCopy ≠ 0 then bytesToCopy - firstCopy else bytesToCopy
      let count := if firstCopy ≠ 0 then u16 (s.count - firstCopy) else s.count
      do
        let first ← (if firstCopy ≠ 0 then s.buffer.copyOut s.rd firstCopy else some [] :
          Option (List α))
        let second ← s.buffer.copyOut 0 (u32 rest)
        some ({ s with
          rd := u16 rest
          count := u16 (count - rest)
          log := { s.log with delivered := s.log.delivered ++ (first ++ second) } },
          first ++ second, rest + firstCopy)
    else do
      let out ← s.buffer.copyOut s.rd (u32 bytesToCopy)
      some ({ s with
        rd := u16 ((s.rd + bytesToCopy) % bufSize)
        count := u16 (s.count - bytesToCopy)
        log := { s.log with delivered := s.log.delivered ++ out } },
        out, bytesToCopy)
  else some (s, [], 0)

/-- A callback with received data, or a `read` with the callbacks its polls run. -/
inductive RxEvent (α : Type) where
  | recv (p : Option (Pbuf α))
  | read (len : ℤ) (polls : List (List (Option (Pbuf α))))

/-- `IPStack::read`.
SOURCE: ipstack/IPStack.cpp:200-231 -/
def IPStack.read (len : ℤ) (polls : List (List (Option (Pbuf α)))) (s : IPStack α) :
    Option (IPStack α × List α × ℤ) := do
  let s ← pollLoop tcpClientRecv IPStack.count len polls s
  readCopy len s

/-- The runs of the receive ring. -/
def rxMachine (α : Type) : Machine (IPStack α) (RxEvent α) where
  step s
    | .recv p => tcpClientRecv s p
    | .read len polls => (IPStack.read len polls s).map Prod.fst

end Receive

/-! ## Connections -/

/-- The functions of lwIP that the object calls with a pcb. -/
inductive LwipFn where
  | tcpArg | tcpPoll | tcpSent | tcpRecv | tcpErr | tcpConnect | tcpWrite | tcpOutput
  | tcpClose | tcpAbort | tcpRecved
  deriving DecidableEq, Repr

/-- A call into lwIP, with the pcb it was given and whether that pcb was allocated. -/
structure LwipCall where
  fn : LwipFn
  pcb : Option ℕ
  valid : Bool
  deriving DecidableEq, Repr

/-- An object with lwIP: the allocated pcbs, the number of the next one, the calls made so
far, and the bytes each read delivered with the pcb that was held then. -/
structure Net (α : Type) where
  stack : IPStack α
  live : List ℕ
  next : ℕ
  calls : List LwipCall
  reads : List (Option ℕ × List α)

/-- A callback of lwIP for a pcb. -/
inductive Callback (α : Type) where
  | recv (pcb : ℕ) (p : Option (Pbuf α))
  | err (pcb : ℕ) (err : Err)
  | connected (pcb : ℕ) (err : Err)

namespace Net

variable {α : Type}

/-- The start: the object constructed, no pcb allocated. -/
def start (buffer : Region bufSize α) : Net α :=
  { stack := IPStack.construct buffer, live := [], next := 0, calls := [], reads := [] }

/-- The pcb is allocated. -/
def valid (n : Net α) : Option ℕ → Bool
  | none => false
  | some p => decide (p ∈ n.live)

/-- A call into lwIP. -/
def call (n : Net α) (pcb : Option ℕ) (fn : LwipFn) : Net α :=
  { n with calls := n.calls ++ [⟨fn, pcb, n.valid pcb⟩] }

/-- The assignment to `tcp_pcb`. -/
def setPcb (n : Net α) (pcb : Option ℕ) : Net α :=
  { n with stack := { n.stack with tcpPcb := pcb } }

/-- A pcb is freed. -/
def free (n : Net α) (pcb : ℕ) : Net α := { n with live := n.live.filter (· ≠ pcb) }

/-- `IPStack::connect`. `addrOk` is the result of `ip4addr_aton`, `alloc` says whether
`tcp_new_ip_type` finds memory, `err` is the result of `tcp_connect`.
SOURCE: ipstack/IPStack.cpp:36-65 -/
def connect (addrOk alloc : Bool) (err : Err) (n : Net α) : Net α × Err :=
  if !addrOk then (n, errArg)
  else if !alloc then (n.setPcb none, errMem)
  else
    let pcb := some n.next
    let n := { n.setPcb pcb with live := n.next :: n.live, next := n.next + 1 }
    ([.tcpArg, .tcpPoll, .tcpSent, .tcpRecv, .tcpErr, .tcpConnect].foldl (fun n fn =>
      n.call pcb fn) n, err)

/-- `IPStack::write`, with the results of `tcp_write` and `tcp_output`.
SOURCE: ipstack/IPStack.cpp:233-256 -/
def write (len : ℤ) (writeErr outputErr : Err) (n : Net α) : Net α × ℤ :=
  let rv := len
  let n := n.call n.stack.tcpPcb .tcpWrite
  let rv := if writeErr ≠ errOk then -1 else rv
  let n := n.call n.stack.tcpPcb .tcpOutput
  let rv := if outputErr ≠ errOk then -2 else rv
  (n, rv)

/-- `IPStack::disconnect`, with the result of `tcp_close`.
SOURCE: ipstack/IPStack.cpp:258-278 -/
def disconnect (err : Err) (n : Net α) : Net α × Err :=
  match n.stack.tcpPcb with
  | none => (n, errOk)
  | some p =>
    let n := [.tcpArg, .tcpPoll, .tcpSent, .tcpRecv, .tcpErr, .tcpClose].foldl (fun n fn =>
      n.call (some p) fn) n
    if err ≠ errOk then (((n.call (some p) .tcpAbort).free p).setPcb none, errAbrt)
    else ((n.free p).setPcb none, err)

/-- A callback, which lwIP makes for an allocated pcb; the error callback frees it first.
SOURCE: ipstack/IPStack.cpp:97-197 -/
def callback (n : Net α) : Callback α → Option (Net α)
  | .recv pcb p =>
    if pcb ∈ n.live then do
      let s ← tcpClientRecv n.stack p
      let n := { n with stack := s }
      match p with
      | none => some n
      | some p => some (if p.totLen > 0 then n.call (some pcb) .tcpRecved else n)
    else none
  | .err pcb _ => if pcb ∈ n.live then some (n.free pcb) else none
  | .connected pcb _ =>
    if pcb ∈ n.live then some { n with stack := { n.stack with connected := true } } else none

/-- `IPStack::read`, whose polls run callbacks.
SOURCE: ipstack/IPStack.cpp:200-231 -/
def read (len : ℤ) (polls : List (List (Callback α))) (n : Net α) : Option (Net α) := do
  let n ← pollLoop callback (fun n => n.stack.count) len polls n
  let r ← readCopy len n.stack
  some { n with stack := r.1, reads := n.reads ++ [(n.stack.tcpPcb, r.2.1)] }

end Net

/-- A call of a method, or a callback between two of them. -/
inductive NetEvent (α : Type) where
  | connect (addrOk alloc : Bool) (err : Err)
  | write (len : ℤ) (writeErr outputErr : Err)
  | read (len : ℤ) (polls : List (List (Callback α)))
  | disconnect (err : Err)
  | callback (c : Callback α)

/-- The runs of an object with lwIP. -/
def netMachine (α : Type) : Machine (Net α) (NetEvent α) where
  step n
    | .connect addrOk alloc err => some (n.connect addrOk alloc err).1
    | .write len writeErr outputErr => some (n.write len writeErr outputErr).1
    | .read len polls => n.read len polls
    | .disconnect err => some (n.disconnect err).1
    | .callback c => n.callback c

/-! ## Writing -/

/-- A call of `write` with a buffer of `len` bytes and the results of `tcp_write` and
`tcp_output`. -/
structure SendCall (α : Type) where
  buffer : List α
  writeErr : Err
  outputErr : Err

/-- A call of `write` that has returned, with the bytes it queued in lwIP. -/
structure Written (α : Type) where
  buffer : List α
  result : ℤ
  queued : List α

/-- What `tcp_write` queues of a buffer: as many bytes as its length of 16 bits says, or none. -/
def tcpWrite {α : Type} (buffer : List α) (len : ℤ) (err : Err) : List α :=
  if err = errOk then buffer.take (u16 len) else []

/-- An object with the record of its writes, which no function reads. -/
structure Sender (α : Type) where
  net : Net α
  log : List (Written α)

def Sender.write {α : Type} (c : SendCall α) (s : Sender α) : Sender α :=
  let r := s.net.write c.buffer.length c.writeErr c.outputErr
  let queued := tcpWrite c.buffer c.buffer.length c.writeErr
  { net := r.1, log := s.log ++ [⟨c.buffer, r.2, queued⟩] }

/-- The runs of calls of `write`. -/
def txMachine (α : Type) : Machine (Sender α) (SendCall α) where
  step s c := some (s.write c)

end PicoDrone.Model
