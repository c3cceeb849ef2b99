import PicoDrone.Library.CString
import PicoDrone.Library.Decimal
import PicoDrone.Model.Lwip

/-!
# The TLS client

The receive path of `ipstack/tls_common.c`, which takes the CO2 setpoint out of a reply of the
server. What `altcp_close` returns is open, and so is what `atoi` makes of an integer that `int`
cannot hold. `malloc` is taken to succeed.
-/

set_option autoImplicit false

namespace PicoDrone.Model

open PicoDrone.Library

/-- The static `Co2_SetPoint`, the members of `TLS_CLIENT_T` that the receive path uses, the bytes
acknowledged with `altcp_recved`, and what has been printed. -/
structure TlsClient where
  co2SetPoint : ℤ
  complete : Bool
  pcb : Bool
  recved : ℕ
  printed : List String
  deriving DecidableEq, Repr

/-- SOURCE: ipstack/tls_common.c:36 -/
def commandKey : List Byte := ascii "\"command_string\":\""

/-- The closing quote. -/
def quote : Byte := 0x22#8

/-- `extract_co2_setpoint`. The pointers are places in `buf`: the key is searched up to the first
NUL, the quote in the `bufLen` bytes of the reply.
SOURCE: ipstack/tls_common.c:35-49 -/
def extractCo2Setpoint (overflow : ℤ → ℤ) (buf : List Byte) (bufLen : ℕ) : ℤ :=
  let text := buf.takeWhile (· ≠ 0#8)
  match strstr commandKey text with
  | some found =>
    let cmdStart := text.length - found.length + commandKey.length
    match memchr quote ((buf.drop cmdStart).take (bufLen - cmdStart)) with
    | some cmdEnd => atoi overflow ((buf.set (cmdStart + cmdEnd) 0#8).drop cmdStart)
    | none => -1
  | none => -1

namespace TlsClient

def print (s : TlsClient) (line : String) : TlsClient :=
  { s with printed := s.printed ++ [line] }

/-- `tls_client_close`.
SOURCE: ipstack/tls_common.c:51-69 -/
def close (closeErr : Err) (s : TlsClient) : Err × TlsClient :=
  let s := { s with complete := true }
  if s.pcb then
    if closeErr ≠ errOk then
      (errAbrt, { s.print s!"close failed {closeErr}, calling abort\n" with pcb := false })
    else (errOk, { s with pcb := false })
  else (errOk, s)

/-- `tls_client_recv`. A closed connection is a NULL `pbuf`.
SOURCE: ipstack/tls_common.c:103-136 -/
def recv (overflow : ℤ → ℤ) (closeErr : Err) (p : Option (List Byte)) (s : TlsClient) :
    Err × TlsClient :=
  match p with
  | none => (s.print "connection closed\n").close closeErr
  | some payload =>
    if 0 < payload.length then
      let commandValue := extractCo2Setpoint overflow (payload ++ [0#8]) payload.length
      let s :=
        if 0 ≤ commandValue then
          { s with co2SetPoint := commandValue }.print s!"New CO2 setpoint: {commandValue}\n"
        else s
      (errOk, { s with recved := s.recved + payload.length })
    else (errOk, s)

end TlsClient

end PicoDrone.Model
