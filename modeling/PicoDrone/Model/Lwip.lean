import PicoDrone.Model.Word

/-!
# Values of lwIP

The values of `err_t` that the firmware returns or tests: `ERR_OK`, `ERR_MEM`, `ERR_VAL`,
`ERR_ABRT`, `ERR_CLSD` and `ERR_ARG`; addresses, and the datagrams that the two servers of
the access point send.
-/

set_option autoImplicit false

namespace PicoDrone.Model

/-- `err_t` of lwIP. -/
abbrev Err := ℤ

def errOk : Err := 0

def errMem : Err := -1

def errVal : Err := -6

def errAbrt : Err := -13

def errClsd : Err := -15

def errArg : Err := -16

/-- `ip4_addr_t`: the four bytes of an address in the order of the network. -/
structure Ip4 where
  a : Byte
  b : Byte
  c : Byte
  d : Byte
  deriving DecidableEq, Repr

def Ip4.bytes (ip : Ip4) : List Byte := [ip.a, ip.b, ip.c, ip.d]

@[simp] theorem Ip4.bytes_length (ip : Ip4) : ip.bytes.length = 4 := rfl

/-- A datagram handed to `udp_sendto`. -/
structure UdpDatagram where
  payload : List Byte
  dest : Ip4
  port : ℕ
  deriving DecidableEq, Repr

/-- What lwIP answers to one sending: whether `pbuf_alloc` succeeds, and the result of
`udp_sendto`. -/
structure UdpAnswers where
  alloc : Bool
  send : Err

/-- `ENOMEM` of `errno.h`. -/
def enomem : ℤ := 12

/-- Sending a buffer in one `pbuf`: the result, and the datagram that has been sent.
SOURCE: ipstack/dhcpserver.c:116-139, ipstack/dnsserver.c:76-102 -/
def socketSendto (answers : UdpAnswers) (buf : List Byte) (dest : Ip4) (port : ℕ) :
    ℤ × Option UdpDatagram :=
  let len := if buf.length > 0xffff then 0xffff else buf.length
  if answers.alloc = false then (-enomem, none)
  else if answers.send ≠ errOk then (answers.send, none)
  else (len, some ⟨buf.take len, dest, port⟩)

theorem socketSendto_of_le {buf : List Byte} (h : buf.length ≤ 0xffff) (answers : UdpAnswers)
    (dest : Ip4) (port : ℕ) :
    (socketSendto answers buf dest port).2 =
      if answers.alloc = true ∧ answers.send = errOk then some ⟨buf, dest, port⟩ else none := by
  unfold socketSendto
  simp only [if_neg (Nat.not_lt.mpr h), List.take_length]
  cases answers.alloc with
  | false => simp
  | true => by_cases hsend : answers.send = errOk <;> simp [hsend]

end PicoDrone.Model
