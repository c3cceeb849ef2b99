import PicoDrone.Library.Region
import PicoDrone.Model.Lwip

/-!
# The DNS server of the access point

`ipstack/dnsserver.c`: every standard query is answered with the address of the access point.
The message lies in a buffer of 300 bytes on the stack, of which the bytes that the datagram
does not reach are what the stack held before. Loads and stores are checked against the
buffer: the result is `none` where the server would leave it.
-/

set_option autoImplicit false

namespace PicoDrone.Model

open PicoDrone.Library

/-- `MAX_DNS_MSG_SIZE`. -/
abbrev maxDnsMsgSize : ℕ := 300

abbrev DnsMsg := Region maxDnsMsgSize Byte

/-- `sizeof(dns_header_t)`.
SOURCE: ipstack/dnsserver.c:21-28 -/
def dnsHeaderSize : ℕ := 12

/-- `lwip_ntohs` of a field of the header. -/
def dnsField (msg : DnsMsg) (pos : ℕ) : Option (BitVec 16) := do
  let hi ← msg.load pos
  let lo ← msg.load (pos + 1)
  some (hi ++ lo)

/-- `lwip_htons`: the bytes of a field. -/
def htons (x : BitVec 16) : List Byte := [(x >>> 8).setWidth 8, x.setWidth 8]

/-- The loop over the labels of the question from `ptr` on, for at most `fuel` iterations: where
it ends, or `none` inside if a label is invalid.
SOURCE: ipstack/dnsserver.c:154-170 -/
def questionLoop (msg : DnsMsg) (stop : ℕ) : ℕ → ℕ → Option (Option ℕ)
  | 0, ptr => some (some ptr)
  | fuel + 1, ptr =>
    if ptr < stop then do
      let labelLen ← msg.load ptr
      if labelLen = 0#8 then some (some (ptr + 1))
      else if labelLen.toNat > 63 then some none
      else questionLoop msg stop fuel (ptr + 1 + labelLen.toNat)
    else some (some ptr)

/-- `dns_server_t` without its socket. -/
structure DnsServer where
  ip : Ip4

/-- A datagram, what the stack held, and what lwIP answers. -/
structure DnsDatagram where
  payload : List Byte
  stack : ℕ → Byte
  src : Ip4
  srcPort : ℕ
  answers : UdpAnswers

/-- The answer: a pointer to the question, a host address of the Internet class for 60 seconds.
SOURCE: ipstack/dnsserver.c:183-201 -/
def dnsAnswer (d : DnsServer) : List Byte :=
  [0xc0#8, BitVec.ofNat 8 dnsHeaderSize, 0#8, 1#8, 0#8, 1#8, 0#8, 0#8, 0#8, 60#8, 0#8, 4#8] ++
    d.ip.bytes

/-- The flags and the counts of a reply.
SOURCE: ipstack/dnsserver.c:203-210 -/
def dnsReplyFields : List Byte :=
  htons (1#16 <<< 15 ||| 1#16 <<< 10 ||| 1#16 <<< 7) ++ htons 1#16 ++ htons 1#16 ++ htons 0#16 ++
    htons 0#16

/-- `dns_server_process`: the datagram it sends, if any.
SOURCE: ipstack/dnsserver.c:103-218 -/
def dnsServerProcess (d : DnsServer) (q : DnsDatagram) : Option (Option UdpDatagram) := do
  let msgLen := min q.payload.length maxDnsMsgSize
  let msg ← (Region.mk q.stack : DnsMsg).copyIn 0 (q.payload.take maxDnsMsgSize)
  if msgLen < dnsHeaderSize then some none
  else
    let flags ← dnsField msg 2
    let questionCount ← dnsField msg 4
    if flags >>> 15 &&& 0x1#16 ≠ 0#16 then some none
    else if flags >>> 11 &&& 0xf#16 ≠ 0#16 then some none
    else if questionCount < 1#16 then some none
    else
      match ← questionLoop msg msgLen maxDnsMsgSize dnsHeaderSize with
      | none => some none
      | some questionPtr =>
        if questionPtr - dnsHeaderSize > 255 then some none
        else
          let questionPtr := questionPtr + 4
          let msg ← msg.copyIn questionPtr (dnsAnswer d)
          let msg ← msg.copyIn 2 dnsReplyFields
          let reply ← msg.copyOut 0 (questionPtr + 16)
          some (socketSendto q.answers reply q.src q.srcPort).2

end PicoDrone.Model
