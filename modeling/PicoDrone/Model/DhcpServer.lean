import Mathlib.Data.Fintype.Basic
import PicoDrone.Library.Machine
import PicoDrone.Library.Region
import PicoDrone.Model.Lwip

/-!
# The DHCP server of the access point

`ipstack/dhcpserver.c`: the search for an option, the options of a reply, and the handling of
a datagram with the table of leases. A message lies in a buffer of 548 bytes on the stack; the
bytes that the datagram does not reach, and those behind the buffer, are what the stack held
before. The clock counts milliseconds since the start; the server reads its lower 32 bits.
-/

set_option autoImplicit false

namespace PicoDrone.Model

open PicoDrone.Library

def dhcpDiscover : Byte := 1#8

def dhcpOffer : Byte := 2#8

def dhcpRequest : Byte := 3#8

def dhcpAck : Byte := 5#8

def dhcpOptSubnetMask : Byte := 1#8

def dhcpOptRouter : Byte := 3#8

def dhcpOptDns : Byte := 6#8

def dhcpOptRequestedIp : Byte := 50#8

def dhcpOptIpLeaseTime : Byte := 51#8

def dhcpOptMsgType : Byte := 53#8

def dhcpOptServerId : Byte := 54#8

def dhcpOptEnd : Byte := 255#8

def portDhcpClient : ℕ := 68

/-- `DEFAULT_LEASE_TIME_S`. -/
def defaultLeaseTimeS : ℕ := 24 * 60 * 60

/-- `DHCP_MIN_SIZE`. -/
def dhcpMinSize : ℕ := 240 + 3

/-- `DHCPS_BASE_IP`.
SOURCE: ipstack/dhcpserver.h:35-36 -/
def dhcpsBaseIp : Byte := 16#8

/-! ## Options -/

/-- The loop of `opt_find` from `opt[i]` on, for at most `fuel` iterations. -/
def optFindLoop (opt : ℕ → Byte) (cmd : Byte) : ℕ → ℕ → Option ℕ
  | 0, _ => none
  | fuel + 1, i =>
    if i < 308 ∧ opt i ≠ dhcpOptEnd then
      if opt i = cmd then some i else optFindLoop opt cmd fuel (i + (2 + (opt (i + 1)).toNat))
    else none

/-- `opt_find`: the index of the option. Every iteration moves on by at least two bytes.
SOURCE: ipstack/dhcpserver.c:141-149 -/
def optFind (opt : ℕ → Byte) (cmd : Byte) : Option ℕ := optFindLoop opt cmd 308 0

/-- `dhcp_msg_t` on the stack.
SOURCE: ipstack/dhcpserver.c:71-87 -/
abbrev DhcpMsg := Region 548 Byte

/-- Where `chaddr`, `yiaddr` and the options behind the magic cookie are in a message. -/
def chaddrAt : ℕ := 28

def yiaddrAt : ℕ := 16

def optAt : ℕ := 240

/-- `opt_write_n`: the message and the place behind the option.
SOURCE: ipstack/dhcpserver.c:151-157 -/
def optWriteN (cmd : Byte) (data : List Byte) (w : DhcpMsg × ℕ) : DhcpMsg × ℕ :=
  (w.1.put w.2 (cmd :: BitVec.ofNat 8 data.length :: data), w.2 + 2 + data.length)

/-- `opt_write_u8`.
SOURCE: ipstack/dhcpserver.c:159-165 -/
def optWriteU8 (cmd val : Byte) (w : DhcpMsg × ℕ) : DhcpMsg × ℕ :=
  (w.1.put w.2 [cmd, 1#8, val], w.2 + 3)

/-- `opt_write_u32`.
SOURCE: ipstack/dhcpserver.c:167-176 -/
def optWriteU32 (cmd : Byte) (val : Word) (w : DhcpMsg × ℕ) : DhcpMsg × ℕ :=
  (w.1.put w.2 [cmd, 4#8, (val >>> 24).setWidth 8, (val >>> 16).setWidth 8,
    (val >>> 8).setWidth 8, val.setWidth 8], w.2 + 6)

/-! ## Leases -/

/-- The six bytes of a hardware address that the server looks at. -/
abbrev Mac := Fin 6 → Byte

/-- An entry without a client has this address. -/
def noMac : Mac := fun _ => 0#8

/-- `dhcp_server_lease_t`. -/
@[ext] structure DhcpLease where
  mac : Mac
  expiry : BitVec 16

/-- `dhcp_server_t` without its socket.
SOURCE: ipstack/dhcpserver.h:38-48 -/
structure DhcpServer where
  ip : Ip4
  nm : Ip4
  lease : Fin 8 → DhcpLease

/-- The test for an expired lease.
SOURCE: ipstack/dhcpserver.c:224-225 -/
def leaseExpired (l : DhcpLease) (ticks : Word) : Bool :=
  let expiry : Word := l.expiry.setWidth 32 <<< 16 ||| 0xffff#32
  decide ((expiry - ticks).toInt < 0)

/-- The loop over the leases for a DISCOVER; `ticks i` is what the clock shows at lease `i`.
SOURCE: ipstack/dhcpserver.c:212-231 -/
def discoverLoop (chaddr : Mac) (ticks : Fin 8 → Word) :
    List (Fin 8) → (Fin 8 → DhcpLease) → Option (Fin 8) → (Fin 8 → DhcpLease) × Option (Fin 8)
  | [], lease, yi => (lease, yi)
  | i :: is, lease, yi =>
    if (lease i).mac = chaddr then (lease, some i)
    else if yi = none then
      let found := if (lease i).mac = noMac then some i else yi
      if leaseExpired (lease i) (ticks i) then
        discoverLoop chaddr ticks is
          (Function.update lease i { lease i with mac := noMac }) (some i)
      else discoverLoop chaddr ticks is lease found
    else discoverLoop chaddr ticks is lease yi

/-- The lease for a DISCOVER, if there is one, and the leases then. -/
def discover (chaddr : Mac) (ticks : Fin 8 → Word) (lease : Fin 8 → DhcpLease) :
    (Fin 8 → DhcpLease) × Option (Fin 8) :=
  discoverLoop chaddr ticks (List.finRange 8) lease none

/-- The end of a lease that begins now.
SOURCE: ipstack/dhcpserver.c:266 -/
def leaseEnd (ticks : Word) : BitVec 16 :=
  ((ticks + BitVec.ofNat 32 (defaultLeaseTimeS * 1000)) >>> 16).setWidth 16

/-- The leases after a REQUEST for lease `yi`, if it may be given.
SOURCE: ipstack/dhcpserver.c:256-266 -/
def claimLease (chaddr : Mac) (ticks : Word) (lease : Fin 8 → DhcpLease) (yi : Fin 8) :
    Option (Fin 8 → DhcpLease) :=
  if (lease yi).mac = chaddr then
    some (Function.update lease yi { lease yi with expiry := leaseEnd ticks })
  else if (lease yi).mac = noMac then
    some (Function.update lease yi { mac := chaddr, expiry := leaseEnd ticks })
  else none

/-! ## Datagrams -/

/-- A datagram, what the stack held, the clock at its readings, and what lwIP answers. -/
structure DhcpDatagram where
  payload : List Byte
  stack : ℕ → Byte
  clock : ℕ → ℕ
  answers : UdpAnswers

/-- `cyw43_hal_ticks_ms` at its `n`-th reading. -/
def DhcpDatagram.ticks (q : DhcpDatagram) (n : ℕ) : Word := BitVec.ofNat 32 (q.clock n)

/-- The message on the stack, with `op` and `yiaddr` set.
SOURCE: ipstack/dhcpserver.c:192-198 -/
def dhcpMessage (d : DhcpServer) (q : DhcpDatagram) : DhcpMsg :=
  (((Region.mk q.stack).put 0 (q.payload.take 548)).put 0 [dhcpOffer]).put yiaddrAt d.ip.bytes

def msgOpt (msg : DhcpMsg) (i : ℕ) : Byte := msg.cell (optAt + i)

/-- The hardware address of a message. -/
def msgMac (cell : ℕ → Byte) : Mac := fun k => cell (chaddrAt + k)

/-- The reply of a type for lease `yi`, and its length.
SOURCE: ipstack/dhcpserver.c:236-237, 267-268, 279-284 -/
def dhcpReply (d : DhcpServer) (type : Byte) (yi : Fin 8) (msg : DhcpMsg) : DhcpMsg × ℕ :=
  let msg := msg.put (yiaddrAt + 3) [dhcpsBaseIp + BitVec.ofNat 8 yi]
  let w := optWriteU8 dhcpOptMsgType type (msg, optAt)
  let w := optWriteN dhcpOptServerId d.ip.bytes w
  let w := optWriteN dhcpOptSubnetMask d.nm.bytes w
  let w := optWriteN dhcpOptRouter d.ip.bytes w
  let w := optWriteN dhcpOptDns d.ip.bytes w
  let w := optWriteU32 dhcpOptIpLeaseTime (BitVec.ofNat 32 defaultLeaseTimeS) w
  (w.1.put w.2 [dhcpOptEnd], w.2 + 1)

/-- `dhcp_socket_sendto` of a reply, to everybody.
SOURCE: ipstack/dhcpserver.c:116-139, 285 -/
def dhcpSend (answers : UdpAnswers) (w : DhcpMsg × ℕ) : Option UdpDatagram :=
  (socketSendto answers (w.1.slice 0 w.2) ⟨255#8, 255#8, 255#8, 255#8⟩ portDhcpClient).2

/-- The `switch` over the type of a message: the leases, and the type and the lease of the reply,
if there is one. `wanted` is the address in the option of a REQUEST.
SOURCE: ipstack/dhcpserver.c:209-277 -/
def dhcpSwitch (d : DhcpServer) (chaddr : Mac) (msgtype : Byte) (wanted : Option Ip4)
    (ticks : ℕ → Word) : (Fin 8 → DhcpLease) × Option (Byte × Fin 8) :=
  if msgtype = dhcpDiscover then
    let found := discover chaddr (fun i => ticks i) d.lease
    (found.1, found.2.map fun yi => (dhcpOffer, yi))
  else if msgtype = dhcpRequest then
    match wanted with
    | none => (d.lease, none)
    | some o =>
      if ¬ (o.a = d.ip.a ∧ o.b = d.ip.b ∧ o.c = d.ip.c) then (d.lease, none)
      else
        let yi := o.d - dhcpsBaseIp
        if h : yi.toNat < 8 then
          match claimLease chaddr (ticks 0) d.lease ⟨yi.toNat, h⟩ with
          | none => (d.lease, none)
          | some lease => (lease, some (dhcpAck, ⟨yi.toNat, h⟩))
        else (d.lease, none)
  else (d.lease, none)

/-- What is done with a message.
SOURCE: ipstack/dhcpserver.c:200-277 -/
def dhcpDecide (d : DhcpServer) (msg : DhcpMsg) (ticks : ℕ → Word) :
    (Fin 8 → DhcpLease) × Option (Byte × Fin 8) :=
  let opt := msgOpt msg
  match optFind opt dhcpOptMsgType with
  | none => (d.lease, none)
  | some msgtype =>
    dhcpSwitch d (msgMac msg.cell) (opt (msgtype + 2))
      ((optFind opt dhcpOptRequestedIp).map fun o =>
        ⟨opt (o + 2), opt (o + 3), opt (o + 4), opt (o + 5)⟩) ticks

/-- `dhcp_server_process`: the server afterwards, and the datagram it sends.
SOURCE: ipstack/dhcpserver.c:178-289 -/
def dhcpServerProcess (d : DhcpServer) (q : DhcpDatagram) : DhcpServer × Option UdpDatagram :=
  if q.payload.length < dhcpMinSize then (d, none)
  else if min q.payload.length 548 < dhcpMinSize then (d, none)
  else
    let msg := dhcpMessage d q
    let decision := dhcpDecide d msg q.ticks
    ({ d with lease := decision.1 },
      decision.2.bind fun r => dhcpSend q.answers (dhcpReply d r.1 r.2 msg))

/-- `dhcp_server_init`, whatever becomes of the socket.
SOURCE: ipstack/dhcpserver.c:291-301 -/
def dhcpServerInit (ip nm : Ip4) : DhcpServer := ⟨ip, nm, fun _ => ⟨noMac, 0#16⟩⟩

/-- The server under the datagrams that reach it. -/
def dhcpMachine : Machine DhcpServer DhcpDatagram where
  step d q := some (dhcpServerProcess d q).1

end PicoDrone.Model
