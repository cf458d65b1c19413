import AnpNetstack.Checksum
import AnpNetstack.FixedBuffer

/-! tcp.h, ip.h and the data tcp.c works on. Header fields hold the values a
reader sees after ntohs/ntohl; `bytes` gives them back in network order. -/
namespace AnpNetstack
open FixedBuffer

inductive TcpState where
  | listen | synSent | synReceived | established | finWait1 | finWait2
  | closed | closeWait | closing | lastAck | timeWait
  deriving DecidableEq, Repr

def tcpFin : UInt8 := 0x01
def tcpSyn : UInt8 := 0x02
def tcpAck : UInt8 := 0x10
def tcpFinAck : UInt8 := 0x11
def tcpSynAck : UInt8 := 0x12

def hasFlag (flags bit : UInt8) : Bool := flags &&& bit != 0

def retriesInfinite : Int := -1
def retriesConnMax : Int := 10
def retriesSendonce : Int := -2

def tcpMaxSegSize : UInt32 := 1460
def tcpRcvMax : UInt32 := 65535
def tcpMinDataOffset : UInt8 := 0b01010000
def ippTcp : UInt8 := 0x06

structure TcpHdr where
  srcPort : UInt16
  dstPort : UInt16
  seqNum : UInt32
  ackNum : UInt32
  dataOffset : UInt8
  flags : UInt8
  windowSize : UInt16
  checksum : UInt16
  urgentPtr : UInt16
  deriving DecidableEq, Repr

def be16 (x : UInt16) : List UInt8 := [(x >>> 8).toUInt8, x.toUInt8]
def be32 (x : UInt32) : List UInt8 :=
  [(x >>> 24).toUInt8, (x >>> 16).toUInt8, (x >>> 8).toUInt8, x.toUInt8]

def TcpHdr.bytes (h : TcpHdr) : List UInt8 :=
  be16 h.srcPort ++ be16 h.dstPort ++ be32 h.seqNum ++ be32 h.ackNum ++
    [h.dataOffset, h.flags] ++ be16 h.windowSize ++ be16 h.checksum ++ be16 h.urgentPtr

structure TcpSegment where
  hdr : TcpHdr
  data : List UInt8
  deriving DecidableEq, Repr

/-- The fields of struct iphdr that tcp_rx reads, in host order as ip_rx leaves them. -/
structure IpHdr where
  ihl : UInt8
  len : UInt16
  proto : UInt8
  saddr : UInt32
  daddr : UInt32
  deriving DecidableEq, Repr

/-- What tcp_rx is given: the TCP header it reads stands 20 bytes into the IP packet. -/
structure Packet where
  ip : IpHdr
  tcp : TcpSegment
  deriving DecidableEq, Repr

structure Tcb where
  state : TcpState
  localPort : UInt16
  remotePort : UInt16
  localIp : UInt32
  remoteIp : UInt32
  rcvNxt : UInt32
  irs : UInt32
  rcvBuffLen : UInt32
  rcvBuff : Buffer UInt8 tcpRcvMax.toNat
  sndUna : UInt32
  sndNxt : UInt32
  sndWnd : UInt32
  iss : UInt32

/-- struct tcp_message. `tcb` is the address of the connection block, `tcpPtr` what
the stored pointer shows: the packet that was queued, also after `sub` was replaced. -/
structure TcpMessage where
  tcb : Nat
  sub : TcpSegment
  tcpPtr : TcpSegment
  tcpLen : UInt32
  tcpDataLen : UInt32
  retries : UInt32
  deriving DecidableEq, Repr

def ipPayloadLen (ip : IpHdr) : Int := ip.len.toNat - ip.ihl.toNat * 4

/-- The comparison with sizeof(struct tcp_hdr) is made in size_t. -/
def tooShort (pkt : Packet) : Bool := decide (ipPayloadLen pkt.ip % 2 ^ 64 < 20)

def csumValid (pkt : Packet) : Bool :=
  doTcpCsum (pkt.tcp.hdr.bytes ++ pkt.tcp.data) (ipPayloadLen pkt.ip)
    (ntohs (pkt.ip.proto.toUInt16 <<< 8)) (ntohl pkt.ip.saddr) (ntohl pkt.ip.daddr) == 0

def segmentLen (pkt : Packet) : UInt32 :=
  UInt32.ofInt (ipPayloadLen pkt.ip - (pkt.tcp.hdr.dataOffset >>> 4).toNat * 4)

/-- The comparison get_tcb makes for one block; tcp_rx swaps daddr before the call. -/
def getTcbMatch (tcb : Tcb) (pkt : Packet) : Bool :=
  tcb.localPort == pkt.tcp.hdr.dstPort && tcb.localIp == ntohl pkt.ip.daddr &&
    tcb.remotePort == pkt.tcp.hdr.srcPort && tcb.remoteIp == pkt.ip.saddr

def accepted (tcb : Tcb) (pkt : Packet) : Bool :=
  !tooShort pkt && csumValid pkt && getTcbMatch tcb pkt

/-- A packet as the peer of a block sends it: no options, the checksum filled in. -/
def peerPacket (tcb : Tcb) (seq ack : UInt32) (flags : UInt8) (window : UInt16)
    (text : List UInt8) : Packet :=
  let ip : IpHdr :=
    { ihl := 5, len := UInt16.ofNat (40 + text.length), proto := ippTcp,
      saddr := tcb.remoteIp, daddr := ntohl tcb.localIp }
  let hdr : TcpHdr :=
    { srcPort := tcb.remotePort, dstPort := tcb.localPort, seqNum := seq, ackNum := ack,
      dataOffset := tcpMinDataOffset, flags := flags, windowSize := window,
      checksum := 0, urgentPtr := 0 }
  let csum := doTcpCsum (hdr.bytes ++ text) (ipPayloadLen ip)
    (ntohs (ip.proto.toUInt16 <<< 8)) (ntohl ip.saddr) (ntohl ip.daddr)
  { ip := ip, tcp := { hdr := { hdr with checksum := htons csum }, data := text } }

end AnpNetstack
