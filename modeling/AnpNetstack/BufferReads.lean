import AnpNetstack.TextExtraction
import AnpNetstack.Arp
import AnpNetstack.SocketTable

/-! process_packet and what it calls, with every read of the receive buffer by its index: a read
outside the buffer has no result. What the functions hand to tdev_write is read in the same way.
Frames that are built in buffers of their own, as by arp_request and tcp_tx, do not come in. -/
namespace AnpNetstack.Wire
open Packed

def icmpHdrSize : Int := 4
def icmpV4Reply : UInt8 := 0x00
def icmpV4Echo : UInt8 := 0x08

def icmpRetryCount : Nat := 3

/-- What the functions look at besides the buffer: `cache retries` is the ARP cache when
icmp_reply_handler has that many tries left, `lookup` is get_tcb, `alloc` the outcome of calloc in
icmp_reply. -/
structure Env where
  netdev : NetDev
  routes : List RtEntry
  cache : Nat → List ArpCacheEntry
  lookup : Endpoint → Option Tcb
  alloc : Bool

def doCsumAt (buf : List UInt8) (off : Nat) (count : Int) (startSum : UInt32) : Option UInt16 := do
  let bytes ← load buf off count.toNat
  return doCsum bytes startSum

def doTcpCsumAt (buf : List UInt8) (off : Nat) (length : Int) (protocol : UInt16)
    (saddr daddr : UInt32) :
    Option UInt16 := do
  let bytes ← load buf off length.toNat
  return doTcpCsum bytes length protocol saddr daddr

def ipHdrAt (buf : List UInt8) : Option Iphdr := do
  let m ← load buf ethHdrLen ipHdrLen
  return readIp m

def tcpHdrAt (buf : List UInt8) : Option TcpHdr := do
  let m ← load buf (ethHdrLen + ipHdrLen) tcpHdrLen
  return hostTcp (readTcp m)

def netdevTransmitAt (dev : NetDev) (sub : Subuff) (dstHw : List UInt8) (ethertype : UInt16) :
    Option (List UInt8) :=
  let sub := subPush sub ethHdrLen
  let buf := overwrite sub.data (dstHw.take dev.addrLen.toNat) sub.buf
  let buf := overwrite (sub.data + 6) (dev.hwaddr.take dev.addrLen.toNat) buf
  let buf := overwrite (sub.data + 12) (le16 (htons ethertype)) buf
  load buf sub.data sub.len.toNat

def arpReplyAt (sub : Subuff) (netdev : NetDev) : Option (List UInt8) := do
  let arphdr := readArpHdr (← load sub.buf ethHdrLen arpHdrLen)
  let sub := subReserve sub (ethHdrLen + arpHdrLen + arpDataLen)
  let sub := subPush sub (arpHdrLen + arpDataLen)
  let arpdata := readArpIpv4 (← load sub.buf (ethHdrLen + arpHdrLen) arpDataLen)
  let arpdata := { arpdata with dstMac := arpdata.srcMac, dstIp := arpdata.srcIp }
  let arpdata := { arpdata with
    srcMac := arpdata.srcMac.copyTo 0 (netdev.hwaddr.take 6), srcIp := netdev.addr }
  let arphdr := { arphdr with
    opcode := htons arpReplyOp, hwtype := htons arphdr.hwtype, protype := htons arphdr.protype }
  let arpdata := { arpdata with srcIp := htonl arpdata.srcIp, dstIp := htonl arpdata.dstIp }
  netdevTransmitAt netdev (storeArpIpv4 (storeArpHdr sub arphdr) arpdata)
    arpdata.dstMac.cells ethPArp

def arpRxAt (netdev : NetDev) (sub : Subuff) : Option (List (List UInt8)) := do
  let arphdr := readArpHdr (← load sub.buf ethHdrLen arpHdrLen)
  let arphdr := { arphdr with
    hwtype := ntohs arphdr.hwtype, protype := ntohs arphdr.protype, opcode := ntohs arphdr.opcode }
  let sub := storeArpHdr sub arphdr
  if arphdr.hwtype ≠ arpEthernet then return []
  else if arphdr.protype ≠ arpIpv4 then return []
  else
    let arpdata := readArpIpv4 (← load sub.buf (ethHdrLen + arpHdrLen) arpDataLen)
    let arpdata := { arpdata with srcIp := ntohl arpdata.srcIp, dstIp := ntohl arpdata.dstIp }
    let sub := storeArpIpv4 sub arpdata
    if arphdr.opcode = arpRequestOp ∧ netdev.addr = arpdata.dstIp then
      return [← arpReplyAt sub netdev]
    else return []

def ipSendCheckAt (sub : Subuff) : Option Subuff := do
  let ih ← ipHdrAt sub.buf
  let csum ← doCsumAt sub.buf ethHdrLen (ih.ihl.val * 4) 0
  return storeIp sub { ih with csum := csum }

def dstNeighOutputAt (cache : List ArpCacheEntry) (rt : RtEntry) (sub : Subuff) :
    Option Output := do
  let ih ← ipHdrAt sub.buf
  let dstAddr := if rt.flags &&& rtGateway != 0 then rt.gateway else ntohl ih.daddr
  match arpGetHwaddr cache dstAddr with
  | some mac =>
    let frame ← netdevTransmitAt rt.dev sub mac ethPIp
    return .written frame
  | none => return .again (ntohl ih.saddr) dstAddr

def ipOutputAt (routes : List RtEntry) (cache : List ArpCacheEntry) (dstIpAddr : UInt32)
    (sub : Subuff) :
    Option (Output × Subuff) :=
  match routeLookup dstIpAddr routes with
  | none => some (.noRoute, sub)
  | some rt => do
    let sub := subPush sub ipHdrLen
    let old ← ipHdrAt sub.buf
    let ih :=
      { txIphdr rt.dev dstIpAddr sub.len.toUInt16 sub.protocol.toUInt8 with id := htons old.id }
    let sub ← ipSendCheckAt (storeIp sub ih)
    let out ← dstNeighOutputAt cache rt sub
    return (out, sub)

def Output.frames : Output → List (List UInt8)
  | .written frame => [frame]
  | _ => []

def icmpReplyTryAt (env : Env) (destAddr : UInt32) (icmpLen : UInt16) (retries : Nat)
    (sub : Subuff) :
    Option (Output × Subuff) :=
  ipOutputAt env.routes (env.cache retries) destAddr
    { sub with len := icmpLen.toUInt32, data := ethHdrLen + ipHdrLen }

def icmpReplyHandlerAt (env : Env) (destAddr : UInt32) (icmpLen : UInt16) :
    Nat → Subuff → Option (List (List UInt8))
  | 0, sub => do
    let (status, _) ← icmpReplyTryAt env destAddr icmpLen 0 sub
    return status.frames
  | retries + 1, sub => do
    let (status, sub) ← icmpReplyTryAt env destAddr icmpLen (retries + 1) sub
    match status with
    | .again _ _ => icmpReplyHandlerAt env destAddr icmpLen retries sub
    | status => return status.frames

/-- icmp_len is a uint16_t. -/
def icmpReplyAt (env : Env) (ip : IpHdr) (sub : Subuff) : Option (List (List UInt8)) := do
  let icmpLen := UInt16.ofInt (ipPayloadLen ip)
  let sub := subPush (subReserve sub (ethHdrLen + ipHdrLen + icmpLen.toNat)) icmpLen.toNat
  let buf := overwrite sub.data [icmpV4Reply, 0, 0, 0] sub.buf
  let csum ← doCsumAt buf sub.data icmpLen.toNat 0
  let sub := { sub with
    buf := overwrite (sub.data + 2) (le16 csum) buf
    protocol := ippNumIcmp.toUInt16
    len := icmpLen.toUInt32 }
  if env.alloc then icmpReplyHandlerAt env ip.saddr icmpLen icmpRetryCount sub else return []

/-- icmp_rx: the checksum goes over as many bytes as the whole IP packet has. -/
def icmpRxAt (env : Env) (ip : IpHdr) (sub : Subuff) : Option (List (List UInt8)) :=
  if ipPayloadLen ip < icmpHdrSize then some []
  else do
    let csum ← doCsumAt sub.buf (ethHdrLen + ipHdrLen) ip.len.toNat 0
    if csum ≠ 0 then return []
    else
      let type ← sub.buf[ethHdrLen + ipHdrLen]?
      if type = icmpV4Echo then icmpReplyAt env ip sub else return []

def reachesText (tcb : Tcb) (h : TcpHdr) : Bool :=
  hasFlag h.flags tcpAck &&
    match tcb.state with
    | .synReceived => ackAdvances tcb h
    | .established => true
    | .finWait1 => true
    | _ => false

def saveDataAndAckAt (tcb : Tcb) (buf : List UInt8) (dlen : UInt32) : Option (List UInt8) :=
  load buf (ethHdrLen + ipHdrLen + tcpHdrLen) (finalCopySize tcb dlen).toNat

def segmentTextAt (tcb : Tcb) (pkt : Packet) (buf : List UInt8) : Option (List UInt8) :=
  if reachesText tcb pkt.tcp.hdr = true ∧ segmentLen pkt ≠ 0 ∧ pkt.tcp.hdr.seqNum = tcb.rcvNxt then
    saveDataAndAckAt tcb buf (segmentLen pkt)
  else some []

def tcpRxAt (env : Env) (ip : IpHdr) (buf : List UInt8) : Option (List (List UInt8)) :=
  if ipPayloadLen ip % 2 ^ 64 < 20 then some []
  else do
    let csum ← doTcpCsumAt buf (ethHdrLen + ipHdrLen) (ipPayloadLen ip)
        (ntohs (ip.proto.toUInt16 <<< 8))
      (ntohl ip.saddr) (ntohl ip.daddr)
    if csum ≠ 0 then return []
    else
      let h ← tcpHdrAt buf
      let pkt : Packet := { ip := ip, tcp := { hdr := h, data := [] } }
      match env.lookup pkt.endpoint with
      | none => return []
      | some tcb =>
        let _ ← segmentTextAt tcb pkt buf
        return []

def ipRxAt (env : Env) (buf : List UInt8) : Option (List (List UInt8)) := do
  let ih ← ipHdrAt buf
  if ih.version ≠ ippNumIpInIp then return []
  else if ih.ihl.val < 5 then return []
  else if ih.ttl = 0 then return []
  else
    let csum ← doCsumAt buf ethHdrLen (ih.ihl.val * 4) 0
    if csum ≠ 0 then return []
    else
      let ih := hostIp ih
      let buf := overwrite ethHdrLen (ipMem ih) buf
      let ip := (tcpPacket ih buf).ip
      if ih.proto = ippNumIcmp then icmpRxAt env ip { allocSub anpMtu15MaxSize with buf := buf }
      else if ih.proto = ippTcp then tcpRxAt env ip buf
      else return []

def processPacketAt (env : Env) (buf : List UInt8) : Option (List (List UInt8)) := do
  let ethertype := ntohs (read16 (← load buf 12 2))
  let buf := overwrite 12 (le16 ethertype) buf
  if ethertype = ethPArp then arpRxAt env.netdev { allocSub anpMtu15MaxSize with buf := buf }
  else if ethertype = ethPIp then ipRxAt env buf
  else return []

end AnpNetstack.Wire
