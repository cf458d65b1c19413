import AnpNetstack.Packed
import AnpNetstack.Route
import AnpNetstack.TcpQueue

/-! The way of a segment through the bytes of a subuff. create_tcp_packet, ip_output,
dst_neigh_output and netdev_transmit push one header in front of the other; eth_hdr,
process_packet, ip_rx and tcp_rx swap the fields of the received bytes in place. Headers are
given with their fields as the little-endian host loads them from memory. -/
namespace AnpNetstack.Wire
open Packed FixedBuffer

def ethHdrLen : Nat := 14
def ipHdrLen : Nat := 20
def tcpHdrLen : Nat := 20
def anpMtu15MaxSize : Nat := 1522
def ethPIp : UInt16 := 0x0800
def ethPArp : UInt16 := 0x0806
def ippNumIcmp : UInt8 := 0x01
def ippNumIpInIp : Fin 16 := 0x04

structure Subuff where
  buf : List UInt8
  data : Nat
  len : UInt32
  protocol : UInt16
  dlen : UInt32

def allocSub (size : Nat) : Subuff where
  buf := List.replicate size 0
  data := 0
  len := 0
  protocol := 0
  dlen := 0

def subReserve (sub : Subuff) (n : Nat) : Subuff := { sub with data := sub.data + n }

def subPush (sub : Subuff) (n : Nat) : Subuff :=
  { sub with data := sub.data - n, len := sub.len + UInt32.ofNat n }

def tcpMem (h : TcpHdr) : List UInt8 :=
  le16 h.srcPort ++ le16 h.dstPort ++ le32 h.seqNum ++ le32 h.ackNum ++ [h.dataOffset, h.flags] ++
    le16 h.windowSize ++ le16 h.checksum ++ le16 h.urgentPtr

def readTcp (m : List UInt8) : TcpHdr where
  srcPort := read16 m
  dstPort := read16 (m.drop 2)
  seqNum := read32 (m.drop 4)
  ackNum := read32 (m.drop 8)
  dataOffset := read8 (m.drop 12)
  flags := read8 (m.drop 13)
  windowSize := read16 (m.drop 14)
  checksum := read16 (m.drop 16)
  urgentPtr := read16 (m.drop 18)

/-- struct iphdr. The bit field that is declared first takes the low half of its byte. -/
structure Iphdr where
  ihl : Fin 16
  version : Fin 16
  tos : UInt8
  len : UInt16
  id : UInt16
  fragOffset : UInt16
  ttl : UInt8
  proto : UInt8
  csum : UInt16
  saddr : UInt32
  daddr : UInt32

def ipMem (ih : Iphdr) : List UInt8 :=
  [UInt8.ofNat (ih.version.val * 16 + ih.ihl.val), ih.tos] ++ le16 ih.len ++ le16 ih.id ++
    le16 ih.fragOffset ++ [ih.ttl, ih.proto] ++ le16 ih.csum ++ le32 ih.saddr ++ le32 ih.daddr

def readIp (m : List UInt8) : Iphdr where
  ihl := ⟨(read8 m).toNat % 16, Nat.mod_lt _ (by decide)⟩
  version := ⟨(read8 m).toNat / 16, Nat.div_lt_of_lt_mul (read8 m).toNat_lt⟩
  tos := read8 (m.drop 1)
  len := read16 (m.drop 2)
  id := read16 (m.drop 4)
  fragOffset := read16 (m.drop 6)
  ttl := read8 (m.drop 8)
  proto := read8 (m.drop 9)
  csum := read16 (m.drop 10)
  saddr := read32 (m.drop 12)
  daddr := read32 (m.drop 16)

def storeTcp (sub : Subuff) (h : TcpHdr) : Subuff :=
  { sub with buf := overwrite sub.data (tcpMem h) sub.buf }

/-- IP_HDR_FROM_SUB counts from head, wherever `data` points. -/
def storeIp (sub : Subuff) (ih : Iphdr) : Subuff :=
  { sub with buf := overwrite ethHdrLen (ipMem ih) sub.buf }

def createTcpPacket (tcb : Tcb) (data : List UInt8) (dataLen : UInt32) (flags : UInt8) :
    Subuff × Tcb :=
  let size := ethHdrLen + ipHdrLen + tcpHdrLen + dataLen.toNat
  let sub := subPush (subReserve (allocSub size) size) (tcpHdrLen + dataLen.toNat)
  let sub := { sub with protocol := ippTcp.toUInt16, len := 20 + dataLen, dlen := dataLen }
  let h : TcpHdr :=
    { readTcp (sub.buf.drop sub.data) with
      srcPort := htons tcb.localPort, dstPort := htons tcb.remotePort
      seqNum := tcb.sndNxt, ackNum := tcb.rcvNxt
      dataOffset := tcpMinDataOffset, flags := flags
      windowSize := htons 65535, urgentPtr := 0 }
  let tcb' :=
    if hasFlag flags tcpSyn || hasFlag flags tcpFin then { tcb with
      sndNxt := tcb.sndNxt + 1 } else tcb
  let h := { h with
    seqNum := htonl h.seqNum, ackNum := htonl h.ackNum, windowSize := htons h.windowSize
    checksum := 0 }
  let sub := storeTcp sub h
  let sub := { sub with
    buf := overwrite (sub.data + tcpHdrLen) (data.take dataLen.toNat) sub.buf }
  let csum := doTcpCsum (sub.buf.drop sub.data) (20 + dataLen.toNat) (htons ippTcp.toUInt16)
    (htonl tcb.localIp) (htonl tcb.remoteIp)
  (storeTcp sub { h with checksum := csum }, tcb')

inductive ArpState where
  | free | waiting | resolved
  deriving DecidableEq, Repr

structure ArpCacheEntry where
  state : ArpState
  srcIp : UInt32
  srcMac : Buffer UInt8 6

def arpGetHwaddr : List ArpCacheEntry → UInt32 → Option (List UInt8)
  | [], _ => none
  | entry :: cache, lookupIp =>
    if entry.state = .resolved ∧ entry.srcIp = lookupIp then some entry.srcMac.cells
    else arpGetHwaddr cache lookupIp

def netdevTransmit (dev : NetDev) (sub : Subuff) (dstHw : List UInt8) (ethertype : UInt16) :
    List UInt8 :=
  let sub := subPush sub ethHdrLen
  let buf := overwrite sub.data (dstHw.take dev.addrLen.toNat) sub.buf
  let buf := overwrite (sub.data + 6) (dev.hwaddr.take dev.addrLen.toNat) buf
  let buf := overwrite (sub.data + 12) (le16 (htons ethertype)) buf
  (buf.drop sub.data).take sub.len.toNat

/-- netdev_transmit puts the Ethernet header in front of what stands there. -/
theorem netdevTransmit_eq {dev : NetDev} {sub : Subuff} {mac eth body p : List UInt8}
    {ethertype : UInt16} (hbuf : sub.buf = eth ++ (body ++ p)) (heth : eth.length = 14)
    (hdata : sub.data = 14) (hlen : sub.len.toNat = body.length) (hmax : body.length + 14 < 2 ^ 32)
    (haddr : dev.addrLen = 6) (hhw : dev.hwaddr.length = 6) (hmac : mac.length = 6) :
    netdevTransmit dev sub mac ethertype =
      mac ++ (dev.hwaddr ++ (le16 (htons ethertype) ++ body)) := by
  have hsix : dev.addrLen.toNat = 6 := by rw [haddr]; rfl
  have hm : mac.take 6 = mac := List.take_of_length_le (by omega)
  have hw : dev.hwaddr.take 6 = dev.hwaddr := List.take_of_length_le (by omega)
  -- the header that stood there: two addresses and the ethertype
  obtain ⟨d, m, t, rfl, hd6, hm6, ht2⟩ : ∃ d m t : List UInt8, eth = d ++ (m ++ t) ∧ d.length = 6 ∧
      m.length = 6 ∧ t.length = 2 :=
    ⟨eth.take 6, (eth.drop 6).take 6, (eth.drop 6).drop 6,
      by rw [List.take_append_drop, List.take_append_drop], by simp [heth], by simp [heth],
      by simp [heth]⟩
  have hfirst : overwrite 0 mac sub.buf = mac ++ (m ++ (t ++ (body ++ p))) := by
    rw [hbuf]
    simpa using overwrite_middle (a := []) (b := m ++ (t ++ (body ++ p))) rfl (hmac.trans hd6.symm)
  have hsecond : overwrite 6 dev.hwaddr (mac ++ (m ++ (t ++ (body ++ p)))) =
      mac ++ (dev.hwaddr ++ (t ++ (body ++ p))) :=
    overwrite_middle hmac (hhw.trans hm6.symm)
  have hthird : overwrite 12 (le16 (htons ethertype)) (mac ++ (dev.hwaddr ++ (t ++ (body ++ p)))) =
      mac ++ (dev.hwaddr ++ (le16 (htons ethertype) ++ (body ++ p))) := by
    have h12 : (mac ++ dev.hwaddr).length = 12 := by simp [hmac, hhw]
    have h2 : (le16 (htons ethertype)).length = t.length := by simp [le16, ht2]
    have h := overwrite_middle (b := body ++ p) h12 h2
    rw [List.append_assoc, List.append_assoc] at h
    exact h
  have htotal : (sub.len + UInt32.ofNat ethHdrLen).toNat = 14 + body.length := by
    have h14 : (UInt32.ofNat ethHdrLen).toNat = 14 := rfl
    rw [UInt32.toNat_add, hlen, h14]
    omega
  have hsplit : mac ++ (dev.hwaddr ++ (le16 (htons ethertype) ++ (body ++ p))) =
      mac ++ (dev.hwaddr ++ (le16 (htons ethertype) ++ body)) ++ p := by simp
  simp only [netdevTransmit, subPush, hdata, hsix, hm, hw, ethHdrLen, Nat.sub_self,
    Nat.zero_add, hfirst, hsecond, hthird, List.drop_zero]
  simp only [ethHdrLen] at htotal
  rw [htotal, hsplit]
  refine List.take_left' ?_
  simp [hmac, hhw, le16]
  omega

/-- What ip_output comes to; `again` is -EAGAIN, with the addresses of the ARP request. -/
inductive Output where
  | noRoute
  | again (src dst : UInt32)
  | written (frame : List UInt8)
  deriving DecidableEq, Repr

def dstNeighOutput (cache : List ArpCacheEntry) (rt : RtEntry) (sub : Subuff) : Output :=
  let ih := readIp (sub.buf.drop ethHdrLen)
  let dstAddr := if rt.flags &&& rtGateway != 0 then rt.gateway else ntohl ih.daddr
  match arpGetHwaddr cache dstAddr with
  | some mac => .written (netdevTransmit rt.dev sub mac ethPIp)
  | none => .again (ntohl ih.saddr) dstAddr

def ipSendCheck (sub : Subuff) : Subuff :=
  let ih := readIp (sub.buf.drop ethHdrLen)
  storeIp sub { ih with csum := doCsum ((sub.buf.drop ethHdrLen).take (ih.ihl.val * 4)) 0 }

def ipOutput (routes : List RtEntry) (cache : List ArpCacheEntry) (dstIpAddr : UInt32)
    (sub : Subuff) :
    Output :=
  match routeLookup dstIpAddr routes with
  | none => .noRoute
  | some rt =>
    let sub := subPush sub ipHdrLen
    let old := readIp (sub.buf.drop ethHdrLen)
    let ih : Iphdr :=
      { version := ippNumIpInIp, ihl := 0x05, tos := 0, len := sub.len.toUInt16, id := old.id
        fragOffset := 0x4000, ttl := 64, proto := sub.protocol.toUInt8
        saddr := rt.dev.addr, daddr := dstIpAddr, csum := 0 }
    let ih := { ih with
      len := htons ih.len, id := htons ih.id, daddr := htonl ih.daddr, saddr := htonl ih.saddr
      csum := htons ih.csum, fragOffset := htons ih.fragOffset }
    dstNeighOutput cache rt (ipSendCheck (storeIp sub ih))

def nextHop (rt : RtEntry) (dstIpAddr : UInt32) : UInt32 :=
  if rt.flags &&& rtGateway != 0 then rt.gateway else dstIpAddr

def txIphdr (dev : NetDev) (dstIpAddr : UInt32) (len : UInt16) (proto : UInt8) : Iphdr where
  version := ippNumIpInIp
  ihl := 0x05
  tos := 0
  len := htons len
  id := htons 0
  fragOffset := htons 0x4000
  ttl := 64
  proto := proto
  csum := htons 0
  saddr := htonl dev.addr
  daddr := htonl dstIpAddr

def sentIphdr (dev : NetDev) (dstIpAddr : UInt32) (len : UInt16) (proto : UInt8) : Iphdr :=
  { txIphdr dev dstIpAddr len proto with
    csum := doCsum (ipMem (txIphdr dev dstIpAddr len proto)) 0 }

inductive IpDrop where
  | notIp | shortHeader | ttl | checksum | unknownProto
  deriving DecidableEq, Repr

inductive Received where
  | arp
  | unsupported (ethertype : UInt16)
  | dropped (why : IpDrop)
  | icmp
  | tcp (pkt : Packet)
  deriving DecidableEq, Repr

/-- The header in host order. tcp_rx leaves the checksum and urgent_ptr as they are and does not
look at them again. -/
def hostTcp (h : TcpHdr) : TcpHdr where
  srcPort := ntohs h.srcPort
  dstPort := ntohs h.dstPort
  seqNum := ntohl h.seqNum
  ackNum := ntohl h.ackNum
  dataOffset := h.dataOffset
  flags := h.flags
  windowSize := ntohs h.windowSize
  checksum := ntohs h.checksum
  urgentPtr := ntohs h.urgentPtr

def tcpPacket (ih : Iphdr) (buf : List UInt8) : Packet where
  ip := { ihl := UInt8.ofNat ih.ihl.val, len := ih.len, proto := ih.proto,
          saddr := ih.saddr, daddr := ih.daddr }
  tcp := { hdr := hostTcp (readTcp (buf.drop (ethHdrLen + ipHdrLen)))
           data := buf.drop (ethHdrLen + ipHdrLen + tcpHdrLen) }

structure Decoded where
  saddr : UInt32
  daddr : UInt32
  hdr : TcpHdr
  segmentLen : UInt32
  text : List UInt8

/-- The beginning of tcp_rx, its checksum test left out. ip_rx has swapped daddr already; tcp_rx
swaps it again, into the order in which connect keeps local_ip. -/
def tcpRxDecode (pkt : Packet) : Option Decoded :=
  if tooShort pkt then none
  else some
    { saddr := pkt.ip.saddr
      daddr := ntohl pkt.ip.daddr
      hdr := pkt.tcp.hdr
      segmentLen := segmentLen pkt
      text := pkt.tcp.data.take (segmentLen pkt).toNat }

def ipRx (buf : List UInt8) : Received :=
  let ih := readIp (buf.drop ethHdrLen)
  if ih.version ≠ ippNumIpInIp then .dropped .notIp
  else if ih.ihl < 5 then .dropped .shortHeader
  else if ih.ttl = 0 then .dropped .ttl
  else if doCsum ((buf.drop ethHdrLen).take (ih.ihl.val * 4)) 0 ≠ 0 then .dropped .checksum
  else
    let ih := { ih with
      saddr := ntohl ih.saddr, daddr := ntohl ih.daddr, len := ntohs ih.len, id := ntohs ih.id }
    let buf := overwrite ethHdrLen (ipMem ih) buf
    if ih.proto = ippNumIcmp then .icmp
    else if ih.proto = ippTcp then .tcp (tcpPacket ih buf)
    else .dropped .unknownProto

/-- eth_hdr swaps the ethertype where it stands. -/
def ethHdr (buf : List UInt8) : UInt16 × List UInt8 :=
  let ethertype := ntohs (read16 (buf.drop 12))
  (ethertype, overwrite 12 (le16 ethertype) buf)

theorem ethHdr_frame {macs : List UInt8} (h : macs.length = 12) (ethertype : UInt16)
    (rest : List UInt8) :
    ethHdr (macs ++ (le16 (htons ethertype) ++ rest)) =
      (ethertype, macs ++ (le16 ethertype ++ rest)) := by
  have hread : read16 ((macs ++ (le16 (htons ethertype) ++ rest)).drop 12) = htons ethertype := by
    rw [drop_middle h]
    exact read16_le16 (htons ethertype) rest
  have hstore : overwrite 12 (le16 ethertype) (macs ++ (le16 (htons ethertype) ++ rest)) =
      macs ++ (le16 ethertype ++ rest) := overwrite_middle h rfl
  simp only [ethHdr, hread, ntohs_htons, hstore]

def processPacket (buf : List UInt8) : Received :=
  let (ethertype, buf) := ethHdr buf
  if ethertype = ethPArp then .arp
  else if ethertype = ethPIp then ipRx buf
  else .unsupported ethertype

/-- One round of netdev_rx_loop: tdev_read gives at most the size of the buffer. -/
def netdevRx (frame : List UInt8) : Received :=
  let sub := allocSub anpMtu15MaxSize
  processPacket (overwrite sub.data (frame.take anpMtu15MaxSize) sub.buf)

/-- What arrives is the frame, and zeros up to the end of the buffer. -/
theorem read_frame {frame : List UInt8} (h : frame.length ≤ anpMtu15MaxSize) :
    overwrite (allocSub anpMtu15MaxSize).data (frame.take anpMtu15MaxSize)
      (allocSub anpMtu15MaxSize).buf =
      frame ++ List.replicate (anpMtu15MaxSize - frame.length) 0 := by
  rw [List.take_of_length_le h]
  simp [allocSub, overwrite]

end AnpNetstack.Wire
