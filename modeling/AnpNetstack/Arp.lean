import AnpNetstack.Wire
import AnpNetstack.Runs

/-! arp.c on the bytes of its frames: arp_request, arp_rx with process_arp_entry, and arp_reply,
which turns the request it has received into the reply where it stands. -/
namespace AnpNetstack.Wire
open Packed FixedBuffer Runs

def arpHdrLen : Nat := 8
def arpDataLen : Nat := 20
def arpEthernet : UInt16 := 0x0001
def arpIpv4 : UInt16 := 0x0800
def arpRequestOp : UInt16 := 0x0001
def arpReplyOp : UInt16 := 0x0002
def broadcastHw : List UInt8 := [0xff, 0xff, 0xff, 0xff, 0xff, 0xff]

def netdevAlloc (addr : UInt32) (hwaddr : Buffer UInt8 6) (mtu : UInt32) : NetDev where
  addr := addr
  addrLen := 6
  hwaddr := hwaddr.cells
  mtu := mtu

structure ArpHdr where
  hwtype : UInt16
  protype : UInt16
  hwsize : UInt8
  prosize : UInt8
  opcode : UInt16

structure ArpIpv4 where
  srcMac : Buffer UInt8 6
  srcIp : UInt32
  dstMac : Buffer UInt8 6
  dstIp : UInt32

def arpHdrMem (h : ArpHdr) : List UInt8 :=
  le16 h.hwtype ++ le16 h.protype ++ [h.hwsize, h.prosize] ++ le16 h.opcode

def readArpHdr (m : List UInt8) : ArpHdr where
  hwtype := read16 m
  protype := read16 (m.drop 2)
  hwsize := read8 (m.drop 4)
  prosize := read8 (m.drop 5)
  opcode := read16 (m.drop 6)

def arpIpv4Mem (d : ArpIpv4) : List UInt8 :=
  d.srcMac.cells ++ (le32 d.srcIp ++ (d.dstMac.cells ++ le32 d.dstIp))

def readMac (m : List UInt8) : Buffer UInt8 6 := (fill 6 0).copyTo 0 (m.take 6)

def readArpIpv4 (m : List UInt8) : ArpIpv4 where
  srcMac := readMac m
  srcIp := read32 (m.drop 6)
  dstMac := readMac (m.drop 10)
  dstIp := read32 (m.drop 16)

def storeArpHdr (sub : Subuff) (h : ArpHdr) : Subuff :=
  { sub with buf := overwrite ethHdrLen (arpHdrMem h) sub.buf }

def storeArpIpv4 (sub : Subuff) (d : ArpIpv4) : Subuff :=
  { sub with buf := overwrite (ethHdrLen + arpHdrLen) (arpIpv4Mem d) sub.buf }

def allocArpSub : Subuff :=
  { subReserve (allocSub (ethHdrLen + arpHdrLen + arpDataLen)) (ethHdrLen + arpHdrLen +
    arpDataLen) with
    protocol := htons ethPArp }

def arpRequest (srcIp dstIp : UInt32) (netdev : NetDev) : List UInt8 :=
  let n := netdev.addrLen.toNat
  let sub := subPush allocArpSub arpDataLen
  let payload := readArpIpv4 (sub.buf.drop sub.data)
  let payload := { payload with
    dstMac := payload.dstMac.copyTo 0 (broadcastHw.take n)
    dstIp := dstIp
    srcMac := payload.srcMac.copyTo 0 (netdev.hwaddr.take n)
    srcIp := srcIp }
  let sub := subPush sub arpHdrLen
  let arp : ArpHdr :=
    { opcode := htons arpRequestOp, hwtype := htons arpEthernet, protype := htons ethPIp
      hwsize := netdev.addrLen, prosize := 4 }
  let payload := { payload with srcIp := htonl payload.srcIp, dstIp := htonl payload.dstIp }
  netdevTransmit netdev (storeArpIpv4 (storeArpHdr sub arp) payload) broadcastHw ethPArp

/-- The first entry with the address gets the new hardware address, whatever its state; without
one a new entry is added. -/
def processArpEntry (data : ArpIpv4) : List ArpCacheEntry → List ArpCacheEntry
  | [] => [{ state := .resolved, srcIp := data.srcIp, srcMac := data.srcMac }]
  | entry :: cache =>
    if entry.srcIp = data.srcIp then { entry with srcMac := data.srcMac } :: cache
    else entry :: processArpEntry data cache

def arpReply (sub : Subuff) (netdev : NetDev) : List UInt8 :=
  let arphdr := readArpHdr (sub.buf.drop ethHdrLen)
  let sub := subReserve sub (ethHdrLen + arpHdrLen + arpDataLen)
  let sub := subPush sub (arpHdrLen + arpDataLen)
  let arpdata := readArpIpv4 (sub.buf.drop (ethHdrLen + arpHdrLen))
  let arpdata := { arpdata with dstMac := arpdata.srcMac, dstIp := arpdata.srcIp }
  let arpdata := { arpdata with
    srcMac := arpdata.srcMac.copyTo 0 (netdev.hwaddr.take 6), srcIp := netdev.addr }
  let arphdr := { arphdr with opcode := arpReplyOp }
  let arphdr := { arphdr with
    opcode := htons arphdr.opcode, hwtype := htons arphdr.hwtype, protype := htons arphdr.protype }
  let arpdata := { arpdata with srcIp := htonl arpdata.srcIp, dstIp := htonl arpdata.dstIp }
  netdevTransmit netdev (storeArpIpv4 (storeArpHdr sub arphdr) arpdata) arpdata.dstMac.cells ethPArp

/-- arp_rx on a stack with the one device that netdev_get knows: the cache it leaves and the
frames it has written. -/
def arpRx (netdev : NetDev) (cache : List ArpCacheEntry) (sub : Subuff) :
    List ArpCacheEntry × List (List UInt8) :=
  let arphdr := readArpHdr (sub.buf.drop ethHdrLen)
  let arphdr := { arphdr with
    hwtype := ntohs arphdr.hwtype, protype := ntohs arphdr.protype, opcode := ntohs arphdr.opcode }
  let sub := storeArpHdr sub arphdr
  if arphdr.hwtype ≠ arpEthernet then (cache, [])
  else if arphdr.protype ≠ arpIpv4 then (cache, [])
  else
    let arpdata := readArpIpv4 (sub.buf.drop (ethHdrLen + arpHdrLen))
    let arpdata := { arpdata with srcIp := ntohl arpdata.srcIp, dstIp := ntohl arpdata.dstIp }
    let sub := storeArpIpv4 sub arpdata
    let cache := processArpEntry arpdata cache
    if arphdr.opcode = arpRequestOp then
      if netdev.addr = arpdata.dstIp then (cache, [arpReply sub netdev]) else (cache, [])
    else (cache, [])

/-- A frame given to process_packet, as far as ARP goes: other frames leave the cache alone. -/
def arpInput (netdev : NetDev) (cache : List ArpCacheEntry) (frame : List UInt8) :
    List ArpCacheEntry × List (List UInt8) :=
  let sub := allocSub anpMtu15MaxSize
  let (ethertype, buf) := ethHdr (overwrite sub.data (frame.take anpMtu15MaxSize) sub.buf)
  if ethertype = ethPArp then arpRx netdev cache { sub with buf := buf } else (cache, [])

def cacheAfter (netdev : NetDev) (frames : List (List UInt8)) : List ArpCacheEntry :=
  run (fun cache frame => (arpInput netdev cache frame).1) [] frames

end AnpNetstack.Wire
