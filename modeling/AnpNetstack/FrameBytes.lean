import AnpNetstack.InsideBuffer
import AnpNetstack.Peers
import AnpNetstack.QueueBytes

/-! What a frame of the retransmission queue is to the stack that reads it. In front of the segment
of an entry stands the IP header of the last attempt, or nothing yet: a packet that stop_retransmit
has rebuilt before it ever went out leaves without its header, and ip_rx drops it. -/
namespace AnpNetstack.Wire
open Packed

section Routes

def routeInitFor (ext : NetDev) (gateway : UInt32) : List RtEntry :=
  [{ dst := cdevLo.addr, gateway := 0, netmask := 0xff000000, flags := rtLoopback, dev := cdevLo },
    { dst := ext.addr, gateway := 0, netmask := 0xffffff00, flags := rtHost, dev := ext },
    { dst := 0, gateway := gateway, netmask := 0, flags := rtGateway, dev := ext }]

theorem routeInit_for : routeInit = routeInitFor cdevExt 0x0a000005 := rfl

def NetDev.Ethernet (dev : NetDev) : Prop := dev.addrLen = 6 ∧ dev.hwaddr.length = 6

theorem ethernet_netdevAlloc (addr : UInt32) (hwaddr : FixedBuffer.Buffer UInt8 6) (mtu : UInt32) :
    NetDev.Ethernet (netdevAlloc addr hwaddr mtu) := ⟨rfl, hwaddr.size⟩

theorem routeInitFor_dev {ext : NetDev} (h : NetDev.Ethernet ext) {gateway : UInt32} {rt : RtEntry}
    (hrt : rt ∈ routeInitFor ext gateway) : NetDev.Ethernet rt.dev := by
  simp only [routeInitFor, List.mem_cons, List.not_mem_nil, or_false] at hrt
  rcases hrt with rfl | rfl | rfl
  · exact ⟨rfl, rfl⟩
  · exact h
  · exact h

end Routes

section Entry

namespace Message

def ipArea (m : Message) : List UInt8 := (m.tcpBuf.drop ethHdrLen).take ipHdrLen

/-- stop_retransmit gives an entry another packet, removes it, or leaves it as it was. -/
theorem stop_some {self : Nat} {tcb : Tcb} {m m' : Message} (h : m.tcpPtr + 8 ≤ m.tcpBuf.length)
    (hs : Message.stop self tcb m = some m') :
    m' = m ∨ ∃ sub, m' = { m with sub := sub, freed := some m.tcpBuf } := by
  have hback := setSeqNum_back h
  have hrepack := repack_back h tcb
  dsimp only at hrepack
  simp only [Message.stop, hback, hrepack] at hs
  split_ifs at hs
  · exact Or.inr ⟨_, (Option.some.inj hs).symm⟩
  · exact Or.inl (Option.some.inj hs).symm
  · exact Or.inl (Option.some.inj hs).symm

end Message

def ipHeader (dev : NetDev) (daddr : UInt32) (n : UInt32) : List UInt8 :=
  ipMem (sentIphdr dev daddr (UInt16.ofNat (40 + n.toNat)) ippTcp)

theorem ipHeader_length (dev : NetDev) (daddr n : UInt32) :
    (ipHeader dev daddr n).length = ipHdrLen :=
  ipMem_length _

structure Framed (dev : NetDev) (daddr : UInt32) (m : Message) : Prop where
  shaped : Shaped m
  tcpLen : m.tcpLen = 20 + m.tcpDataLen
  protocol : m.freed = none → m.sub.protocol = ippTcp.toUInt16
  area : m.ipArea = List.replicate ipHdrLen 0 ∨ m.ipArea = ipHeader dev daddr m.tcpDataLen

variable {dev : NetDev} {daddr : UInt32} {m m' : Message}

theorem Shaped.layout (h : Shaped m) : ∃ eth, m.tcpBuf = eth ++ (m.ipArea ++
    (tcpMem (readTcp (m.tcpBuf.drop m.tcpPtr)) ++ m.entry.tcpPtr.data)) ∧
      eth.length = ethHdrLen := by
  have hlen := h.tcpBuf
  have hptr := h.tcpPtr
  have h14 : ethHdrLen = 14 := rfl
  have h20 : ipHdrLen = 20 := rfl
  have htcp : tcpHdrLen = 20 := rfl
  have hseg : tcpMem (readTcp (m.tcpBuf.drop m.tcpPtr)) ++ m.entry.tcpPtr.data =
      m.tcpBuf.drop m.tcpPtr := by
    rw [tcpMem_readTcp (by rw [List.length_drop]; omega)]
    exact List.take_append_drop tcpHdrLen _
  have hnext : m.tcpBuf.drop m.tcpPtr = (m.tcpBuf.drop ethHdrLen).drop ipHdrLen := by
    rw [List.drop_drop, hptr]
  refine ⟨m.tcpBuf.take ethHdrLen, ?_, ?_⟩
  · rw [hseg, hnext, Message.ipArea, List.take_append_drop, List.take_append_drop]
  · rw [List.length_take]
    omega

theorem framed_newMessage (q : WireQueue) (seg : NewSegment) (dev : NetDev) (daddr : UInt32) :
    Framed dev daddr (q.newMessage seg) := by
  have hi := newMessage_intact q seg
  have hn := seg.data_toNat
  have hsub :=
    createTcpPacket_sub seg.tcb seg.data (UInt32.ofNat seg.data.length) seg.flags (by omega)
  simp only [hn, List.take_length] at hsub
  refine ⟨(newMessage_entry q seg).1, ?_, fun _ => hi.protocol, Or.inl ?_⟩
  · rw [hi.tcpLen, hi.tcpDataLen]
  · have hbuf : (q.newMessage seg).tcpBuf =
        List.replicate 14 0 ++ (List.replicate 20 0 ++ seg.bytes) := congrArg Subuff.buf hsub
    have heth : (List.replicate 14 (0 : UInt8)).length = ethHdrLen := rfl
    rw [Message.ipArea, hbuf, drop_middle heth]
    exact List.take_left' rfl

theorem Framed.stop (h : Framed dev daddr m) {self : Nat} {tcb : Tcb}
    (hs : Message.stop self tcb m = some m') :
    Framed dev daddr m' := by
  have hshaped := (stop_entry h.shaped self tcb).2 m' hs
  obtain rfl | ⟨sub, rfl⟩ := Message.stop_some h.shaped.room hs
  · exact h
  · exact ⟨hshaped, h.tcpLen, fun hf => absurd hf (Option.some_ne_none _), h.area⟩

/-- ip_output writes the header of `dev` into the packet, over the same header or over zeros. -/
theorem Framed.sent (h : Framed dev daddr m) :
    let m' : Message := { m.reset with sub := sentSub dev daddr m.reset.sub }
    Framed dev daddr m' ∧ SameSegments m m' ∧ m'.sub.data = ethHdrLen ∧ m'.sub.len = m.tcpLen + 20 ∧
      (m.freed = none → m'.ipArea = ipHeader dev daddr m.tcpDataLen) := by
  intro m'
  have hlong : ethHdrLen + ipHdrLen ≤ m.reset.sub.buf.length := h.shaped.sub
  obtain ⟨eth, old, rest, hbuf, heth, hold⟩ := split_at hlong
  have hsent := sentSub_buf dev daddr hbuf heth hold
  have hsame : SameSegments m m' := sameSegments_sub (sentSub_behind hlong dev daddr)
  have hdata : m'.sub.data = ethHdrLen := by
    have hd : m'.sub.data = m.tcpPtr - ipHdrLen := congrArg Subuff.data hsent
    rw [hd, h.shaped.tcpPtr, Nat.add_sub_cancel]
  have hlen : m'.sub.len = m.tcpLen + 20 := congrArg Subuff.len hsent
  have harea (hf : m.freed = none) : m'.ipArea = ipHeader dev daddr m.tcpDataLen := by
    have htcp : m.tcpBuf = m.reset.sub.buf := by rw [Message.tcpBuf, hf]; rfl
    have hwas : m.ipArea = old := by
      rw [Message.ipArea, htcp, hbuf, drop_middle heth]
      exact List.take_left' hold
    have hid : (readIp (m.reset.sub.buf.drop ethHdrLen)).id = 0 := by
      rw [hbuf, drop_middle heth, ← hwas]
      cases h.area with
      | inl ha =>
        rw [ha]
        rfl
      | inr ha =>
        rw [ha, ipHeader, readIp_ipMem]
        rfl
    have hsize := h.shaped.size
    have htotal : (m.reset.sub.len + 20).toUInt16 = UInt16.ofNat (40 + m.tcpDataLen.toNat) := by
      have hl : m.reset.sub.len = 20 + m.tcpDataLen := h.tcpLen
      have h20 : (20 : UInt32).toNat = 20 := rfl
      simp only [← UInt16.toNat_inj, hl, UInt32.toNat_toUInt16, UInt32.toNat_add, h20,
        UInt16.toNat_ofNat']
      omega
    have hproto : m.reset.sub.protocol.toUInt8 = ippTcp := by
      have hp : m.reset.sub.protocol = ippTcp.toUInt16 := h.protocol hf
      rw [hp]
      rfl
    have hnew : m'.tcpBuf = eth ++ (ipHeader dev daddr m.tcpDataLen ++ rest) := by
      have hfree : m'.tcpBuf = m'.sub.buf := by
        have hf' : m'.freed = none := hf
        rw [Message.tcpBuf, hf']
        rfl
      have hb := congrArg Subuff.buf hsent
      rw [hid, htotal, hproto] at hb
      exact hfree.trans hb
    rw [Message.ipArea, hnew, drop_middle heth]
    exact List.take_left' (ipHeader_length _ _ _)
  refine ⟨⟨(hsame.entry h.shaped).1, h.tcpLen, ?_, ?_⟩, hsame, hdata, hlen, harea⟩
  · intro hf
    have hp : m'.sub.protocol = m.sub.protocol := (congrArg Subuff.protocol hsent :)
    exact hp.trans (h.protocol hf)
  · cases hf : m.freed with
    | none => exact Or.inr (harea hf)
    | some buf =>
      have hsub : m'.ipArea = m.ipArea := by
        have hf' : m'.freed = some buf := hf
        rw [Message.ipArea, Message.ipArea, Message.tcpBuf, Message.tcpBuf, hf', hf]
        rfl
      rw [hsub]
      exact h.area

theorem Shaped.tcpBuf_length (h : Shaped m) : m.tcpBuf.length = 54 + m.tcpDataLen.toNat := by
  rw [h.tcpBuf, h.tcpPtr]
  rfl

/-- netdev_transmit sends the whole buffer that tcp_ptr points into, with a new Ethernet header. -/
theorem Framed.transmit (h : Framed dev daddr m) (hdev : NetDev.Ethernet dev)
    (hdata : m.sub.data = ethHdrLen) (hlen : m.sub.len.toNat = 40 + m.tcpDataLen.toNat)
    {mac : List UInt8} (hmac : mac.length = 6) :
    let r := m.transmit dev mac
    Framed dev daddr r.2 ∧ SameSegments m r.2 ∧ r.2.ipArea = m.ipArea ∧ r.2.tcpBuf = r.1 ∧
      ∃ hw, hw.length = 6 ∧ r.1 = mac ++ (hw ++
        (le16 (htons ethPIp) ++ m.tcpBuf.drop ethHdrLen)) := by
  intro r
  let base : Subuff := { m.sub with buf := m.tcpBuf }
  let frame := transmittedSub dev base mac ethPIp
  have htotal := h.shaped.tcpBuf_length
  have hsize := h.shaped.size
  have h14 : ethHdrLen = 14 := rfl
  have hbody : (m.tcpBuf.drop ethHdrLen).length = 40 + m.tcpDataLen.toNat := by
    rw [List.length_drop]
    omega
  have heth : (m.tcpBuf.take ethHdrLen).length = 14 := by
    rw [List.length_take]
    omega
  have hsplit : base.buf = m.tcpBuf.take ethHdrLen ++ m.tcpBuf.drop ethHdrLen :=
    (List.take_append_drop _ _).symm
  have hroom : ethHdrLen + ipHdrLen ≤ base.buf.length := by
    have hb : base.buf.length = m.tcpBuf.length := rfl
    have h20 : ipHdrLen = 20 := rfl
    omega
  have hbuf : frame.buf = mac ++ (dev.hwaddr ++ (le16 (htons ethPIp) ++ m.tcpBuf.drop ethHdrLen)) :=
    transmittedSub_buf hsplit heth hdata (hlen.trans hbody.symm) (by omega) hdev.1 hdev.2 hmac
  have hwritten : r.1 = mac ++ (dev.hwaddr ++ (le16 (htons ethPIp) ++ m.tcpBuf.drop ethHdrLen)) :=
    netdevTransmit_eq (p := []) (by rw [List.append_nil]; exact hsplit) heth hdata
      (hlen.trans hbody.symm) (by omega)
      hdev.1 hdev.2 hmac
  have htcp : r.2.tcpBuf = frame.buf := Message.setTcpBuf_tcpBuf _ _
  have hstart : base.data = ethHdrLen := hdata
  have hbehind : SameFrom (ethHdrLen + ipHdrLen) base.buf frame.buf :=
    transmittedSub_behind hstart hdev.1 hroom mac ethPIp
  have hsame : SameSegments m r.2 := by
    have hmoved : SameSegments m { m with
        sub := { m.sub with data := frame.data, len := frame.len } } :=
      sameSegments_sub (SameFrom.refl _ _)
    exact hmoved.trans (sameSegments_setTcpBuf hbehind)
  have hfront : (mac ++ (dev.hwaddr ++ le16 (htons ethPIp))).length = ethHdrLen := by
    simp only [List.length_append, hmac, hdev.2]
    rfl
  have harea : r.2.ipArea = m.ipArea := by
    have happ : r.2.tcpBuf = (mac ++ (dev.hwaddr ++ le16 (htons ethPIp))) ++
        m.tcpBuf.drop ethHdrLen := by
      rw [htcp, hbuf]
      simp only [List.append_assoc]
    rw [Message.ipArea, happ, drop_middle hfront]
    rfl
  have hdlen : r.2.tcpDataLen = m.tcpDataLen := (congrArg Message.tcpDataLen hsame.rest :)
  have htlen : r.2.tcpLen = m.tcpLen := (congrArg Message.tcpLen hsame.rest :)
  refine ⟨⟨(hsame.entry h.shaped).1, ?_, ?_, ?_⟩, hsame, harea, ?_, dev.hwaddr, hdev.2, hwritten⟩
  · rw [htlen, hdlen, h.tcpLen]
  · intro hf
    cases hfreed : m.freed with
    | none =>
      have hp : r.2.sub.protocol = m.sub.protocol := by
        simp only [r, Message.transmit, Message.setTcpBuf, hfreed]
      rw [hp]
      exact h.protocol hfreed
    | some old =>
      simp [r, Message.transmit, Message.setTcpBuf, hfreed] at hf
  · rw [harea, hdlen]
    exact h.area
  · rw [htcp, hbuf, hwritten]

end Entry

section Receive

/-- What ip_rx makes of a frame whose IP header was never written. -/
theorem netdevRx_blank {mac hw rest : List UInt8} (hmac : mac.length = 6) (hhw : hw.length = 6)
    (hrest : rest.length ≤ 1480) :
    netdevRx (mac ++ (hw ++ (le16 (htons ethPIp) ++ (List.replicate ipHdrLen 0 ++ rest)))) =
      .dropped .notIp := by
  set frame :=
    mac ++ (hw ++ (le16 (htons ethPIp) ++ (List.replicate ipHdrLen 0 ++ rest))) with hframe
  have hfit : frame.length ≤ anpMtu15MaxSize := by
    have htwo : (le16 (htons ethPIp)).length = 2 := rfl
    simp only [hframe, List.length_append, hmac, hhw, htwo, List.length_replicate, ipHdrLen,
      anpMtu15MaxSize]
    omega
  have hmacs : (mac ++ hw).length = 12 := by rw [List.length_append, hmac, hhw]
  have heth : (mac ++ hw ++ le16 ethPIp).length = ethHdrLen := by
    rw [List.length_append, hmacs]
    rfl
  have hbytes (pad : List UInt8) : frame ++ pad =
      mac ++ hw ++ (le16 (htons ethPIp) ++ (List.replicate ipHdrLen 0 ++ (rest ++ pad))) := by
    simp only [hframe, List.append_assoc]
  have hversion (l : List UInt8) : (readIp (List.replicate ipHdrLen 0 ++ l)).version ≠
      ippNumIpInIp := by
    have hfirst : read8 (List.replicate ipHdrLen 0 ++ l) = 0 := rfl
    have hzero : (readIp (List.replicate ipHdrLen 0 ++ l)).version.val = 0 := by
      simp only [readIp, hfirst]
      rfl
    intro he
    rw [he] at hzero
    cases hzero
  rw [netdevRx_eq hfit, hbytes, processPacket_ip hmacs, ← List.append_assoc, ipRx, drop_middle heth,
    if_pos (hversion _)]

variable {dev : NetDev} {daddr : UInt32} {m : Message}

/-- A frame with the buffer of an entry is read as the entry's segment, or it has no header yet. -/
theorem Framed.received (h : Framed dev daddr m) {tcb : Tcb} (hlocal : tcb.localIp = ntohl dev.addr)
    (hremote : tcb.remoteIp = daddr) {mac hw : List UInt8} (hmac : mac.length = 6)
    (hhw : hw.length = 6) :
    let frame := mac ++ (hw ++ (le16 (htons ethPIp) ++ m.tcpBuf.drop ethHdrLen))
    (m.ipArea = ipHeader dev daddr m.tcpDataLen → ∃ pad,
      netdevRx frame = .tcp (padded (wirePacket tcb m.entry.tcpPtr) pad)) ∧
      (m.ipArea = List.replicate ipHdrLen 0 → netdevRx frame = .dropped .notIp) := by
  intro frame
  obtain ⟨eth, hbuf, heth⟩ := h.shaped.layout
  have htext := h.shaped.text_length
  have hsize := h.shaped.size
  have hdrop : m.tcpBuf.drop ethHdrLen =
      m.ipArea ++ (tcpMem (readTcp (m.tcpBuf.drop m.tcpPtr)) ++ m.entry.tcpPtr.data) := by
    conv_lhs => rw [hbuf]
    exact drop_middle heth
  constructor
  · intro harea
    have hzero : htons 0 = 0 := by decide
    have httl : (64 : UInt8) ≠ 0 := by decide
    have hcsum : doCsum (ipHeader dev daddr m.tcpDataLen) 0 = 0 :=
      doCsum_header (txIphdr dev daddr (UInt16.ofNat (40 + m.tcpDataLen.toNat)) ippTcp) hzero
    obtain ⟨pad, hrx⟩ :=
      netdevRx_frame (sentIphdr dev daddr (UInt16.ofNat (40 + m.tcpDataLen.toNat)) ippTcp)
        (readTcp (m.tcpBuf.drop m.tcpPtr)) hmac hhw (htext.trans_le hsize) rfl rfl httl hcsum rfl
    refine ⟨pad, ?_⟩
    have hframe : frame = mac ++ (hw ++ (le16 (htons ethPIp) ++
        (ipMem (sentIphdr dev daddr (UInt16.ofNat (40 + m.tcpDataLen.toNat)) ippTcp) ++
          (tcpMem (readTcp (m.tcpBuf.drop m.tcpPtr)) ++ m.entry.tcpPtr.data)))) := by
      simp only [frame, hdrop, harea, ipHeader]
    have htwice : ntohl (ntohl dev.addr) = dev.addr := ntohl_htonl dev.addr
    rw [hframe, hrx]
    simp only [padded, wirePacket, hlocal, hremote, htwice, htext, sentIphdr, txIphdr, ntohs_htons,
      ntohl_htonl]
    rfl
  · intro harea
    have hframe : frame = mac ++ (hw ++ (le16 (htons ethPIp) ++ (List.replicate ipHdrLen 0 ++
        (tcpMem (readTcp (m.tcpBuf.drop m.tcpPtr)) ++ m.entry.tcpPtr.data)))) := by
      simp only [frame, hdrop, harea]
    rw [hframe]
    refine netdevRx_blank hmac hhw ?_
    rw [List.length_append, tcpMem_length]
    omega

/-- ip_output leaves the data pointer in front of the header, and the whole packet behind it. -/
theorem Framed.sent_len (h : Framed dev daddr m) :
    (sentSub dev daddr m.reset.sub).len.toNat = 40 + m.tcpDataLen.toNat := by
  obtain ⟨-, -, -, hlen, -⟩ := h.sent
  have hsize := h.shaped.size
  have h20 : (20 : UInt32).toNat = 20 := rfl
  have hl : (sentSub dev daddr m.reset.sub).len = m.tcpLen + 20 := hlen
  rw [hl, h.tcpLen, UInt32.toNat_add, UInt32.toNat_add, h20]
  omega

/-- A frame that is written has the segment of the entry behind its headers. -/
theorem Framed.written {routes : List RtEntry} {rt : RtEntry} (h : Framed rt.dev daddr m)
    (hrt : routeLookup daddr routes = some rt) (hdev : NetDev.Ethernet rt.dev)
    {cache : List ArpCacheEntry} {frame : List UInt8}
    (hf : (m.reset.ipOutput routes cache daddr).1 = .written frame) :
    segmentAt frame (ethHdrLen + ipHdrLen) = m.entry.tcpPtr := by
  obtain ⟨hsent, hsame, hdata, -, -⟩ := h.sent
  unfold Message.ipOutput at hf
  simp only [hrt] at hf
  split at hf
  · next mac hmac =>
    obtain ⟨-, hsame', -, htcp, -⟩ :=
      hsent.transmit hdev hdata h.sent_len (arpGetHwaddr_length hmac)
    rw [← Output.written.inj hf, ← htcp, segmentAt_of_sameFrom (hsame.trans hsame').tcpBuf,
      ← h.shaped.tcpPtr]
    rfl
  · cases hf

/-- What a call of ip_output for an entry comes to: the entry keeps its segment, and a frame that
is written carries it, unless the header is missing. -/
theorem Framed.output {routes : List RtEntry} {rt : RtEntry} (h : Framed rt.dev daddr m)
    (hrt : routeLookup daddr routes = some rt) (hdev : NetDev.Ethernet rt.dev)
    (cache : List ArpCacheEntry) {tcb : Tcb} (hlocal : tcb.localIp = ntohl rt.dev.addr)
    (hremote : tcb.remoteIp = daddr) :
    let r := m.reset.ipOutput routes cache daddr
    Framed rt.dev daddr r.2 ∧ SameSegments m r.2 ∧ ∀ frame, r.1 = .written frame →
      (∃ pad, netdevRx frame = .tcp (padded (wirePacket tcb m.entry.tcpPtr) pad)) ∨
        m.freed ≠ none ∧ netdevRx frame = .dropped .notIp := by
  intro r
  obtain ⟨hsent, hsame, hdata, -, harea⟩ := h.sent
  have hr : r = m.reset.ipOutput routes cache daddr := rfl
  unfold Message.ipOutput at hr
  simp only [hrt] at hr
  split at hr
  · next mac hmac =>
    have hsix := arpGetHwaddr_length hmac
    obtain ⟨hframed, hsame', harea', htcp, hw, hhw, hbytes⟩ :=
      hsent.transmit hdev hdata h.sent_len hsix
    have hentry := (hsame.entry h.shaped).2
    rw [hr]
    refine ⟨hframed, hsame.trans hsame', ?_⟩
    intro frame hf
    rw [← Output.written.inj hf, hbytes]
    obtain ⟨hheader, hblank⟩ := hsent.received hlocal hremote hsix hhw
    rw [hentry] at hheader
    cases hfreed : m.freed with
    | none => exact Or.inl (hheader (harea hfreed))
    | some old =>
      cases hsent.area with
      | inl hz => exact Or.inr ⟨Option.some_ne_none _, hblank hz⟩
      | inr hz => exact Or.inl (hheader hz)
  · rw [hr]
    exact ⟨hsent, hsame, fun frame hf => by cases hf⟩

end Receive

end AnpNetstack.Wire
