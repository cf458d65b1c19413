import AnpNetstack.RetryCount

/-! The bytes of a retransmission. Every attempt starts from tcp_ptr and tcp_len, writes the same
header over the last one, and stop_retransmit puts the sequence number back: as long as the packet
is the one that was queued, what leaves differs at most in the address of the next hop. -/
namespace AnpNetstack.Wire
open Packed Runs

section Restore

theorem htonl_ntohl (x : UInt32) : htonl (ntohl x) = x := ntohl_htonl x

namespace Message
variable {m : Message}

theorem seqNum_setSeqNum (h : m.tcpPtr + 8 ≤ m.tcpBuf.length) (seq : UInt32) :
    (m.setSeqNum seq).seqNum = seq := by
  rw [seqNum, setSeqNum, setTcpBuf_tcpBuf, setTcpBuf_tcpPtr]
  exact read32_overwrite (by omega) seq

theorem setSeqNum_back (h : m.tcpPtr + 8 ≤ m.tcpBuf.length) :
    (m.setSeqNum (ntohl m.seqNum)).setSeqNum (htonl (m.setSeqNum (ntohl m.seqNum)).seqNum) = m := by
  have hfour : (le32 (ntohl m.seqNum)).length = 4 := rfl
  have hcover : overwrite (m.tcpPtr + 4) (le32 m.seqNum)
      (overwrite (m.tcpPtr + 4) (le32 (ntohl m.seqNum)) m.tcpBuf) =
        overwrite (m.tcpPtr + 4) (le32 m.seqNum) m.tcpBuf :=
    overwrite_overwrite (by rw [hfour]; omega) rfl
  have hsame : overwrite (m.tcpPtr + 4) (le32 m.seqNum) m.tcpBuf = m.tcpBuf :=
    overwrite_read32 (by omega)
  rw [seqNum_setSeqNum h, htonl_ntohl]
  rw [setSeqNum, setSeqNum, setTcpBuf_tcpBuf, setTcpBuf_tcpPtr, setTcpBuf_setTcpBuf, hcover, hsame,
    setTcpBuf_self]

/-- stop_retransmit removes an entry, gives it another packet, or leaves it as it was. -/
theorem stop_kept {self : Nat} {tcb : Tcb} {m' : Message} (h : m.tcpPtr + 8 ≤ m.tcpBuf.length)
    (hs : Message.stop self tcb m = some m') (hf : m'.freed = none) : m' = m := by
  simp only [Message.stop] at hs
  split_ifs at hs
  · -- the entry has got another packet
    have hsome : m'.freed.isSome = true := by
      rw [← Option.some.inj hs, setSeqNum, setTcpBuf_freed_isSome]
      rfl
    rw [hf] at hsome
    exact absurd hsome Bool.false_ne_true
  · rw [← Option.some.inj hs, setSeqNum_back h]
  · exact (Option.some.inj hs).symm

end Message

end Restore

section Intact

def NewSegment.bytes (seg : NewSegment) : List UInt8 :=
  tcpMem (sentTcpHdr seg.tcb seg.data seg.flags) ++ seg.data

def NewSegment.packet (seg : NewSegment) (dev : NetDev) (daddr : UInt32) : List UInt8 :=
  ipMem (sentIphdr dev daddr (UInt16.ofNat (40 + seg.data.length)) ippTcp) ++ seg.bytes

/-- An entry whose packet is the one that was queued. In front of the segment stands whatever the
last attempt has left; its identification is 0. -/
structure Intact (seg : NewSegment) (m : Message) : Prop where
  freed : m.freed = none
  tcpPtr : m.tcpPtr = ethHdrLen + ipHdrLen
  tcpLen : m.tcpLen = 20 + UInt32.ofNat seg.data.length
  tcpDataLen : m.tcpDataLen = UInt32.ofNat seg.data.length
  protocol : m.sub.protocol = ippTcp.toUInt16
  buf : ∃ eth old, m.sub.buf = eth ++ (old ++ seg.bytes) ∧ eth.length = ethHdrLen ∧
    old.length = 20 ∧
    (readIp (old ++ seg.bytes)).id = 0

theorem NewSegment.data_le (seg : NewSegment) : seg.data.length ≤ 1460 := seg.size

theorem NewSegment.data_toNat (seg : NewSegment) :
    (UInt32.ofNat seg.data.length).toNat = seg.data.length := by
  have hsize := seg.data_le
  rw [UInt32.toNat_ofNat']
  omega

theorem NewSegment.bytes_length (seg : NewSegment) : seg.bytes.length = 20 + seg.data.length := by
  rw [bytes, List.length_append, tcpMem_length]

theorem NewSegment.packet_length (seg : NewSegment) (dev : NetDev) (daddr : UInt32) :
    (seg.packet dev daddr).length = 40 + seg.data.length := by
  rw [packet, List.length_append, ipMem_length, seg.bytes_length]
  omega

theorem newMessage_intact (q : WireQueue) (seg : NewSegment) : Intact seg (q.newMessage seg) := by
  have hn := seg.data_toNat
  have hsub :=
    createTcpPacket_sub seg.tcb seg.data (UInt32.ofNat seg.data.length) seg.flags (by omega)
  simp only [hn, List.take_length] at hsub
  have hbuf : (q.newMessage seg).sub.buf = List.replicate 34 0 ++ seg.bytes :=
    congrArg Subuff.buf hsub
  refine ⟨rfl, congrArg Subuff.data hsub, congrArg Subuff.len hsub, congrArg Subuff.dlen hsub,
    congrArg Subuff.protocol hsub, List.replicate 14 0, List.replicate 20 0, ?_, rfl, rfl, ?_⟩
  · rw [hbuf]
    rfl
  · rfl

/-- The buffer that netdev_transmit leaves is the frame. -/
theorem transmittedSub_buf {dev : NetDev} {sub : Subuff} {mac eth body : List UInt8}
    {ethertype : UInt16} (hbuf : sub.buf = eth ++ body) (heth : eth.length = 14)
    (hdata : sub.data = 14) (hlen : sub.len.toNat = body.length) (hmax : body.length + 14 < 2 ^ 32)
    (haddr : dev.addrLen = 6) (hhw : dev.hwaddr.length = 6) (hmac : mac.length = 6) :
    (transmittedSub dev sub mac ethertype).buf =
      mac ++ (dev.hwaddr ++ (le16 (htons ethertype) ++ body)) := by
  have hsplit : sub.buf = eth ++ (body ++ []) := by rw [List.append_nil, hbuf]
  have hframe : netdevTransmit dev sub mac ethertype =
      mac ++ (dev.hwaddr ++ (le16 (htons ethertype) ++ body)) :=
    netdevTransmit_eq hsplit heth hdata hlen hmax haddr hhw hmac
  have hstart : (transmittedSub dev sub mac ethertype).data = 0 := by
    have hd : (transmittedSub dev sub mac ethertype).data = sub.data - ethHdrLen := rfl
    rw [hd, hdata, ethHdrLen]
  have hall : (transmittedSub dev sub mac ethertype).buf.length ≤
      (transmittedSub dev sub mac ethertype).len.toNat := by
    have hsix : dev.addrLen.toNat = 6 := by rw [haddr]; rfl
    have hm : (mac.take 6).length = 6 := by rw [List.length_take]; omega
    have hw : (dev.hwaddr.take 6).length = 6 := by rw [List.length_take]; omega
    have htwo : (le16 (htons ethertype)).length = 2 := rfl
    have h14 : (UInt32.ofNat ethHdrLen).toNat = 14 := rfl
    have htotal : sub.buf.length = 14 + body.length := by rw [hbuf, List.length_append, heth]
    have hlens : (transmittedSub dev sub mac ethertype).len = sub.len + UInt32.ofNat ethHdrLen :=
      rfl
    have hbufs : (transmittedSub dev sub mac ethertype).buf = overwrite 12 (le16 (htons ethertype))
        (overwrite 6 (dev.hwaddr.take 6) (overwrite 0 (mac.take 6) sub.buf)) := by
      simp only [transmittedSub, subPush, hdata, hsix, ethHdrLen]
    have hfirst : (overwrite 0 (mac.take 6) sub.buf).length = sub.buf.length :=
      overwrite_length (by omega)
    have hsecond : (overwrite 6 (dev.hwaddr.take 6) (overwrite 0 (mac.take 6) sub.buf)).length =
        sub.buf.length := by
      rw [overwrite_length (by omega), hfirst]
    rw [hbufs, overwrite_length (by omega), hsecond, hlens, UInt32.toNat_add, hlen, h14, htotal]
    omega
  rw [netdevTransmit_transmitted, hstart, List.drop_zero, List.take_of_length_le hall] at hframe
  exact hframe

namespace Message
variable {m : Message}

/-- As long as the packet is the one that was queued, ip_output is the function on packets. -/
theorem ipOutput_fst (h : m.freed = none) (routes : List RtEntry) (cache : List ArpCacheEntry)
    (dst : UInt32) :
    (m.ipOutput routes cache dst).1 = Wire.ipOutput routes cache dst m.sub := by
  cases hrt : routeLookup dst routes with
  | none => simp only [Message.ipOutput, Wire.ipOutput, hrt]
  | some rt =>
    have hneigh : Wire.ipOutput routes cache dst m.sub =
        Wire.dstNeighOutput cache rt (sentSub rt.dev dst m.sub) := by
      simp only [Wire.ipOutput, hrt]
      rfl
    rw [hneigh]
    simp only [Message.ipOutput, hrt, Wire.dstNeighOutput]
    generalize arpGetHwaddr cache _ = found
    cases found with
    | none => rfl
    | some mac => simp only [transmit, tcpBuf, h, Option.getD_none]

end Message

variable {seg : NewSegment} {m : Message}

/-- The header that ip_output writes takes the place of the last one. -/
theorem Intact.sent (h : Intact seg m) (dev : NetDev) (daddr : UInt32) :
    ∃ eth, eth.length = ethHdrLen ∧ (sentSub dev daddr m.reset.sub).buf =
      eth ++ seg.packet dev daddr ∧
      (sentSub dev daddr m.reset.sub).data = ethHdrLen ∧
      (sentSub dev daddr m.reset.sub).len.toNat = (seg.packet dev daddr).length ∧
      (sentSub dev daddr m.reset.sub).protocol = ippTcp.toUInt16 := by
  obtain ⟨eth, old, hbuf, heth, hold, hid⟩ := h.buf
  have hn := seg.data_toNat
  have hsize := seg.data_le
  have h20 : (20 : UInt32).toNat = 20 := rfl
  have hhdr : (UInt32.ofNat ipHdrLen).toNat = 20 := rfl
  have hread : readIp (m.reset.sub.buf.drop ethHdrLen) = readIp (old ++ seg.bytes) := by
    have hsame : m.reset.sub.buf = m.sub.buf := rfl
    rw [hsame, hbuf, drop_middle heth]
  have hlen : m.reset.sub.len = 20 + UInt32.ofNat seg.data.length := h.tcpLen
  have hlen16 : (m.reset.sub.len + 20).toUInt16 = UInt16.ofNat (40 + seg.data.length) := by
    simp only [← UInt16.toNat_inj, hlen, UInt32.toNat_toUInt16, UInt32.toNat_add, hn, h20,
      UInt16.toNat_ofNat']
    omega
  have hproto : m.reset.sub.protocol.toUInt8 = ippTcp := by
    have hp : m.reset.sub.protocol = ippTcp.toUInt16 := h.protocol
    rw [hp]
    rfl
  have hreset : m.reset.sub.buf = eth ++ (old ++ seg.bytes) := hbuf
  have hsent := sentSub_buf dev daddr hreset heth hold
  rw [hread, hid, hlen16, hproto] at hsent
  refine ⟨eth, heth, ?_, ?_, ?_, ?_⟩
  · rw [hsent]
    rfl
  · have hdata : (sentSub dev daddr m.reset.sub).data = m.tcpPtr - ipHdrLen := by
      rw [hsent]
      rfl
    rw [hdata, h.tcpPtr, Nat.add_sub_cancel]
  · have hl : (sentSub dev daddr m.reset.sub).len = m.reset.sub.len + UInt32.ofNat ipHdrLen := by
      rw [hsent]
      rfl
    rw [hl, hlen, seg.packet_length, UInt32.toNat_add, UInt32.toNat_add, hn, h20, hhdr]
    omega
  · rw [hsent]
    exact h.protocol

theorem Intact.output (h : Intact seg m) (cache : List ArpCacheEntry) {daddr : UInt32}
    {rt : RtEntry} (hrt : routeLookup daddr routeInit = some rt) :
    (m.reset.ipOutput routeInit cache daddr).1 = match arpGetHwaddr cache (nextHop rt daddr) with
      | some mac =>
        .written (mac ++ (rt.dev.hwaddr ++ (le16 (htons ethPIp) ++ seg.packet rt.dev daddr)))
      | none => .again rt.dev.addr (nextHop rt daddr) := by
  obtain ⟨eth, old, hbuf, heth, hold, -⟩ := h.buf
  obtain ⟨haddr, hhw⟩ := routeInit_dev (routeLookup_mem hrt)
  obtain ⟨eth', heth', hsent, hdata, hlen, -⟩ := h.sent rt.dev daddr
  have hfree : m.reset.freed = none := h.freed
  have hreset : m.reset.sub.buf = eth ++ (old ++ seg.bytes) := hbuf
  have hmax := seg.packet_length rt.dev daddr
  have hsize := seg.data_le
  rw [Message.ipOutput_fst hfree, ipOutput_eq cache hrt hreset heth hold]
  cases hmac : arpGetHwaddr cache (nextHop rt daddr) with
  | none => rfl
  | some mac =>
    have hsplit : (sentSub rt.dev daddr m.reset.sub).buf =
        eth' ++ (seg.packet rt.dev daddr ++ []) := by
      rw [hsent, List.append_nil]
    exact congrArg Output.written
      (netdevTransmit_eq hsplit heth' hdata hlen (by omega) haddr hhw (arpGetHwaddr_length hmac))

/-- The new header has the identification that the old one had. -/
theorem packet_id (seg : NewSegment) (dev : NetDev) (daddr : UInt32) :
    (readIp (seg.packet dev daddr)).id = 0 := by
  have hzero : htons 0 = 0 := by decide
  rw [NewSegment.packet, readIp_ipMem]
  exact hzero

theorem packet_split (seg : NewSegment) (dev : NetDev) (daddr : UInt32) :
    ∃ hdr, seg.packet dev daddr = hdr ++ seg.bytes ∧ hdr.length = 20 :=
  ⟨_, rfl, ipMem_length _⟩

theorem Intact.kept (h : Intact seg m) (cache : List ArpCacheEntry) {daddr : UInt32} {rt : RtEntry}
    (hrt : routeLookup daddr routeInit = some rt) :
    Intact seg (m.reset.ipOutput routeInit cache daddr).2 := by
  obtain ⟨haddr, hhw⟩ := routeInit_dev (routeLookup_mem hrt)
  obtain ⟨eth, heth, hsent, hdata, hlen, hproto⟩ := h.sent rt.dev daddr
  obtain ⟨hdr, hpacket, hhdr⟩ := packet_split seg rt.dev daddr
  have hid := packet_id seg rt.dev daddr
  rw [hpacket] at hid
  have hfree : m.reset.freed = none := h.freed
  have hmax := seg.packet_length rt.dev daddr
  have hsize := seg.data_le
  unfold Message.ipOutput
  simp only [hrt]
  split
  · next mac hmac =>
    let sub := sentSub rt.dev daddr m.reset.sub
    have hbuf : (transmittedSub rt.dev sub mac ethPIp).buf =
        mac ++ (rt.dev.hwaddr ++ (le16 (htons ethPIp) ++ seg.packet rt.dev daddr)) :=
      transmittedSub_buf hsent heth hdata hlen (by omega) haddr hhw (arpGetHwaddr_length hmac)
    have hm : ({ m.reset with sub := sub }.transmit rt.dev mac).2 =
        { m.reset with sub := { sub with
            data := (transmittedSub rt.dev sub mac ethPIp).data
            len := (transmittedSub rt.dev sub mac ethPIp).len
            buf := (transmittedSub rt.dev sub mac ethPIp).buf } } := by
      simp only [Message.transmit, Message.tcpBuf, Message.setTcpBuf, hfree, Option.getD_none]
    rw [hm]
    refine ⟨h.freed, h.tcpPtr, h.tcpLen, h.tcpDataLen, hproto,
      mac ++ (rt.dev.hwaddr ++ le16 (htons ethPIp)), hdr, ?_, ?_, hhdr, hid⟩
    · simp only [hbuf, hpacket, List.append_assoc]
    · simp only [List.length_append, arpGetHwaddr_length hmac, hhw]
      rfl
  · exact ⟨h.freed, h.tcpPtr, h.tcpLen, h.tcpDataLen, hproto, eth,
      hdr, by rw [← hpacket]; exact hsent, heth, hhdr, hid⟩

end Intact

section Writes

structure FrameOf (remoteIp : Nat → UInt32) (seg : NewSegment) (w : Write) : Prop where
  start : w.start = 0
  length : w.frame.length = 54 + w.tcpDataLen.toNat
  room : w.frame.length ≤ w.room
  bytes : ∃ mac rt, mac.length = 6 ∧ routeLookup (remoteIp seg.self) routeInit = some rt ∧
    w.frame =
      mac ++ (rt.dev.hwaddr ++ (le16 (htons ethPIp) ++ seg.packet rt.dev (remoteIp seg.self)))

structure Frames (remoteIp : Nat → UInt32) (q : WireQueue) : Prop where
  entries : ∀ m ∈ q.messagesArray, m.freed = none →
    ∃ seg, q.added[m.number]? = some seg ∧ m.tcb = seg.self ∧ Intact seg m
  writes : ∀ w, .wrote w ∈ q.log → w.rebuilt = false →
    ∃ seg, q.added[w.number]? = some seg ∧ FrameOf remoteIp seg w

variable {remoteIp : Nat → UInt32} {q : WireQueue}

theorem Intact.frameOf {seg : NewSegment} {m : Message} (h : Intact seg m) (htcb : m.tcb = seg.self)
    (cache : List ArpCacheEntry) {w : Write}
    (hw : .wrote w ∈ WireQueue.writeNotes m.reset
      (m.reset.ipOutput routeInit cache (remoteIp m.tcb)).1) :
    w.number = m.number ∧ FrameOf remoteIp seg w := by
  obtain ⟨rt, hrt⟩ : ∃ rt, routeLookup (remoteIp m.tcb) routeInit = some rt :=
    routeLookup_some _ _ _
  obtain ⟨-, hhw⟩ := routeInit_dev (routeLookup_mem hrt)
  rw [h.output cache hrt] at hw
  cases hmac : arpGetHwaddr cache (nextHop rt (remoteIp m.tcb)) with
  | none => simp [hmac, WireQueue.writeNotes] at hw
  | some mac =>
    simp only [hmac, WireQueue.writeNotes, List.mem_singleton, Note.wrote.injEq] at hw
    obtain ⟨eth, old, hbuf, heth, hold, -⟩ := h.buf
    have hlen : (mac ++ (rt.dev.hwaddr ++
        (le16 (htons ethPIp) ++ seg.packet rt.dev (remoteIp m.tcb)))).length =
        54 + seg.data.length := by
      have htwo : (le16 (htons ethPIp)).length = 2 := rfl
      simp only [List.length_append, arpGetHwaddr_length hmac, hhw, htwo, seg.packet_length]
      omega
    have hroom : m.reset.sub.buf.length = 54 + seg.data.length := by
      have hsame : m.reset.sub.buf = m.sub.buf := rfl
      rw [hsame, hbuf, List.length_append, List.length_append, heth, hold,
        seg.bytes_length, ethHdrLen]
      omega
    have hstart : (m.reset.sub.data : Int) - ipHdrLen - ethHdrLen = 0 := by
      have hdata : m.reset.sub.data = m.tcpPtr := rfl
      rw [hdata, h.tcpPtr]
      rfl
    have hdl : m.reset.tcpDataLen.toNat = seg.data.length := by
      have hsame : m.reset.tcpDataLen = m.tcpDataLen := rfl
      rw [hsame, h.tcpDataLen, seg.data_toNat]
    subst hw
    refine ⟨rfl, hstart, ?_, ?_, mac, rt, arpGetHwaddr_length hmac, htcb ▸ hrt, ?_⟩
    · rw [hlen, hdl]
    · rw [hlen, hroom]
    · rw [htcb]

theorem Frames.add (h : Frames remoteIp q) (hidle : q.todo = []) (seg : NewSegment) :
    Frames remoteIp { q with
      added := q.added ++ [seg], passed := q.passed ++ [q.newMessage seg] } := by
  have hgrow {n : Nat} {s : NewSegment} (hs : q.added[n]? = some s) : (q.added ++ [seg])[n]? =
      some s := by
    rw [List.getElem?_append_left (List.getElem?_eq_some_iff.mp hs).1, hs]
  refine ⟨?_, ?_⟩
  · intro m hm hf
    simp only [WireQueue.messagesArray, hidle, List.append_nil] at hm
    cases List.mem_append.mp hm with
    | inl hm =>
      have hold : m ∈ q.messagesArray := List.mem_append_left _ hm
      obtain ⟨s, hs, ht, hi⟩ := h.entries m hold hf
      exact ⟨s, hgrow hs, ht, hi⟩
    | inr hm =>
      rw [List.mem_singleton.mp hm]
      exact ⟨seg, List.getElem?_concat_length, rfl, newMessage_intact q seg⟩
  · intro w hw hr
    obtain ⟨s, hs, hf⟩ := h.writes w hw hr
    exact ⟨s, hgrow hs, hf⟩

/-- A packet has room for its sequence number. -/
theorem Intact.room {seg : NewSegment} {m : Message} (h : Intact seg m) :
    m.tcpPtr + 8 ≤ m.tcpBuf.length := by
  obtain ⟨eth, old, hbuf, heth, hold, -⟩ := h.buf
  have htcp : m.tcpBuf = m.sub.buf := by rw [Message.tcpBuf, h.freed, Option.getD_none]
  rw [htcp, hbuf, List.length_append, List.length_append, heth, hold, seg.bytes_length,
    h.tcpPtr, ipHdrLen]
  omega

theorem Message.stop_freed {self : Nat} {tcb : Tcb} {m m' : Message}
    (hs : Message.stop self tcb m = some m') (hf : m'.freed = none) : m.freed = none := by
  have hset (m : Message) (seq : UInt32) : (m.setSeqNum seq).freed.isSome = m.freed.isSome :=
    Message.setTcpBuf_freed_isSome m _
  have hnone : m'.freed.isSome = false := by rw [hf]; rfl
  rw [← Option.not_isSome_iff_eq_none, Bool.not_eq_true]
  simp only [Message.stop] at hs
  split_ifs at hs
  · rw [← Option.some.inj hs, hset] at hnone
    exact absurd hnone (by simp [Message.repack])
  · rw [← Option.some.inj hs, hset, hset] at hnone
    exact hnone
  · rw [Option.some.inj hs]
    exact hnone

theorem Frames.stop (h : Frames remoteIp q) (hidle : q.todo = []) (self : Nat) (tcb : Tcb) :
    Frames remoteIp { q with passed := q.passed.filterMap (Message.stop self tcb) } := by
  refine ⟨?_, h.writes⟩
  intro m' hm' hf
  simp only [WireQueue.messagesArray, hidle, List.append_nil] at hm'
  obtain ⟨m, hm, hs⟩ := List.mem_filterMap.mp hm'
  have hold : m ∈ q.messagesArray := List.mem_append_left _ hm
  obtain ⟨seg, hseg, ht, hi⟩ := h.entries m hold (Message.stop_freed hs hf)
  rw [Message.stop_kept hi.room hs hf]
  exact ⟨seg, hseg, ht, hi⟩

theorem Message.ipOutput_freed (routes : List RtEntry) (cache : List ArpCacheEntry) (dst : UInt32)
    (m : Message) :
    (m.ipOutput routes cache dst).2.freed.isSome = m.freed.isSome := by
  unfold Message.ipOutput
  split
  · rfl
  · dsimp only
    split
    · exact Message.setTcpBuf_freed_isSome _ _
    · rfl

/-- An entry that is intact after a call of ip_output was so before. -/
theorem Frames.tried (h : Frames remoteIp q) {m m' : Message} {out : Output}
    (hm : m ∈ q.messagesArray)
    (hout : m.reset.ipOutput routeInit q.cache (remoteIp m.tcb) = (out, m'))
    (hf : m'.freed = none) :
    ∃ seg, q.added[m'.number]? = some seg ∧ m'.tcb = seg.self ∧ Intact seg m' := by
  have haccount := Message.ipOutput_account routeInit q.cache (remoteIp m.tcb) m.reset
  have hfreed := Message.ipOutput_freed routeInit q.cache (remoteIp m.tcb) m.reset
  rw [hout] at haccount hfreed
  have hnone : m.freed = none := by
    have hsome : m.freed.isSome = false := by
      have hsame : m.reset.freed = m.freed := rfl
      rw [← hsame, ← hfreed, hf]
      rfl
    rwa [← Option.not_isSome_iff_eq_none, Bool.not_eq_true]
  obtain ⟨seg, hseg, ht, hi⟩ := h.entries m hm hnone
  obtain ⟨rt, hrt⟩ : ∃ rt, routeLookup (remoteIp m.tcb) routeInit = some rt :=
    routeLookup_some _ _ _
  have hkept := hi.kept q.cache hrt
  rw [hout] at hkept
  have hn : m'.number = m.number := congrArg Account.number haccount
  have htcb : m'.tcb = m.tcb := congrArg Account.tcb haccount
  exact ⟨seg, hn ▸ hseg, htcb.trans ht, hkept⟩

theorem Frames.again (h : Frames remoteIp q) {m m' : Message} {rest : List Message} {out : Output}
    (hq : q.todo = m :: rest)
    (hout : m.reset.ipOutput routeInit q.cache (remoteIp m.tcb) = (out, m')) :
    Frames remoteIp { q with todo := m' :: rest, log := q.log ++ [.again m.number] } := by
  refine ⟨?_, ?_⟩
  · intro x hx hf
    rcases WireQueue.mem_swapped hx with rfl | hx
    · exact h.tried (WireQueue.mem_current hq) hout hf
    · exact h.entries x (WireQueue.mem_others hq hx) hf
  · intro w hw hr
    exact h.writes w (by simpa using hw) hr

theorem Frames.out (h : Frames remoteIp q) {m m' : Message} {rest : List Message}
    {out : Output} (v : Visit) (hq : q.todo = m :: rest)
    (hout : m.reset.ipOutput routeInit q.cache (remoteIp m.tcb) = (out, m')) :
    Frames remoteIp { q with
      passed := q.passed ++ ((retriesLeft m.retries).map fun k => { m' with retries := k }).toList
      todo := rest
      log := q.log ++ WireQueue.writeNotes m.reset out ++ [.visited v] } := by
  have hm : m ∈ q.messagesArray := WireQueue.mem_current hq
  refine ⟨?_, ?_⟩
  · intro x hx hf
    cases WireQueue.mem_between hx with
    | inl hx =>
      obtain ⟨k, -, rfl⟩ := Option.map_eq_some_iff.mp (Option.mem_toList.mp hx)
      obtain ⟨seg, hseg, ht, hi⟩ := h.tried hm hout hf
      exact ⟨seg, hseg, ht, hi.freed, hi.tcpPtr, hi.tcpLen, hi.tcpDataLen, hi.protocol, hi.buf⟩
    | inr hx => exact h.entries x (WireQueue.mem_others hq hx) hf
  · intro w hw hr
    simp only [List.mem_append, List.mem_singleton, reduceCtorEq, or_false] at hw
    rcases hw with hw | hw
    · exact h.writes w hw hr
    · -- the frame has just been written
      have hnone : m.freed = none := by
        have hflag : w.rebuilt = m.freed.isSome := by
          cases out with
          | written frame =>
            simp only [WireQueue.writeNotes, List.mem_singleton, Note.wrote.injEq] at hw
            rw [hw]
            rfl
          | noRoute => simp [WireQueue.writeNotes] at hw
          | again src dst => simp [WireQueue.writeNotes] at hw
        rwa [← Option.not_isSome_iff_eq_none, Bool.not_eq_true, ← hflag]
      obtain ⟨seg, hseg, ht, hi⟩ := h.entries m hm hnone
      have hfst : out = (m.reset.ipOutput routeInit q.cache (remoteIp m.tcb)).1 := by rw [hout]
      rw [hfst] at hw
      obtain ⟨hn, hframe⟩ := hi.frameOf ht q.cache hw
      exact ⟨seg, hn ▸ hseg, hframe⟩

theorem Frames.step (h : Frames remoteIp q) (ha : Accounting q) (e : QueueEvent) :
    Frames remoteIp (queueStep remoteIp q e) := by
  have hstep := queueStep_cases remoteIp q e
  generalize queueStep remoteIp q e = q' at hstep
  cases hstep with
  | same => exact h
  | arp cache => exact ⟨h.entries, h.writes⟩
  | add seg hb => exact h.add (ha.idle hb) seg
  | stop self tcb hb => exact h.stop (ha.idle hb) self tcb
  | begin hb =>
    refine ⟨fun m hm => h.entries m (List.mem_append_left _ hm), fun w hw => h.writes w ?_⟩
    simpa using hw
  | again m m' rest src dst hb hq hout => exact h.again hq hout
  | out m m' rest out hb hq hout hn => exact h.out _ hq hout
  | finish hb ht =>
    refine ⟨h.entries, fun w hw => h.writes w ?_⟩
    simpa using hw

theorem frames_run (remoteIp : Nat → UInt32) (cache : List ArpCacheEntry) (es : List QueueEvent) :
    Frames remoteIp (run (queueStep remoteIp) (emptyQueue cache) es) := by
  have hstart : Frames remoteIp (emptyQueue cache) :=
    ⟨by simp [emptyQueue, WireQueue.messagesArray], by simp [emptyQueue]⟩
  have hboth : Accounting (run (queueStep remoteIp) (emptyQueue cache) es) ∧
      Frames remoteIp (run (queueStep remoteIp) (emptyQueue cache) es) :=
    run_invariant (queueStep remoteIp) (I := fun q => Accounting q ∧ Frames remoteIp q)
      (P := fun _ _ => True)
      (fun q e h _ => ⟨h.1.step remoteIp e, h.2.step h.1 e⟩) ⟨accounting_start cache, hstart⟩
      (along_of_forall _ (fun _ _ _ => trivial) _)
  exact hboth.2

end Writes

theorem identical_retransmissions (remoteIp : Nat → UInt32) (cache : List ArpCacheEntry)
    (es : List QueueEvent) :
    let q := run (queueStep remoteIp) (emptyQueue cache) es
    (∀ w, .wrote w ∈ q.log → w.rebuilt = false →
      ∃ seg, q.added[w.number]? = some seg ∧ FrameOf remoteIp seg w) ∧
    ∀ w w', .wrote w ∈ q.log → .wrote w' ∈ q.log → w.rebuilt = false → w'.rebuilt = false →
      w.number = w'.number → w.frame.drop 6 = w'.frame.drop 6 := by
  intro q
  have h : Frames remoteIp q := frames_run remoteIp cache es
  refine ⟨h.writes, ?_⟩
  intro w w' hw hw' hr hr' hn
  obtain ⟨seg, hseg, hf⟩ := h.writes w hw hr
  obtain ⟨seg', hseg', hf'⟩ := h.writes w' hw' hr'
  rw [hn] at hseg
  have hsame : seg = seg' := Option.some.inj (hseg.symm.trans hseg')
  subst hsame
  obtain ⟨mac, rt, hmac, hrt, hframe⟩ := hf.bytes
  obtain ⟨mac', rt', hmac', hrt', hframe'⟩ := hf'.bytes
  have hroute : rt = rt' := Option.some.inj (hrt.symm.trans hrt')
  subst hroute
  rw [hframe, hframe', drop_middle hmac, drop_middle hmac']

end AnpNetstack.Wire
