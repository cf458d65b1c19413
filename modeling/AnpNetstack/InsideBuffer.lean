import AnpNetstack.BufferReads
import AnpNetstack.RoundTrip

/-! When the reads of process_packet stay inside the 1522 bytes of the receive buffer. Inside it the
functions do what their models without indices do; ARP never leaves it, ICMP and TCP do for some
lengths. -/
namespace AnpNetstack.Wire
open Packed FixedBuffer

/-- The text by the length fields, or the free part of rcv_buff, is no longer than what the buffer
holds behind the TCP header. -/
def TextInside (tcb : Tcb) (pkt : Packet) : Prop :=
  let text := ipPayloadLen pkt.ip - (pkt.tcp.hdr.dataOffset >>> 4).toNat * 4
  (0 ≤ text ∧ text ≤ 1468) ∨ (tcpRcvMax - tcb.rcvBuffLen).toNat ≤ 1468

def IcmpInside (ip : IpHdr) : Prop := icmpHdrSize ≤ ipPayloadLen ip → ip.len.toNat ≤ 1488

def TcpInside (lookup : Endpoint → Option Tcb) (pkt : Packet) : Prop :=
  tooShort pkt = false →
    ipPayloadLen pkt.ip ≤ 1488 ∧
      (csumValid pkt = true → ∀ tcb, lookup pkt.endpoint = some tcb →
        reachesText tcb pkt.tcp.hdr = true →
        pkt.tcp.hdr.seqNum = tcb.rcvNxt → TextInside tcb pkt)

section Loads
variable {buf : List UInt8}

theorem readIp_take (m : List UInt8) : readIp (m.take ipHdrLen) = readIp m := by
  simp [readIp, ipHdrLen, List.drop_take, read8_of_take, read16_of_take, read32_of_take]

theorem readTcp_take (m : List UInt8) : readTcp (m.take tcpHdrLen) = readTcp m := by
  simp [readTcp, tcpHdrLen, List.drop_take, read8_of_take, read16_of_take, read32_of_take]

theorem readArpHdr_take (m : List UInt8) : readArpHdr (m.take arpHdrLen) = readArpHdr m := by
  simp [readArpHdr, arpHdrLen, List.drop_take, read8_of_take, read16_of_take]

theorem readArpIpv4_take (m : List UInt8) : readArpIpv4 (m.take arpDataLen) = readArpIpv4 m := by
  simp [readArpIpv4, readMac, arpDataLen, List.drop_take, List.take_take, read32_of_take]

theorem tcpMem_readTcp {m : List UInt8} (h : tcpHdrLen ≤ m.length) :
    tcpMem (readTcp m) = m.take tcpHdrLen := by
  simp only [tcpHdrLen] at h ⊢
  have hsplit (i j : Nat) : m.take (i + j) = m.take i ++ (m.drop i).take j := List.take_add
  have hbytes : [read8 (m.drop 12), read8 (m.drop 13)] =
      (m.drop 12).take 1 ++ (m.drop 13).take 1 := by
    rw [← read8_take (by simp; omega), ← read8_take (by simp; omega)]
    rfl
  simp only [tcpMem, readTcp, hbytes]
  rw [le16_read16 (by omega), le16_read16 (by simp; omega), le32_read32 (by simp; omega),
    le32_read32 (by simp; omega), le16_read16 (by simp; omega), le16_read16 (by simp; omega),
    le16_read16 (by simp; omega), ← List.append_assoc, ← hsplit 2 2, ← hsplit 4 4, ← hsplit 8 4,
      ← hsplit 12 1,
    ← hsplit 13 1, ← hsplit 14 2, ← hsplit 16 2, ← hsplit 18 2]

theorem ipHdrAt_inside (h : anpMtu15MaxSize ≤ buf.length) :
    ipHdrAt buf = some (readIp (buf.drop ethHdrLen)) := by
  have hload : load buf ethHdrLen ipHdrLen = some ((buf.drop ethHdrLen).take ipHdrLen) :=
    load_inside (Nat.le_trans (by decide) h)
  rw [ipHdrAt, hload]
  exact congrArg some (readIp_take _)

theorem tcpHdrAt_inside (h : anpMtu15MaxSize ≤ buf.length) :
    tcpHdrAt buf = some (hostTcp (readTcp (buf.drop (ethHdrLen + ipHdrLen)))) := by
  have hload : load buf (ethHdrLen + ipHdrLen) tcpHdrLen =
      some ((buf.drop (ethHdrLen + ipHdrLen)).take tcpHdrLen) :=
    load_inside (Nat.le_trans (by decide) h)
  rw [tcpHdrAt, hload]
  exact congrArg (fun h => some (hostTcp h)) (readTcp_take _)

theorem doCsumAt_inside (buf : List UInt8) (off : Nat) (count : Int) (startSum : UInt32)
    (h : off + count.toNat ≤ buf.length) :
    doCsumAt buf off count startSum = some (doCsum ((buf.drop off).take count.toNat) startSum) := by
  rw [doCsumAt, load_inside h]
  rfl

/-- The checksum of an IP header covers 60 bytes at most. -/
theorem ipCsumAt_inside (h : anpMtu15MaxSize ≤ buf.length) (ihl : Fin 16) :
    doCsumAt buf ethHdrLen (ihl.val * 4) 0 =
      some (doCsum ((buf.drop ethHdrLen).take (ihl.val * 4)) 0) := by
  have hihl := ihl.isLt
  have hcount : ((ihl.val : Int) * 4).toNat = ihl.val * 4 := by omega
  have hcsum := doCsumAt_inside buf ethHdrLen (ihl.val * 4) 0 (by
    simp only [anpMtu15MaxSize, ethHdrLen] at *
    omega)
  rw [hcount] at hcsum
  exact hcsum

theorem netdevTransmitAt_inside {dev : NetDev} {sub : Subuff} {mac : List UInt8}
    {ethertype : UInt16}
    (h : sub.data - ethHdrLen + (sub.len + UInt32.ofNat ethHdrLen).toNat ≤ sub.buf.length) :
    netdevTransmitAt dev sub mac ethertype = some (netdevTransmit dev sub mac ethertype) := by
  apply load_inside
  calc
    _ ≤ sub.buf.length := h
    _ ≤ (overwrite _ _ sub.buf).length := le_overwrite_length _ _ _
    _ ≤ (overwrite _ _ (overwrite _ _ sub.buf)).length := le_overwrite_length _ _ _
    _ ≤ _ := le_overwrite_length _ _ _

end Loads

section Arp
variable {sub : Subuff} (netdev : NetDev)

/-- The reply takes up the first 42 bytes. -/
theorem arpReplyAt_inside (h : anpMtu15MaxSize ≤ sub.buf.length) (hdata : sub.data = 0)
    (hlen : sub.len = 0) :
    arpReplyAt sub netdev = some (arpReply sub netdev) := by
  have hhdr : load sub.buf ethHdrLen arpHdrLen = some ((sub.buf.drop ethHdrLen).take arpHdrLen) :=
    load_inside (Nat.le_trans (by decide) h)
  have hbody : load sub.buf (ethHdrLen + arpHdrLen) arpDataLen =
      some ((sub.buf.drop (ethHdrLen + arpHdrLen)).take arpDataLen) :=
    load_inside (Nat.le_trans (by decide) h)
  simp only [arpReplyAt, hhdr, subReserve, subPush, hbody, Option.bind_eq_bind, Option.bind_some,
    readArpHdr_take, readArpIpv4_take]
  apply netdevTransmitAt_inside
  simp only [storeArpIpv4, storeArpHdr, hdata, hlen]
  calc
    _ ≤ anpMtu15MaxSize := by decide
    _ ≤ sub.buf.length := h
    _ ≤ (overwrite _ _ sub.buf).length := le_overwrite_length _ _ _
    _ ≤ _ := le_overwrite_length _ _ _

theorem arpRxAt_inside (cache : List ArpCacheEntry) (h : anpMtu15MaxSize ≤ sub.buf.length)
    (hdata : sub.data = 0) (hlen : sub.len = 0) :
    arpRxAt netdev sub = some (arpRx netdev cache sub).2 := by
  have hhdr : load sub.buf ethHdrLen arpHdrLen = some ((sub.buf.drop ethHdrLen).take arpHdrLen) :=
    load_inside (Nat.le_trans (by decide) h)
  have hbody (ah : ArpHdr) : load (storeArpHdr sub ah).buf (ethHdrLen + arpHdrLen) arpDataLen =
      some (((storeArpHdr sub ah).buf.drop (ethHdrLen + arpHdrLen)).take arpDataLen) :=
    load_inside (Nat.le_trans (by decide) (h.trans (le_overwrite_length _ _ _)))
  have hreply (ah : ArpHdr) (d : ArpIpv4) :
      arpReplyAt (storeArpIpv4 (storeArpHdr sub ah) d) netdev =
        some (arpReply (storeArpIpv4 (storeArpHdr sub ah) d) netdev) :=
    arpReplyAt_inside netdev (h.trans ((le_overwrite_length _ _ _).trans
      (le_overwrite_length _ _ _))) hdata hlen
  simp only [arpRxAt, arpRx, hhdr, hbody, Option.bind_eq_bind, Option.bind_some, readArpHdr_take,
    readArpIpv4_take, hreply, ite_and]
  split_ifs <;> rfl

end Arp

section Output
variable {sub : Subuff}

theorem ipSendCheckAt_inside (h : anpMtu15MaxSize ≤ sub.buf.length) :
    ipSendCheckAt sub = some (ipSendCheck sub) := by
  simp only [ipSendCheckAt, ipHdrAt_inside h, ipCsumAt_inside h, Option.bind_eq_bind,
    Option.bind_some, ipSendCheck]
  rfl

theorem dstNeighOutputAt_inside (cache : List ArpCacheEntry) (rt : RtEntry)
    (h : anpMtu15MaxSize ≤ sub.buf.length) (hdata : sub.data = ethHdrLen)
    (hlen : sub.len.toNat ≤ 1508) :
    dstNeighOutputAt cache rt sub = some (dstNeighOutput cache rt sub) := by
  have hsum : (sub.len + UInt32.ofNat ethHdrLen).toNat = sub.len.toNat + 14 := by
    rw [UInt32.toNat_add]
    exact Nat.mod_eq_of_lt (by simp [ethHdrLen]; omega)
  have htransmit (mac : List UInt8) :
      netdevTransmitAt rt.dev sub mac ethPIp = some (netdevTransmit rt.dev sub mac ethPIp) := by
    apply netdevTransmitAt_inside
    rw [hsum, hdata]
    simp only [anpMtu15MaxSize] at h
    omega
  simp only [dstNeighOutputAt, dstNeighOutput, ipHdrAt_inside h, Option.bind_eq_bind,
    Option.bind_some, htransmit]
  generalize arpGetHwaddr cache _ = found
  cases found <;> rfl

theorem ipOutputAt_inside (routes : List RtEntry) (cache : List ArpCacheEntry) (dstIpAddr : UInt32)
    (h : anpMtu15MaxSize ≤ sub.buf.length) (hdata : sub.data = ethHdrLen + ipHdrLen)
    (hlen : sub.len.toNat ≤ 1488) :
    ∃ sub', ipOutputAt routes cache dstIpAddr sub =
      some (ipOutput routes cache dstIpAddr sub, sub') ∧
      anpMtu15MaxSize ≤ sub'.buf.length ∧
      ∀ rt, routeLookup dstIpAddr routes = some rt → sub' = sentSub rt.dev dstIpAddr sub := by
  cases hroute : routeLookup dstIpAddr routes with
  | none =>
    refine ⟨sub, ?_, h, by simp⟩
    simp only [ipOutputAt, ipOutput, hroute]
  | some rt =>
    let pushed := subPush sub ipHdrLen
    let ih : Iphdr := { txIphdr rt.dev dstIpAddr pushed.len.toUInt16 pushed.protocol.toUInt8 with
      id := htons (readIp (pushed.buf.drop ethHdrLen)).id }
    let checked := ipSendCheck (storeIp pushed ih)
    have hread : ipHdrAt pushed.buf = some (readIp (pushed.buf.drop ethHdrLen)) := ipHdrAt_inside h
    have hstored : anpMtu15MaxSize ≤ (storeIp pushed ih).buf.length :=
      h.trans (le_overwrite_length _ _ _)
    have hchecked : anpMtu15MaxSize ≤ checked.buf.length :=
      hstored.trans (le_overwrite_length _ _ _)
    have hstart : checked.data = ethHdrLen := by
      show sub.data - ipHdrLen = ethHdrLen
      rw [hdata, Nat.add_sub_cancel]
    have htotal : checked.len.toNat ≤ 1508 := by
      show (sub.len + UInt32.ofNat ipHdrLen).toNat ≤ 1508
      rw [UInt32.toNat_add]
      simp only [ipHdrLen, UInt32.reduceOfNat, UInt32.reduceToNat]
      omega
    have hneigh := dstNeighOutputAt_inside cache rt hchecked hstart htotal
    refine ⟨checked, ?_, hchecked, fun rt' hrt' => by rw [← Option.some.inj hrt']; rfl⟩
    have hcheck := ipSendCheckAt_inside hstored
    simp only [ipOutputAt, hroute]
    show (ipHdrAt pushed.buf >>= fun old => _) = _
    rw [hread]
    show (ipSendCheckAt (storeIp pushed ih) >>= fun sub => _) = _
    rw [hcheck]
    show (dstNeighOutputAt cache rt checked >>= fun out => _) = _
    rw [hneigh]
    simp only [ipOutput, hroute]
    rfl

theorem icmpReplyHandlerAt_isSome (env : Env) (destAddr : UInt32) {icmpLen : UInt16}
    (hlen : icmpLen.toNat ≤ 1488) (retries : Nat) (h : anpMtu15MaxSize ≤ sub.buf.length) :
    (icmpReplyHandlerAt env destAddr icmpLen retries sub).isSome = true := by
  have htry (retries : Nat) {sub : Subuff} (h : anpMtu15MaxSize ≤ sub.buf.length) :
      ∃ status sub', icmpReplyTryAt env destAddr icmpLen retries sub = some (status, sub') ∧
        anpMtu15MaxSize ≤ sub'.buf.length := by
    let reset : Subuff := { sub with len := icmpLen.toUInt32, data := ethHdrLen + ipHdrLen }
    have hreset : anpMtu15MaxSize ≤ reset.buf.length := h
    obtain ⟨sub', hout, hnext, -⟩ :=
      ipOutputAt_inside env.routes (env.cache retries)
        destAddr hreset rfl (by simpa [reset] using hlen)
    exact ⟨_, sub', hout, hnext⟩
  induction retries generalizing sub with
  | zero =>
    obtain ⟨status, sub', hout, -⟩ := htry 0 h
    rw [icmpReplyHandlerAt, hout]
    rfl
  | succ retries ih =>
    obtain ⟨status, sub', hout, hnext⟩ := htry (retries + 1) h
    rw [icmpReplyHandlerAt, hout]
    cases status with
    | again src dst => exact ih hnext
    | noRoute => rfl
    | written frame => rfl

end Output

section Icmp
variable {sub : Subuff} (env : Env) {ip : IpHdr}

theorem icmpReplyAt_isSome (h : anpMtu15MaxSize ≤ sub.buf.length) (hdata : sub.data = 0)
    (hpayload : 0 ≤ ipPayloadLen ip) (hlen : ip.len.toNat ≤ 1488) :
    (icmpReplyAt env ip sub).isSome = true := by
  have hicmp : (UInt16.ofInt (ipPayloadLen ip)).toNat ≤ 1488 := by
    rw [ipPayloadLen] at hpayload ⊢
    rw [UInt16.ofInt, UInt16.toNat_ofNat']
    omega
  let buf := overwrite (ethHdrLen + ipHdrLen) [icmpV4Reply, 0, 0, 0] sub.buf
  have hbuf : anpMtu15MaxSize ≤ buf.length := h.trans (le_overwrite_length _ _ _)
  have hcsum := doCsumAt_inside buf (ethHdrLen + ipHdrLen) (UInt16.ofInt (ipPayloadLen ip)).toNat 0
    (by simp only [anpMtu15MaxSize, ethHdrLen, ipHdrLen, Int.toNat_natCast] at *; omega)
  have hstart (n : Nat) : sub.data + (ethHdrLen + ipHdrLen + n) - n = ethHdrLen + ipHdrLen := by
    rw [hdata]
    omega
  simp only [icmpReplyAt, subPush, subReserve, hstart, Option.bind_eq_bind]
  rw [hcsum, Option.bind_some]
  split_ifs
  · exact icmpReplyHandlerAt_isSome env ip.saddr hicmp _ (hbuf.trans (le_overwrite_length _ _ _))
  · rfl

/-- The checksum of icmp_rx begins behind the IP header and goes over the length of the packet with
that header. -/
theorem icmpRxAt_isSome (h : sub.buf.length = anpMtu15MaxSize) (hdata : sub.data = 0) :
    (icmpRxAt env ip sub).isSome = true ↔ IcmpInside ip := by
  by_cases hpayload : ipPayloadLen ip < icmpHdrSize
  · rw [icmpRxAt, if_pos hpayload]
    exact iff_of_true rfl (fun h => absurd h (by omega))
  rw [icmpRxAt, if_neg hpayload]
  by_cases hlen : ip.len.toNat ≤ 1488
  · refine iff_of_true ?_ (fun _ => hlen)
    have hcsum := doCsumAt_inside sub.buf (ethHdrLen + ipHdrLen) ip.len.toNat 0
      (by simp only [anpMtu15MaxSize, ethHdrLen, ipHdrLen, Int.toNat_natCast] at *; omega)
    have htype : ethHdrLen + ipHdrLen < sub.buf.length := by rw [h]; decide
    rw [hcsum, Option.bind_eq_bind, Option.bind_some, List.getElem?_eq_getElem htype]
    split_ifs with hzero
    · rfl
    · simp only [Option.bind_eq_bind, Option.bind_some]
      split_ifs
      · exact icmpReplyAt_isSome env h.ge hdata (by simp only [icmpHdrSize] at hpayload; omega) hlen
      · rfl
  · refine iff_of_false ?_ (fun h => hlen (h (by omega)))
    have hload : load sub.buf (ethHdrLen + ipHdrLen) ip.len.toNat = none := by
      rw [← Option.not_isSome_iff_eq_none, load_isSome, h]
      simp only [anpMtu15MaxSize, ethHdrLen, ipHdrLen]
      omega
    simp only [doCsumAt, Int.toNat_natCast, hload]
    simp

end Icmp

section Tcp
variable {buf : List UInt8} (env : Env) (ih : Iphdr)

/-- The checksum of tcp_rx is made of the bytes in the buffer. -/
theorem tcpPacket_bytes (h : buf.length = anpMtu15MaxSize) :
    (tcpPacket ih buf).tcp.hdr.bytes ++ (tcpPacket ih buf).tcp.data =
      buf.drop (ethHdrLen + ipHdrLen) := by
  have hlong : tcpHdrLen ≤ (buf.drop (ethHdrLen + ipHdrLen)).length := by
    rw [List.length_drop, h]
    decide
  show (hostTcp (readTcp (buf.drop (ethHdrLen + ipHdrLen)))).bytes ++
      buf.drop (ethHdrLen + ipHdrLen + tcpHdrLen) = _
  have hdata : buf.drop (ethHdrLen + ipHdrLen + tcpHdrLen) =
      (buf.drop (ethHdrLen + ipHdrLen)).drop tcpHdrLen :=
    List.drop_drop.symm
  rw [← tcpMem_eq, tcpMem_readTcp hlong, hdata, List.take_append_drop]

/-- save_data_and_ack copies no more than the buffer holds behind the header. -/
theorem textInside_iff (tcb : Tcb) (pkt : Packet) :
    TextInside tcb pkt ↔ (finalCopySize tcb (segmentLen pkt)).toNat ≤ 1468 := by
  have hlen := pkt.ip.len.toNat_lt
  have hihl := pkt.ip.ihl.toNat_lt
  have hoff := (pkt.tcp.hdr.dataOffset >>> 4).toNat_lt
  have hseg : (segmentLen pkt).toNat ≤ 1468 ↔
      0 ≤ ipPayloadLen pkt.ip - (pkt.tcp.hdr.dataOffset >>> 4).toNat * 4 ∧
        ipPayloadLen pkt.ip - (pkt.tcp.hdr.dataOffset >>> 4).toNat * 4 ≤ 1468 := by
    rw [segmentLen, UInt32.ofInt, UInt32.toNat_ofNat', ipPayloadLen]
    omega
  rw [finalCopySize, anpMin_toNat, min_le_iff, hseg]
  rfl

/-- Inside the buffer the bytes are those that save_data_and_ack stores. -/
theorem saveDataAndAckAt_inside (h : buf.length = anpMtu15MaxSize) {tcb : Tcb}
    (hin : TextInside tcb (tcpPacket ih buf)) :
    let n := finalCopySize tcb (segmentLen (tcpPacket ih buf))
    saveDataAndAckAt tcb buf (segmentLen (tcpPacket ih buf)) =
      some ((tcpPacket ih buf).tcp.data.take n.toNat) := by
  have hcopy := (textInside_iff tcb (tcpPacket ih buf)).mp hin
  apply load_inside
  simp only [h, anpMtu15MaxSize, ethHdrLen, ipHdrLen, tcpHdrLen]
  omega

/-- The cases of the switch in which tcp_rx has the text still to come. -/
theorem reachesText_iff {c : Conn} {pkt : Packet} (hx : c.rx = []) (hl : c.tcbLock = false)
    (hacc : accepted c.tcb pkt = true) :
    reachesText c.tcb pkt.tcp.hdr = true ↔ .text pkt ∈ (tcpRxSwitch c pkt).rx := by
  have hlisten : (!accepted c.tcb pkt || c.tcbLock) = false := by simp [hacc, hl]
  simp only [tcpRxSwitch, hlisten, Bool.false_eq_true, if_false, reachesText]
  cases hs : c.tcb.state with
  | synSent =>
    -- neither answer to a SYN looks at text
    simp only [Bool.and_false, Bool.false_eq_true, false_iff]
    split_ifs <;> simp [synEstablish, synCross, hx]
  | synReceived =>
    simp only [Bool.and_eq_true]
    split_ifs with hconfirm
    · exact iff_of_true hconfirm (by simp [synConfirm])
    · exact iff_of_false hconfirm (by simp [hx])
  | established | finWait1 =>
    simp only [Bool.and_true]
    split_ifs with hack
    · exact iff_of_true hack (by simp [ackEstablished, ackFinWait1])
    · exact iff_of_false hack (by simp [hx])
  | _ => simp [hx]

theorem segmentTextAt_isSome (h : buf.length = anpMtu15MaxSize) (tcb : Tcb) (pkt : Packet) :
    (segmentTextAt tcb pkt buf).isSome = true ↔
      (reachesText tcb pkt.tcp.hdr = true → pkt.tcp.hdr.seqNum = tcb.rcvNxt →
        TextInside tcb pkt) := by
  have hsize : (finalCopySize tcb (segmentLen pkt)).toNat = 0 ∨
      ethHdrLen + ipHdrLen + tcpHdrLen + (finalCopySize tcb (segmentLen pkt)).toNat ≤
        anpMtu15MaxSize ↔
        (finalCopySize tcb (segmentLen pkt)).toNat ≤ 1468 := by
    simp only [anpMtu15MaxSize, ethHdrLen, ipHdrLen, tcpHdrLen]
    omega
  by_cases hz : segmentLen pkt = 0
  · -- nothing to copy
    have hzero : (finalCopySize tcb (segmentLen pkt)).toNat ≤ 1468 := by
      rw [finalCopySize, anpMin_toNat, hz]
      exact (Nat.min_le_left _ _).trans (by decide)
    rw [segmentTextAt, if_neg (fun h => h.2.1 hz)]
    exact iff_of_true rfl (fun _ _ => (textInside_iff tcb pkt).mpr hzero)
  · rw [segmentTextAt]
    split_ifs with hcopy
    · rw [saveDataAndAckAt, load_isSome, h, hsize, textInside_iff]
      exact ⟨fun hle _ _ => hle, fun hin => hin hcopy.1 hcopy.2.2⟩
    · refine iff_of_true rfl (fun hreach hseq => absurd ⟨hreach, hz, hseq⟩ hcopy)

theorem tcpRxAt_isSome (h : buf.length = anpMtu15MaxSize) :
    (tcpRxAt env (tcpPacket ih buf).ip buf).isSome = true ↔
      TcpInside env.lookup (tcpPacket ih buf) := by
  have hbytes := tcpPacket_bytes ih h
  have hhdr : tcpHdrAt buf = some (tcpPacket ih buf).tcp.hdr := tcpHdrAt_inside h.ge
  generalize tcpPacket ih buf = pkt at *
  simp only [TcpInside, tooShort, decide_eq_false_iff_not]
  by_cases hshort : ipPayloadLen pkt.ip % 2 ^ 64 < 20
  · rw [tcpRxAt, if_pos hshort]
    exact iff_of_true rfl (fun h => absurd hshort h)
  rw [tcpRxAt, if_neg hshort]
  simp only [hshort, not_false_eq_true, true_implies]
  by_cases hlen : ipPayloadLen pkt.ip ≤ 1488
  · have hload : load buf (ethHdrLen + ipHdrLen) (ipPayloadLen pkt.ip).toNat =
        some ((pkt.tcp.hdr.bytes ++ pkt.tcp.data).take (ipPayloadLen pkt.ip).toNat) := by
      rw [hbytes]
      apply load_inside
      simp only [anpMtu15MaxSize, ethHdrLen, ipHdrLen] at *
      omega
    have hcsum : doTcpCsumAt buf (ethHdrLen + ipHdrLen) (ipPayloadLen pkt.ip)
        (ntohs (pkt.ip.proto.toUInt16 <<< 8))
        (ntohl pkt.ip.saddr) (ntohl pkt.ip.daddr) =
        some (doTcpCsum (pkt.tcp.hdr.bytes ++ pkt.tcp.data) (ipPayloadLen pkt.ip)
          (ntohs (pkt.ip.proto.toUInt16 <<< 8)) (ntohl pkt.ip.saddr) (ntohl pkt.ip.daddr)) := by
      simp only [doTcpCsumAt, hload, Option.bind_eq_bind, Option.bind_some, doTcpCsum,
        List.take_take, min_self]
      rfl
    simp only [hcsum, hhdr, Option.bind_eq_bind, Option.bind_some, hlen, true_and,
      csumValid, beq_iff_eq]
    split_ifs with hzero
    · exact iff_of_true rfl (fun h => absurd h hzero)
    · rw [not_not] at hzero
      simp only [hzero, true_implies]
      -- neither get_tcb nor the lengths depend on the text
      have hend : Packet.endpoint { ip := pkt.ip, tcp := { hdr := pkt.tcp.hdr, data := [] } } =
        pkt.endpoint := rfl
      rw [hend]
      cases hlookup : env.lookup pkt.endpoint with
      | none => simp
      | some tcb =>
        have htext :=
          segmentTextAt_isSome h tcb { ip := pkt.ip, tcp := { hdr := pkt.tcp.hdr, data := [] } }
        simp only [Option.some.injEq, forall_eq']
        refine Iff.trans ?_ htext
        cases segmentTextAt tcb { ip := pkt.ip, tcp := { hdr := pkt.tcp.hdr, data := [] } } buf <;>
          simp
  · refine iff_of_false ?_ (fun h => hlen h.1)
    have hload : load buf (ethHdrLen + ipHdrLen) (ipPayloadLen pkt.ip).toNat = none := by
      rw [← Option.not_isSome_iff_eq_none, load_isSome, h]
      simp only [anpMtu15MaxSize, ethHdrLen, ipHdrLen]
      omega
    simp [doTcpCsumAt, hload]

end Tcp

section Frame
variable {buf : List UInt8} (env : Env)

/-- ip_rx reads its header inside the buffer and goes on as it does without indices. -/
theorem ipRxAt_eq (h : anpMtu15MaxSize ≤ buf.length) :
    let ih := hostIp (readIp (buf.drop ethHdrLen))
    let stored := overwrite ethHdrLen (ipMem ih) buf
    ipRxAt env buf = match ipRx buf with
      | .icmp =>
        icmpRxAt env (tcpPacket ih stored).ip { allocSub anpMtu15MaxSize with buf := stored }
      | .tcp pkt => tcpRxAt env pkt.ip stored
      | _ => some [] := by
  have hshort : (readIp (buf.drop ethHdrLen)).ihl < 5 ↔ (readIp (buf.drop ethHdrLen)).ihl.val < 5 :=
    Iff.rfl
  have hproto : (hostIp (readIp (buf.drop ethHdrLen))).proto =
      (readIp (buf.drop ethHdrLen)).proto := rfl
  simp only [ipRxAt, ipRx, ipHdrAt_inside h, ipCsumAt_inside h, Option.bind_eq_bind,
    Option.bind_some, hshort, hproto]
  split_ifs <;> rfl

theorem ethHdr_length (h : buf.length = anpMtu15MaxSize) :
    (ethHdr buf).2.length = anpMtu15MaxSize := by
  have hlen : ∀ x : UInt16, (le16 x).length = 2 := fun _ => rfl
  rw [ethHdr, overwrite_length (by rw [h, hlen]; decide), h]

/-- process_packet reads the ethertype inside the buffer. -/
theorem processPacketAt_eq (h : anpMtu15MaxSize ≤ buf.length) :
    processPacketAt env buf =
      if (ethHdr buf).1 = ethPArp then
        arpRxAt env.netdev { allocSub anpMtu15MaxSize with buf := (ethHdr buf).2 }
      else if (ethHdr buf).1 = ethPIp then ipRxAt env (ethHdr buf).2
      else some [] := by
  have hload : load buf 12 2 = some ((buf.drop 12).take 2) := load_inside (le_trans (by decide) h)
  rw [processPacketAt, hload]
  simp only [Option.bind_eq_bind, Option.bind_some, read16_of_take _ (Nat.le_refl 2)]
  rfl

theorem ipRxAt_isSome (h : buf.length = anpMtu15MaxSize) :
    (ipRxAt env buf).isSome = true ↔
      (ipRx buf = .icmp →
        IcmpInside (tcpPacket (hostIp (readIp (buf.drop ethHdrLen))) buf).ip) ∧
        ∀ pkt, ipRx buf = .tcp pkt → TcpInside env.lookup pkt := by
  have hstored (ih : Iphdr) : (overwrite ethHdrLen (ipMem ih) buf).length = anpMtu15MaxSize := by
    rw [overwrite_length (by rw [ipMem_length, h]; decide), h]
  rw [ipRxAt_eq env h.ge]
  cases hrx : ipRx buf with
  | icmp =>
    simp only [true_implies, reduceCtorEq, false_implies, implies_true, and_true]
    exact icmpRxAt_isSome env (hstored _) rfl
  | tcp pkt =>
    obtain rfl := ipRx_tcp_inv hrx
    simp only [reduceCtorEq, false_implies, true_and, Received.tcp.injEq, forall_eq']
    exact tcpRxAt_isSome env _ (hstored _)
  | arp => simp
  | unsupported ethertype => simp
  | dropped why => simp

end Frame

theorem reads_inside (env : Env) (frame : List UInt8) :
    (processPacketAt env (rxBuf frame)).isSome = true ↔
      (netdevRx frame = .icmp → IcmpInside (rxPacketOf frame).ip) ∧
        ∀ pkt, netdevRx frame = .tcp pkt → TcpInside env.lookup pkt := by
  have hlen := ethHdr_length (rxBuf_length frame)
  have hframe : netdevRx frame = processPacket (rxBuf frame) := rfl
  rw [processPacketAt_eq env (rxBuf_length frame).ge, hframe, processPacket]
  simp only
  split_ifs with harp hip
  · rw [arpRxAt_inside env.netdev [] hlen.ge rfl rfl]
    simp
  · exact ipRxAt_isSome env hlen
  · simp

def largeEcho : List UInt8 :=
  List.replicate 12 0 ++ [0x08, 0x00] ++
    [0x45, 0, 0x05, 0xdc, 0, 0, 0, 0, 64, 1, 0x61, 0x19, 10, 0, 0, 5, 10, 0, 0, 4] ++
    [8, 0, 0xf7, 0xff] ++ List.replicate 1476 0

def sampleEnv : Env where
  netdev := cdevExt
  routes := routeInit
  cache := fun _ => []
  lookup := fun _ => none
  alloc := true

/-- The checksum of icmp_rx goes twelve bytes too far. -/
theorem reads_past_the_buffer :
    ¬ ∀ (env : Env) (frame : List UInt8), frame.length ≤ anpMtu15MaxSize →
      (processPacketAt env (rxBuf frame)).isSome = true := by
  intro h
  have hecho := h sampleEnv largeEcho (by decide +kernel)
  rw [processPacketAt_eq sampleEnv (rxBuf_length largeEcho).ge, if_neg (by decide +kernel),
    if_pos (by decide +kernel), ipRxAt_isSome sampleEnv
      (ethHdr_length (rxBuf_length largeEcho))] at hecho
  have hlen := hecho.1 (by decide +kernel) (by decide +kernel)
  exact absurd hlen (by decide +kernel)

end AnpNetstack.Wire
