import AnpNetstack.Duplicates
import AnpNetstack.Wire

/-! Where tcp_rx finds the header and the text. The pointers come from the fixed size of the
structures, the length of the text from the header lengths in the packet. -/
namespace AnpNetstack.Wire
open Packed

def rxBuf (frame : List UInt8) : List UInt8 :=
  overwrite 0 (frame.take anpMtu15MaxSize) (List.replicate anpMtu15MaxSize 0)

def ipBytes (frame : List UInt8) : List UInt8 := (rxBuf frame).drop ethHdrLen

structure Layout where
  header : Nat
  text : Nat
  textLen : Nat
  deriving DecidableEq, Repr

def rxLayout (pkt : Packet) : Layout where
  header := ipHdrLen
  text := ipHdrLen + tcpHdrLen
  textLen := (segmentLen pkt).toNat

def wireLayout (ip : IpHdr) (dataOffset : Nat) : Layout where
  header := 4 * ip.ihl.toNat
  text := 4 * ip.ihl.toNat + 4 * dataOffset
  textLen := ip.len.toNat - (4 * ip.ihl.toNat + 4 * dataOffset)

def dataOffsetAt (frame : List UInt8) (off : Nat) : Nat :=
  ((readTcp ((ipBytes frame).drop off)).dataOffset >>> 4).toNat

def ReadsAt (frame : List UInt8) (pkt : Packet) (l : Layout) : Prop :=
  pkt.tcp.hdr = hostTcp (readTcp ((ipBytes frame).drop l.header)) ∧
    pkt.tcp.data.take (segmentLen pkt).toNat = ((ipBytes frame).drop l.text).take l.textLen

def HandsText (tcb : Tcb) (pkt : Packet) : Prop :=
  hasFlag pkt.tcp.hdr.flags tcpAck = true ∧ segmentLen pkt ≠ 0 ∧ pkt.tcp.hdr.seqNum = tcb.rcvNxt

def ValidOffset (ip : IpHdr) (dataOffset : Nat) : Prop :=
  20 ≤ 4 * dataOffset ∧ ((4 * dataOffset : Nat) : Int) ≤ ipPayloadLen ip

/-- The header is read where it stands and any text is taken from behind it, or the segment leaves
the connection as it is. -/
def Extracted (c : Conn) (frame : List UInt8) (pkt : Packet) : Prop :=
  let wire := wireLayout pkt.ip (dataOffsetAt frame (4 * pkt.ip.ihl.toNat))
  (ValidOffset pkt.ip (dataOffsetAt frame (4 * pkt.ip.ihl.toNat)) →
      (rxLayout pkt).header = wire.header ∧ (HandsText c.tcb pkt → rxLayout pkt = wire)) ∧
    (¬ ValidOffset pkt.ip (dataOffsetAt frame (4 * pkt.ip.ihl.toNat)) → tcpRx c pkt = c)

def Ignored (tcb : Tcb) (pkt : Packet) : Prop :=
  let h := pkt.tcp.hdr
  hasFlag h.flags tcpAck = false ∨
    (ackAdvances tcb h = false ∧ h.windowSize.toUInt32 = tcb.sndWnd ∧
      ((segmentLen pkt ≠ 0 ∧ h.seqNum ≠ tcb.rcvNxt) ∨
        (segmentLen pkt = 0 ∨ tcb.rcvBuffLen = tcpRcvMax) ∧ hasFlag h.flags tcpFin = false))

section Bytes

theorem rxBuf_length (frame : List UInt8) : (rxBuf frame).length = anpMtu15MaxSize := by
  simp [rxBuf, overwrite]

theorem ethHdr_drop {buf : List UInt8} (hlen : 12 ≤ buf.length) :
    (ethHdr buf).2.drop ethHdrLen = buf.drop ethHdrLen :=
  drop_overwrite hlen (Nat.le_refl _)

def hostIp (ih : Iphdr) : Iphdr :=
  { ih with
    saddr := ntohl ih.saddr, daddr := ntohl ih.daddr, len := ntohs ih.len, id := ntohs ih.id }

/-- What ip_rx hands to tcp_rx. -/
theorem ipRx_tcp_inv {buf : List UInt8} {pkt : Packet} (h : ipRx buf = .tcp pkt) :
    let ih := hostIp (readIp (buf.drop ethHdrLen))
    pkt = tcpPacket ih (overwrite ethHdrLen (ipMem ih) buf) := by
  simp only [ipRx] at h
  split_ifs at h with hversion hihl httl hcsum hicmp htcp
  exact (Received.tcp.inj h).symm

theorem netdevRx_tcp_inv {frame : List UInt8} {pkt : Packet} (h : netdevRx frame = .tcp pkt) :
    ipRx (ethHdr (rxBuf frame)).2 = .tcp pkt := by
  have hbuf : netdevRx frame = processPacket (rxBuf frame) := rfl
  rw [hbuf, processPacket] at h
  simp only at h
  split_ifs at h
  exact h

theorem tcpPacket_tcp (ih : Iphdr) (frame : List UInt8) :
    (tcpPacket ih (overwrite ethHdrLen (ipMem ih) (ethHdr (rxBuf frame)).2)).tcp =
      { hdr := hostTcp (readTcp ((ipBytes frame).drop ipHdrLen))
        data := (ipBytes frame).drop (ipHdrLen + tcpHdrLen) } := by
  have hlen : (ethHdr (rxBuf frame)).2.length = anpMtu15MaxSize := by
    simp [ethHdr, overwrite, rxBuf_length, le16, anpMtu15MaxSize]
  have hkeep (k : Nat) (hk : ipHdrLen ≤ k) :
      (overwrite ethHdrLen (ipMem ih) (ethHdr (rxBuf frame)).2).drop (ethHdrLen + k) =
        (ipBytes frame).drop k := by
    rw [drop_overwrite (by rw [hlen]; decide) (Nat.add_le_add_left hk ethHdrLen), ← List.drop_drop,
      ethHdr_drop (by rw [rxBuf_length]; decide), ipBytes]
  have hhdr := hkeep ipHdrLen (Nat.le_refl _)
  have hdata := hkeep (ipHdrLen + tcpHdrLen) (Nat.le_add_right _ _)
  simp only [tcpPacket, hhdr, Nat.add_assoc, hdata]

end Bytes

section Layout
variable {frame : List UInt8} {pkt : Packet}

/-- tcp_rx reads the bytes at the fixed offsets. -/
theorem rxLayout_reads (h : netdevRx frame = .tcp pkt) : ReadsAt frame pkt (rxLayout pkt) := by
  have hpkt := ipRx_tcp_inv (netdevRx_tcp_inv h)
  have htcp := tcpPacket_tcp (hostIp (readIp ((ethHdr (rxBuf frame)).2.drop ethHdrLen))) frame
  rw [← hpkt] at htcp
  simp only [ReadsAt, rxLayout, htcp, and_self]

/-- At the fixed offsets the header is behind the IP header if that has no options, and the text is
behind the TCP header if that has none. -/
theorem rxLayout_eq_iff (h : netdevRx frame = .tcp pkt) (hihl : pkt.ip.ihl.toNat = 5)
    (hvalid : ValidOffset pkt.ip (dataOffsetAt frame (4 * pkt.ip.ihl.toNat))) :
    rxLayout pkt = wireLayout pkt.ip (dataOffsetAt frame (4 * pkt.ip.ihl.toNat)) ↔
      dataOffsetAt frame (4 * pkt.ip.ihl.toNat) = 5 := by
  have hoff : (pkt.tcp.hdr.dataOffset >>> 4).toNat = dataOffsetAt frame (4 * pkt.ip.ihl.toNat) := by
    rw [(rxLayout_reads h).1, dataOffsetAt, hihl]
    rfl
  obtain ⟨hlow, hhigh⟩ := hvalid
  have hlen := pkt.ip.len.toNat_lt
  have hseg : (segmentLen pkt).toNat =
      pkt.ip.len.toNat - (4 * pkt.ip.ihl.toNat + 4 *
        dataOffsetAt frame (4 * pkt.ip.ihl.toNat)) := by
    rw [ipPayloadLen] at hhigh
    rw [segmentLen, hoff, ipPayloadLen, UInt32.ofInt, UInt32.toNat_ofNat']
    omega
  generalize dataOffsetAt frame (4 * pkt.ip.ihl.toNat) = doff at *
  simp only [rxLayout, wireLayout, Layout.mk.injEq, hseg, hihl, ipHdrLen, tcpHdrLen,
    true_and, and_true]
  omega

end Layout

section Ignored
variable {c : Conn} {pkt : Packet}

theorem ackEstablished_same (hx : c.rx = []) (hl : c.tcbLock = false) :
    { ackEstablished c pkt with rx := [], tcbLock := false } = c ↔
      ackAdvances c.tcb pkt.tcp.hdr = false ∧ pkt.tcp.hdr.windowSize.toUInt32 = c.tcb.sndWnd := by
  constructor
  · intro h
    have hwnd : pkt.tcp.hdr.windowSize.toUInt32 = c.tcb.sndWnd := congrArg (fun d => d.tcb.sndWnd) h
    have huna : (takeAck c.tcb pkt.tcp.hdr).sndUna = c.tcb.sndUna :=
      congrArg (fun d => d.tcb.sndUna) h
    refine ⟨?_, hwnd⟩
    by_contra hadv
    rw [Bool.not_eq_false] at hadv
    simp only [takeAck, hadv, if_true] at huna
    simp [ackAdvances, huna] at hadv
  · rintro ⟨hadv, hwnd⟩
    have htcb : takeAck c.tcb pkt.tcp.hdr = c.tcb := by simp [takeAck, hadv]
    obtain ⟨self, tcb, msgs, calls, rx, tcbLock, closing, fresh, closeTimers, sent, read, fins,
        scheduled⟩ := c
    simp only at hx hl hadv hwnd htcb
    simp [ackEstablished, hadv, htcb, hwnd, hx, hl]

/-- Acts without text do not fill rcv_buff. -/
theorem rxStep_noText (h : ∀ p, .text p ∉ c.rx) :
    (rxStep c).tcb.rcvBuffLen = c.tcb.rcvBuffLen ∧ ∀ p, .text p ∉ (rxStep c).rx := by
  cases hrx : c.rx with
  | nil =>
    rw [rxStep_nil hrx]
    exact ⟨rfl, h⟩
  | cons act rest =>
    rw [hrx] at h
    have hrest : ∀ p, .text p ∉ rest := fun p hp => h p (List.mem_cons_of_mem act hp)
    cases act with
    | tx flags retries =>
      rw [rxStep_tx hrx]
      refine ⟨congrArg RecvSide.rcvBuffLen
        (recvSide_tcpTxEmpty { c with rx := rest } flags retries), ?_⟩
      have hkeep : (tcpTxEmpty { c with rx := rest } flags retries).rx = rest :=
        congrArg Control.rx (control_tcpTxEmpty { c with rx := rest } flags retries)
      rw [hkeep]
      exact hrest
    | text p => exact absurd (List.mem_cons_self ..) (h p)
    | fin p =>
      rw [rxStep_fin hrx]
      have hfin := rxFin_step c p
      generalize rxFin c p = c' at hfin ⊢
      cases hfin <;> simp
    | unlock =>
      rw [rxStep_unlock hrx]
      exact ⟨rfl, hrest⟩
    | timer =>
      rw [rxStep_timer hrx]
      exact ⟨rfl, hrest⟩

theorem rxStep_iterate_noText (n : Nat) (h : ∀ p, .text p ∉ c.rx) :
    (rxStep^[n] c).tcb.rcvBuffLen = c.tcb.rcvBuffLen := by
  induction n generalizing c with
  | zero => rfl
  | succ n ih =>
    obtain ⟨hlen, hnext⟩ := rxStep_noText h
    rw [Function.iterate_succ_apply, ih hnext, hlen]

theorem finalCopySize_zero_iff (tcb : Tcb) {dlen : UInt32} (hd : dlen ≠ 0) :
    finalCopySize tcb dlen = 0 ↔ tcb.rcvBuffLen = tcpRcvMax := by
  have hspace : tcpRcvMax - tcb.rcvBuffLen = 0 ↔ tcb.rcvBuffLen = tcpRcvMax := by
    rw [← UInt32.toNat_inj, ← UInt32.toNat_inj, UInt32.toNat_sub]
    have hlen := tcb.rcvBuffLen.toNat_lt
    have hmax := tcpRcvMax.toNat_lt
    simp only [UInt32.toNat_zero]
    omega
  simp only [finalCopySize, anpMin]
  split_ifs with h
  · have hpos : ¬ tcpRcvMax - tcb.rcvBuffLen = 0 := by
      intro hz
      rw [hz] at h
      exact absurd h (by simp)
    rw [← hspace]
    exact iff_of_false hd hpos
  · exact hspace

theorem saveDataAndAck_full {tcb : Tcb} {payload : List UInt8} {dlen : UInt32}
    (h : finalCopySize tcb dlen = 0) :
    saveDataAndAck tcb payload dlen = (tcb, false) := by
  have hcopy : tcb.rcvBuff.copyTo tcb.rcvBuffLen.toNat [] = tcb.rcvBuff := tcb.rcvBuff.copyTo_nil _
  simp only [saveDataAndAck, h, UInt32.toNat_zero, List.take_zero, hcopy, UInt32.add_zero]
  rfl

section Established
variable (hx : c.rx = []) (hs : c.tcb.state = .established) (hl : c.tcbLock = false)
  (hacc : accepted c.tcb pkt = true) (hack : hasFlag pkt.tcp.hdr.flags tcpAck = true)
include hs hl hacc hack

theorem tcpRxSwitch_ack : tcpRxSwitch c pkt = ackEstablished c pkt := by
  simp [tcpRxSwitch, hacc, hl, hs, hack]

/-- Text that stores nothing leaves the FIN bit to decide. -/
theorem tcpRx_noText
    (h : segmentLen pkt = 0 ∨ pkt.tcp.hdr.seqNum = c.tcb.rcvNxt ∧ c.tcb.rcvBuffLen = tcpRcvMax) :
    tcpRx c pkt = rxStep^[5] (rxFin { ackEstablished c pkt with rx := [.fin pkt] } pkt) := by
  have hrecv := recvSide_ackEstablished c pkt
  have hnxt : (ackEstablished c pkt).tcb.rcvNxt = c.tcb.rcvNxt := congrArg RecvSide.rcvNxt hrecv
  have hlen : (ackEstablished c pkt).tcb.rcvBuffLen = c.tcb.rcvBuffLen :=
    congrArg RecvSide.rcvBuffLen hrecv
  have htext : rxStep (ackEstablished c pkt) = { ackEstablished c pkt with rx := [.fin pkt] } := by
    rw [rxStep_text rfl, rxText]
    by_cases hz : segmentLen pkt = 0
    · rw [if_pos hz]
    · obtain ⟨hseq, hfull⟩ := h.resolve_left hz
      have hzero := (finalCopySize_zero_iff (ackEstablished c pkt).tcb hz).mpr (hlen.trans hfull)
      rw [if_neg hz, if_neg (not_not.mpr (hseq.trans hnxt.symm)), saveDataAndAck_full hzero]
      rfl
  rw [tcpRx, tcpRxSwitch_ack hs hl hacc hack, Function.iterate_succ_apply,
    Function.iterate_succ_apply, htext]
  rfl

theorem tcpRx_fin
    (h : segmentLen pkt = 0 ∨ pkt.tcp.hdr.seqNum = c.tcb.rcvNxt ∧ c.tcb.rcvBuffLen = tcpRcvMax) :
    if hasFlag pkt.tcp.hdr.flags tcpFin then (tcpRx c pkt).fins ≠ c.fins
    else tcpRx c pkt = { ackEstablished c pkt with rx := [], tcbLock := false } := by
  have hstate : (ackEstablished c pkt).tcb.state = .established := by
    simp only [ackEstablished, takeAck_state, hs]
  rw [tcpRx_noText hs hl hacc hack h]
  have hns : ¬ ((ackEstablished c pkt).tcb.state = .closed ∨
      (ackEstablished c pkt).tcb.state = .synSent) := by
    simp [hstate]
  have hnw : ¬ ((ackEstablished c pkt).tcb.state = .finWait1 ∨
      (ackEstablished c pkt).tcb.state = .finWait2) := by
    simp [hstate]
  have hidle (d : Conn) (hd : d.rx = []) (n : Nat) : rxStep^[n] d = d :=
    Function.iterate_fixed (rxStep_nil hd) n
  split_ifs with hfin
  · simp only [rxFin, hns, hfin, hnw, if_true, if_false]
    rw [hidle _ rfl]
    simp [ackEstablished]
  · simp only [rxFin, hns, hfin, if_false, Bool.false_eq_true]
    rw [Function.iterate_succ_apply, rxStep_unlock rfl, hidle _ rfl]

theorem tcpRx_stored (hz : segmentLen pkt ≠ 0) (hseq : pkt.tcp.hdr.seqNum = c.tcb.rcvNxt)
    (hfull : c.tcb.rcvBuffLen ≠ tcpRcvMax) : (tcpRx c pkt).tcb.rcvBuffLen ≠ c.tcb.rcvBuffLen := by
  have hrecv := recvSide_ackEstablished c pkt
  have hnxt : (ackEstablished c pkt).tcb.rcvNxt = c.tcb.rcvNxt := congrArg RecvSide.rcvNxt hrecv
  have hlen : (ackEstablished c pkt).tcb.rcvBuffLen = c.tcb.rcvBuffLen :=
    congrArg RecvSide.rcvBuffLen hrecv
  have hcopy : finalCopySize (ackEstablished c pkt).tcb (segmentLen pkt) ≠ 0 := by
    rw [Ne, finalCopySize_zero_iff _ hz, hlen]
    exact hfull
  have hstep : (rxStep (ackEstablished c pkt)).tcb.rcvBuffLen =
      c.tcb.rcvBuffLen + finalCopySize (ackEstablished c pkt).tcb (segmentLen pkt) ∧
      ∀ p, .text p ∉ (rxStep (ackEstablished c pkt)).rx := by
    rw [rxStep_text rfl, rxText, if_neg hz, if_neg (not_not.mpr (hseq.trans hnxt.symm)), ← hlen]
    refine ⟨rfl, fun p => ?_⟩
    dsimp only
    split_ifs <;> simp
  rw [tcpRx, tcpRxSwitch_ack hs hl hacc hack, Function.iterate_succ_apply,
    rxStep_iterate_noText 6 hstep.2, hstep.1]
  intro h
  exact hcopy (by simpa using h)

end Established

theorem tcpRx_same_iff (hx : c.rx = []) (hs : c.tcb.state = .established) (hl : c.tcbLock = false)
    (hacc : accepted c.tcb pkt = true) : tcpRx c pkt = c ↔ Ignored c.tcb pkt := by
  cases hack : hasFlag pkt.tcp.hdr.flags tcpAck with
  | false =>
    have hsw : tcpRxSwitch c pkt = c := by simp [tcpRxSwitch, hacc, hl, hs, hack]
    exact iff_of_true (tcpRx_dropped hx hsw) (.inl hack)
  | true =>
    simp only [Ignored, hack, Bool.true_eq_false, false_or]
    by_cases hout : segmentLen pkt ≠ 0 ∧ pkt.tcp.hdr.seqNum ≠ c.tcb.rcvNxt
    · rw [tcpRx_outOfOrder hs hl hacc hack hout.1 hout.2, ackEstablished_same hx hl]
      exact ⟨fun h => ⟨h.1, h.2, .inl hout⟩, fun h => ⟨h.1, h.2.1⟩⟩
    · have horder : segmentLen pkt = 0 ∨ pkt.tcp.hdr.seqNum = c.tcb.rcvNxt := by
        rwa [not_and_or, not_not, not_not] at hout
      by_cases hidle : segmentLen pkt = 0 ∨ c.tcb.rcvBuffLen = tcpRcvMax
      · have hfin :=
          tcpRx_fin hs hl hacc hack (hidle.elim .inl fun hfull => horder.imp_right fun hseq =>
            ⟨hseq, hfull⟩)
        split_ifs at hfin with hf
        · refine iff_of_false (fun h => hfin (congrArg Conn.fins h)) (fun h => ?_)
          rcases h.2.2 with h | ⟨-, h⟩
          · exact hout h
          · rw [hf] at h
            cases h
        · rw [hfin, ackEstablished_same hx hl]
          have hf : hasFlag pkt.tcp.hdr.flags tcpFin = false := by simpa using hf
          exact ⟨fun h => ⟨h.1, h.2, .inr ⟨hidle, hf⟩⟩, fun h => ⟨h.1, h.2.1⟩⟩
      · have hz : segmentLen pkt ≠ 0 := fun h => hidle (.inl h)
        have hstored :=
          tcpRx_stored hs hl hacc hack hz (horder.resolve_left hz) (fun h => hidle (.inr h))
        refine iff_of_false (fun h => hstored (congrArg (fun d => d.tcb.rcvBuffLen) h))
          (fun h => ?_)
        exact h.2.2.elim hout (fun h => hidle h.1)

end Ignored

theorem text_extraction {c : Conn} {frame : List UInt8} {pkt : Packet}
    (hrx : netdevRx frame = .tcp pkt) (hs : c.tcb.state = .established) (hl : c.tcbLock = false)
    (hx : c.rx = []) (hacc : accepted c.tcb pkt = true) :
    let doff := dataOffsetAt frame (4 * pkt.ip.ihl.toNat)
    ReadsAt frame pkt (rxLayout pkt) ∧
      (Extracted c frame pkt ↔
        (ValidOffset pkt.ip doff → pkt.ip.ihl.toNat = 5 ∧ (doff = 5 ∨ ¬ HandsText c.tcb pkt)) ∧
          (¬ ValidOffset pkt.ip doff → Ignored c.tcb pkt)) := by
  intro doff
  refine ⟨rxLayout_reads hrx, ?_⟩
  have hheader : (rxLayout pkt).header = (wireLayout pkt.ip doff).header ↔
      pkt.ip.ihl.toNat = 5 := by
    simp only [rxLayout, wireLayout, ipHdrLen]
    omega
  simp only [Extracted, tcpRx_same_iff hx hs hl hacc]
  refine and_congr_left (fun _ => forall_congr' fun hvalid => ?_)
  rw [hheader]
  refine and_congr_right (fun hihl => ?_)
  rw [rxLayout_eq_iff hrx hihl hvalid]
  tauto

def optionsFrame : List UInt8 :=
  List.replicate 12 0 ++ [0x08, 0x00] ++
    [0x45, 0, 0, 46, 0, 0, 0, 0, 64, 6, 102, 194, 10, 0, 0, 5, 10, 0, 0, 4] ++
    [168, 203, 192, 3, 0, 0, 19, 137, 0, 0, 3, 233, 0x60, 0x10, 3, 232, 157, 50, 0, 0] ++
    [1, 1, 1, 0] ++ [104, 105]

def rxPacketOf (frame : List UInt8) : Packet :=
  let buf := (ethHdr (rxBuf frame)).2
  let ih := hostIp (readIp (buf.drop ethHdrLen))
  tcpPacket ih (overwrite ethHdrLen (ipMem ih) buf)

theorem optionsFrame_received : netdevRx optionsFrame = .tcp (rxPacketOf optionsFrame) := by
  decide +kernel

theorem optionsFrame_accepted :
    accepted (sampleOpen 1000 1000).tcb (rxPacketOf optionsFrame) = true := by
  decide +kernel

theorem optionsFrame_offset :
    ValidOffset (rxPacketOf optionsFrame).ip
      (dataOffsetAt optionsFrame (4 * (rxPacketOf optionsFrame).ip.ihl.toNat)) := by
  constructor <;> decide +kernel

theorem optionsFrame_text : HandsText (sampleOpen 1000 1000).tcb (rxPacketOf optionsFrame) :=
  ⟨by decide +kernel, by decide +kernel, by decide +kernel⟩

theorem text_extraction_sample :
    let c := sampleOpen 1000 1000
    let pkt := rxPacketOf optionsFrame
    netdevRx optionsFrame = .tcp pkt ∧ accepted c.tcb pkt = true ∧
      ReadsAt optionsFrame pkt (rxLayout pkt) :=
  ⟨optionsFrame_received, optionsFrame_accepted,
    (text_extraction optionsFrame_received (by decide +kernel) (by decide +kernel)
      (by decide +kernel)
      optionsFrame_accepted).1⟩

/-- The first two bytes of the options are taken for the text. -/
theorem options_taken_for_text :
    ¬ ∀ (c : Conn) (frame : List UInt8) (pkt : Packet), netdevRx frame = .tcp pkt →
      c.tcb.state = .established →
      c.tcbLock = false → c.rx = [] → accepted c.tcb pkt = true → Extracted c frame pkt := by
  intro h
  have hext := h (sampleOpen 1000 1000) optionsFrame (rxPacketOf optionsFrame) optionsFrame_received
    (by decide +kernel) (by decide +kernel) (by decide +kernel) optionsFrame_accepted
  have hlayout := (hext.1 optionsFrame_offset).2 optionsFrame_text
  exact absurd (congrArg Layout.text hlayout) (by decide +kernel)

end AnpNetstack.Wire
