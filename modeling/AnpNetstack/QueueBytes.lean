import AnpNetstack.SameFrames

/-! The queue with bytes behaves as the queue of segments does. What an entry is there can be read
off the memory behind the two headers, also after stop_retransmit has given it another packet. -/
namespace AnpNetstack.Wire
open Packed Runs History

section Entry

def segmentAt (buf : List UInt8) (off : Nat) : TcpSegment where
  hdr := hostTcp (readTcp (buf.drop off))
  data := (buf.drop off).drop tcpHdrLen

def Message.entry (m : Message) : TcpMessage where
  tcb := m.tcb
  sub := segmentAt m.sub.buf (ethHdrLen + ipHdrLen)
  tcpPtr := segmentAt m.tcpBuf m.tcpPtr
  tcpLen := m.tcpLen
  tcpDataLen := m.tcpDataLen
  retries := m.retries

/-- tcp_ptr stands behind two headers and in front of the whole segment. -/
structure Shaped (m : Message) : Prop where
  tcpPtr : m.tcpPtr = ethHdrLen + ipHdrLen
  tcpBuf : m.tcpBuf.length = m.tcpPtr + tcpHdrLen + m.tcpDataLen.toNat
  sub : ethHdrLen + ipHdrLen ≤ m.sub.buf.length
  size : m.tcpDataLen.toNat ≤ 1460

theorem Shaped.room {m : Message} (h : Shaped m) : m.tcpPtr + 8 ≤ m.tcpBuf.length := by
  have hlen := h.tcpBuf
  rw [tcpHdrLen] at hlen
  omega

theorem segmentAt_create (tcb : Tcb) {data : List UInt8} {n : UInt32} (flags : UInt8)
    (hlen : n.toNat ≤ data.length) (hmax : n.toNat ≤ 1460) :
    segmentAt (createTcpPacket tcb data n flags).1.buf (ethHdrLen + ipHdrLen) =
      (AnpNetstack.createTcpPacket tcb data n flags).1 := by
  have htake : (data.take n.toNat).length = n.toNat := by
    rw [List.length_take]
    exact Nat.min_eq_left hlen
  have hhost := hostTcp_sent tcb (data.take n.toNat) flags (by omega)
  rw [htake, UInt32.ofNat_toNat] at hhost
  have hsame : AnpNetstack.createTcpPacket tcb (data.take n.toNat) n flags =
      AnpNetstack.createTcpPacket tcb data n flags := by
    simp only [AnpNetstack.createTcpPacket, List.take_take, Nat.min_self]
  have hbuf := congrArg Subuff.buf (createTcpPacket_sub tcb data n flags hlen)
  dsimp only at hbuf
  have hdrop : (createTcpPacket tcb data n flags).1.buf.drop (ethHdrLen + ipHdrLen) =
      tcpMem (sentTcpHdr tcb (data.take n.toNat) flags) ++ data.take n.toNat := by
    rw [hbuf]
    exact drop_middle rfl
  have hdata : (tcpMem (sentTcpHdr tcb (data.take n.toNat) flags) ++
      data.take n.toNat).drop tcpHdrLen =
      data.take n.toNat := drop_middle (tcpMem_length _)
  rw [segmentAt, hdrop, readTcp_tcpMem, hdata, hhost, hsame]
  rfl

theorem newMessage_entry (q : WireQueue) (seg : NewSegment) :
    Shaped (q.newMessage seg) ∧ (q.newMessage seg).entry =
      { tcb := seg.self
        sub := (AnpNetstack.createTcpPacket seg.tcb seg.data (UInt32.ofNat seg.data.length)
          seg.flags).1
        tcpPtr := (AnpNetstack.createTcpPacket seg.tcb seg.data (UInt32.ofNat seg.data.length)
          seg.flags).1
        tcpLen := 20 + UInt32.ofNat seg.data.length
        tcpDataLen := UInt32.ofNat seg.data.length
        retries := UInt32.ofInt seg.retries } := by
  have hi := newMessage_intact q seg
  have hn := seg.data_toNat
  have hsize := seg.data_le
  obtain ⟨eth, old, hbuf, heth, hold, -⟩ := hi.buf
  have htcp : (q.newMessage seg).tcpBuf = (q.newMessage seg).sub.buf := rfl
  have hlen : (q.newMessage seg).sub.buf.length = 54 + seg.data.length := by
    rw [hbuf, List.length_append, List.length_append, heth, hold, seg.bytes_length, ethHdrLen]
    omega
  have hseg : segmentAt (q.newMessage seg).sub.buf (ethHdrLen + ipHdrLen) =
      (AnpNetstack.createTcpPacket seg.tcb seg.data (UInt32.ofNat seg.data.length) seg.flags).1 :=
    segmentAt_create seg.tcb seg.flags (by omega) (by omega)
  refine ⟨⟨hi.tcpPtr, ?_, ?_, ?_⟩, ?_⟩
  · rw [htcp, hlen, hi.tcpPtr, hi.tcpDataLen, hn]
    simp only [ethHdrLen, ipHdrLen, tcpHdrLen]
  · rw [hlen]
    simp only [ethHdrLen, ipHdrLen]
    omega
  · rw [hi.tcpDataLen, hn]
    exact hsize
  · rw [Message.entry, htcp, hi.tcpPtr, hseg, hi.tcpLen, hi.tcpDataLen]
    rfl

theorem seqNum_entry (m : Message) : m.entry.tcpPtr.hdr.seqNum = ntohl m.seqNum := by
  have hdrop : (m.tcpBuf.drop m.tcpPtr).drop 4 = m.tcpBuf.drop (m.tcpPtr + 4) := List.drop_drop
  rw [Message.seqNum, ← hdrop]
  rfl

theorem setSeqNum_tcpDataLen (m : Message) (seq : UInt32) :
    (m.setSeqNum seq).tcpDataLen = m.tcpDataLen := by
  unfold Message.setSeqNum Message.setTcpBuf
  split <;> rfl

/-- The text behind a sequence number does not depend on it. -/
theorem setSeqNum_text {m : Message} (h : m.tcpPtr + 8 ≤ m.tcpBuf.length) (seq : UInt32) (k : Nat) :
    (m.setSeqNum seq).tcpBuf.drop ((m.setSeqNum seq).tcpPtr + tcpHdrLen + k) =
      m.entry.tcpPtr.data.drop k := by
  have hfour : (le32 seq).length = 4 := rfl
  rw [Message.setSeqNum, Message.setTcpBuf_tcpBuf, Message.setTcpBuf_tcpPtr,
    drop_overwrite (by omega) (by rw [hfour, tcpHdrLen]; omega)]
  simp only [Message.entry, segmentAt, List.drop_drop, Nat.add_assoc]

theorem repack_size {seq len una : UInt32} (hlt : seq < una) (hin : una < seq + len) :
    (una - seq).toNat < len.toNat ∧ (len - (una - seq)).toNat = len.toNat - (una - seq).toNat := by
  have hsub := UInt32.toNat_sub_of_le una seq (UInt32.le_of_lt hlt)
  have hs := seq.toNat_lt
  have hl := len.toNat_lt
  have hu := una.toNat_lt
  rw [UInt32.lt_iff_toNat_lt] at hlt hin
  rw [UInt32.toNat_add] at hin
  have hless : (una - seq).toNat < len.toNat := by omega
  exact ⟨hless, UInt32.toNat_sub_of_le _ _ (UInt32.le_iff_toNat_le.mpr (Nat.le_of_lt hless))⟩

/-- stop_retransmit writes both sequence numbers into the packet that it frees. -/
theorem repack_back {m : Message} (h : m.tcpPtr + 8 ≤ m.tcpBuf.length) (tcb : Tcb) :
    let host := m.setSeqNum (ntohl m.seqNum)
    let newSub := (host.repack tcb).sub
    (host.repack tcb).setSeqNum (htonl (host.repack tcb).seqNum) =
      { m with sub := newSub, freed := some m.tcpBuf } := by
  intro host newSub
  have hseq : (host.repack tcb).seqNum = host.seqNum := rfl
  have hback : (host.setSeqNum (htonl host.seqNum)).tcpBuf = m.tcpBuf :=
    congrArg Message.tcpBuf (Message.setSeqNum_back h)
  have hbytes : overwrite (host.tcpPtr + 4) (le32 (htonl host.seqNum)) host.tcpBuf = m.tcpBuf := by
    rwa [Message.setSeqNum, Message.setTcpBuf_tcpBuf] at hback
  have hfields : (host.repack tcb).setTcpBuf m.tcpBuf =
      { m with sub := newSub, freed := some m.tcpBuf } := by
    obtain ⟨number, owner, sub, tcpPtr, tcpLen, tcpDataLen, retries, freed⟩ := m
    cases freed with
    | none => rfl
    | some old => rfl
  rw [hseq, Message.setSeqNum, ← hfields]
  exact congrArg _ hbytes

theorem Shaped.text_length {m : Message} (h : Shaped m) :
    m.entry.tcpPtr.data.length = m.tcpDataLen.toNat := by
  have hlen := h.tcpBuf
  simp only [Message.entry, segmentAt, List.length_drop]
  omega

/-- The packet that stop_retransmit builds has what is left of the text. -/
theorem repack_entry {m : Message} (h : Shaped m) {tcb : Tcb} (hlt : ntohl m.seqNum < tcb.sndUna)
    (hin : tcb.sndUna < ntohl m.seqNum + m.tcpDataLen) :
    let bytesAcked := tcb.sndUna - ntohl m.seqNum
    let m' : Message :=
      { m with sub := ((m.setSeqNum (ntohl m.seqNum)).repack tcb).sub, freed := some m.tcpBuf }
    Shaped m' ∧ m'.entry = { m.entry with
      sub := (AnpNetstack.createTcpPacket tcb (m.entry.tcpPtr.data.drop bytesAcked.toNat)
        (m.tcpDataLen - bytesAcked) tcpAck).1 } := by
  intro bytesAcked m'
  obtain ⟨hacked, hleft⟩ := repack_size hlt hin
  have hseq := Message.seqNum_setSeqNum h.room (ntohl m.seqNum)
  have hdlen := setSeqNum_tcpDataLen m (ntohl m.seqNum)
  have hsub : m'.sub.buf = (createTcpPacket tcb (m.entry.tcpPtr.data.drop bytesAcked.toNat)
      (m.tcpDataLen - bytesAcked) tcpAck).1.buf := by
    rw [← setSeqNum_text h.room (ntohl m.seqNum)]
    simp only [m', Message.repack, hseq, hdlen, bytesAcked]
  have hroom : (m.tcpDataLen - bytesAcked).toNat ≤
      (m.entry.tcpPtr.data.drop bytesAcked.toNat).length := by
    rw [List.length_drop, h.text_length, hleft]
  have hmax : (m.tcpDataLen - bytesAcked).toNat ≤ 1460 := by
    have hsize := h.size
    rw [hleft]
    omega
  refine ⟨⟨h.tcpPtr, h.tcpBuf, ?_, h.size⟩, ?_⟩
  · rw [hsub, createTcpPacket_sub _ _ _ _ hroom, List.length_append, List.length_replicate,
      ethHdrLen, ipHdrLen]
    exact Nat.le_add_right 34 _
  · rw [← segmentAt_create tcb tcpAck hroom hmax, ← hsub]
    rfl

/-- stop_retransmit does the same with the bytes of an entry and with its segment. -/
theorem stop_entry {m : Message} (h : Shaped m) (self : Nat) (tcb : Tcb) :
    stopEntry self tcb m.entry = (Message.stop self tcb m).map Message.entry ∧
      ∀ m', Message.stop self tcb m = some m' → Shaped m' := by
  have hseq := Message.seqNum_setSeqNum h.room (ntohl m.seqNum)
  have hback := Message.setSeqNum_back h.room
  have hrepack := repack_back h.room tcb
  dsimp only at hrepack
  have hdlen := setSeqNum_tcpDataLen m (ntohl m.seqNum)
  have hentry := seqNum_entry m
  have howner : m.entry.tcb = m.tcb := rfl
  have hlen : m.entry.tcpDataLen = m.tcpDataLen := rfl
  simp only [Message.stop, stopEntry, hback, hrepack, hdlen, hentry, howner, hlen]
  rw [hseq]
  split_ifs with hself hlt hin
  · obtain ⟨hshaped, hsame⟩ := repack_entry h hlt hin
    refine ⟨?_, ?_⟩
    · rw [Option.map_some, hsame]
      rfl
    · intro m' hm'
      rw [← Option.some.inj hm']
      exact hshaped
  · exact ⟨rfl, fun m' hm' => hm'.elim⟩
  · exact ⟨rfl, fun m' hm' => Option.some.inj hm' ▸ h⟩
  · exact ⟨rfl, fun m' hm' => Option.some.inj hm' ▸ h⟩

end Entry

section Output

theorem segmentAt_of_sameFrom {off : Nat} {buf buf' : List UInt8} (h : SameFrom off buf buf') :
    segmentAt buf' off = segmentAt buf off := by
  rw [segmentAt, segmentAt, h.2]

structure SameSegments (m m' : Message) : Prop where
  rest : { m' with sub := m.sub, freed := m.freed } = m
  sub : SameFrom (ethHdrLen + ipHdrLen) m.sub.buf m'.sub.buf
  tcpBuf : SameFrom (ethHdrLen + ipHdrLen) m.tcpBuf m'.tcpBuf

theorem SameSegments.trans {m m' m'' : Message} (h : SameSegments m m') (h' : SameSegments m' m'') :
    SameSegments m m'' where
  rest := calc
    { m'' with sub := m.sub, freed := m.freed } =
        { { m'' with sub := m'.sub, freed := m'.freed } with sub := m.sub, freed := m.freed } := rfl
    _ = { m' with sub := m.sub, freed := m.freed } := by rw [h'.rest]
    _ = m := h.rest
  sub := h.sub.trans h'.sub
  tcpBuf := h.tcpBuf.trans h'.tcpBuf

theorem SameSegments.entry {m m' : Message} (h : SameSegments m m') (hm : Shaped m) :
    Shaped m' ∧ m'.entry = m.entry := by
  have hptr : m'.tcpPtr = m.tcpPtr := (congrArg Message.tcpPtr h.rest :)
  have hdlen : m'.tcpDataLen = m.tcpDataLen := (congrArg Message.tcpDataLen h.rest :)
  have htcb : m'.tcb = m.tcb := (congrArg Message.tcb h.rest :)
  have hlen : m'.tcpLen = m.tcpLen := (congrArg Message.tcpLen h.rest :)
  have hretries : m'.retries = m.retries := (congrArg Message.retries h.rest :)
  have hsame : segmentAt m'.tcpBuf m.tcpPtr = segmentAt m.tcpBuf m.tcpPtr := by
    rw [hm.tcpPtr]
    exact segmentAt_of_sameFrom h.tcpBuf
  refine ⟨⟨hptr.trans hm.tcpPtr, ?_, ?_, ?_⟩, ?_⟩
  · rw [h.tcpBuf.1, hptr, hdlen, hm.tcpBuf]
  · rw [h.sub.1]
    exact hm.sub
  · rw [hdlen]
    exact hm.size
  · rw [Message.entry, Message.entry, htcb, segmentAt_of_sameFrom h.sub, hptr, hsame, hlen,
      hdlen, hretries]

theorem sameSegments_setTcpBuf {m : Message} {buf : List UInt8}
    (h : SameFrom (ethHdrLen + ipHdrLen) m.tcpBuf buf) :
    SameSegments m (m.setTcpBuf buf) := by
  obtain ⟨number, tcb, sub, tcpPtr, tcpLen, tcpDataLen, retries, freed⟩ := m
  cases freed with
  | none => exact ⟨rfl, h, h⟩
  | some old => exact ⟨rfl, SameFrom.refl _ _, h⟩

/-- The packet itself is another one, with the old bytes behind the headers. -/
theorem sameSegments_sub {m : Message} {sub : Subuff}
    (h : SameFrom (ethHdrLen + ipHdrLen) m.sub.buf sub.buf) :
    SameSegments m { m with sub := sub } := by
  obtain ⟨number, tcb, old, tcpPtr, tcpLen, tcpDataLen, retries, freed⟩ := m
  cases freed with
  | none => exact ⟨rfl, h, h⟩
  | some old => exact ⟨rfl, h, SameFrom.refl _ _⟩

theorem sentSub_behind {sub : Subuff} (h : ethHdrLen + ipHdrLen ≤ sub.buf.length) (dev : NetDev)
    (daddr : UInt32) :
    SameFrom (ethHdrLen + ipHdrLen) sub.buf (sentSub dev daddr sub).buf := by
  obtain ⟨eth, old, rest, hbuf, heth, hold⟩ := split_at h
  have hsent := congrArg Subuff.buf (sentSub_buf dev daddr hbuf heth hold)
  dsimp only at hsent
  rw [hsent, hbuf]
  have hdrop {hdr : List UInt8} (hh : hdr.length = ipHdrLen) :
      (eth ++ (hdr ++ rest)).drop (ethHdrLen + ipHdrLen) = rest := by
    rw [← List.drop_drop, drop_middle heth, drop_middle hh]
  constructor
  · simp only [List.length_append, ipMem_length, hold, ipHdrLen]
  · rw [hdrop hold, hdrop (ipMem_length _)]

theorem transmittedSub_behind {dev : NetDev} {sub : Subuff} (hdata : sub.data = ethHdrLen)
    (haddr : dev.addrLen = 6) (h : ethHdrLen + ipHdrLen ≤ sub.buf.length) (mac : List UInt8)
    (ethertype : UInt16) :
    SameFrom (ethHdrLen + ipHdrLen) sub.buf (transmittedSub dev sub mac ethertype).buf := by
  have hsix : dev.addrLen.toNat = 6 := by rw [haddr]; rfl
  have hm : (mac.take 6).length ≤ 6 := List.length_take_le 6 mac
  have hw : (dev.hwaddr.take 6).length ≤ 6 := List.length_take_le 6 dev.hwaddr
  have htype : (le16 (htons ethertype)).length = 2 := rfl
  have hbuf : (transmittedSub dev sub mac ethertype).buf = overwrite 12 (le16 (htons ethertype))
      (overwrite 6 (dev.hwaddr.take 6) (overwrite 0 (mac.take 6) sub.buf)) := by
    simp only [transmittedSub, subPush, hdata, hsix, ethHdrLen]
  simp only [ethHdrLen, ipHdrLen] at h ⊢
  have hdst : SameFrom (14 + 20) sub.buf (overwrite 0 (mac.take 6) sub.buf) :=
    sameFrom_overwrite (by omega) h
  have hsrc : SameFrom (14 + 20) sub.buf
      (overwrite 6 (dev.hwaddr.take 6) (overwrite 0 (mac.take 6) sub.buf)) :=
    hdst.trans (sameFrom_overwrite (by omega) (hdst.1 ▸ h))
  rw [hbuf]
  exact hsrc.trans (sameFrom_overwrite (by omega) (hsrc.1 ▸ h))

/-- Whatever comes of an attempt, ip_output writes in front of the segments only. -/
theorem output_sameSegments {m : Message} (hm : Shaped m) (cache : List ArpCacheEntry)
    (daddr : UInt32) :
    SameSegments m (m.reset.ipOutput routeInit cache daddr).2 := by
  obtain ⟨rt, hrt⟩ : ∃ rt, routeLookup daddr routeInit = some rt := routeLookup_some _ _ _
  obtain ⟨haddr, -⟩ := routeInit_dev (routeLookup_mem hrt)
  let sent := sentSub rt.dev daddr m.reset.sub
  have hlong : ethHdrLen + ipHdrLen ≤ m.reset.sub.buf.length := hm.sub
  have hsent : SameSegments m { m with sub := sent } :=
    sameSegments_sub (sentSub_behind hlong rt.dev daddr)
  have hdata : sent.data = ethHdrLen := by
    obtain ⟨eth, old, rest, hbuf, heth, hold⟩ := split_at hlong
    have hd : sent.data = m.tcpPtr - ipHdrLen :=
      congrArg Subuff.data (sentSub_buf rt.dev daddr hbuf heth hold)
    rw [hd, hm.tcpPtr, Nat.add_sub_cancel]
  unfold Message.ipOutput
  simp only [hrt]
  split
  · next mac hmac =>
    let body : Message := { m with sub := sent }
    let base : Subuff := { sent with buf := body.tcpBuf }
    let frame := transmittedSub rt.dev base mac ethPIp
    have hroom : ethHdrLen + ipHdrLen ≤ base.buf.length := by
      rw [hsent.tcpBuf.1, hm.tcpBuf, hm.tcpPtr]
      exact (Nat.le_add_right _ _).trans (Nat.le_add_right _ _)
    have hstart : base.data = ethHdrLen := hdata
    have hbehind : SameFrom (ethHdrLen + ipHdrLen) body.tcpBuf frame.buf :=
      transmittedSub_behind hstart haddr hroom mac ethPIp
    have hmoved : SameSegments body { body with
        sub := { sent with data := frame.data, len := frame.len } } :=
      sameSegments_sub (SameFrom.refl _ _)
    exact hsent.trans (hmoved.trans (sameSegments_setTcpBuf hbehind))
  · exact hsent

end Output

section Refinement

inductive SegmentEvent where
  | add (seg : NewSegment)
  | stop (self : Nat) (tcb : Tcb)
  | pass

def segmentStep (msgs : List TcpMessage) : SegmentEvent → List TcpMessage
  | .add seg =>
    AnpNetstack.addMsgToArr true seg.self
      (AnpNetstack.createTcpPacket seg.tcb seg.data (UInt32.ofNat seg.data.length) seg.flags).1
      (UInt32.ofNat seg.data.length) seg.retries msgs
  | .stop self tcb => AnpNetstack.stopRetransmit self tcb msgs
  | .pass => tcpRetransmitHandler msgs

/-- A pass counts when it comes to its end; until then all others wait for msg_arr_lock. -/
def WireQueue.segmentEvents (q : WireQueue) : QueueEvent → List SegmentEvent
  | .add seg alloc => if q.busy || !alloc then [] else [.add seg]
  | .stop self tcb => if q.busy then [] else [.stop self tcb]
  | .finish => if q.busy && q.todo.isEmpty then [.pass] else []
  | _ => []

/-- During a pass, `walked` is the part of the queue that it has already got out. -/
structure Refines (q : WireQueue) (msgs : List TcpMessage) : Prop where
  shaped : ∀ m ∈ q.messagesArray, Shaped m
  idle : q.busy = false → q.todo = [] ∧ q.passed.map Message.entry = msgs
  walking : q.busy = true → ∃ walked, msgs = walked ++ q.todo.map Message.entry ∧
    q.passed.map Message.entry = tcpRetransmitHandler walked

variable {q : WireQueue} {msgs : List TcpMessage}

theorem Refines.add (h : Refines q msgs) (seg : NewSegment) (hb : q.busy = false) :
    Refines { q with added := q.added ++ [seg], passed := q.passed ++ [q.newMessage seg] }
      (segmentStep msgs (.add seg)) := by
  obtain ⟨htodo, hmsgs⟩ := h.idle hb
  obtain ⟨hshaped, hentry⟩ := newMessage_entry q seg
  refine ⟨?_, fun _ => ⟨htodo, ?_⟩, fun hb' => absurd (hb.symm.trans hb') Bool.false_ne_true⟩
  · intro m hm
    cases WireQueue.mem_between hm with
    | inl hm => exact List.mem_singleton.mp hm ▸ hshaped
    | inr hm => exact h.shaped m hm
  · rw [List.map_append, List.map_singleton, hmsgs, hentry]
    rfl

theorem Refines.stop (h : Refines q msgs) (self : Nat) (tcb : Tcb) (hb : q.busy = false) :
    Refines { q with passed := q.passed.filterMap (Message.stop self tcb) }
      (segmentStep msgs (.stop self tcb)) := by
  obtain ⟨htodo, hmsgs⟩ := h.idle hb
  refine ⟨?_, fun _ => ⟨htodo, ?_⟩, fun hb' => absurd (hb.symm.trans hb') Bool.false_ne_true⟩
  · intro m' hm'
    cases List.mem_append.mp hm' with
    | inl hm' =>
      obtain ⟨m, hm, hs⟩ := List.mem_filterMap.mp hm'
      exact (stop_entry (h.shaped m (List.mem_append_left _ hm)) self tcb).2 m' hs
    | inr hm' => exact h.shaped m' (List.mem_append_right _ hm')
  · have hall : ∀ m ∈ q.passed, (Message.stop self tcb m).map Message.entry =
        stopEntry self tcb m.entry :=
      fun m hm => (stop_entry (h.shaped m (List.mem_append_left _ hm)) self tcb).1.symm
    rw [segmentStep, AnpNetstack.stopRetransmit, ← hmsgs, List.map_filterMap, List.filterMap_map]
    exact List.filterMap_congr hall

theorem Refines.again (h : Refines q msgs) {m m' : Message} {rest : List Message}
    (hb : q.busy = true) (hq : q.todo = m :: rest) (hshaped : Shaped m')
    (hentry : m'.entry = m.entry) (log : List Note) :
    Refines { q with todo := m' :: rest, log := log } msgs := by
  obtain ⟨walked, hmsgs, hpassed⟩ := h.walking hb
  refine ⟨?_, fun hb' => absurd (hb.symm.trans hb') Bool.false_ne_true.symm,
    fun _ => ⟨walked, ?_, hpassed⟩⟩
  · intro x hx
    rcases WireQueue.mem_swapped hx with rfl | hx
    · exact hshaped
    · exact h.shaped x (WireQueue.mem_others hq hx)
  · rw [hmsgs, hq, List.map_cons, List.map_cons, hentry]

theorem Refines.out (h : Refines q msgs) {m m' : Message} {rest : List Message} (hb : q.busy = true)
    (hq : q.todo = m :: rest) (hshaped : Shaped m') (hentry : m'.entry = m.entry)
    (log : List Note) :
    Refines { q with
      passed := q.passed ++ ((retriesLeft m.retries).map fun k => { m' with retries := k }).toList
      todo := rest
      log := log } msgs := by
  obtain ⟨walked, hmsgs, hpassed⟩ := h.walking hb
  refine ⟨?_, fun hb' => absurd (hb.symm.trans hb') Bool.false_ne_true.symm,
    fun _ => ⟨walked ++ [m.entry], ?_, ?_⟩⟩
  · intro x hx
    cases WireQueue.mem_between hx with
    | inl hx =>
      obtain ⟨k, -, rfl⟩ := Option.map_eq_some_iff.mp (Option.mem_toList.mp hx)
      exact ⟨hshaped.tcpPtr, hshaped.tcpBuf, hshaped.sub, hshaped.size⟩
    | inr hx => exact h.shaped x (WireQueue.mem_others hq hx)
  · rw [hmsgs, hq, List.map_cons, List.append_assoc, List.singleton_append]
  · have hretries : m'.entry.retries = m.retries := congrArg TcpMessage.retries hentry
    have hcounted : (retransmitEntry m.entry).toList =
        ((retriesLeft m.retries).map fun k => { m' with
          retries := k }).toList.map Message.entry := by
      rw [retransmitEntry_eq, ← hentry, hretries]
      cases retriesLeft m.retries with
      | none => rfl
      | some k => rfl
    rw [List.map_append, hpassed, ← hcounted, tcpRetransmitHandler, tcpRetransmitHandler,
      List.filterMap_append]
    cases hm : retransmitEntry m.entry with
    | none => rw [List.filterMap_cons_none hm]; rfl
    | some entry => rw [List.filterMap_cons_some hm]; rfl

/-- One call of ip_output takes the walk at most one entry further. -/
theorem Refines.output (h : Refines q msgs) (remoteIp : Nat → UInt32) (hb : q.busy = true) :
    Refines (q.output remoteIp) msgs := by
  unfold WireQueue.output
  split
  · exact h
  · next m rest hq =>
    have hm : Shaped m := h.shaped m (WireQueue.mem_current hq)
    have htcb : m.reset.tcb = m.tcb := rfl
    obtain ⟨hshaped, hentry⟩ := (output_sameSegments hm q.cache (remoteIp m.tcb)).entry hm
    simp only [htcb]
    generalize m.reset.ipOutput routeInit q.cache (remoteIp m.tcb) = r at hshaped hentry ⊢
    obtain ⟨out, m'⟩ := r
    cases out with
    | again src dst => exact h.again hb hq hshaped hentry _
    | noRoute => exact h.out hb hq hshaped hentry _
    | written frame => exact h.out hb hq hshaped hentry _

theorem Refines.step (h : Refines q msgs) (remoteIp : Nat → UInt32) (e : QueueEvent) :
    Refines (queueStep remoteIp q e) (run segmentStep msgs (q.segmentEvents e)) := by
  cases e with
  | arp cache => exact ⟨h.shaped, h.idle, h.walking⟩
  | add seg alloc =>
    simp only [queueStep, WireQueue.addMsgToArr, WireQueue.segmentEvents]
    split_ifs with hc
    · exact h
    · exact h.add seg (Bool.or_eq_false_iff.mp (Bool.not_eq_true _ ▸ hc)).1
  | stop self tcb =>
    simp only [queueStep, WireQueue.stopRetransmit, WireQueue.segmentEvents]
    split_ifs with hc
    · exact h
    · exact h.stop self tcb (Bool.not_eq_true _ ▸ hc)
  | begin =>
    simp only [queueStep, WireQueue.begin, WireQueue.segmentEvents]
    split_ifs with hc
    · exact h
    · obtain ⟨-, hmsgs⟩ := h.idle (Bool.not_eq_true _ ▸ hc)
      refine ⟨fun m hm => h.shaped m (List.mem_append_left _ hm),
        fun hb' => absurd hb'.symm Bool.false_ne_true, fun _ => ⟨[], ?_, rfl⟩⟩
      exact hmsgs.symm
  | output =>
    simp only [queueStep, WireQueue.segmentEvents]
    split_ifs with hc
    · exact h.output remoteIp hc
    · exact h
  | finish =>
    simp only [queueStep, WireQueue.finish, WireQueue.segmentEvents]
    split_ifs with hc
    · obtain ⟨hb, ht⟩ := Bool.and_eq_true_iff.mp hc
      have hempty : q.todo = [] := List.isEmpty_iff.mp ht
      obtain ⟨walked, hmsgs, hpassed⟩ := h.walking hb
      rw [hempty, List.map_nil, List.append_nil] at hmsgs
      refine ⟨h.shaped, fun _ => ⟨hempty, ?_⟩, fun hb' => absurd hb' Bool.false_ne_true⟩
      rw [hmsgs]
      exact hpassed
    · exact h

/-- The queue of bytes behaves as the queue of segments. -/
theorem queue_refines (remoteIp : Nat → UInt32) (cache : List ArpCacheEntry)
    (es : List QueueEvent) :
    Refines (run (queueStep remoteIp) (emptyQueue cache) es)
      (run segmentStep [] (translate (queueStep remoteIp) WireQueue.segmentEvents
        (emptyQueue cache) es)) := by
  refine run_simulation (queueStep remoteIp) (fun _ _ e h => h.step remoteIp e) ⟨?_,
    fun _ => ⟨rfl, rfl⟩, ?_⟩ es
  · intro m hm
    exact absurd hm List.not_mem_nil
  · intro hb
    exact absurd hb Bool.false_ne_true

end Refinement

end AnpNetstack.Wire
