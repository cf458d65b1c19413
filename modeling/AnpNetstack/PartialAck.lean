import AnpNetstack.FrameBytes

/-! An acknowledgement inside a queued segment. stop_retransmit builds a packet with the rest of the
text and puts it into the entry, but the pass goes by tcp_ptr and tcp_len, which still describe the
packet that was queued. -/
namespace AnpNetstack

/-- What tcp_retransmit_handler gives to ip_output for an entry: tcp_len bytes from tcp_ptr on. -/
def retransmitted (entry : TcpMessage) : TcpSegment :=
  { entry.tcpPtr with data := entry.tcpPtr.data.take (entry.tcpLen - 20).toNat }

/-- With the bytes of the packets: the frame of an attempt carries just this segment. -/
theorem Wire.Framed.retransmitted {routes : List RtEntry} {rt : RtEntry} {daddr : UInt32}
    {m : Wire.Message} (h : Wire.Framed rt.dev daddr m) (hrt : routeLookup daddr routes = some rt)
    (hdev : Wire.NetDev.Ethernet rt.dev) {cache : List ArpCacheEntry} {frame : List UInt8}
    (hf : (m.reset.ipOutput routes cache daddr).1 = .written frame) :
    Wire.segmentAt frame (ethHdrLen + ipHdrLen) = AnpNetstack.retransmitted m.entry := by
  rw [h.written hrt hdev hf]
  have hlen : m.entry.tcpLen = 20 + m.tcpDataLen := h.tcpLen
  have htext := h.shaped.text_length
  have hall : m.entry.tcpPtr.data.take (m.entry.tcpLen - 20).toNat = m.entry.tcpPtr.data := by
    rw [hlen, UInt32.add_comm, UInt32.add_sub_cancel]
    exact List.take_of_length_le htext.le
  rw [AnpNetstack.retransmitted, hall]

/-- snd_una lies inside the text of the entry, and its sequence numbers do not wrap. -/
structure PartlyAcked (block : Nat) (tcb : Tcb) (entry : TcpMessage) : Prop where
  owner : entry.tcb = block
  after : entry.tcpPtr.hdr.seqNum < tcb.sndUna
  before : tcb.sndUna.toNat < entry.tcpPtr.hdr.seqNum.toNat + entry.tcpDataLen.toNat
  noWrap : entry.tcpPtr.hdr.seqNum.toNat + entry.tcpDataLen.toNat < 2 ^ 32

def HasRest (tcb : Tcb) (entry : TcpMessage) (seg : TcpSegment) : Prop :=
  let acked := tcb.sndUna.toNat - entry.tcpPtr.hdr.seqNum.toNat
  seg.hdr.seqNum = tcb.sndUna ∧ seg.data = entry.tcpPtr.data.drop acked ∧
    seg.data.length = entry.tcpDataLen.toNat - acked

section PartlyAcked
variable {self : Nat} {tcb : Tcb} {entry : TcpMessage}

/-- The entry gets a packet with the rest of the text, which is numbered from snd_nxt on. -/
theorem stopEntry_partly (h : PartlyAcked self tcb entry) :
    ∃ sub, stopEntry self tcb entry = some { entry with sub := sub } ∧
      sub.hdr.seqNum = tcb.sndNxt := by
  have hhi : entry.tcpPtr.hdr.seqNum + entry.tcpDataLen > tcb.sndUna := by
    have hbefore := h.before
    have hwrap := h.noWrap
    rw [gt_iff_lt, UInt32.lt_iff_toNat_lt, UInt32.toNat_add]
    omega
  let acked := tcb.sndUna - entry.tcpPtr.hdr.seqNum
  refine ⟨(createTcpPacket tcb (entry.tcpPtr.data.drop acked.toNat)
    (entry.tcpDataLen - acked) tcpAck).1, ?_, rfl⟩
  simp only [stopEntry, h.owner, h.after, hhi, if_true]
  rfl

theorem not_hasRest (h : PartlyAcked self tcb entry) :
    ¬ HasRest tcb entry (retransmitted entry) := by
  rintro ⟨hseq, -, -⟩
  have hlt := h.after
  rw [← hseq] at hlt
  exact UInt32.lt_irrefl _ hlt

/-- The pass after stop_retransmit transmits the entry as it was queued. -/
theorem partial_ack_ignored {msgs xs ys : List TcpMessage} (h : PartlyAcked self tcb entry)
    (hmsgs : msgs = xs ++ entry :: ys) :
    ∃ entry', stopRetransmit self tcb msgs =
        stopRetransmit self tcb xs ++ entry' :: stopRetransmit self tcb ys ∧
      retransmitted entry' = retransmitted entry ∧ ¬ HasRest tcb entry (retransmitted entry') := by
  obtain ⟨sub, hstop, -⟩ := stopEntry_partly h
  refine ⟨{ entry with sub := sub }, ?_, rfl, not_hasRest h⟩
  simp only [stopRetransmit, hmsgs, List.filterMap_append, List.filterMap_cons, hstop]

end PartlyAcked

def sampleEntry : TcpMessage :=
  let hdr : TcpHdr :=
    { srcPort := 49155, dstPort := 43211, seqNum := 1000, ackNum := 5001,
      dataOffset := tcpMinDataOffset, flags := tcpAck, windowSize := 65535, checksum := 0,
      urgentPtr := 0 }
  let seg : TcpSegment := { hdr := hdr, data := [1, 2, 3, 4, 5, 6, 7, 8, 9, 10] }
  { tcb := 1, sub := seg, tcpPtr := seg, tcpLen := 30, tcpDataLen := 10,
    retries := UInt32.ofInt retriesInfinite }

def sampleBlock : Tcb where
  state := .established
  localPort := 49155
  remotePort := 43211
  localIp := 0x0400000a
  remoteIp := 0x0a000005
  rcvNxt := 5001
  irs := 5000
  rcvBuffLen := 0
  rcvBuff := FixedBuffer.fill tcpRcvMax.toNat 0
  sndUna := 1005
  sndNxt := 1010
  sndWnd := 500
  iss := 999

theorem sampleEntry_partly : PartlyAcked 1 sampleBlock sampleEntry := by
  constructor <;> decide

theorem partial_ack_ignored_sample :
    PartlyAcked 1 sampleBlock sampleEntry ∧
      ∃ entry', stopRetransmit 1 sampleBlock [sampleEntry] = [entry'] ∧
        ¬ HasRest sampleBlock sampleEntry (retransmitted entry') := by
  have hmsgs : [sampleEntry] = [] ++ sampleEntry :: [] := rfl
  obtain ⟨entry', hstop, -, hrest⟩ := partial_ack_ignored sampleEntry_partly hmsgs
  exact ⟨sampleEntry_partly, entry', hstop, hrest⟩

/-- All ten bytes go out again from 1000 on, where five from 1005 on are due. -/
theorem partial_ack_resent_whole :
    ¬ ∀ (self : Nat) (tcb : Tcb) (entry entry' : TcpMessage), PartlyAcked self tcb entry →
      stopRetransmit self tcb [entry] = [entry'] → HasRest tcb entry (retransmitted entry') := by
  intro hall
  obtain ⟨sub, hstop, -⟩ := stopEntry_partly sampleEntry_partly
  have hqueue : stopRetransmit 1 sampleBlock [sampleEntry] = [{ sampleEntry with sub := sub }] := by
    simp only [stopRetransmit, List.filterMap_cons, List.filterMap_nil, hstop]
  exact not_hasRest sampleEntry_partly
    (hall 1 sampleBlock sampleEntry { sampleEntry with sub := sub } sampleEntry_partly hqueue)

end AnpNetstack
