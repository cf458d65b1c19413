import AnpNetstack.TcpBlock

/-! Building segments and the retransmission queue messages_array: create_tcp_packet,
add_msg_to_arr, stop_retransmit and one pass of tcp_retransmit_handler.

The list walks of the source go on through nodes they have just freed; here a removed
entry is gone and the walk continues with its old successor, as it does while freed
memory keeps its contents. -/
namespace AnpNetstack

/-- create_tcp_packet: the segment and the block it leaves. The checksum is stored in
host order, so a reader of the header sees it swapped. -/
def createTcpPacket (tcb : Tcb) (data : List UInt8) (dataLen : UInt32) (flags : UInt8) :
    TcpSegment × Tcb :=
  let text := data.take dataLen.toNat
  let hdr : TcpHdr :=
    { srcPort := tcb.localPort, dstPort := tcb.remotePort,
      seqNum := tcb.sndNxt, ackNum := tcb.rcvNxt,
      dataOffset := tcpMinDataOffset, flags := flags, windowSize := 65535,
      checksum := 0, urgentPtr := 0 }
  let csum := doTcpCsum (hdr.bytes ++ text) (20 + dataLen.toNat) (htons ippTcp.toUInt16)
    (htonl tcb.localIp) (htonl tcb.remoteIp)
  ({ hdr := { hdr with checksum := htons csum }, data := text },
    if hasFlag flags tcpSyn || hasFlag flags tcpFin then
      { tcb with sndNxt := tcb.sndNxt + 1 }
    else tcb)

def addMsgToArr (alloc : Bool) (self : Nat) (sub : TcpSegment) (dlen : UInt32) (retries : Int)
    (msgs : List TcpMessage) : List TcpMessage :=
  if alloc then
    msgs ++ [{ tcb := self, sub := sub, tcpPtr := sub, tcpLen := 20 + dlen,
               tcpDataLen := dlen, retries := UInt32.ofInt retries }]
  else msgs

/-- What stop_retransmit does with one entry: keep it, drop it, or, when snd_una lies
inside it, put a new packet with the rest of its text into `sub`. -/
def stopEntry (self : Nat) (tcb : Tcb) (entry : TcpMessage) : Option TcpMessage :=
  if entry.tcb = self then
    let seq := entry.tcpPtr.hdr.seqNum
    if seq < tcb.sndUna then
      if seq + entry.tcpDataLen > tcb.sndUna then
        let bytesAcked := tcb.sndUna - seq
        let newSize := entry.tcpDataLen - bytesAcked
        some { entry with
          sub := (createTcpPacket tcb (entry.tcpPtr.data.drop bytesAcked.toNat) newSize tcpAck).1 }
      else none
    else some entry
  else some entry

def stopRetransmit (self : Nat) (tcb : Tcb) (msgs : List TcpMessage) : List TcpMessage :=
  msgs.filterMap (stopEntry self tcb)

/-- What free_tcb leaves in the queue. It sets snd_nxt to MAX_UINT32 before it calls
stop_retransmit. -/
def freeTcb (self : Nat) (tcb : Tcb) (msgs : List TcpMessage) : List TcpMessage :=
  stopRetransmit self { tcb with sndNxt := 0xffffffff } msgs

def retransmitEntry (entry : TcpMessage) : Option TcpMessage :=
  if entry.retries = UInt32.ofInt retriesSendonce then none
  else if entry.retries = UInt32.ofInt retriesInfinite then some entry
  else if entry.retries - 1 = 0 then none
  else some { entry with retries := entry.retries - 1 }

def tcpRetransmitHandler (msgs : List TcpMessage) : List TcpMessage :=
  msgs.filterMap retransmitEntry

@[simp] theorem createTcpPacket_seqNum (tcb : Tcb) (data : List UInt8) (n : UInt32)
    (flags : UInt8) :
    (createTcpPacket tcb data n flags).1.hdr.seqNum = tcb.sndNxt := rfl

@[simp] theorem createTcpPacket_ackNum (tcb : Tcb) (data : List UInt8) (n : UInt32)
    (flags : UInt8) :
    (createTcpPacket tcb data n flags).1.hdr.ackNum = tcb.rcvNxt := rfl

@[simp] theorem createTcpPacket_flags (tcb : Tcb) (data : List UInt8) (n : UInt32) (flags : UInt8) :
    (createTcpPacket tcb data n flags).1.hdr.flags = flags := rfl

@[simp] theorem createTcpPacket_data (tcb : Tcb) (data : List UInt8) (n : UInt32) (flags : UInt8) :
    (createTcpPacket tcb data n flags).1.data = data.take n.toNat := rfl

theorem stopEntry_tcb {self : Nat} {tcb : Tcb} {entry entry' : TcpMessage}
    (h : stopEntry self tcb entry = some entry') : entry'.tcb = entry.tcb := by
  unfold stopEntry at h
  grind

theorem stopRetransmit_others (self : Nat) (tcb : Tcb) (msgs : List TcpMessage) :
    (stopRetransmit self tcb msgs).filter (fun m => m.tcb ≠ self) =
      msgs.filter (fun m => m.tcb ≠ self) := by
  induction msgs with
  | nil => rfl
  | cons m msgs ih =>
    by_cases hm : m.tcb = self
    · have hown : ∀ m', stopEntry self tcb m = some m' → m'.tcb = self := by
        intro m' h
        rw [stopEntry_tcb h]
        exact hm
      cases hs : stopEntry self tcb m with
      | none => simpa [stopRetransmit, hs, hm] using ih
      | some m' => simpa [stopRetransmit, hs, hm, hown m' hs] using ih
    · have hs : stopEntry self tcb m = some m := by simp [stopEntry, hm]
      simpa [stopRetransmit, hs, hm] using ih

end AnpNetstack
