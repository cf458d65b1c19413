import AnpNetstack.NextHop
import AnpNetstack.History

/-! messages_array with the bytes of its packets. Every attempt of tcp_retransmit_handler pushes
two headers in front of the segment where it stands, and stop_retransmit swaps the sequence number
there and back.

msg_arr_lock makes add_msg_to_arr and stop_retransmit wait while a pass runs; the ARP cache changes
at any time. As in the model without bytes, freed memory keeps its contents. -/
namespace AnpNetstack.Wire
open Packed

structure NewSegment where
  self : Nat
  tcb : Tcb
  data : List UInt8
  flags : UInt8
  retries : Int
  size : data.length ≤ tcpMaxSegSize.toNat
  valid : retriesValid retries = true

/-- struct tcp_message. `number` counts the calls of add_msg_to_arr. tcp_ptr is an offset into the
buffer of `sub`, or, once stop_retransmit has put another packet there, into the buffer it freed. -/
structure Message where
  number : Nat
  tcb : Nat
  sub : Subuff
  tcpPtr : Nat
  tcpLen : UInt32
  tcpDataLen : UInt32
  retries : UInt32
  freed : Option (List UInt8)

section Packet

def transmittedSub (dev : NetDev) (sub : Subuff) (dstHw : List UInt8) (ethertype : UInt16) :
    Subuff :=
  let sub := subPush sub ethHdrLen
  let buf := overwrite sub.data (dstHw.take dev.addrLen.toNat) sub.buf
  let buf := overwrite (sub.data + 6) (dev.hwaddr.take dev.addrLen.toNat) buf
  { sub with buf := overwrite (sub.data + 12) (le16 (htons ethertype)) buf }

theorem netdevTransmit_transmitted (dev : NetDev) (sub : Subuff) (mac : List UInt8)
    (ethertype : UInt16) :
    netdevTransmit dev sub mac ethertype =
      ((transmittedSub dev sub mac ethertype).buf.drop
        (transmittedSub dev sub mac ethertype).data).take
        (transmittedSub dev sub mac ethertype).len.toNat := rfl

namespace Message

def tcpBuf (m : Message) : List UInt8 := m.freed.getD m.sub.buf

def setTcpBuf (m : Message) (buf : List UInt8) : Message :=
  match m.freed with
  | none => { m with sub := { m.sub with buf := buf } }
  | some _ => { m with freed := some buf }

def reset (m : Message) : Message :=
  { m with sub := { m.sub with data := m.tcpPtr, len := m.tcpLen } }

/-- netdev_transmit writes and sends where the data pointer is. -/
def transmit (dev : NetDev) (mac : List UInt8) (m : Message) : List UInt8 × Message :=
  let sub := { m.sub with buf := m.tcpBuf }
  let sent := transmittedSub dev sub mac ethPIp
  (netdevTransmit dev sub mac ethPIp,
    { m with sub := { m.sub with data := sent.data, len := sent.len } }.setTcpBuf sent.buf)

def ipOutput (routes : List RtEntry) (cache : List ArpCacheEntry) (dstIpAddr : UInt32)
    (m : Message) :
    Output × Message :=
  match routeLookup dstIpAddr routes with
  | none => (.noRoute, m)
  | some rt =>
    let m := { m with sub := sentSub rt.dev dstIpAddr m.sub }
    let ih := readIp (m.sub.buf.drop ethHdrLen)
    let dstAddr := if rt.flags &&& rtGateway != 0 then rt.gateway else ntohl ih.daddr
    match arpGetHwaddr cache dstAddr with
    | some mac =>
      let r := m.transmit rt.dev mac
      (.written r.1, r.2)
    | none => (.again (ntohl ih.saddr) dstAddr, m)

def seqNum (m : Message) : UInt32 := read32 (m.tcpBuf.drop (m.tcpPtr + 4))

def setSeqNum (m : Message) (seq : UInt32) : Message :=
  m.setTcpBuf (overwrite (m.tcpPtr + 4) (le32 seq) m.tcpBuf)

/-- A new packet with the text from snd_una on. The old one is freed, with its sequence number in
host order, and tcp_ptr stays. -/
def repack (tcb : Tcb) (m : Message) : Message :=
  let bytesAcked := tcb.sndUna - m.seqNum
  let newSize := m.tcpDataLen - bytesAcked
  let newSub :=
    (createTcpPacket tcb (m.tcpBuf.drop (m.tcpPtr + tcpHdrLen + bytesAcked.toNat)) newSize tcpAck).1
  { m with sub := { newSub with dlen := newSize }, freed := some m.tcpBuf }

def stop (self : Nat) (tcb : Tcb) (m : Message) : Option Message :=
  if m.tcb = self then
    let m := m.setSeqNum (ntohl m.seqNum)
    let back (m : Message) := m.setSeqNum (htonl m.seqNum)
    if m.seqNum < tcb.sndUna then
      if m.seqNum + m.tcpDataLen > tcb.sndUna then some (back (m.repack tcb))
      else none
    else some (back m)
  else some m

@[simp] theorem setTcpBuf_tcpBuf (m : Message) (buf : List UInt8) :
    (m.setTcpBuf buf).tcpBuf = buf := by
  unfold setTcpBuf
  split
  · next h => simp [tcpBuf, h]
  · rfl

@[simp] theorem setTcpBuf_tcpPtr (m : Message) (buf : List UInt8) :
    (m.setTcpBuf buf).tcpPtr = m.tcpPtr := by
  unfold setTcpBuf
  split <;> rfl

@[simp] theorem setTcpBuf_freed_isSome (m : Message) (buf : List UInt8) :
    (m.setTcpBuf buf).freed.isSome = m.freed.isSome := by
  unfold setTcpBuf
  split
  · next h => simp [h]
  · next h => simp [h]

theorem setTcpBuf_setTcpBuf (m : Message) (buf buf' : List UInt8) :
    (m.setTcpBuf buf).setTcpBuf buf' = m.setTcpBuf buf' := by
  cases h : m.freed with
  | none => simp [setTcpBuf, h]
  | some old => simp [setTcpBuf, h]

theorem setTcpBuf_self (m : Message) : m.setTcpBuf m.tcpBuf = m := by
  obtain ⟨number, tcb, sub, tcpPtr, tcpLen, tcpDataLen, retries, freed⟩ := m
  cases freed with
  | none => rfl
  | some old => rfl

end Message

def retriesLeft (retries : UInt32) : Option UInt32 :=
  if retries = UInt32.ofInt retriesSendonce then none
  else if retries = UInt32.ofInt retriesInfinite then some retries
  else if retries - 1 = 0 then none
  else some (retries - 1)

def expires (retries : UInt32) : Bool :=
  retries ≠ UInt32.ofInt retriesSendonce && retries ≠ UInt32.ofInt retriesInfinite &&
    retries - 1 = 0

theorem retransmitEntry_eq (entry : TcpMessage) :
    retransmitEntry entry = (retriesLeft entry.retries).map fun r => { entry with
      retries := r } := by
  unfold retransmitEntry retriesLeft
  split_ifs <;> rfl

end Packet

section Machine

/-- A call of tdev_write: where the frame begins, counted from head, and how long the buffer is. -/
structure Write where
  number : Nat
  rebuilt : Bool
  tcpDataLen : UInt32
  start : Int
  room : Nat
  frame : List UInt8

structure Visit where
  number : Nat
  removed : Bool
  signalled : Option Nat
  deriving DecidableEq

inductive Note where
  | began (start : List Message)
  | again (number : Nat)
  | wrote (write : Write)
  | visited (visit : Visit)
  | ended (left : List Message)

/-- `passed` and `todo` are the two parts of messages_array in front of and behind the walk.
`added` and `log` are history. -/
structure WireQueue where
  added : List NewSegment
  cache : List ArpCacheEntry
  passed : List Message
  todo : List Message
  busy : Bool
  log : List Note

namespace WireQueue
variable (q : WireQueue)

def messagesArray : List Message := q.passed ++ q.todo

variable {q} in
theorem messagesArray_idle (h : q.todo = []) : q.messagesArray = q.passed := by
  rw [messagesArray, h, List.append_nil]

variable {q} in
theorem mem_others {m x : Message} {rest : List Message} (hq : q.todo = m :: rest)
    (hx : x ∈ q.passed ++ rest) :
    x ∈ q.messagesArray := by
  rw [messagesArray, hq]
  cases List.mem_append.mp hx with
  | inl hx => exact List.mem_append_left _ hx
  | inr hx => exact List.mem_append_right _ (List.mem_cons_of_mem m hx)

variable {q} in
theorem mem_current {m : Message} {rest : List Message} (hq : q.todo = m :: rest) :
    m ∈ q.messagesArray := by
  rw [messagesArray, hq]
  exact List.mem_append_right _ List.mem_cons_self

theorem mem_between {x : Message} {passed kept rest : List Message}
    (hx : x ∈ passed ++ kept ++ rest) :
    x ∈ kept ∨ x ∈ passed ++ rest := by
  simp only [List.mem_append] at hx ⊢
  rcases hx with (hx | hx) | hx
  · exact .inr (.inl hx)
  · exact .inl hx
  · exact .inr (.inr hx)

theorem mem_swapped {m x : Message} {passed rest : List Message} (hx : x ∈ passed ++ m :: rest) :
    x = m ∨ x ∈ passed ++ rest := by
  rw [← List.singleton_append, ← List.append_assoc] at hx
  cases mem_between hx with
  | inl hx => exact .inl (List.mem_singleton.mp hx)
  | inr hx => exact .inr hx

def newMessage (seg : NewSegment) : Message :=
  let sub := (createTcpPacket seg.tcb seg.data (UInt32.ofNat seg.data.length) seg.flags).1
  { number := q.added.length, tcb := seg.self, sub := sub, tcpPtr := sub.data, tcpLen := sub.len,
    tcpDataLen := sub.dlen, retries := UInt32.ofInt seg.retries, freed := none }

def addMsgToArr (seg : NewSegment) (alloc : Bool) : WireQueue :=
  if q.busy || !alloc then q
  else { q with added := q.added ++ [seg], passed := q.passed ++ [q.newMessage seg] }

def stopRetransmit (self : Nat) (tcb : Tcb) : WireQueue :=
  if q.busy then q else { q with passed := q.passed.filterMap (Message.stop self tcb) }

def begin : WireQueue :=
  if q.busy then q
  else { q with passed := [], todo := q.passed, busy := true, log := q.log ++ [.began q.passed] }

def writeNotes (m : Message) : Output → List Note
  | .written frame =>
    [.wrote { number := m.number, rebuilt := m.freed.isSome, tcpDataLen := m.tcpDataLen,
              start := (m.sub.data : Int) - ipHdrLen - ethHdrLen, room := m.sub.buf.length,
              frame := frame }]
  | _ => []

def output (remoteIp : Nat → UInt32) : WireQueue :=
  match q.todo with
  | [] => q
  | m :: rest =>
    let m := m.reset
    let r := m.ipOutput routeInit q.cache (remoteIp m.tcb)
    match r.1 with
    | .again _ _ => { q with todo := r.2 :: rest, log := q.log ++ [.again m.number] }
    | out =>
      let left := retriesLeft m.retries
      { q with
        passed := q.passed ++ (left.map fun k => { r.2 with retries := k }).toList
        todo := rest
        log := q.log ++ writeNotes m out ++
          [.visited { number := m.number, removed := left.isNone,
                      signalled := if expires m.retries then some m.tcb else none }] }

def finish : WireQueue :=
  if q.busy && q.todo.isEmpty then { q with
    busy := false, log := q.log ++ [.ended q.passed] } else q

end WireQueue

inductive QueueEvent where
  | arp (cache : List ArpCacheEntry)
  | add (seg : NewSegment) (alloc : Bool)
  | stop (self : Nat) (tcb : Tcb)
  | begin
  | output
  | finish

def queueStep (remoteIp : Nat → UInt32) (q : WireQueue) : QueueEvent → WireQueue
  | .arp cache => { q with cache := cache }
  | .add seg alloc => q.addMsgToArr seg alloc
  | .stop self tcb => q.stopRetransmit self tcb
  | .begin => q.begin
  | .output => if q.busy then q.output remoteIp else q
  | .finish => q.finish

def emptyQueue (cache : List ArpCacheEntry) : WireQueue where
  added := []
  cache := cache
  passed := []
  todo := []
  busy := false
  log := []

inductive QueueStep (remoteIp : Nat → UInt32) (q : WireQueue) : WireQueue → Prop where
  | same : QueueStep remoteIp q q
  | arp (cache : List ArpCacheEntry) : QueueStep remoteIp q { q with cache := cache }
  | add (seg : NewSegment) (hb : q.busy = false) : QueueStep remoteIp q
      { q with added := q.added ++ [seg], passed := q.passed ++ [q.newMessage seg] }
  | stop (self : Nat) (tcb : Tcb) (hb : q.busy = false) : QueueStep remoteIp q
      { q with passed := q.passed.filterMap (Message.stop self tcb) }
  | begin (hb : q.busy = false) : QueueStep remoteIp q
      { q with passed := [], todo := q.passed, busy := true, log := q.log ++ [.began q.passed] }
  | again (m m' : Message) (rest : List Message) (src dst : UInt32) (hb : q.busy = true)
      (hq : q.todo = m :: rest)
      (hout : m.reset.ipOutput routeInit q.cache (remoteIp m.tcb) = (.again src dst, m')) :
      QueueStep remoteIp q { q with todo := m' :: rest, log := q.log ++ [.again m.number] }
  | out (m m' : Message) (rest : List Message) (out : Output) (hb : q.busy = true)
      (hq : q.todo = m :: rest)
      (hout : m.reset.ipOutput routeInit q.cache (remoteIp m.tcb) = (out, m'))
      (hn : ∀ src dst, out ≠ .again src dst) : QueueStep remoteIp q { q with
        passed := q.passed ++ ((retriesLeft m.retries).map fun k => { m' with retries := k }).toList
        todo := rest
        log := q.log ++ WireQueue.writeNotes m.reset out ++
          [.visited { number := m.number, removed := (retriesLeft m.retries).isNone,
                      signalled := if expires m.retries then some m.tcb else none }] }
  | finish (hb : q.busy = true) (ht : q.todo = []) : QueueStep remoteIp q
      { q with busy := false, log := q.log ++ [.ended q.passed] }

theorem queueStep_output (remoteIp : Nat → UInt32) {q : WireQueue} (hb : q.busy = true) :
    QueueStep remoteIp q (q.output remoteIp) := by
  unfold WireQueue.output
  split
  · exact .same
  · next m rest hq =>
    obtain ⟨out, m', hr⟩ : ∃ out m', m.reset.ipOutput routeInit q.cache (remoteIp m.tcb) =
        (out, m') :=
      ⟨_, _, rfl⟩
    have htcb : m.reset.tcb = m.tcb := rfl
    simp only [htcb, hr]
    cases out with
    | again src dst => exact .again m m' rest src dst hb hq hr
    | noRoute => exact .out m m' rest .noRoute hb hq hr (fun _ _ h => nomatch h)
    | written frame => exact .out m m' rest (.written frame) hb hq hr (fun _ _ h => nomatch h)

theorem queueStep_cases (remoteIp : Nat → UInt32) (q : WireQueue) (e : QueueEvent) :
    QueueStep remoteIp q (queueStep remoteIp q e) := by
  cases e with
  | arp cache => exact .arp cache
  | add seg alloc =>
    simp only [queueStep, WireQueue.addMsgToArr]
    split_ifs with h
    · exact .same
    · exact .add seg (Bool.or_eq_false_iff.mp (Bool.not_eq_true _ ▸ h)).1
  | stop self tcb =>
    simp only [queueStep, WireQueue.stopRetransmit]
    split_ifs with h
    · exact .same
    · exact .stop self tcb (Bool.not_eq_true _ ▸ h)
  | begin =>
    simp only [queueStep, WireQueue.begin]
    split_ifs with h
    · exact .same
    · exact .begin (Bool.not_eq_true _ ▸ h)
  | output =>
    simp only [queueStep]
    split_ifs with h
    · exact queueStep_output remoteIp h
    · exact .same
  | finish =>
    simp only [queueStep, WireQueue.finish]
    split_ifs with h
    · obtain ⟨hb, ht⟩ := Bool.and_eq_true_iff.mp h
      exact .finish hb (List.isEmpty_iff.mp ht)
    · exact .same

end Machine

end AnpNetstack.Wire
