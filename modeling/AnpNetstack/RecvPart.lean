import AnpNetstack.Control

/-! The receive part of a connection: rcv_nxt, the length of rcv_buff, what read_bytes has
returned and which FINs were consumed. -/
namespace AnpNetstack

structure RecvSide where
  rcvNxt : UInt32
  irs : UInt32
  rcvBuffLen : UInt32
  read : List UInt8
  fins : List (Packet × UInt32)

def Conn.recvSide (c : Conn) : RecvSide where
  rcvNxt := c.tcb.rcvNxt
  irs := c.tcb.irs
  rcvBuffLen := c.tcb.rcvBuffLen
  read := c.read
  fins := c.fins

inductive RecvStep (c c' : Conn) : Event → Prop where
  | quiet {e : Event} (h : c'.recvSide = c.recvSide) : RecvStep c c' e
  | syn (pkt : Packet) (hs : c.tcb.state = .synSent)
      (h : c'.recvSide = { c.recvSide with
        rcvNxt := pkt.tcp.hdr.seqNum + 1, irs := pkt.tcp.hdr.seqNum }) :
      RecvStep c c' (.segment pkt)
  | read (len n : UInt32) (hl : c.tcbLock = false) (hn : n ≤ c.tcb.rcvBuffLen)
      (h : c'.recvSide = { c.recvSide with
        rcvBuffLen := c.tcb.rcvBuffLen - n
        read := c.read ++ c.tcb.rcvBuff.cells.take n.toNat }) :
      RecvStep c c' (.recv len)
  | stored (pkt : Packet) (rest : List RxAct) (hx : c.rx = .text pkt :: rest)
      (hlen : segmentLen pkt ≠ 0) (hseq : pkt.tcp.hdr.seqNum = c.tcb.rcvNxt)
      (h : c'.recvSide = { c.recvSide with
        rcvNxt := c.tcb.rcvNxt + finalCopySize c.tcb (segmentLen pkt)
        rcvBuffLen := c.tcb.rcvBuffLen + finalCopySize c.tcb (segmentLen pkt) }) :
      RecvStep c c' .rxStep
  | fin (pkt : Packet) (rest : List RxAct) (hx : c.rx = .fin pkt :: rest)
      (hf : hasFlag pkt.tcp.hdr.flags tcpFin = true)
      (h : c'.recvSide = { c.recvSide with
        rcvNxt := c.tcb.rcvNxt + 1, fins := c.fins ++ [(pkt, c.tcb.rcvNxt)] }) :
      RecvStep c c' .rxStep

theorem recvSide_txSegment (alloc : Bool) (c : Conn) (who : Option Nat) (data : List UInt8)
    (n : UInt32) (flags : UInt8) (retries : Int) :
    (txSegment alloc c who data n flags retries).recvSide = c.recvSide := by
  rw [txSegment_eq]
  rfl

theorem recvSide_tcpTxEmpty (c : Conn) (flags : UInt8) (retries : Int) :
    (tcpTxEmpty c flags retries).recvSide = c.recvSide := by
  cases tcpTxEmpty_cases c flags retries with
  | inl he => rw [he]
  | inr he => rw [he, recvSide_txSegment]

theorem recvSide_tcpTxSection (alloc : Bool) (c : Conn) (who : Option Nat) (call : TxCall) :
    (tcpTxSection alloc c who call).1.recvSide = c.recvSide := by
  unfold tcpTxSection
  split_ifs
  · rfl
  · simp only [recvSide_txSegment]
  · rfl

theorem recvSide_sendRound (c : Conn) (i : Nat) (alloc : Bool) :
    (sendRound c i alloc).recvSide = c.recvSide := by
  unfold sendRound
  split
  · rfl
  · next call hi =>
    split_ifs
    · rfl
    · exact recvSide_tcpTxSection alloc c (some i) call

theorem recvSide_ackEstablished (c : Conn) (pkt : Packet) :
    (ackEstablished c pkt).recvSide = c.recvSide := by
  have hk : (takeAck c.tcb pkt.tcp.hdr).rcvNxt = c.tcb.rcvNxt ∧
      (takeAck c.tcb pkt.tcp.hdr).irs = c.tcb.irs ∧
      (takeAck c.tcb pkt.tcp.hdr).rcvBuffLen = c.tcb.rcvBuffLen :=
    ⟨takeAck_rcvNxt _ _, takeAck_frame Tcb.irs (fun _ _ => rfl) _ _,
      takeAck_frame Tcb.rcvBuffLen (fun _ _ => rfl) _ _⟩
  simp only [Conn.recvSide, ackEstablished, hk]

theorem recvStep_tcpRxSwitch (c : Conn) (pkt : Packet) :
    RecvStep c (tcpRxSwitch c pkt) (.segment pkt) := by
  cases tcpRxSwitch_cases c pkt with
  | inl he =>
    rw [he]
    exact .quiet rfl
  | inr ht =>
    obtain ⟨c', he, -, -, ht⟩ := ht
    rw [he]
    cases ht with
    | establish hs hf hu => exact .syn pkt hs rfl
    | cross hs hf hu => exact .syn pkt hs rfl
    | confirm hs hf ha => exact .quiet rfl
    | ack hs hf => exact .quiet (recvSide_ackEstablished c pkt)
    | finWait hs hf => exact .quiet rfl

theorem recvStep_rxStep (c : Conn) : RecvStep c (rxStep c) .rxStep := by
  cases hx : c.rx with
  | nil =>
    rw [rxStep_nil hx]
    exact .quiet rfl
  | cons a rest =>
    cases a with
    | tx flags retries =>
      rw [rxStep_tx hx]
      exact .quiet (recvSide_tcpTxEmpty { c with rx := rest } flags retries)
    | text pkt =>
      rw [rxStep_text hx]
      have hstep := rxText_step c pkt rest
      generalize rxText c pkt rest = c' at hstep ⊢
      cases hstep with
      | none hz => exact .quiet rfl
      | outOfOrder hz hseq => exact .quiet rfl
      | stored hz hseq => exact .stored pkt rest hx hz hseq rfl
    | fin pkt =>
      rw [rxStep_fin hx]
      have hstep := rxFin_step c pkt
      generalize rxFin c pkt = c' at hstep ⊢
      cases hstep with
      | dropped hs => exact .quiet rfl
      | taken hf hw => exact .fin pkt rest hx hf rfl
      | ignored hf hw => exact .fin pkt rest hx hf rfl
      | noFin hf => exact .quiet rfl
    | unlock =>
      rw [rxStep_unlock hx]
      exact .quiet rfl
    | timer =>
      rw [rxStep_timer hx]
      exact .quiet rfl

theorem recvStep_readBytes (c : Conn) (len : UInt32) :
    RecvStep c (readBytes c len) (.recv len) := by
  by_cases hl : c.tcbLock = true
  · simp only [readBytes, hl, if_true]
    exact .quiet rfl
  · have hle := readableSize_le c.tcb len
    simp only [readBytes, hl, if_false, Bool.false_eq_true]
    exact .read len (readableSize c.tcb len) (Bool.not_eq_true _ ▸ hl) hle rfl

theorem recv_step (c : Conn) (e : Event) : RecvStep c (step c e) e := by
  cases e with
  | connect =>
    simp only [step, connect]
    split_ifs
    · exact .quiet (recvSide_tcpTxEmpty c tcpSyn retriesConnMax)
    · exact .quiet rfl
  | send buf =>
    simp only [step, send]
    split_ifs <;> exact .quiet rfl
  | sendRound i alloc => exact .quiet (recvSide_sendRound c i alloc)
  | recv len => exact recvStep_readBytes c len
  | segment pkt =>
    simp only [step]
    split_ifs
    · exact recvStep_tcpRxSwitch c pkt
    · exact .quiet rfl
  | rxStep => exact recvStep_rxStep c
  | retransmit => exact .quiet rfl
  | close =>
    simp only [step, close]
    split_ifs <;> exact .quiet rfl
  | closeFin =>
    simp only [step, closeFin]
    split_ifs
    · exact .quiet (recvSide_tcpTxEmpty c tcpFinAck retriesSendonce)
    · exact .quiet rfl
  | closeTimer =>
    simp only [step, closeConnection]
    split_ifs <;> exact .quiet rfl

end AnpNetstack
