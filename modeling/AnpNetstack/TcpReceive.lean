import AnpNetstack.Connection

/-! tcp_rx with save_data_and_ack, read_bytes and close_connection. tcp_rx is cut where
it gives up send_lock: the switch over the state, and then one act after the other of
`Conn.rx`. Without other threads in between the pieces are the whole function. -/
namespace AnpNetstack

def finalCopySize (tcb : Tcb) (dlen : UInt32) : UInt32 :=
  anpMin dlen (tcpRcvMax - tcb.rcvBuffLen)

/-- save_data_and_ack up to its tcp_tx; the flag says whether it acknowledges. -/
def saveDataAndAck (tcb : Tcb) (payload : List UInt8) (dlen : UInt32) : Tcb × Bool :=
  let n := finalCopySize tcb dlen
  ({ tcb with
      rcvBuff := tcb.rcvBuff.copyTo tcb.rcvBuffLen.toNat (payload.take n.toNat)
      rcvNxt := tcb.rcvNxt + n
      rcvBuffLen := tcb.rcvBuffLen + n }, decide (n > 0))

def readableSize (tcb : Tcb) (bytesToRead : UInt32) : UInt32 :=
  anpMin (if tcb.rcvBuffLen < bytesToRead then tcb.rcvBuffLen else bytesToRead) tcb.rcvBuffLen

/-- read_bytes once it has tcb_lock, after its wait if it had to wait. A thread that
finds tcb_lock taken does not get here. -/
def readBytes (c : Conn) (bytesToRead : UInt32) : Conn :=
  if c.tcbLock then c
  else
    let n := readableSize c.tcb bytesToRead
    let len := c.tcb.rcvBuffLen - n
    { c with
      read := c.read ++ c.tcb.rcvBuff.cells.take n.toNat
      tcb := { c.tcb with
        rcvBuffLen := len
        rcvBuff := if len > 0 then c.tcb.rcvBuff.moveDown n.toNat len.toNat else c.tcb.rcvBuff } }

def acceptableAck (tcb : Tcb) (h : TcpHdr) : Bool :=
  hasFlag h.flags tcpAck && decide (tcb.sndUna ≤ h.ackNum) && decide (h.ackNum ≤ tcb.sndNxt)

def takeSyn (tcb : Tcb) (h : TcpHdr) : Tcb :=
  { tcb with
    rcvNxt := h.seqNum + 1
    irs := h.seqNum
    sndUna := if acceptableAck tcb h then h.ackNum else tcb.sndUna }

def synEstablish (c : Conn) (h : TcpHdr) : Conn :=
  { c with
    tcb := { takeSyn c.tcb h with sndWnd := h.windowSize.toUInt32, state := .established }
    messagesArray := stopRetransmit c.self (takeSyn c.tcb h) c.messagesArray
    tcbLock := true
    rx := [.tx tcpAck retriesSendonce, .unlock] }

def synCross (c : Conn) (h : TcpHdr) : Conn :=
  { c with
    tcb := { takeSyn c.tcb h with state := .synReceived, sndNxt := c.tcb.iss }
    messagesArray := stopRetransmit c.self (takeSyn c.tcb h) c.messagesArray
    tcbLock := true
    rx := [.tx tcpSynAck retriesConnMax, .unlock] }

def ackAdvances (tcb : Tcb) (h : TcpHdr) : Bool :=
  decide (tcb.sndUna < h.ackNum) && decide (h.ackNum ≤ tcb.sndNxt)

/-- case TCP_SYN_RECEIVED: snd_una stays as it is. -/
def synConfirm (c : Conn) (pkt : Packet) : Conn :=
  { c with
    messagesArray := stopRetransmit c.self c.tcb c.messagesArray
    tcb := { c.tcb with state := .established, sndWnd := pkt.tcp.hdr.windowSize.toUInt32 }
    tcbLock := true
    rx := [.tx tcpAck retriesSendonce, .text pkt, .fin pkt] }

def takeAck (tcb : Tcb) (h : TcpHdr) : Tcb :=
  if ackAdvances tcb h then { tcb with sndUna := h.ackNum } else tcb

def ackEstablished (c : Conn) (pkt : Packet) : Conn :=
  let h := pkt.tcp.hdr
  { c with
    messagesArray :=
      if ackAdvances c.tcb h then stopRetransmit c.self (takeAck c.tcb h) c.messagesArray
      else c.messagesArray
    tcb := { takeAck c.tcb h with sndWnd := h.windowSize.toUInt32 }
    tcbLock := true
    rx := [.text pkt, .fin pkt] }

/-- case TCP_FIN_WAIT_1: the state moves on whatever the segment acknowledges. -/
def ackFinWait1 (c : Conn) (pkt : Packet) : Conn :=
  { c with
    tcb := { c.tcb with state := .finWait2 }
    tcbLock := true
    rx := [.text pkt, .fin pkt] }

/-- tcp_rx from its entry to the end of the switch. The thread does not get past a taken
tcb_lock, and a dropped segment leaves nothing behind. -/
def tcpRxSwitch (c : Conn) (pkt : Packet) : Conn :=
  let h := pkt.tcp.hdr
  if !accepted c.tcb pkt || c.tcbLock then c
  else match c.tcb.state with
    | .closed => c
    | .synSent =>
      if hasFlag h.flags tcpSyn then
        if (takeSyn c.tcb h).sndUna > c.tcb.iss then synEstablish c h else synCross c h
      else c
    | .synReceived =>
      if hasFlag h.flags tcpAck && ackAdvances c.tcb h then synConfirm c pkt else c
    | .established => if hasFlag h.flags tcpAck then ackEstablished c pkt else c
    | .finWait1 => if hasFlag h.flags tcpAck then ackFinWait1 c pkt else c
    | _ => c

/-- Segment text: text out of order drops the segment, FIN included. -/
def rxText (c : Conn) (pkt : Packet) (rest : List RxAct) : Conn :=
  if segmentLen pkt = 0 then { c with rx := rest }
  else if pkt.tcp.hdr.seqNum ≠ c.tcb.rcvNxt then { c with rx := [], tcbLock := false }
  else
    let r := saveDataAndAck c.tcb pkt.tcp.data (segmentLen pkt)
    { c with
      tcb := r.1
      rx := if r.2 then .tx tcpAck retriesSendonce :: rest else rest }

/-- The FIN bit. Outside FIN_WAIT_1 and FIN_WAIT_2 tcp_rx returns with tcb_lock taken. When text has
been stored, save_data_and_ack has freed the packet, and the flags are read from memory that is
taken to keep its contents. -/
def rxFin (c : Conn) (pkt : Packet) : Conn :=
  if c.tcb.state = .closed ∨ c.tcb.state = .synSent then { c with rx := [], tcbLock := false }
  else if hasFlag pkt.tcp.hdr.flags tcpFin then
    let c := { c with
      tcb := { c.tcb with rcvNxt := c.tcb.rcvNxt + 1 }
      fins := c.fins ++ [(pkt, c.tcb.rcvNxt)] }
    if c.tcb.state = .finWait1 ∨ c.tcb.state = .finWait2 then
      { c with
        tcb := { c.tcb with state := .timeWait }
        rx := [.tx tcpAck retriesSendonce, .unlock, .timer] }
    else { c with rx := [] }
  else { c with rx := [.unlock] }

/-- The next act of the receive thread; timer_oneshot schedules close_connection. -/
def rxStep (c : Conn) : Conn :=
  match c.rx with
  | [] => c
  | .tx flags retries :: rest => tcpTxEmpty { c with rx := rest } flags retries
  | .text pkt :: rest => rxText c pkt rest
  | .fin pkt :: _ => rxFin c pkt
  | .unlock :: rest => { c with rx := rest, tcbLock := false }
  | .timer :: rest =>
    { c with rx := rest, closeTimers := c.closeTimers + 1, scheduled := c.scheduled + 1 }

/-- tcp_rx without interruption; no segment leads to more than seven acts. -/
def tcpRx (c : Conn) (pkt : Packet) : Conn := rxStep^[7] (tcpRxSwitch c pkt)

def closeConnection (c : Conn) : Conn :=
  if c.closeTimers = 0 ∨ c.tcbLock then c
  else
    { c with
      messagesArray := stopRetransmit c.self c.tcb c.messagesArray
      tcb := { c.tcb with state := .closed }
      closeTimers := c.closeTimers - 1 }

inductive TextStep (c : Conn) (pkt : Packet) (rest : List RxAct) : Conn → Prop where
  | none (hz : segmentLen pkt = 0) : TextStep c pkt rest { c with rx := rest }
  | outOfOrder (hz : segmentLen pkt ≠ 0) (hseq : pkt.tcp.hdr.seqNum ≠ c.tcb.rcvNxt) :
      TextStep c pkt rest { c with rx := [], tcbLock := false }
  | stored (hz : segmentLen pkt ≠ 0) (hseq : pkt.tcp.hdr.seqNum = c.tcb.rcvNxt) :
      TextStep c pkt rest { c with
        tcb := (saveDataAndAck c.tcb pkt.tcp.data (segmentLen pkt)).1
        rx := if (saveDataAndAck c.tcb pkt.tcp.data (segmentLen pkt)).2
          then .tx tcpAck retriesSendonce :: rest else rest }

theorem rxText_step (c : Conn) (pkt : Packet) (rest : List RxAct) :
    TextStep c pkt rest (rxText c pkt rest) := by
  unfold rxText
  split_ifs with hz hseq
  · exact .none hz
  · exact .outOfOrder hz hseq
  · exact .stored hz (not_not.mp hseq)

inductive FinStep (c : Conn) (pkt : Packet) : Conn → Prop where
  | dropped (hs : c.tcb.state = .closed ∨ c.tcb.state = .synSent) :
      FinStep c pkt { c with rx := [], tcbLock := false }
  | taken (hf : hasFlag pkt.tcp.hdr.flags tcpFin = true)
      (hw : c.tcb.state = .finWait1 ∨ c.tcb.state = .finWait2) :
      FinStep c pkt { c with
        tcb := { c.tcb with rcvNxt := c.tcb.rcvNxt + 1, state := .timeWait }
        fins := c.fins ++ [(pkt, c.tcb.rcvNxt)]
        rx := [.tx tcpAck retriesSendonce, .unlock, .timer] }
  | ignored (hf : hasFlag pkt.tcp.hdr.flags tcpFin = true)
      (hw : ¬ (c.tcb.state = .finWait1 ∨ c.tcb.state = .finWait2)) :
      FinStep c pkt { c with
        tcb := { c.tcb with rcvNxt := c.tcb.rcvNxt + 1 }
        fins := c.fins ++ [(pkt, c.tcb.rcvNxt)]
        rx := [] }
  | noFin (hf : hasFlag pkt.tcp.hdr.flags tcpFin = false) :
      FinStep c pkt { c with rx := [.unlock] }

theorem rxFin_step (c : Conn) (pkt : Packet) : FinStep c pkt (rxFin c pkt) := by
  unfold rxFin
  split_ifs with hs hf
  · exact .dropped hs
  · by_cases hw : c.tcb.state = .finWait1 ∨ c.tcb.state = .finWait2
    · simp only [hw, if_true]
      exact .taken hf hw
    · simp only [hw, if_false]
      exact .ignored hf hw
  · exact .noFin (Bool.eq_false_iff.mpr hf)

theorem finalCopySize_toNat (tcb : Tcb) (dlen : UInt32) (h : tcb.rcvBuffLen ≤ tcpRcvMax) :
    (finalCopySize tcb dlen).toNat = min dlen.toNat (tcpRcvMax.toNat - tcb.rcvBuffLen.toNat) := by
  rw [finalCopySize, anpMin_toNat, UInt32.toNat_sub_of_le _ _ h]

/-- save_data_and_ack leaves alone what does not depend on the receive buffer. -/
theorem saveDataAndAck_frame {α : Type*} (f : Tcb → α)
    (hf : ∀ (tcb : Tcb) buff nxt len,
      f { tcb with rcvBuff := buff, rcvNxt := nxt, rcvBuffLen := len } = f tcb)
    (tcb : Tcb) (payload : List UInt8) (dlen : UInt32) :
    f (saveDataAndAck tcb payload dlen).1 = f tcb :=
  hf tcb _ _ _

theorem takeAck_frame {α : Type*} (f : Tcb → α)
    (hf : ∀ (tcb : Tcb) una, f { tcb with sndUna := una } = f tcb) (tcb : Tcb) (h : TcpHdr) :
    f (takeAck tcb h) = f tcb := by
  unfold takeAck
  split_ifs
  · exact hf tcb h.ackNum
  · rfl

theorem takeAck_state (tcb : Tcb) (h : TcpHdr) : (takeAck tcb h).state = tcb.state :=
  takeAck_frame Tcb.state (fun _ _ => rfl) tcb h

theorem takeAck_sndNxt (tcb : Tcb) (h : TcpHdr) : (takeAck tcb h).sndNxt = tcb.sndNxt :=
  takeAck_frame Tcb.sndNxt (fun _ _ => rfl) tcb h

theorem takeAck_rcvNxt (tcb : Tcb) (h : TcpHdr) : (takeAck tcb h).rcvNxt = tcb.rcvNxt :=
  takeAck_frame Tcb.rcvNxt (fun _ _ => rfl) tcb h

@[simp] theorem saveDataAndAck_state (tcb : Tcb) (payload : List UInt8) (dlen : UInt32) :
    (saveDataAndAck tcb payload dlen).1.state = tcb.state :=
  saveDataAndAck_frame Tcb.state (fun _ _ _ _ => rfl) tcb payload dlen

@[simp] theorem saveDataAndAck_irs (tcb : Tcb) (payload : List UInt8) (dlen : UInt32) :
    (saveDataAndAck tcb payload dlen).1.irs = tcb.irs :=
  saveDataAndAck_frame Tcb.irs (fun _ _ _ _ => rfl) tcb payload dlen

@[simp] theorem saveDataAndAck_rcvNxt (tcb : Tcb) (payload : List UInt8) (dlen : UInt32) :
    (saveDataAndAck tcb payload dlen).1.rcvNxt = tcb.rcvNxt + finalCopySize tcb dlen := by
  simp only [saveDataAndAck]

theorem saveDataAndAck_buffLen (tcb : Tcb) (payload : List UInt8) (dlen : UInt32)
    (h : tcb.rcvBuffLen ≤ tcpRcvMax) :
    (saveDataAndAck tcb payload dlen).1.rcvBuffLen.toNat =
      tcb.rcvBuffLen.toNat + (finalCopySize tcb dlen).toNat := by
  have hn := finalCopySize_toNat tcb dlen h
  have hm : tcpRcvMax.toNat = 65535 := rfl
  rw [UInt32.le_iff_toNat_le] at h
  simp only [saveDataAndAck, UInt32.toNat_add]
  omega

theorem saveDataAndAck_buffLen_le (tcb : Tcb) (payload : List UInt8) (dlen : UInt32)
    (h : tcb.rcvBuffLen ≤ tcpRcvMax) :
    (saveDataAndAck tcb payload dlen).1.rcvBuffLen ≤ tcpRcvMax := by
  have hn := finalCopySize_toNat tcb dlen h
  have hl := saveDataAndAck_buffLen tcb payload dlen h
  rw [UInt32.le_iff_toNat_le] at h ⊢
  omega

theorem saveDataAndAck_cells (tcb : Tcb) (payload : List UInt8) (dlen : UInt32)
    (h : tcb.rcvBuffLen ≤ tcpRcvMax) (hp : dlen.toNat ≤ payload.length) :
    (saveDataAndAck tcb payload dlen).1.rcvBuff.cells.take
        (saveDataAndAck tcb payload dlen).1.rcvBuffLen.toNat =
      tcb.rcvBuff.cells.take tcb.rcvBuffLen.toNat ++
        payload.take (finalCopySize tcb dlen).toNat := by
  have hn := finalCopySize_toNat tcb dlen h
  have hl : (payload.take (finalCopySize tcb dlen).toNat).length =
      (finalCopySize tcb dlen).toNat := by
    rw [List.length_take]
    omega
  rw [saveDataAndAck_buffLen tcb payload dlen h]
  rw [UInt32.le_iff_toNat_le] at h
  have ht := tcb.rcvBuff.take_copyTo tcb.rcvBuffLen.toNat
    (payload.take (finalCopySize tcb dlen).toNat) (by omega)
  rw [hl] at ht
  exact ht

/-- read_bytes changes what is in rcv_buff and nothing else of the connection. -/
theorem readBytes_frame {α : Type*} (f : Conn → α)
    (hf : ∀ (c : Conn) (bytes : List UInt8) buff len, f { c with
      read := bytes, tcb := { c.tcb with rcvBuff := buff, rcvBuffLen := len } } = f c)
    (c : Conn) (n : UInt32) : f (readBytes c n) = f c := by
  unfold readBytes
  split_ifs
  · rfl
  · exact hf c _ _ _

theorem readableSize_le (tcb : Tcb) (n : UInt32) : readableSize tcb n ≤ tcb.rcvBuffLen := by
  rw [UInt32.le_iff_toNat_le, readableSize, anpMin_toNat]
  exact Nat.min_le_right _ _

theorem readBytes_buffLen_le (c : Conn) (n : UInt32) (h : c.tcb.rcvBuffLen ≤ tcpRcvMax) :
    (readBytes c n).tcb.rcvBuffLen ≤ tcpRcvMax := by
  have hr := readableSize_le c.tcb n
  unfold readBytes
  split_ifs with hl
  · exact h
  · have hs := UInt32.toNat_sub_of_le _ _ hr
    rw [UInt32.le_iff_toNat_le] at h ⊢
    dsimp only
    omega

/-- read_bytes moves bytes from rcv_buff to the reader and loses none. -/
theorem readBytes_delivered (c : Conn) (n : UInt32) (h : c.tcb.rcvBuffLen ≤ tcpRcvMax) :
    (readBytes c n).delivered = c.delivered := by
  have hr := readableSize_le c.tcb n
  have hs := UInt32.toNat_sub_of_le _ _ hr
  rw [UInt32.le_iff_toNat_le] at h hr
  by_cases hl : c.tcbLock = true
  · simp only [readBytes, hl, if_true]
  · by_cases hz : c.tcb.rcvBuffLen - readableSize c.tcb n > 0
    · have hm := c.tcb.rcvBuff.take_moveDown (readableSize c.tcb n).toNat
        (c.tcb.rcvBuffLen - readableSize c.tcb n).toNat (by omega)
      have hsum : (readableSize c.tcb n).toNat + (c.tcb.rcvBuffLen - readableSize c.tcb n).toNat =
          c.tcb.rcvBuffLen.toNat := by omega
      have ht : c.tcb.rcvBuff.cells.take (readableSize c.tcb n).toNat =
          (c.tcb.rcvBuff.cells.take c.tcb.rcvBuffLen.toNat).take (readableSize c.tcb n).toNat := by
        rw [List.take_take, Nat.min_eq_left hr]
      rw [hsum] at hm
      simp only [readBytes, hl, hz, Conn.delivered, if_true, if_false, Bool.false_eq_true, hm]
      rw [List.append_assoc, ht, List.take_append_drop]
    · have hn : (c.tcb.rcvBuffLen - readableSize c.tcb n).toNat = 0 := by
        simpa [UInt32.lt_iff_toNat_lt] using hz
      have he : (readableSize c.tcb n).toNat = c.tcb.rcvBuffLen.toNat := by omega
      simp only [readBytes, hl, hz, Conn.delivered, if_false, Bool.false_eq_true, hn, he,
        List.take_zero, List.append_nil]

section RxStep
variable {c : Conn} {rest : List RxAct}

theorem rxStep_nil (h : c.rx = []) : rxStep c = c := by
  simp only [rxStep, h]

theorem rxStep_tx {flags : UInt8} {retries : Int} (h : c.rx = .tx flags retries :: rest) :
    rxStep c = tcpTxEmpty { c with rx := rest } flags retries := by
  simp only [rxStep, h]

theorem rxStep_text {pkt : Packet} (h : c.rx = .text pkt :: rest) :
    rxStep c = rxText c pkt rest := by
  simp only [rxStep, h]

theorem rxStep_fin {pkt : Packet} (h : c.rx = .fin pkt :: rest) : rxStep c = rxFin c pkt := by
  simp only [rxStep, h]

theorem rxStep_unlock (h : c.rx = .unlock :: rest) :
    rxStep c = { c with rx := rest, tcbLock := false } := by
  simp only [rxStep, h]

theorem rxStep_timer (h : c.rx = .timer :: rest) :
    rxStep c = { c with
      rx := rest, closeTimers := c.closeTimers + 1, scheduled := c.scheduled + 1 } := by
  simp only [rxStep, h]

end RxStep

inductive Taken (c : Conn) (pkt : Packet) : Conn → Prop where
  | establish (hs : c.tcb.state = .synSent) (hf : hasFlag pkt.tcp.hdr.flags tcpSyn = true)
      (hu : c.tcb.iss < (takeSyn c.tcb pkt.tcp.hdr).sndUna) :
      Taken c pkt (synEstablish c pkt.tcp.hdr)
  | cross (hs : c.tcb.state = .synSent) (hf : hasFlag pkt.tcp.hdr.flags tcpSyn = true)
      (hu : ¬ c.tcb.iss < (takeSyn c.tcb pkt.tcp.hdr).sndUna) :
      Taken c pkt (synCross c pkt.tcp.hdr)
  | confirm (hs : c.tcb.state = .synReceived) (hf : hasFlag pkt.tcp.hdr.flags tcpAck = true)
      (ha : ackAdvances c.tcb pkt.tcp.hdr = true) : Taken c pkt (synConfirm c pkt)
  | ack (hs : c.tcb.state = .established) (hf : hasFlag pkt.tcp.hdr.flags tcpAck = true) :
      Taken c pkt (ackEstablished c pkt)
  | finWait (hs : c.tcb.state = .finWait1) (hf : hasFlag pkt.tcp.hdr.flags tcpAck = true) :
      Taken c pkt (ackFinWait1 c pkt)

theorem tcpRxSwitch_cases (c : Conn) (pkt : Packet) :
    tcpRxSwitch c pkt = c ∨
      ∃ c', tcpRxSwitch c pkt = c' ∧ accepted c.tcb pkt = true ∧ c.tcbLock = false ∧
        Taken c pkt c' := by
  by_cases hg : (!accepted c.tcb pkt || c.tcbLock) = true
  · exact Or.inl (by simp only [tcpRxSwitch, hg, if_true])
  · have hal : accepted c.tcb pkt = true ∧ c.tcbLock = false := by simpa using hg
    simp only [tcpRxSwitch, hg, if_false, Bool.false_eq_true]
    split
    · exact Or.inl rfl
    · next hs =>
      split_ifs with hf hu
      · exact Or.inr ⟨_, rfl, hal.1, hal.2, .establish hs hf hu⟩
      · exact Or.inr ⟨_, rfl, hal.1, hal.2, .cross hs hf hu⟩
      · exact Or.inl rfl
    · next hs =>
      split_ifs with hf
      · have hfa : hasFlag pkt.tcp.hdr.flags tcpAck = true ∧
            ackAdvances c.tcb pkt.tcp.hdr = true := by simpa using hf
        exact Or.inr ⟨_, rfl, hal.1, hal.2, .confirm hs hfa.1 hfa.2⟩
      · exact Or.inl rfl
    · next hs =>
      split_ifs with hf
      · exact Or.inr ⟨_, rfl, hal.1, hal.2, .ack hs hf⟩
      · exact Or.inl rfl
    · next hs =>
      split_ifs with hf
      · exact Or.inr ⟨_, rfl, hal.1, hal.2, .finWait hs hf⟩
      · exact Or.inl rfl
    · exact Or.inl rfl

end AnpNetstack
