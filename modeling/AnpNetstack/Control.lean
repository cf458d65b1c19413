import AnpNetstack.Sockets

/-! The control part of a connection: its state, tcb_lock, what tcp_rx still has to do,
and the timers. It moves as a small machine of its own, whatever is sent and stored. -/
namespace AnpNetstack

structure Control where
  state : TcpState
  lock : Bool
  rx : List RxAct
  closing : Bool
  fresh : Bool
  closeTimers : Nat
  scheduled : Nat

def Conn.control (c : Conn) : Control where
  state := c.tcb.state
  lock := c.tcbLock
  rx := c.rx
  closing := c.closing
  fresh := c.fresh
  closeTimers := c.closeTimers
  scheduled := c.scheduled

inductive ControlStep (k : Control) : Event → Control → Prop where
  | connect (hf : k.fresh = true) :
      ControlStep k .connect { k with state := .synSent, fresh := false, lock := false }
  | close (hl : k.lock = false) (hs : k.state = .established) :
      ControlStep k .close { k with state := .finWait1, lock := true, closing := true }
  | closeFails (hl : k.lock = false) : ControlStep k .close { k with lock := true }
  | closeFin (hc : k.closing = true) :
      ControlStep k .closeFin { k with closing := false, lock := false }
  | establish {pkt : Packet} (hx : k.rx = []) (hl : k.lock = false) (hs : k.state = .synSent) :
      ControlStep k (.segment pkt) { k with
        state := .established, lock := true, rx := [.tx tcpAck retriesSendonce, .unlock] }
  | cross {pkt : Packet} (hx : k.rx = []) (hl : k.lock = false) (hs : k.state = .synSent) :
      ControlStep k (.segment pkt) { k with
        state := .synReceived, lock := true, rx := [.tx tcpSynAck retriesConnMax, .unlock] }
  | confirm (pkt : Packet) (hx : k.rx = []) (hl : k.lock = false) (hs : k.state = .synReceived) :
      ControlStep k (.segment pkt) { k with
        state := .established, lock := true
        rx := [.tx tcpAck retriesSendonce, .text pkt, .fin pkt] }
  | ack (pkt : Packet) (hx : k.rx = []) (hl : k.lock = false) (hs : k.state = .established) :
      ControlStep k (.segment pkt) { k with lock := true, rx := [.text pkt, .fin pkt] }
  | finWait (pkt : Packet) (hx : k.rx = []) (hl : k.lock = false) (hs : k.state = .finWait1) :
      ControlStep k (.segment pkt) { k with
        state := .finWait2, lock := true, rx := [.text pkt, .fin pkt] }
  | tx (flags : UInt8) (retries : Int) (rest : List RxAct) (hx : k.rx = .tx flags retries :: rest) :
      ControlStep k .rxStep { k with rx := rest }
  | textSkipped (pkt : Packet) (rest : List RxAct) (hx : k.rx = .text pkt :: rest) :
      ControlStep k .rxStep { k with rx := rest }
  | outOfOrder (pkt : Packet) (rest : List RxAct) (hx : k.rx = .text pkt :: rest) :
      ControlStep k .rxStep { k with rx := [], lock := false }
  | stored (pkt : Packet) (rest : List RxAct) (hx : k.rx = .text pkt :: rest) :
      ControlStep k .rxStep { k with rx := .tx tcpAck retriesSendonce :: rest }
  | finDropped (pkt : Packet) (rest : List RxAct) (hx : k.rx = .fin pkt :: rest)
      (hs : k.state = .closed ∨ k.state = .synSent) :
      ControlStep k .rxStep { k with rx := [], lock := false }
  | finTaken (pkt : Packet) (rest : List RxAct) (hx : k.rx = .fin pkt :: rest)
      (hs : k.state = .finWait1 ∨ k.state = .finWait2) :
      ControlStep k .rxStep { k with
        state := .timeWait, rx := [.tx tcpAck retriesSendonce, .unlock, .timer] }
  | finIgnored (pkt : Packet) (rest : List RxAct) (hx : k.rx = .fin pkt :: rest) :
      ControlStep k .rxStep { k with rx := [] }
  | noFin (pkt : Packet) (rest : List RxAct) (hx : k.rx = .fin pkt :: rest) :
      ControlStep k .rxStep { k with rx := [.unlock] }
  | unlock (rest : List RxAct) (hx : k.rx = .unlock :: rest) :
      ControlStep k .rxStep { k with rx := rest, lock := false }
  | timer (rest : List RxAct) (hx : k.rx = .timer :: rest) :
      ControlStep k .rxStep { k with
        rx := rest, closeTimers := k.closeTimers + 1, scheduled := k.scheduled + 1 }
  | closeTimer (ht : k.closeTimers ≠ 0) (hl : k.lock = false) :
      ControlStep k .closeTimer { k with state := .closed, closeTimers := k.closeTimers - 1 }

@[simp] theorem control_txSegment (alloc : Bool) (c : Conn) (who : Option Nat) (data : List UInt8)
    (n : UInt32) (flags : UInt8) (retries : Int) :
    (txSegment alloc c who data n flags retries).control = c.control := by
  rw [txSegment_eq]
  rfl

@[simp] theorem control_tcpTxEmpty (c : Conn) (flags : UInt8) (retries : Int) :
    (tcpTxEmpty c flags retries).control = c.control := by
  cases tcpTxEmpty_cases c flags retries with
  | inl he =>
    rw [he]
  | inr he =>
    rw [he, control_txSegment]

@[simp] theorem control_tcpTxSection (alloc : Bool) (c : Conn) (who : Option Nat) (call : TxCall) :
    (tcpTxSection alloc c who call).1.control = c.control := by
  unfold tcpTxSection
  split_ifs <;> simp

@[simp] theorem control_sendRound (c : Conn) (i : Nat) (alloc : Bool) :
    (sendRound c i alloc).control = c.control := by
  unfold sendRound
  split
  · rfl
  · split_ifs
    · rfl
    · exact control_tcpTxSection alloc c (some i) _

@[simp] theorem control_send (c : Conn) (buf : List UInt8) : (send c buf).control = c.control := by
  unfold send
  split_ifs <;> rfl

@[simp] theorem control_readBytes (c : Conn) (len : UInt32) :
    (readBytes c len).control = c.control :=
  readBytes_frame Conn.control (fun _ _ _ _ => rfl) c len

theorem control_connect (c : Conn) :
    (connect c).control = c.control ∨ ControlStep c.control .connect (connect c).control := by
  unfold connect
  split_ifs with hf
  · right
    have hk := control_tcpTxEmpty c tcpSyn retriesConnMax
    have he : Conn.control { tcpTxEmpty c tcpSyn retriesConnMax with
        tcb := { (tcpTxEmpty c tcpSyn retriesConnMax).tcb with state := .synSent }
        fresh := false, tcbLock := false } =
        { c.control with state := .synSent, fresh := false, lock := false } := by
      rw [← hk]
      rfl
    exact he ▸ .connect hf
  · exact Or.inl rfl

theorem control_close (c : Conn) :
    (close c).control = c.control ∨ ControlStep c.control .close (close c).control := by
  unfold close
  split_ifs with hl hs
  · exact Or.inl rfl
  · exact Or.inr (.close (Bool.not_eq_true _ ▸ hl) hs)
  · exact Or.inr (.closeFails (Bool.not_eq_true _ ▸ hl))

theorem control_closeFin (c : Conn) :
    (closeFin c).control = c.control ∨ ControlStep c.control .closeFin (closeFin c).control := by
  unfold closeFin
  split_ifs with hc
  · right
    have hk := control_tcpTxEmpty c tcpFinAck retriesSendonce
    have he : Conn.control { tcpTxEmpty c tcpFinAck retriesSendonce with
        closing := false, tcbLock := false } =
        { c.control with closing := false, lock := false } := by
      rw [← hk]
      rfl
    exact he ▸ .closeFin hc
  · exact Or.inl rfl

theorem control_closeConnection (c : Conn) :
    (closeConnection c).control = c.control ∨
      ControlStep c.control .closeTimer (closeConnection c).control := by
  unfold closeConnection
  split_ifs with hg
  · exact Or.inl rfl
  · have hg' : c.closeTimers ≠ 0 ∧ c.tcbLock = false := by simpa using hg
    exact Or.inr (.closeTimer hg'.1 hg'.2)

theorem control_tcpRxSwitch (c : Conn) (pkt : Packet) (hx : c.rx = []) :
    (tcpRxSwitch c pkt).control = c.control ∨
      ControlStep c.control (.segment pkt) (tcpRxSwitch c pkt).control := by
  cases tcpRxSwitch_cases c pkt with
  | inl he =>
    rw [he]
    exact Or.inl rfl
  | inr ht =>
    obtain ⟨c', he, -, hl, ht⟩ := ht
    rw [he]
    right
    cases ht with
    | establish hs hf hu => exact .establish hx hl hs
    | cross hs hf hu => exact .cross hx hl hs
    | confirm hs hf ha => exact .confirm pkt hx hl hs
    | ack hs hf =>
      have hk : (ackEstablished c pkt).control =
          { c.control with lock := true, rx := [.text pkt, .fin pkt] } := by
        simp only [ackEstablished, Conn.control, takeAck_state]
      exact hk ▸ .ack pkt hx hl hs
    | finWait hs hf => exact .finWait pkt hx hl hs

theorem control_rxText {c : Conn} {pkt : Packet} {rest : List RxAct}
    (hx : c.rx = .text pkt :: rest) :
    ControlStep c.control .rxStep (rxText c pkt rest).control := by
  have hstep := rxText_step c pkt rest
  generalize rxText c pkt rest = c' at hstep ⊢
  cases hstep with
  | none hz => exact .textSkipped pkt rest hx
  | outOfOrder hz hseq => exact .outOfOrder pkt rest hx
  | stored hz hseq =>
    cases hr : (saveDataAndAck c.tcb pkt.tcp.data (segmentLen pkt)).2 with
    | true =>
      simp only [Conn.control, saveDataAndAck_state, if_true]
      exact .stored pkt rest hx
    | false =>
      simp only [Conn.control, saveDataAndAck_state, if_false, Bool.false_eq_true]
      exact .textSkipped pkt rest hx

theorem control_rxFin {c : Conn} {pkt : Packet} {rest : List RxAct} (hx : c.rx = .fin pkt :: rest) :
    ControlStep c.control .rxStep (rxFin c pkt).control := by
  have hstep := rxFin_step c pkt
  generalize rxFin c pkt = c' at hstep ⊢
  cases hstep with
  | dropped hs => exact .finDropped pkt rest hx hs
  | taken hf hw => exact .finTaken pkt rest hx hw
  | ignored hf hw => exact .finIgnored pkt rest hx
  | noFin hf => exact .noFin pkt rest hx

theorem control_rxStep (c : Conn) :
    (rxStep c).control = c.control ∨ ControlStep c.control .rxStep (rxStep c).control := by
  cases hx : c.rx with
  | nil =>
    rw [rxStep_nil hx]
    exact Or.inl rfl
  | cons a rest =>
    right
    cases a with
    | tx flags retries =>
      rw [rxStep_tx hx, control_tcpTxEmpty]
      exact .tx flags retries rest hx
    | text pkt =>
      rw [rxStep_text hx]
      exact control_rxText hx
    | fin pkt =>
      rw [rxStep_fin hx]
      exact control_rxFin hx
    | unlock =>
      rw [rxStep_unlock hx]
      exact .unlock rest hx
    | timer =>
      rw [rxStep_timer hx]
      exact .timer rest hx

/-- Every event of the connection is a step of its control part or leaves it alone. -/
theorem control_step (c : Conn) (e : Event) :
    (step c e).control = c.control ∨ ControlStep c.control e (step c e).control := by
  cases e with
  | connect => exact control_connect c
  | send buf => exact Or.inl (control_send c buf)
  | sendRound i alloc => exact Or.inl (control_sendRound c i alloc)
  | recv len => exact Or.inl (control_readBytes c len)
  | segment pkt =>
    by_cases hx : c.rx = []
    · simp only [step, hx, List.isEmpty_nil, if_true]
      exact control_tcpRxSwitch c pkt hx
    · simp only [step, List.isEmpty_iff, hx, if_false]
      exact Or.inl trivial
  | rxStep => exact control_rxStep c
  | retransmit => exact Or.inl rfl
  | close => exact control_close c
  | closeFin => exact control_closeFin c
  | closeTimer => exact control_closeConnection c

theorem ControlStep.rx_eq {k k' : Control} {e : Event} (hk : ControlStep k e k')
    (hseg : ∀ pkt, e ≠ .segment pkt) (hrx : e ≠ .rxStep) : k'.rx = k.rx := by
  cases hk with
  | connect hf => rfl
  | close hl hs => rfl
  | closeFails hl => rfl
  | closeFin hc => rfl
  | closeTimer ht hl => rfl
  | _ => simp at hseg hrx

theorem rx_frame (c : Conn) {e : Event} (hseg : ∀ pkt, e ≠ .segment pkt) (hrx : e ≠ .rxStep) :
    (step c e).rx = c.rx := by
  cases control_step c e with
  | inl he => exact congrArg Control.rx he
  | inr hk => exact hk.rx_eq hseg hrx

end AnpNetstack
