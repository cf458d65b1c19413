import AnpNetstack.BlockingCalls
import AnpNetstack.SocketTable

/-! What is left of a connect that has returned -1. connect gives the lock back and returns; the
block stays in the socket, in SYN_SENT, and get_tcb finds it there for every late segment. Where a
close has freed the block while connect still waits on it, connect reads the state and unlocks in
memory that is taken to keep its contents. -/
namespace AnpNetstack
open Runs

/-- What send, recv and close answer by the socket alone. Without conn_info it is ENOTCONN; a
freed socket has lost its descriptor too. -/
def socketReply (self : Nat) : SocketState → Reply
  | .freed => .libc
  | .unconnected => .error .enotconn
  | .connected => .conn self

def isReceived : CallEvent → Bool
  | .block (.segment _) _ => true
  | .block .rxStep _ => true
  | .block .retransmit _ => true
  | _ => false

structure StaysFailed (s : Calls) : Prop where
  socket : socketReply s.conn.self s.sock = .error .enotconn
  quiet : ∀ later, (∀ e ∈ later, isReceived e = true) →
    (run callStep s later).conn.tcb.state ≠ .established ∧
      (run callStep s later).conn.sent = s.conn.sent

def ClosedBefore (s : Calls) : Prop := ∃ r ∈ s.returns, r.call = .close ∧ r.value = 0

/-- The socket has its block from connect on, until close has returned 0. -/
structure SocketInv (s : Calls) : Prop where
  reached : Reached s.conn.control
  connected : s.sock = .connected → s.conn.fresh = false
  asleep : ∀ x ∈ s.sleepers, s.conn.fresh = false
  unconnected : s.sock = .unconnected → s.conn.fresh = true ∨ ClosedBefore s
  closed : ClosedBefore s → Over s.conn ∧ s.sock = .unconnected

section Step
variable {s : Calls}

inductive SockStep (s : Calls) (e : CallEvent) : SocketState → Prop where
  | same : SockStep s e s.sock
  | connect (hf : s.conn.fresh = true) (hnew : (callStep s e).conn.fresh = false) :
      SockStep s e .connected
  | noMemory (hf : s.conn.fresh = true) : SockStep s e .freed
  | closed (hnew : ClosedBefore (callStep s e)) : SockStep s e .unconnected

theorem sock_step (s : Calls) (e : CallEvent) : SockStep s e (callStep s e).sock := by
  have hstep := calls_step s e
  generalize hs' : callStep s e = s' at hstep ⊢
  cases hstep with
  | connect hs hf => exact .connect hf (by rw [hs']; exact connect_fresh hf)
  | noMemory hs hf => exact .noMemory hf
  | resume i call hi hl =>
    cases call with
    | connect => exact .same
    | recv len => exact .same
    | close =>
      by_cases hs : s.conn.tcb.state = .closed
      · simp only [returnFrom, hs, if_true]
        refine .closed ?_
        simp [hs', ClosedBefore, returnFrom, hs, Calls.ret]
      · simp only [returnFrom, hs, if_false]
        exact .same
  | _ => exact .same

theorem ClosedBefore.callStep (h : ClosedBefore s) (e : CallEvent) :
    ClosedBefore (callStep s e) := by
  obtain ⟨r, hr, hclose⟩ := h
  refine ⟨r, ?_, hclose⟩
  obtain he | ⟨call, slept, value, -, he⟩ := callStep_returns s e
  · exact he ▸ hr
  · rw [he]
    exact List.mem_append_left _ hr

theorem control_unconnected {e : CallEvent} (hs : s.sock ≠ .connected)
    (hs' : (callStep s e).sock ≠ .connected) : (callStep s e).conn.control = s.conn.control := by
  have hstep := calls_step s e
  generalize callStep s e = s' at hs' hstep ⊢
  cases hstep with
  | same => rfl
  | block e woken ht =>
    cases e with
    | sendRound i alloc => exact control_sendRound s.conn i alloc
    | retransmit => rfl
    | _ => simp [takesPlace, hs] at ht
  | connect hs'' hf => simp at hs'
  | noMemory hs'' hf => rfl
  | sleep len hs'' hl hb => exact absurd hs'' hs
  | read len hs'' hl hb => exact absurd hs'' hs
  | spurious i => rfl
  | resume i call hi hl =>
    cases call with
    | connect => rfl
    | recv len => exact control_readBytes s.conn (UInt32.ofNat len)
    | close =>
      simp only [returnFrom]
      split_ifs <;> rfl

theorem SocketInv.connected_step (h : SocketInv s) (e : CallEvent)
    (hs : (callStep s e).sock = .connected) : (callStep s e).conn.fresh = false := by
  have hsock := sock_step s e
  generalize (callStep s e).sock = sock at hs hsock
  cases hsock with
  | same => exact fresh_callStep (h.connected hs) e
  | connect hf hnew => exact hnew
  | noMemory hf => simp at hs
  | closed hnew => simp at hs

theorem SocketInv.asleep_step (h : SocketInv s) (e : CallEvent) :
    ∀ x ∈ (callStep s e).sleepers, (callStep s e).conn.fresh = false := by
  intro x hx
  obtain ⟨y, hy, -⟩ | ⟨-, hf⟩ | ⟨len, -, -, hs⟩ | ⟨-, hc⟩ := call_asleep hx
  · exact fresh_callStep (h.asleep y hy) e
  · exact hf
  · exact fresh_callStep (h.connected hs) e
  · have hs := (h.reached.inv.closing hc).2.1
    exact fresh_callStep (h.reached.inv.not_fresh (by simp [hs])) e

theorem SocketInv.unconnected_step (h : SocketInv s) (e : CallEvent)
    (hs : (callStep s e).sock = .unconnected) :
    (callStep s e).conn.fresh = true ∨ ClosedBefore (callStep s e) := by
  have hsock := sock_step s e
  generalize hnew : (callStep s e).sock = sock at hs hsock
  cases hsock with
  | same =>
    cases h.unconnected hs with
    | inl hf =>
      have hk := control_unconnected (s := s) (e := e) (by simp [hs]) (by simp [hnew, hs])
      exact Or.inl ((congrArg Control.fresh hk).trans hf)
    | inr hc => exact Or.inr (hc.callStep e)
  | connect hf hfresh => simp at hs
  | noMemory hf => simp at hs
  | closed hc => exact Or.inr hc

theorem SocketInv.unconnected_kept (h : SocketInv s) (hc : ClosedBefore s) (e : CallEvent) :
    (callStep s e).sock = .unconnected := by
  obtain ⟨hover, hs⟩ := h.closed hc
  have hsock := sock_step s e
  generalize (callStep s e).sock = sock at hsock ⊢
  cases hsock with
  | same => exact hs
  | connect hf hfresh => simp [hover.2] at hf
  | noMemory hf => simp [hover.2] at hf
  | closed hc => rfl

theorem SocketInv.closed_step (h : SocketInv s) (e : CallEvent) (hc : ClosedBefore (callStep s e)) :
    Over (callStep s e).conn ∧ (callStep s e).sock = .unconnected := by
  obtain ⟨r, hr, hclose, hzero⟩ := hc
  obtain hr | ⟨hs, i, rfl, hi⟩ := close_returned hr hclose hzero
  · have hc : ClosedBefore s := ⟨r, hr, hclose, hzero⟩
    exact ⟨(h.closed hc).1.callStep h.reached e, h.unconnected_kept hc e⟩
  · have hover : Over s.conn := ⟨hs, h.asleep _ (List.mem_of_getElem? hi)⟩
    refine ⟨hover.callStep h.reached (.resume i), ?_⟩
    by_cases hl : s.conn.tcbLock = true
    · have he : callStep s (.resume i) = s := by simp [callStep, hi, hl]
      rw [he] at hr ⊢
      exact (h.closed ⟨r, hr, hclose, hzero⟩).2
    · simp [callStep, hi, hl, returnFrom, hs]

theorem SocketInv.step (h : SocketInv s) (e : CallEvent) : SocketInv (callStep s e) where
  reached := calls_reached h.reached e
  connected := h.connected_step e
  asleep := h.asleep_step e
  unconnected := h.unconnected_step e
  closed := h.closed_step e

theorem received_unconnected (hs : s.sock = .unconnected) {e : CallEvent}
    (he : isReceived e = true) :
    (callStep s e).sock = .unconnected ∧ (callStep s e).conn.tcb = s.conn.tcb ∧
      (callStep s e).conn.sent = s.conn.sent := by
  cases e with
  | block e woken =>
    cases e with
    | segment pkt => simp [callStep, takesPlace, hs]
    | rxStep => simp [callStep, takesPlace, hs]
    | retransmit => exact ⟨hs, rfl, rfl⟩
    | _ => simp [isReceived] at he
  | _ => simp [isReceived] at he

theorem received_unconnected_run {later : List CallEvent} (hs : s.sock = .unconnected)
    (he : ∀ e ∈ later, isReceived e = true) :
    (run callStep s later).conn.tcb = s.conn.tcb ∧
      (run callStep s later).conn.sent = s.conn.sent := by
  induction later generalizing s with
  | nil => exact ⟨rfl, rfl⟩
  | cons e later ih =>
    obtain ⟨hs', htcb, hsent⟩ := received_unconnected hs (he e (by simp))
    obtain ⟨htcb', hsent'⟩ := ih hs' (fun e' he' => he e' (List.mem_cons_of_mem e he'))
    exact ⟨htcb'.trans htcb, hsent'.trans hsent⟩

end Step

theorem socketInv_run {s : Calls} (h : SocketInv s) (es : List CallEvent) :
    SocketInv (run callStep s es) := by
  induction es generalizing s with
  | nil => exact h
  | cons e es ih => exact ih (h.step e)

theorem initCalls_socketInv (self : Nat) (localPort remotePort : UInt16)
    (localIp remoteIp rand : UInt32) (msgs : List TcpMessage) :
    SocketInv (initCalls (connectBlock self localPort remotePort localIp remoteIp rand msgs)) where
  reached := connectBlock_reached self localPort remotePort localIp remoteIp rand msgs
  connected := by simp [initCalls]
  asleep := by simp [initCalls]
  unconnected := fun _ => Or.inl rfl
  closed := by simp [ClosedBefore, initCalls]

/-- A connect that comes back leaves the socket as it is, or freed when there was no memory. -/
theorem connect_returned {s : Calls} (h : SocketInv s) {e : CallEvent} {r : Returned}
    (hr : (callStep s e).returns = s.returns ++ [r]) (hcall : r.call = .connect) :
    (callStep s e).sock = .freed ∨ (callStep s e).sock = s.sock ∧ s.conn.fresh = false := by
  have hstep := calls_step s e
  generalize callStep s e = s' at hr hstep ⊢
  cases hstep with
  | noMemory hs hf => exact Or.inl rfl
  | read len hs hl hb =>
    rw [readReturn_returns, Calls.ret, List.append_cancel_left_eq] at hr
    simp [← List.singleton_inj.mp hr] at hcall
  | resume i call hi hl =>
    rw [returnFrom_returns, Calls.ret, List.append_cancel_left_eq] at hr
    have hcall' : call = .connect := by simpa [← List.singleton_inj.mp hr] using hcall
    subst hcall'
    exact Or.inr ⟨rfl, h.asleep _ (List.mem_of_getElem? hi)⟩
  | _ => simp at hr

theorem failed_connect_stays_failed (self : Nat) (localPort remotePort : UInt16)
    (localIp remoteIp rand : UInt32) (msgs : List TcpMessage) (es : List CallEvent) (e : CallEvent)
    (r : Returned) :
    let s := run callStep
      (initCalls (connectBlock self localPort remotePort localIp remoteIp rand msgs)) es
    (callStep s e).returns = s.returns ++ [r] → r.call = .connect → r.value = -1 →
      (StaysFailed (callStep s e) ↔ ClosedBefore s) := by
  intro s hr hcall _
  have hinv : SocketInv s :=
    socketInv_run (initCalls_socketInv self localPort remotePort localIp remoteIp rand msgs) es
  constructor
  · intro hfailed
    have hsock : (callStep s e).sock = .unconnected := by
      have hreply := hfailed.socket
      cases hs : (callStep s e).sock <;> simp [socketReply, hs] at hreply ⊢
    cases connect_returned hinv hr hcall with
    | inl hfreed => simp [hfreed] at hsock
    | inr hsame =>
      have hclosed := hinv.unconnected (hsame.1 ▸ hsock)
      simpa [hsame.2] using hclosed
  · intro hclosed
    have hsock := hinv.unconnected_kept hclosed e
    have hover := (hinv.closed hclosed).1.callStep hinv.reached e
    refine ⟨by simp [socketReply, hsock], fun later hlater => ?_⟩
    obtain ⟨htcb, hsent⟩ := received_unconnected_run hsock hlater
    exact ⟨by simp [htcb, hover.1], hsent⟩

def connectGivesUp : List CallEvent :=
  .connect true :: List.replicate 9 (.block .retransmit []) ++ [.block .retransmit [0]]

theorem failed_connect_sample :
    let start := initCalls (connectBlock 1 49155 43211 0x0400000a 0x0a000005 1000 [])
    ¬ StaysFailed (callStep (run callStep start connectGivesUp) (.resume 0)) := by
  intro start hfailed
  have hiff :=
    failed_connect_stays_failed 1 49155 43211 0x0400000a 0x0a000005 1000 [] connectGivesUp
      (.resume 0)
      { call := .connect, slept := true, value := -1, state := .synSent, exhausted := true,
        fins := 0 }
      (by decide +kernel) rfl rfl
  have hnone : (run callStep start connectGivesUp).returns = [] := by decide +kernel
  obtain ⟨r, hr, -⟩ := hiff.mp hfailed
  simp [start, hnone] at hr

/-- A SYN|ACK that comes after connect has returned -1 opens the connection all the same; an ACK
is queued for it, and the socket has a connection on which send goes ahead. -/
theorem failed_connect_opened :
    let start := initCalls (connectBlock 1 49155 43211 0x0400000a 0x0a000005 1000 [])
    let s := run callStep start (connectGivesUp ++ [.resume 0])
    let later : List CallEvent :=
      [.block (.segment (samplePeer 5000 1001 tcpSynAck 1000 [])) [], .block .rxStep [],
        .block .rxStep []]
    s.returns.map (fun r => (r.call, r.value)) = [(.connect, -1)] ∧ s.sock = .connected ∧
      (∀ e ∈ later, isReceived e = true) ∧
      (run callStep s later).conn.tcb.state = .established ∧
      (run callStep s later).conn.sent.map (fun x => x.seg.hdr.flags) = [tcpSyn, tcpAck] ∧
      (run callStep s (later ++ [.block (.send [1, 2, 3]) []])).conn.calls.length = 1 := by
  decide +kernel

end AnpNetstack
