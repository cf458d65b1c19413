import AnpNetstack.StateMachine

/-! The calls that wait on tcb_cond: connect for the handshake, read_bytes for text and close
for the end. Each waits once, and whatever wakes it up, it then returns by what it finds.
The machine puts the sleeping calls of one socket beside its connection. -/
namespace AnpNetstack

def tcpPsh : UInt8 := 0x08

inductive Waiter where
  | connect
  | recv (len : Nat)
  | close
  deriving DecidableEq, Repr

/-- `woken` calls have left the wait and need tcb_lock to go on. -/
structure Sleeper where
  call : Waiter
  woken : Bool
  deriving DecidableEq, Repr

/-- The places where tcb_cond is signalled, by what they announce. -/
inductive Signal where
  | established
  | data
  | exhausted
  | closed
  deriving DecidableEq, Repr

def wakesReader (tcb : Tcb) (pkt : Packet) : Bool :=
  tcb.rcvBuffLen == tcpRcvMax || hasFlag pkt.tcp.hdr.flags tcpPsh

def expires (self : Nat) (entry : TcpMessage) : Bool :=
  entry.tcb == self && entry.retries != UInt32.ofInt retriesSendonce &&
    entry.retries != UInt32.ofInt retriesInfinite && entry.retries - 1 == 0

def signalled (c : Conn) : Event → Option Signal
  | .rxStep =>
    match c.rx with
    | [.tx _ _, .unlock] => if c.tcb.state = .established then some .established else none
    | .tx _ _ :: .text _ :: _ => some .established
    | [.tx _ _, .fin pkt] => if wakesReader c.tcb pkt then some .data else none
    | .text pkt :: _ =>
      if segmentLen pkt ≠ 0 ∧ pkt.tcp.hdr.seqNum = c.tcb.rcvNxt ∧
          finalCopySize c.tcb (segmentLen pkt) = 0 ∧ wakesReader c.tcb pkt = true
      then some .data else none
    | _ => none
  | .retransmit => if c.messagesArray.any (expires c.self) then some .exhausted else none
  | .closeTimer => if c.closeTimers = 0 ∨ c.tcbLock then none else some .closed
  | _ => none

inductive SignalAt (c : Conn) : Event → Signal → Prop where
  | reply (flags : UInt8) (retries : Int) (hx : c.rx = [.tx flags retries, .unlock])
      (hs : c.tcb.state = .established) : SignalAt c .rxStep .established
  | confirm (flags : UInt8) (retries : Int) (pkt : Packet) (rest : List RxAct)
      (hx : c.rx = .tx flags retries :: .text pkt :: rest) : SignalAt c .rxStep .established
  | stored (flags : UInt8) (retries : Int) (pkt : Packet)
    (hx : c.rx = [.tx flags retries, .fin pkt]) :
      SignalAt c .rxStep .data
  | full (pkt : Packet) (rest : List RxAct) (hx : c.rx = .text pkt :: rest)
    (hlen : segmentLen pkt ≠ 0)
      (hn : finalCopySize c.tcb (segmentLen pkt) = 0) : SignalAt c .rxStep .data
  | exhausted (entry : TcpMessage) (hentry : entry ∈ c.messagesArray)
    (h : expires c.self entry = true) :
      SignalAt c .retransmit .exhausted
  | closed (ht : c.closeTimers ≠ 0) (hl : c.tcbLock = false) : SignalAt c .closeTimer .closed

theorem signal_at {c : Conn} {e : Event} {sig : Signal} (h : signalled c e = some sig) :
    SignalAt c e sig := by
  unfold signalled at h
  split at h
  · split at h
    · next flags retries hx =>
      split_ifs at h with hs
      cases h
      exact .reply flags retries hx hs
    · next flags retries pkt rest hx =>
      cases h
      exact .confirm flags retries pkt rest hx
    · next flags retries pkt hx =>
      split_ifs at h
      cases h
      exact .stored flags retries pkt hx
    · next pkt rest hx =>
      split_ifs at h with hfull
      cases h
      exact .full pkt rest hx hfull.1 hfull.2.2.1
    · cases h
  · split_ifs at h with hany
    cases h
    obtain ⟨entry, hentry, hexp⟩ := List.any_eq_true.mp hany
    exact .exhausted entry hentry hexp
  · split_ifs at h with hrun
    cases h
    obtain ⟨ht, hl⟩ := not_or.mp hrun
    exact .closed ht (by simpa using hl)
  · cases h

/-- How the socket stands: freed, without conn_info, or with the block of `Calls.conn`. -/
inductive SocketState where
  | freed
  | unconnected
  | connected
  deriving DecidableEq, Repr

structure Returned where
  call : Waiter
  slept : Bool
  value : Int
  state : TcpState
  exhausted : Bool
  fins : Nat
  deriving DecidableEq, Repr

structure Calls where
  conn : Conn
  sock : SocketState
  sleepers : List Sleeper
  exhausted : Bool
  returns : List Returned

def Calls.ret (s : Calls) (call : Waiter) (slept : Bool) (value : Int) : Calls :=
  { s with returns := s.returns ++ [{
      call := call, slept := slept, value := value, state := s.conn.tcb.state
      exhausted := s.exhausted, fins := s.conn.fins.length }] }

def wake (who : List Nat) (sleepers : List Sleeper) : List Sleeper :=
  sleepers.mapIdx (fun i x => if i ∈ who then { x with woken := true } else x)

def readReturn (s : Calls) (len : Nat) (slept : Bool) : Calls :=
  Calls.ret { s with conn := readBytes s.conn (UInt32.ofNat len) } (.recv len) slept
    (readableSize s.conn.tcb (UInt32.ofNat len)).toNat

/-- What a call does after its wait. close frees the block when the state is CLOSED. -/
def returnFrom (s : Calls) : Waiter → Calls
  | .connect => s.ret .connect true (if s.conn.tcb.state = .established then 0 else -1)
  | .recv len => readReturn s len true
  | .close =>
    if s.conn.tcb.state = .closed then { s.ret .close true 0 with sock := .unconnected }
    else s.ret .close true (-1)

/-- Events of the connection. Without conn_info get_tcb does not find the block and the calls
are refused; what is under way in tcp_tx goes on, and so do the retransmit passes. -/
def takesPlace (sock : SocketState) : Event → Bool
  | .connect => false
  | .recv _ => false
  | .sendRound _ _ => true
  | .retransmit => true
  | _ => sock == .connected

def fallsAsleep (c : Conn) : Event → List Sleeper
  | .closeFin => if c.closing then [{ call := .close, woken := false }] else []
  | _ => []

/-- `woken` are those that a signal, if there is one, wakes up. -/
inductive CallEvent where
  | block (e : Event) (woken : List Nat)
  | connect (alloc : Bool)
  | recv (len : Nat)
  | spurious (i : Nat)
  | resume (i : Nat)

def callStep (s : Calls) : CallEvent → Calls
  | .block e woken =>
    if takesPlace s.sock e then
      { s with
        conn := step s.conn e
        sleepers := (if (signalled s.conn e).isSome then wake woken s.sleepers else s.sleepers) ++
          fallsAsleep s.conn e
        exhausted := s.exhausted || signalled s.conn e == some .exhausted }
    else s
  | .connect alloc =>
    if s.sock = .unconnected ∧ s.conn.fresh then
      if alloc then
        { s with
          conn := connect s.conn, sock := .connected
          sleepers := s.sleepers ++ [{ call := .connect, woken := false }] }
      else { s.ret .connect false (-1) with sock := .freed }
    else s
  | .recv len =>
    if s.sock = .connected ∧ s.conn.tcbLock = false then
      if s.conn.tcb.rcvBuffLen = 0 then
        { s with sleepers := s.sleepers ++ [{ call := .recv len, woken := false }] }
      else readReturn s len false
    else s
  | .spurious i => { s with sleepers := wake [i] s.sleepers }
  | .resume i =>
    match s.sleepers[i]? with
    | some { call := call, woken := true } =>
      if s.conn.tcbLock then s else returnFrom { s with sleepers := s.sleepers.eraseIdx i } call
    | _ => s

def initCalls (c : Conn) : Calls where
  conn := c
  sock := .unconnected
  sleepers := []
  exhausted := false
  returns := []

inductive CallsStep (s : Calls) : CallEvent → Calls → Prop where
  | same {e : CallEvent} : CallsStep s e s
  | block (e : Event) (woken : List Nat) (ht : takesPlace s.sock e = true) :
      CallsStep s (.block e woken) { s with
        conn := step s.conn e
        sleepers := (if (signalled s.conn e).isSome then wake woken s.sleepers else s.sleepers) ++
          fallsAsleep s.conn e
        exhausted := s.exhausted || signalled s.conn e == some .exhausted }
  | connect (hs : s.sock = .unconnected) (hf : s.conn.fresh = true) :
      CallsStep s (.connect true) { s with
        conn := connect s.conn, sock := .connected
        sleepers := s.sleepers ++ [{ call := .connect, woken := false }] }
  | noMemory (hs : s.sock = .unconnected) (hf : s.conn.fresh = true) :
      CallsStep s (.connect false) { s.ret .connect false (-1) with sock := .freed }
  | sleep (len : Nat) (hs : s.sock = .connected) (hl : s.conn.tcbLock = false)
      (hb : s.conn.tcb.rcvBuffLen = 0) :
      CallsStep s (.recv len) { s with
        sleepers := s.sleepers ++ [{ call := .recv len, woken := false }] }
  | read (len : Nat) (hs : s.sock = .connected) (hl : s.conn.tcbLock = false)
      (hb : s.conn.tcb.rcvBuffLen ≠ 0) : CallsStep s (.recv len) (readReturn s len false)
  | spurious (i : Nat) : CallsStep s (.spurious i) { s with sleepers := wake [i] s.sleepers }
  | resume (i : Nat) (call : Waiter) (hi : s.sleepers[i]? = some { call := call, woken := true })
      (hl : s.conn.tcbLock = false) :
      CallsStep s (.resume i) (returnFrom { s with sleepers := s.sleepers.eraseIdx i } call)

theorem calls_step (s : Calls) (e : CallEvent) : CallsStep s e (callStep s e) := by
  cases e with
  | block e woken =>
    by_cases ht : takesPlace s.sock e = true
    · simp only [callStep, ht, if_true]
      exact .block e woken ht
    · simp only [callStep, ht, if_false, Bool.false_eq_true]
      exact .same
  | connect alloc =>
    simp only [callStep]
    split_ifs with hs ha
    · exact ha ▸ .connect hs.1 hs.2
    · have ha' : alloc = false := by simpa using ha
      exact ha' ▸ .noMemory hs.1 hs.2
    · exact .same
  | recv len =>
    simp only [callStep]
    split_ifs with hs hb
    · exact .sleep len hs.1 hs.2 hb
    · exact .read len hs.1 hs.2 hb
    · exact .same
  | spurious i => exact .spurious i
  | resume i =>
    simp only [callStep]
    split
    · next call hi =>
      split_ifs with hl
      · exact .same
      · exact .resume i call hi (by simpa using hl)
    · exact .same

section Conn

theorem returnFrom_conn (s : Calls) (call : Waiter) :
    (returnFrom s call).conn = s.conn ∨ ∃ e, (returnFrom s call).conn = step s.conn e := by
  cases call with
  | connect => exact Or.inl rfl
  | recv len => exact Or.inr ⟨.recv (UInt32.ofNat len), rfl⟩
  | close =>
    unfold returnFrom
    split_ifs <;> exact Or.inl rfl

theorem returnFrom_sleepers (s : Calls) (call : Waiter) :
    (returnFrom s call).sleepers = s.sleepers := by
  cases call with
  | connect => rfl
  | recv len => rfl
  | close =>
    unfold returnFrom
    split_ifs <;> rfl

/-- What the calls do to the connection is a step of the connection. -/
theorem callStep_conn (s : Calls) (e : CallEvent) :
    (callStep s e).conn = s.conn ∨ ∃ e', (callStep s e).conn = step s.conn e' := by
  have hstep := calls_step s e
  generalize callStep s e = s' at hstep
  cases hstep with
  | same => exact Or.inl rfl
  | block e woken ht => exact Or.inr ⟨e, rfl⟩
  | connect hs hf => exact Or.inr ⟨.connect, rfl⟩
  | noMemory hs hf => exact Or.inl rfl
  | sleep len hs hl hb => exact Or.inl rfl
  | read len hs hl hb => exact Or.inr ⟨.recv (UInt32.ofNat len), rfl⟩
  | spurious i => exact Or.inl rfl
  | resume i call hi hl => exact returnFrom_conn { s with sleepers := s.sleepers.eraseIdx i } call

theorem calls_reached {s : Calls} (h : Reached s.conn.control) (e : CallEvent) :
    Reached (callStep s e).conn.control := by
  obtain he | ⟨e', he⟩ := callStep_conn s e
  · rw [he]
    exact h
  · rw [he]
    exact reached_step h e'

def Over (c : Conn) : Prop := c.tcb.state = .closed ∧ c.fresh = false

theorem Over.step {c : Conn} (h : Over c) (hk : Reached c.control) (e : Event) : Over (step c e) :=
  ⟨closed_run hk h.1 h.2 [e], fresh_run h.2 [e]⟩

theorem Over.callStep {s : Calls} (h : Over s.conn) (hk : Reached s.conn.control) (e : CallEvent) :
    Over (callStep s e).conn := by
  obtain he | ⟨e', he⟩ := callStep_conn s e
  · rw [he]
    exact h
  · rw [he]
    exact h.step hk e'

theorem fresh_callStep {s : Calls} (h : s.conn.fresh = false) (e : CallEvent) :
    (callStep s e).conn.fresh = false := by
  obtain he | ⟨e', he⟩ := callStep_conn s e
  · rw [he]
    exact h
  · rw [he]
    exact fresh_run h [e']

end Conn

theorem mem_wake {who : List Nat} {sleepers : List Sleeper} {x : Sleeper}
    (h : x ∈ wake who sleepers) :
    x ∈ sleepers ∨ ∃ i ∈ who, ∃ y, sleepers[i]? = some y ∧ x = { y with woken := true } := by
  obtain ⟨i, hi, hx⟩ := List.mem_mapIdx.mp h
  split_ifs at hx with hw
  · exact Or.inr ⟨i, hw, sleepers[i], List.getElem?_eq_getElem hi, hx.symm⟩
  · exact Or.inl (hx ▸ List.getElem_mem hi)

theorem mem_sleepers {s : Calls} {e : Event} {woken : List Nat} {x : Sleeper}
    (h : x ∈ (if (signalled s.conn e).isSome then wake woken s.sleepers else s.sleepers)) :
    x ∈ s.sleepers ∨ ∃ sig, signalled s.conn e = some sig ∧ ∃ i ∈ woken, ∃ y,
      s.sleepers[i]? = some y ∧ x = { y with woken := true } := by
  split_ifs at h with hs
  · obtain ⟨sig, hsig⟩ := Option.isSome_iff_exists.mp hs
    cases mem_wake h with
    | inl hx => exact Or.inl hx
    | inr hx => exact Or.inr ⟨sig, hsig, hx⟩
  · exact Or.inl h

/-- Only close falls asleep by an event of the connection, when it has queued its FIN. -/
theorem mem_fallsAsleep {c : Conn} {e : Event} {x : Sleeper} (h : x ∈ fallsAsleep c e) :
    x = { call := .close, woken := false } ∧ c.closing = true := by
  unfold fallsAsleep at h
  split at h
  · split_ifs at h with hc
    · exact ⟨List.mem_singleton.mp h, hc⟩
    · simp at h
  · simp at h

theorem connect_fresh {c : Conn} (hf : c.fresh = true) : (connect c).fresh = false := by
  simp [connect, hf]

/-- Whoever is among the sleepers was there before, or has just gone to sleep. -/
theorem call_asleep {s : Calls} {e : CallEvent} {x : Sleeper} (h : x ∈ (callStep s e).sleepers) :
    (∃ y ∈ s.sleepers, y.call = x.call) ∨
      x.call = .connect ∧ (callStep s e).conn.fresh = false ∨
      (∃ len, e = .recv len ∧ x.call = .recv len ∧ s.sock = .connected) ∨
      x.call = .close ∧ s.conn.closing = true := by
  have hstep := calls_step s e
  generalize callStep s e = s' at h hstep ⊢
  cases hstep with
  | same => exact Or.inl ⟨x, h, rfl⟩
  | block e woken ht =>
    cases List.mem_append.mp h with
    | inl h =>
      obtain h | ⟨sig, -, i, -, y, hy, rfl⟩ := mem_sleepers h
      · exact Or.inl ⟨x, h, rfl⟩
      · exact Or.inl ⟨y, List.mem_of_getElem? hy, rfl⟩
    | inr h =>
      obtain ⟨rfl, hc⟩ := mem_fallsAsleep h
      exact Or.inr (Or.inr (Or.inr ⟨rfl, hc⟩))
  | connect hs hf =>
    cases List.mem_append.mp h with
    | inl h => exact Or.inl ⟨x, h, rfl⟩
    | inr h => exact Or.inr (Or.inl ⟨by rw [List.mem_singleton.mp h], connect_fresh hf⟩)
  | noMemory hs hf => exact Or.inl ⟨x, h, rfl⟩
  | sleep len hs hl hb =>
    cases List.mem_append.mp h with
    | inl h => exact Or.inl ⟨x, h, rfl⟩
    | inr h => exact Or.inr (Or.inr (Or.inl ⟨len, rfl, by rw [List.mem_singleton.mp h], hs⟩))
  | read len hs hl hb => exact Or.inl ⟨x, h, rfl⟩
  | spurious i =>
    obtain h | ⟨j, -, y, hy, rfl⟩ := mem_wake h
    · exact Or.inl ⟨x, h, rfl⟩
    · exact Or.inl ⟨y, List.mem_of_getElem? hy, rfl⟩
  | resume i call hi hl =>
    rw [returnFrom_sleepers] at h
    exact Or.inl ⟨x, List.mem_of_mem_eraseIdx h, rfl⟩

def returnValue (s : Calls) : Waiter → Int
  | .connect => if s.conn.tcb.state = .established then 0 else -1
  | .recv len => (readableSize s.conn.tcb (UInt32.ofNat len)).toNat
  | .close => if s.conn.tcb.state = .closed then 0 else -1

inductive ReturnOf (s : Calls) : CallEvent → Waiter → Bool → Int → Prop where
  | noMemory : ReturnOf s (.connect false) .connect false (-1)
  | read (len : Nat) (hb : s.conn.tcb.rcvBuffLen ≠ 0) :
      ReturnOf s (.recv len) (.recv len) false (returnValue s (.recv len))
  | resume (i : Nat) (call : Waiter) (hi : s.sleepers[i]? = some { call := call, woken := true }) :
      ReturnOf s (.resume i) call true (returnValue s call)

theorem readReturn_returns (s : Calls) (len : Nat) (slept : Bool) :
    (readReturn s len slept).returns =
      (s.ret (.recv len) slept (returnValue s (.recv len))).returns := by
  have hstate : (readBytes s.conn (UInt32.ofNat len)).tcb.state = s.conn.tcb.state :=
    congrArg Control.state (control_readBytes s.conn (UInt32.ofNat len))
  have hfins := readBytes_frame Conn.fins (fun _ _ _ _ => rfl) s.conn (UInt32.ofNat len)
  simp only [readReturn, Calls.ret, returnValue, hstate, hfins]

theorem returnFrom_returns (s : Calls) (call : Waiter) :
    (returnFrom s call).returns = (s.ret call true (returnValue s call)).returns := by
  cases call with
  | connect => rfl
  | recv len => exact readReturn_returns s len true
  | close =>
    simp only [returnFrom, returnValue]
    split_ifs <;> rfl

theorem callStep_returns (s : Calls) (e : CallEvent) :
    (callStep s e).returns = s.returns ∨ ∃ call slept value, ReturnOf s e call slept value ∧
      (callStep s e).returns = (s.ret call slept value).returns := by
  have hstep := calls_step s e
  generalize callStep s e = s' at hstep ⊢
  cases hstep with
  | noMemory hs hf => exact Or.inr ⟨_, _, _, .noMemory, rfl⟩
  | read len hs hl hb => exact Or.inr ⟨_, _, _, .read len hb, readReturn_returns s len false⟩
  | resume i call hi hl =>
    exact Or.inr ⟨_, _, _, .resume i call hi,
      returnFrom_returns { s with sleepers := s.sleepers.eraseIdx i } call⟩
  | _ => exact Or.inl rfl

theorem mem_returns {s : Calls} {e : CallEvent} {r : Returned} (h : r ∈ (callStep s e).returns) :
    r ∈ s.returns ∨ ReturnOf s e r.call r.slept r.value ∧ r.state = s.conn.tcb.state ∧
      r.exhausted = s.exhausted ∧ r.fins = s.conn.fins.length := by
  obtain he | ⟨call, slept, value, hof, he⟩ := callStep_returns s e
  · exact Or.inl (he ▸ h)
  · rw [he] at h
    cases List.mem_append.mp h with
    | inl h => exact Or.inl h
    | inr h =>
      rw [List.mem_singleton.mp h]
      exact Or.inr ⟨hof, rfl, rfl, rfl⟩

theorem close_returned {s : Calls} {e : CallEvent} {r : Returned} (hr : r ∈ (callStep s e).returns)
    (hclose : r.call = .close) (hzero : r.value = 0) :
    r ∈ s.returns ∨ s.conn.tcb.state = .closed ∧ ∃ i, e = .resume i ∧
      s.sleepers[i]? = some { call := .close, woken := true } := by
  cases mem_returns hr with
  | inl hr => exact Or.inl hr
  | inr hr =>
    obtain ⟨hof, -⟩ := hr
    rw [hclose, hzero] at hof
    generalize r.slept = slept at hof
    generalize hv : (0 : Int) = value at hof
    cases hof with
    | resume i call hi =>
      have hs : s.conn.tcb.state = .closed := by
        by_contra hn
        simp [returnValue, hn] at hv
      exact Or.inr ⟨hs, i, rfl, hi⟩

def connectAndClose (calls : List CallEvent) (seq ack : UInt32) : List CallEvent :=
  ([.connect true, .block (.segment (samplePeer 5000 1001 tcpSynAck 1000 [])) [],
    .block .rxStep [0], .block .rxStep [], .resume 0] : List CallEvent) ++ calls ++
  ([.block .close [], .block .closeFin [], .block .retransmit [],
    .block (.segment (samplePeer seq ack tcpFinAck 1000 [])) [], .block .rxStep [],
      .block .rxStep [],
    .block .rxStep [], .block .rxStep [], .block .rxStep [], .block .retransmit [],
    .block .closeTimer [0], .resume 0] : List CallEvent)

end AnpNetstack
