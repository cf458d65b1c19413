import AnpNetstack.CallbackTimes
import AnpNetstack.PeerQueue

/-! Two consequences of when passes come: how long an unanswered SYN is kept, and what the wrap of
the tick counter does to everything that waits in messages_array. -/
namespace AnpNetstack
open Runs

section Syn
variable {c : Conn} {m : TcpMessage}

theorem mem_txSection (alloc : Bool) (who : Option Nat) (call : TxCall) (hm : m ∈ c.messagesArray) :
    m ∈ (tcpTxSection alloc c who call).1.messagesArray := by
  unfold tcpTxSection
  split_ifs
  · exact hm
  · simp only [txSegment_eq]
    exact mem_addMsgToArr hm
  · exact hm

/-- In SYN_SENT only a pass takes anything out of messages_array. -/
theorem synSent_keeps (h : Reached c.control) (hs : c.tcb.state = .synSent) {e : Event}
    (hne : e ≠ .retransmit) (hs' : (step c e).tcb.state = .synSent) (hm : m ∈ c.messagesArray) :
    m ∈ (step c e).messagesArray := by
  have hother (s : TcpState) (hne : TcpState.synSent ≠ s) : c.tcb.state ≠ s :=
    fun heq => hne (hs.symm.trans heq)
  cases e with
  | connect =>
    rw [step, connect_idle h.inv (hother .closed (by decide))]
    exact hm
  | send buf =>
    simp only [step, send]
    split_ifs <;> exact hm
  | sendRound i alloc =>
    simp only [step, sendRound]
    split
    · exact hm
    · split_ifs
      · exact hm
      · exact mem_txSection alloc (some i) _ hm
  | recv len =>
    rw [step, readBytes_frame Conn.messagesArray (fun _ _ _ _ => rfl) c len]
    exact hm
  | segment pkt =>
    simp only [step] at hs' ⊢
    split_ifs at hs' ⊢ with hrx
    · cases tcpRxSwitch_cases c pkt with
      | inl he =>
        rw [he]
        exact hm
      | inr ht =>
        obtain ⟨c', he, -, -, ht⟩ := ht
        rw [he] at hs' ⊢
        cases ht with
        | establish hs₀ hf hu => cases hs'
        | cross hs₀ hf hu => cases hs'
        | confirm hs₀ hf ha => exact absurd hs₀ (hother .synReceived (by decide))
        | ack hs₀ hf => exact absurd hs₀ (hother .established (by decide))
        | finWait hs₀ hf => exact absurd hs₀ (hother .finWait1 (by decide))
    · exact hm
  | rxStep =>
    obtain hx | hx := h.inv.phase.early (.inr hs)
    · rw [step, rxStep_nil hx]
      exact hm
    · rw [step, rxStep_unlock hx]
      exact hm
  | retransmit => exact absurd rfl hne
  | close =>
    simp only [step, close]
    split_ifs <;> exact hm
  | closeFin =>
    rw [step, closeFin_idle h.inv (hother .finWait1 (by decide))]
    exact hm
  | closeTimer =>
    rw [step, closeConnection_idle h.inv (hother .timeWait (by decide))]
    exact hm

def SynQueued (c : Conn) (left : Nat) : Prop :=
  ∃ m ∈ c.messagesArray, m.tcb = c.self ∧ hasFlag m.tcpPtr.hdr.flags tcpSyn = true ∧
    m.retries.toNat = left

theorem synQueued_connect (hf : c.fresh = true) : SynQueued (step c .connect) 10 := by
  have hvalid : retriesValid retriesConnMax = true := by decide
  have hconnect : (step c .connect).messagesArray =
      (txSegment true c none [] 0 tcpSyn retriesConnMax).messagesArray := by
    simp only [step, connect, hf, if_true, tcpTxEmpty_eq c tcpSyn hvalid]
  have hself : (step c .connect).self = c.self := self_step c .connect
  let sub := (createTcpPacket c.tcb [] 0 tcpSyn).1
  let entry : TcpMessage :=
    { tcb := c.self, sub := sub, tcpPtr := sub, tcpLen := 20 + 0, tcpDataLen := 0
      retries := UInt32.ofInt retriesConnMax }
  have hleft : (UInt32.ofInt retriesConnMax).toNat = 10 := by decide
  have hflags : entry.tcpPtr.hdr.flags = tcpSyn := createTcpPacket_flags c.tcb [] 0 tcpSyn
  refine ⟨entry, ?_, hself.symm, ?_, hleft⟩
  · rw [hconnect, txSegment_eq]
    exact List.mem_append_right _ (List.mem_singleton_self _)
  · rw [hflags]
    decide

theorem synQueued_pass {left : Nat} (h : SynQueued c (left + 2)) (hle : left + 2 ≤ 10) :
    SynQueued (step c .retransmit) (left + 1) := by
  obtain ⟨m, hm, hown, hsyn, hleft⟩ := h
  have hone : (1 : UInt32).toNat = 1 := rfl
  have hsub : (m.retries - 1).toNat = left + 1 := by
    rw [UInt32.toNat_sub_of_le _ _ (by rw [UInt32.le_iff_toNat_le]; omega)]
    omega
  have honce : m.retries ≠ UInt32.ofInt retriesSendonce := by
    intro heq
    rw [heq] at hleft
    have hbig : (UInt32.ofInt retriesSendonce).toNat = 4294967294 := by decide
    omega
  have hinf : m.retries ≠ UInt32.ofInt retriesInfinite := by
    intro heq
    rw [heq] at hleft
    have hbig : (UInt32.ofInt retriesInfinite).toNat = 4294967295 := by decide
    omega
  have hpos : m.retries - 1 ≠ 0 := by
    intro heq
    rw [heq] at hsub
    cases hsub
  refine ⟨{ m with retries := m.retries - 1 }, ?_, hown, hsyn, hsub⟩
  refine List.mem_filterMap.mpr ⟨m, hm, ?_⟩
  simp only [retransmitEntry, if_neg honce, if_neg hinf, if_neg hpos]

end Syn

section Patience
variable {p : Process} {t base tcb : Nat}

structure Patient (t base tcb : Nat) (p : Process) : Prop where
  paced : Paced t (20 * base + 20) p
  reached : Reached (p.conns tcb).control
  begun : (p.conns tcb).fresh = false
  syn : t + 160 ≤ p.timers.tick.toNat ∨ ¬ Early (p.conns tcb) ∨ ∃ passes, passes < 10 ∧
    SynQueued (p.conns tcb) (10 - passes) ∧ passes + base ≤ p.starts retransmitTask + 1 ∧
    (retransmitTask ∈ p.threads → passes + base ≤ p.starts retransmitTask)

/-- A pass is the only event that is one for the connection. -/
theorem no_retransmit {e : ProcessEvent} (he : e ≠ .retransmit ∨ retransmitTask ∉ p.threads) :
    Event.retransmit ∉ connEvents tcb p e := by
  intro hmem
  cases e with
  | other b e =>
    simp only [connEvents] at hmem
    split_ifs at hmem with hb
    · have hon := hb.2
      rw [← List.mem_singleton.mp hmem] at hon
      cases hon
    · exact List.not_mem_nil hmem
  | retransmit =>
    simp only [connEvents] at hmem
    split_ifs at hmem with hrun
    · exact he.elim (fun h => h rfl) (fun h => h hrun)
    · exact List.not_mem_nil hmem
  | close b =>
    simp only [connEvents] at hmem
    split_ifs at hmem
    · cases List.mem_singleton.mp hmem
    · exact List.not_mem_nil hmem
  | _ => exact List.not_mem_nil hmem

theorem early_of_run {c : Conn} (es : List Event) (h : Early (run step c es)) : Early c := by
  induction es generalizing c with
  | nil => exact h
  | cons e es ih => exact early_of_step e (ih h)

theorem synQueued_run {c : Conn} {left : Nat} (h : Reached c.control) (hf : c.fresh = false)
    (hq : SynQueued c left) {es : List Event} (hes : Event.retransmit ∉ es)
    (hearly : Early (run step c es)) : SynQueued (run step c es) left := by
  induction es generalizing c with
  | nil => exact hq
  | cons e es ih =>
    have hf' : (step c e).fresh = false := fresh_run hf [e]
    have hstate {d : Conn} (hd : Early d) (hfd : d.fresh = false) : d.tcb.state = .synSent :=
      hd.resolve_left (fun ht => Bool.false_ne_true (hfd.symm.trans ht))
    have hnext : Early (step c e) := early_of_run es hearly
    have hne : e ≠ .retransmit := fun heq => hes (heq ▸ List.mem_cons_self)
    obtain ⟨m, hm, hown, hsyn, hleft⟩ := hq
    refine ih (reached_step h e) hf' ⟨m, ?_, ?_, hsyn,
      hleft⟩ (fun hmem => hes (List.mem_cons_of_mem e hmem)) hearly
    · exact synSent_keeps h (hstate (early_of_step e hnext) hf) hne (hstate hnext hf') hm
    · rw [self_step]
      exact hown

theorem Patient.step (h : Patient t base tcb p) {e : ProcessEvent} (he : BeforeWrap p e) :
    Patient t base tcb (processStep p e) := by
  obtain ⟨htick, -⟩ := tick_toNat h.paced.inTime he
  have hconns := conns_step p tcb e
  refine ⟨h.paced.step he, ?_, ?_, ?_⟩
  · rw [hconns]
    exact reached_run h.reached _
  · rw [hconns]
    exact fresh_run h.begun _
  obtain hover | hearly | ⟨passes, hlt, hq, hahead, hrunning⟩ := h.syn
  · exact .inl (by omega)
  · refine .inr (.inl (fun hnew => hearly ?_))
    rw [hconns] at hnew
    exact early_of_run _ hnew
  by_cases hearly : Early ((processStep p e).conns tcb)
  swap
  · exact .inr (.inl hearly)
  by_cases hpass : e = .retransmit ∧ retransmitTask ∈ p.threads
  · -- the pass that the count is about
    obtain ⟨rfl, hrun⟩ := hpass
    have hle := h.paced.running hrun
    have hnow := hrunning hrun
    by_cases hlast : passes = 9
    · exact .inl (by omega)
    have hstarts : (processStep p .retransmit).starts retransmitTask = p.starts retransmitTask := by
      simp only [processStep, Process.retransmit, if_pos hrun]
      exact starts_schedule (p.leave retransmitTask) _ _ _ _
    have hqueued : SynQueued ((processStep p .retransmit).conns tcb) (10 - (passes + 1)) := by
      have hten : 10 - passes = (8 - passes) + 2 := by omega
      have hnine : 10 - (passes + 1) = (8 - passes) + 1 := by omega
      rw [hten] at hq
      rw [hconns, hnine]
      simp only [connEvents, if_pos hrun]
      exact synQueued_pass hq (by omega)
    exact .inr
      (.inr ⟨passes +
        1, by omega, hqueued, by omega, fun hin => absurd hin (h.paced.tokens.pass_over hrun)⟩)
  · have hnot : Event.retransmit ∉ connEvents tcb p e := by
      refine no_retransmit ?_
      by_cases heq : e = .retransmit
      · exact .inr (fun hrun => hpass ⟨heq, hrun⟩)
      · exact .inl heq
    have hqueued : SynQueued ((processStep p e).conns tcb) (10 - passes) := by
      rw [hconns] at hearly ⊢
      exact synQueued_run h.reached h.begun hq hnot hearly
    refine .inr (.inr ⟨passes, hlt, hqueued, ?_⟩)
    cases task_move h.paced.tokens.oneshots (.inl rfl) e with
    | idle hrun hpend hstarts => exact ⟨by omega, fun hin => by have := hrunning (hrun hin); omega⟩
    | start id hid hdue hin hpend hstarts => exact ⟨by omega, fun _ => by omega⟩
    | schedule hfrom hrun hpend hstarts =>
      exact ⟨by omega, fun hin => by have := hrunning (hrun hin); omega⟩

end Patience

/-- A SYN that nobody answers is not given up within 160 milliseconds after connect. -/
theorem connect_patience (blocks : Nat → PeerBlock) (es more : List ProcessEvent) (tcb : Nat) :
    let mid := run processStep (processInit blocks) es
    let last := run processStep mid (.other tcb .connect :: more)
    Along processStep BeforeWrap (processInit blocks) (es ++ .other tcb .connect :: more) →
      (mid.conns tcb).fresh = true → (last.conns tcb).tcb.state = .synSent →
      (∀ m ∈ (last.conns tcb).messagesArray, m.tcb = (last.conns tcb).self →
        hasFlag m.tcpPtr.hdr.flags tcpSyn = false) →
      mid.timers.tick.toNat + 160 ≤ last.timers.tick.toNat := by
  intro mid last hes hfresh hstate hgone
  obtain ⟨hes, hcon, hmore⟩ := (along_append processStep _ _ es _).mp hes
  have hmid : Paced 0 0 mid := (paced_init blocks).run hes
  have hconns : (processStep mid (.other tcb .connect)).conns tcb =
      step (mid.conns tcb) .connect := by
    simpa [connEvents, Event.onTimer, run] using conns_step mid tcb (.other tcb .connect)
  have hreached : Reached (mid.conns tcb).control := conns_reached blocks es tcb
  have hthreads : (processStep mid (.other tcb .connect)).threads = mid.threads := rfl
  have hstarts : (processStep mid (.other tcb .connect)).starts retransmitTask =
      mid.starts retransmitTask := rfl
  have hstart : Patient mid.timers.tick.toNat (mid.starts retransmitTask) tcb
      (processStep mid (.other tcb .connect)) := by
    refine ⟨hmid.now.step hcon, ?_, ?_, .inr (.inr ⟨0, by omega, ?_, by omega, fun _ => by omega⟩)⟩
    · rw [hconns]
      exact reached_step hreached .connect
    · rw [hconns]
      simp [step, connect, hfresh]
    · rw [hconns]
      exact synQueued_connect hfresh
  have hlast : Patient mid.timers.tick.toNat (mid.starts retransmitTask) tcb
      (run processStep (processStep mid (.other tcb .connect)) more) :=
    run_invariant processStep (fun _ _ h he => h.step he) hstart hmore
  obtain hover | hearly | ⟨passes, -, ⟨m, hm, hown, hsyn, -⟩, -⟩ := hlast.syn
  · exact hover
  · exact absurd (Or.inr hstate) hearly
  · exact absurd (hsyn.symm.trans (hgone m hm hown)) Bool.noConfusion

def tenRounds : List ProcessEvent := (List.range 10).flatMap passRound

theorem connect_patience_sample :
    let mid := run processStep (processInit fun _ => callbackBlock) []
    let last := run processStep mid (.other 0 .connect :: tenRounds)
    (last.conns 0).messagesArray = [] ∧ mid.timers.tick.toNat + 160 ≤ last.timers.tick.toNat := by
  have hempty : ((run processStep (run processStep (processInit fun _ => callbackBlock) [])
      (.other 0 .connect :: tenRounds)).conns 0).messagesArray = [] := by decide +kernel
  refine ⟨hempty, connect_patience (fun _ => callbackBlock) [] tenRounds 0 (by decide +kernel)
    (by decide +kernel)
    (by decide +kernel) ?_⟩
  rw [hempty]
  exact List.forall_mem_nil _

theorem processTicks_le (p : Process) (es : List ProcessEvent) : processTicks p es ≤ es.length := by
  induction es generalizing p with
  | nil => exact Nat.le_refl 0
  | cons e es ih =>
    have hfirst := processTick_le p e
    have hrest := ih (processStep p e)
    rw [processTicks, List.length_cons]
    omega

section Mute
variable {p : Process} {tick expires : UInt32} {k limit : Nat}

/-- No pass is running, and the timer for the next one is not due in any of the first `limit` steps
of the clock after `tick`, of which `k` are over. -/
structure Mute (tick expires : UInt32) (limit k : Nat) (p : Process) : Prop where
  tokens : Tokens p
  idle : retransmitTask ∉ p.threads
  waiting : ∀ id ∈ p.timers.pending retransmitTask, (p.timers.heap id).expires = expires
  clock : p.timers.tick = tick + UInt32.ofNat (10 * k)
  never : ∀ j ≤ limit, ¬ expires < tick + UInt32.ofNat (10 * j)

theorem Mute.step (h : Mute tick expires limit k p) (hk : k ≤ limit) (e : ProcessEvent) :
    Mute tick expires limit (k + processTick p e) (processStep p e) := by
  have hclock : (processStep p e).timers.tick =
      tick + UInt32.ofNat (10 * (k + processTick p e)) := by
    rw [tick_step, h.clock, Nat.mul_add, UInt32.ofNat_add, UInt32.add_assoc]
  have htokens := tokens_step h.tokens e
  cases task_move h.tokens.oneshots (.inl rfl) e with
  | idle hrun hpend hstarts =>
    refine ⟨htokens, fun hin => h.idle (hrun hin), fun id hid => ?_, hclock, h.never⟩
    obtain ⟨hold, hexp⟩ := hpend id hid
    exact hexp.trans (h.waiting id hold)
  | start id hid hdue hin hpend hstarts =>
    rw [h.waiting id hid, h.clock] at hdue
    exact absurd hdue (h.never k hk)
  | schedule hfrom hrun hpend hstarts => exact absurd (hfrom rfl) h.idle

theorem Mute.run (h : Mute tick expires limit k p) (es : List ProcessEvent)
    (hk : k + processTicks p es ≤ limit) :
    retransmitTask ∉ (run processStep p es).threads ∧
      ∀ tcb, Event.retransmit ∉ Runs.translate processStep (connEvents tcb) p es := by
  induction es generalizing p k with
  | nil => exact ⟨h.idle, fun tcb => List.not_mem_nil⟩
  | cons e es ih =>
    rw [processTicks] at hk
    obtain ⟨hidle, hnone⟩ := ih (h.step (by omega) e) (by omega)
    refine ⟨hidle, fun tcb hmem => ?_⟩
    rw [Runs.translate] at hmem
    cases List.mem_append.mp hmem with
    | inl hfirst => exact no_retransmit (.inr h.idle) hfirst
    | inr hrest => exact hnone tcb hrest

/-- A timer that is set in the last twenty milliseconds before the wrap is not found due before the
counter has come round again. -/
theorem never_due {t : UInt32} (hlow : 2 ^ 32 ≤ t.toNat + 20)
    (hhigh : t.toNat + 10 < 2 ^ 32) {j : Nat} (hj : 10 * j ≤ 2 ^ 32) :
    ¬ t + tcpWaitTime < t + UInt32.ofNat (10 * j) := by
  have hten : tcpWaitTime.toNat = 10 := rfl
  have hsmall : 10 * j < 2 ^ 32 := by omega
  rw [UInt32.lt_iff_toNat_lt, UInt32.toNat_add, UInt32.toNat_add, UInt32.toNat_ofNat', hten,
    Nat.mod_eq_of_lt hsmall, Nat.mod_eq_of_lt hhigh]
  by_cases hfirst : j ≤ 1
  · rw [Nat.mod_eq_of_lt (by omega)]
    omega
  · rw [Nat.mod_eq_sub_mod (by omega), Nat.mod_eq_of_lt (by omega)]
    omega

theorem mute_after_pass (h : Tokens p) (hrun : retransmitTask ∈ p.threads)
    (hlow : 2 ^ 32 ≤ p.timers.tick.toNat + 20) (hhigh : p.timers.tick.toNat + 10 < 2 ^ 32) :
    Mute p.timers.tick (p.timers.tick + tcpWaitTime) (2 ^ 32 / 10) 0
      (processStep p .retransmit) := by
  have htimers : (processStep p .retransmit).timers =
      (p.schedule tcpWaitTime .tcpRetransmitHandler 0).timers := by
    simp only [processStep, Process.retransmit, if_pos hrun]
    rfl
  refine ⟨tokens_step h .retransmit, h.pass_over hrun, ?_, ?_,
    fun j hj => never_due hlow hhigh (by omega)⟩
  · intro id hid
    rw [htimers] at hid ⊢
    obtain ⟨-, hexp⟩ | ⟨hold, -⟩ := schedule_pending p tcpWaitTime .tcpRetransmitHandler 0 hid
    · exact hexp
    · rw [h.pending_nil hrun] at hold
      exact absurd hold List.not_mem_nil
  · rw [htimers]
    exact (UInt32.add_zero _).symm

end Mute

section Prompt

def promptRounds : Nat → List ProcessEvent
  | 0 => []
  | n + 1 => promptRounds n ++ passRound n

structure AtRound (n : Nat) (p : Process) : Prop where
  tick : p.timers.tick = UInt32.ofNat (20 * n)
  threads : p.threads = [retransmitTask]
  next : p.timers.next = n
  waiting : p.timers.waiting = []
  list : p.timers.list = []
  thread : p.timers.thread = .asleep

structure Armed (n : Nat) (tick expires : UInt32) (p : Process) : Prop where
  tick : p.timers.tick = tick
  threads : p.threads = []
  next : p.timers.next = n + 1
  waiting : p.timers.waiting = []
  list : p.timers.list = [n]
  thread : p.timers.thread = .asleep
  timer : p.timers.heap n =
    { refcnt := 0, expires := expires, cancelled := false,
      handler := retransmitTask.1, arg := retransmitTask.2, lock := none }

variable {p : Process} {n : Nat} {tick expires : UInt32}

theorem AtRound.pass (h : AtRound n p) :
    Armed n p.timers.tick (p.timers.tick + 10)
      (run processStep p [.retransmit, .serve (.insert n)]) := by
  obtain ⟨⟨t, heap, next, waiting, list, thread, log⟩, threads, conns, infos⟩ := p
  obtain ⟨ht, hthreads, hnext, hwait, hlist, hthread⟩ := h
  dsimp only at ht hthreads hnext hwait hlist hthread
  subst hthreads hnext hwait hlist hthread
  constructor <;>
    simp [run, processStep, Process.retransmit, Process.leave, Process.schedule, Process.serve,
      ServiceEvent.timer, timersStep, timerInsert, timerOneshot, timerSchedule, Timers.note,
        retransmitTask, tcpWaitTime, Callback.addr,
      Timers.created, Note.created]

theorem Armed.wait (h : Armed n tick expires p) (hnot : ¬ expires < tick + 10) :
    Armed n (tick + 10) expires (run processStep p (clockRound 1)) := by
  obtain ⟨⟨t, heap, next, waiting, list, thread, log⟩, threads, conns, infos⟩ := p
  obtain ⟨ht, hthreads, hnext, hwait, hlist, hthread, htimer⟩ := h
  dsimp only at ht hthreads hnext hwait hlist hthread htimer
  subst ht hthreads hnext hwait hlist hthread
  constructor <;>
    simp [clockRound, run, processStep, Process.serve, ServiceEvent.timer, timersStep,
      timersAdvance, timersBegin, timersVisit, timersCheck, Timer.due, Timers.note, Timers.created,
        Note.created, htimer, hnot]

theorem Armed.fire (h : Armed n tick expires p) (hdue : expires < tick + 10)
    (hround : tick + 10 = UInt32.ofNat (20 * (n + 1))) :
    AtRound (n + 1) (run processStep p (clockRound 1)) := by
  obtain ⟨⟨t, heap, next, waiting, list, thread, log⟩, threads, conns, infos⟩ := p
  obtain ⟨ht, hthreads, hnext, hwait, hlist, hthread, htimer⟩ := h
  dsimp only at ht hthreads hnext hwait hlist hthread htimer
  subst ht hthreads hnext hwait hlist hthread
  have hsteps : (run processStep
      { timers := {
        tick := t, heap := heap, next := n + 1, waiting := [], list := [n], thread :=
          .asleep, log := log }
        threads := [], conns := conns, infos := infos } (clockRound 1)).timers.tick = t + 10 := by
    simp [clockRound, run, processStep, Process.serve, ServiceEvent.timer, timersStep,
      timersAdvance, timersBegin, timersVisit, timersCheck, Timer.due, Timers.note, htimer, hdue]
  refine ⟨hsteps.trans hround, ?_, ?_, ?_, ?_, ?_⟩ <;>
    simp [clockRound, run, processStep, Process.serve, ServiceEvent.timer, timersStep,
      timersAdvance, timersBegin, timersVisit, timersCheck, Timer.due, Timers.note, Timers.created,
        Note.created, List.filterMap_cons, htimer, hdue]

theorem at_round_next (h : AtRound n p) (hn : 20 * n + 20 < 2 ^ 32) :
    AtRound (n + 1) (run processStep p (passRound n)) := by
  have htick : p.timers.tick.toNat = 20 * n := by
    rw [h.tick, UInt32.toNat_ofNat']
    omega
  have hten : (10 : UInt32).toNat = 10 := rfl
  have hfirst : (p.timers.tick + 10).toNat = 20 * n + 10 := by
    rw [UInt32.toNat_add, htick, hten]
    omega
  have hstep : p.timers.tick + 10 + 10 = UInt32.ofNat (20 * (n + 1)) := by
    rw [← UInt32.toNat_inj, UInt32.toNat_add, UInt32.toNat_ofNat', hfirst, hten]
    omega
  have hdue : p.timers.tick + 10 < p.timers.tick + 10 + 10 := by
    rw [UInt32.lt_iff_toNat_lt, hstep, UInt32.toNat_ofNat', hfirst]
    omega
  have harmed := h.pass.wait (UInt32.lt_irrefl _)
  rw [passRound, run_append, run_append]
  exact harmed.fire hdue hstep

theorem prompt_at_round (blocks : Nat → PeerBlock) (n : Nat) (hn : 20 * n < 2 ^ 32) :
    AtRound n (run processStep (processInit blocks) (promptRounds n)) := by
  induction n with
  | zero => exact ⟨rfl, rfl, rfl, rfl, rfl, rfl⟩
  | succ n ih =>
    rw [promptRounds, run_append]
    exact at_round_next (ih (by omega)) (by omega)

end Prompt

end AnpNetstack
