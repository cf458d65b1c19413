import AnpNetstack.LockBalance
import AnpNetstack.LockSystem

/-! The receive thread, the retransmit thread and the application threads on their mutexes.
All but the retransmit thread nest tcb_lock, send_lock and msg_arr_lock in this order; that
thread takes tcb_lock, and waits for the receive thread, while it owns msg_arr_lock. -/
namespace AnpNetstack
open LockTrace Runs

inductive Thread where
  | receive
  | handler
  | worker (n : Nat)
  deriving DecidableEq, Repr

abbrev Threads := System Thread Mutex

inductive RunsOn : Call → Thread → Prop where
  | tcpRx (cache : List (Nat × Tcb)) (seen : Tcb) (pkt : Packet) :
      RunsOn (.tcpRx cache seen pkt) .receive
  | retransmit (msgs : List TcpMessage) : RunsOn (.retransmit msgs) .handler
  | connect (t : Table) (fd : Int) (sinPort : UInt16) (sinAddr : UInt32) (alloc : Bool) (n : Nat) :
      RunsOn (.connect t fd sinPort sinAddr alloc) (.worker n)
  | send (t : Table) (fd : Int) (len : UInt32) (seen : Tcb) (n : Nat) :
      RunsOn (.send t fd len seen) (.worker n)
  | recv (t : Table) (fd : Int) (seen : Tcb) (n : Nat) : RunsOn (.recv t fd seen) (.worker n)
  | close (t : Table) (fd : Int) (seen : Tcb) (n : Nat) : RunsOn (.close t fd seen) (.worker n)
  | closeConnection (b n : Nat) : RunsOn (.closeConnection b) (.worker n)

def Legal : SysEvent Thread Mutex → Prop
  | .start t ops => ∃ call, RunsOn call t ∧ Traces call ops
  | _ => True

/-- `t` waits for `u`: for a mutex, or, in the retransmit thread's loop around ip_output,
for the ARP reply that only the receive thread can take. -/
def WaitsFor (s : Threads) (t u : Thread) : Prop :=
  WaitsForMutex s t u ∨ t = .handler ∧ u = .receive ∧ s.paused .handler = true

/-- A thread starts a call only when it owns nothing; the retransmit thread finds tcb_lock
free; and while it is in its loop the receive thread is not blocked. -/
def Uncontended (s : Threads) : SysEvent Thread Mutex → Prop
  | .start t _ => s.prog t = [] → OwnsNothing s t
  | .exec t =>
    (t = .handler → ∀ b ops, s.prog .handler = .lock (.tcbLock b) :: ops →
      s.owner (.tcbLock b) = none) ∧
      (t = .receive → s.paused .handler = true →
        ∀ m ops, s.prog .receive = .lock m :: ops → s.owner m = none)
  | .pause t => t = .handler → s.wants .receive = none

/-- All calls but a retransmit pass take their mutexes in order. -/
theorem Traces.ordered {call : Call} {ops : Ops} (h : Traces call ops)
    (hr : ∀ msgs, call ≠ .retransmit msgs) : Ordered Mutex.rank [] ops := by
  by_cases hclean : Clean call
  · exact (h.neutral hclean hr).ordered
  · cases h with
    | tcpRx cache seen pkt alloc stale =>
      have hdrop (l : RxLocals) : Ordered Mutex.rank [] (dropPktOps l) := by
        unfold dropPktOps
        split_ifs <;> simp [Ordered]
      unfold tcpRxOps
      split_ifs with hs hc
      · exact hdrop stale
      · exact hdrop stale
      · split
        · exact hdrop _
        · next b hb =>
          by_cases hk : KeepsTcbLock seen pkt
          · exact (rxBlockOps_kept alloc b hk).2
          · exact (rxBlockOps_neutral alloc b hk).ordered
    | close hconn htx =>
      have hs : ¬ _ = TcpState.established := fun hs => hclean (fun _ _ => hs)
      rw [closeBlockOps, if_pos hs]
      simp [isAnpSockfdOps, Ordered]
    | closeFails hno => exact absurd (fun b hb => absurd hb (hno b)) hclean
    | _ => exact absurd trivial hclean

def InPass (ops : Ops) : Prop :=
  ∀ op ∈ ops, op = .pause ∨ (∃ b, op = .lock (.tcbLock b)) ∨ ∃ m, op = .unlock m

theorem retransmitOps_inPass (msgs : List TcpMessage) :
    InPass (msgs.flatMap retransmitEntryOps ++ [Op.unlock .msgArrLock]) := by
  intro op hop
  cases List.mem_append.mp hop with
  | inr hop => exact Or.inr (Or.inr ⟨_, List.mem_singleton.mp hop⟩)
  | inl hop =>
    obtain ⟨entry, -, hop⟩ := List.mem_flatMap.mp hop
    unfold retransmitEntryOps at hop
    split_ifs at hop
    · exact Or.inl (List.mem_singleton.mp hop)
    · exact Or.inl (List.mem_singleton.mp hop)
    · simp only [List.mem_cons, List.not_mem_nil, or_false] at hop
      obtain hop | hop | hop := hop
      · exact Or.inl hop
      · exact Or.inr (Or.inl ⟨_, hop⟩)
      · exact Or.inr (Or.inr ⟨_, hop⟩)
    · exact Or.inl (List.mem_singleton.mp hop)

/-- Where the retransmit thread stands: before msg_arr_lock, which it takes with nothing in
its hands, or behind it. -/
inductive HandlerPhase (s : Threads) : Prop where
  | before (ops : Ops) (hp : s.prog .handler = .lock .msgArrLock :: ops) (hops : InPass ops)
      (hown : OwnsNothing s .handler) (hw : ∀ m, s.wants .handler = some m → m = .msgArrLock)
      (hpause : s.paused .handler = false)
  | pass (hops : InPass (s.prog .handler)) (hw : s.wants .handler = none)
      (hpause : s.paused .handler = true →
        s.wants .receive = none ∧ ∃ ops, s.prog .handler = .pause :: ops)

/-- A thread that is not blocked, and finds the mutex free if it tries one, is not blocked
afterwards. -/
theorem execStep_not_blocked {s : Threads} {t : Thread} {ops : Ops} (hw : s.wants t = none)
    (hfree : ∀ m rest, ops = .lock m :: rest → s.owner m = none) :
    (execStep s t ops).wants t = none := by
  cases ops with
  | nil => exact hw
  | cons op ops =>
    cases op with
    | lock m => simp [execStep, hfree m ops rfl]
    | _ => exact hw

theorem HandlerPhase.start {s : Threads} (h : HandlerPhase s) {t : Thread} {ops : Ops}
    (hlegal : Legal (.start t ops)) (hfree : Uncontended s (.start t ops)) :
    HandlerPhase (sysStep s (.start t ops)) := by
  simp only [sysStep]
  split_ifs with hp
  · by_cases ht : t = .handler
    · subst ht
      obtain ⟨call, hrun, htrace⟩ := hlegal
      cases hrun with
      | retransmit msgs =>
        cases htrace with
        | retransmit msgs =>
          cases h with
          | before ops' hp' => simp [hp] at hp'
          | pass hops hw hpause =>
            refine .before _ (by simp [retransmitOps]) (retransmitOps_inPass msgs) (hfree hp)
              (by simp [hw]) ?_
            by_contra hn
            obtain ⟨-, ops, hpa⟩ := hpause (by simpa using hn)
            simp [hp] at hpa
    · have hprog : Function.update s.prog t ops .handler = s.prog .handler :=
        Function.update_of_ne (Ne.symm ht) _ _
      cases h with
      | before ops' hp' hops hown hw hpause =>
        exact .before ops' (hprog.trans hp') hops hown hw hpause
      | pass hops hw hpause =>
        refine .pass ?_ hw (fun hl => ?_)
        · dsimp only
          rw [hprog]
          exact hops
        · dsimp only
          rw [hprog]
          exact hpause hl
  · exact h

theorem HandlerPhase.execSelf {s : Threads} (h : HandlerPhase s)
    (hfree : Uncontended s (.exec .handler)) :
    HandlerPhase (execStep s .handler (s.prog .handler)) := by
  cases h with
  | before ops hp hops hown hw hpause =>
    rw [hp]
    cases ho : s.owner .msgArrLock with
    | none =>
      simp only [execStep, ho]
      exact .pass (by simpa using hops) (by simp) (by simp [hpause])
    | some u =>
      simp only [execStep, ho]
      exact .before ops hp hops hown (by simp [eq_comm]) hpause
  | pass hops hw hpause =>
    cases hp : s.prog .handler with
    | nil => exact .pass hops hw hpause
    | cons op ops =>
      rw [hp] at hops
      have hrest : InPass ops := fun x hx => hops x (List.mem_cons_of_mem op hx)
      have hnot (hop : op ≠ .pause) : s.paused .handler ≠ true := by
        intro ht
        obtain ⟨-, ops', hp'⟩ := hpause ht
        rw [hp] at hp'
        exact hop (List.cons.inj hp').1
      obtain rfl | ⟨b, rfl⟩ | ⟨m, rfl⟩ := hops op (by simp)
      · exact .pass (by simpa [execStep] using hrest) hw (by simp [execStep])
      · have ho := hfree.1 rfl b ops hp
        simp only [execStep, ho]
        exact .pass (by simpa using hrest) (by simp) (fun ht => absurd ht (hnot (by simp)))
      · exact .pass (by simpa [execStep] using hrest) hw (fun ht => absurd ht (hnot (by simp)))

theorem HandlerPhase.execOther {s : Threads} (h : HandlerPhase s) {t : Thread} (ht : t ≠ .handler)
    (hfree : Uncontended s (.exec t)) : HandlerPhase (execStep s t (s.prog t)) := by
  obtain ⟨hprog, hwants, hpaused⟩ := execStep_other (s := s) (Ne.symm ht) (s.prog t)
  cases h with
  | before ops hp hops hown hw hpause =>
    exact .before ops (hprog.trans hp) hops (fun m hm => hown m (execStep_owner (Ne.symm ht) hm))
      (fun m hm => hw m (hwants ▸ hm)) (hpaused.trans hpause)
  | pass hops hw hpause =>
    refine .pass (hprog ▸ hops) (hwants.trans hw) (fun hloop => ?_)
    obtain ⟨hrecv, hhead⟩ := hpause (hpaused ▸ hloop)
    refine ⟨?_, hprog ▸ hhead⟩
    by_cases hr : t = .receive
    · subst hr
      exact execStep_not_blocked hrecv (fun m rest hm => hfree.2 rfl (hpaused ▸ hloop) m rest hm)
    · exact (execStep_other (s := s) (Ne.symm hr) (s.prog t)).2.1.trans hrecv

theorem HandlerPhase.pauseStep {s : Threads} (h : HandlerPhase s) {t : Thread}
    (hfree : Uncontended s (.pause t)) : HandlerPhase (sysStep s (.pause t)) := by
  simp only [sysStep]
  split
  · next ops hp =>
    by_cases ht : t = .handler
    · subst ht
      cases h with
      | before ops' hp' => simp [hp] at hp'
      | pass hops hw hpause => exact .pass hops hw (fun _ => ⟨hfree rfl, ops, hp⟩)
    · have hsame : Function.update s.paused t true .handler = s.paused .handler :=
        Function.update_of_ne (Ne.symm ht) _ _
      cases h with
      | before ops' hp' hops hown hw hpause =>
        exact .before ops' hp' hops hown hw (hsame.trans hpause)
      | pass hops hw hpause => exact .pass hops hw (fun hl => hpause (hsame ▸ hl))
  · exact h

theorem HandlerPhase.step {s : Threads} (h : HandlerPhase s) (e : SysEvent Thread Mutex)
    (hlegal : Legal e) (hfree : Uncontended s e) : HandlerPhase (sysStep s e) := by
  cases e with
  | start t ops => exact h.start hlegal hfree
  | exec t =>
    by_cases ht : t = .handler
    · subst ht
      exact h.execSelf hfree
    · exact h.execOther ht hfree
  | pause t => exact h.pauseStep hfree

structure LockInv (s : Threads) : Prop where
  disciplined : ∀ t, t ≠ .handler → Disciplined Mutex.rank s t
  handler : HandlerPhase s

theorem idle_lockInv : LockInv idle where
  disciplined t _ := idle_disciplined t
  handler := .pass (by simp [idle, InPass]) rfl (by simp [idle])

theorem LockInv.step {s : Threads} (h : LockInv s) (e : SysEvent Thread Mutex) (hlegal : Legal e)
    (hfree : Uncontended s e) : LockInv (sysStep s e) where
  disciplined t ht := by
    refine (h.disciplined t ht).step e ?_
    cases e with
    | start u ops =>
      intro hu hp
      subst hu
      obtain ⟨call, hrun, htrace⟩ := hlegal
      refine ⟨hfree hp, htrace.ordered (fun msgs he => ?_)⟩
      rw [he] at hrun
      cases hrun with
      | retransmit msgs => exact ht rfl
    | _ => trivial
  handler := h.handler.step e hlegal hfree

/-- How high a thread stands in the order: by the mutex it wants, or above all of them when
it is in the loop around ip_output. -/
def waitRank (s : Threads) (t : Thread) : Nat :=
  if t = .handler ∧ s.paused .handler = true then 4
  else match s.wants t with
    | some m => m.rank
    | none => 0

/-- When the retransmit thread is blocked it owns nothing and is not in its loop. -/
theorem HandlerPhase.blocked {s : Threads} (h : HandlerPhase s) {m : Mutex}
    (hw : s.wants .handler = some m) : OwnsNothing s .handler ∧ s.paused .handler ≠ true := by
  cases h with
  | before ops hp hops hown hw' hpause => exact ⟨hown, by simp [hpause]⟩
  | pass hops hw' hpause => simp [hw] at hw'

theorem HandlerPhase.looping {s : Threads} (h : HandlerPhase s) (hl : s.paused .handler = true) :
    s.wants .receive = none := by
  cases h with
  | before ops hp hops hown hw hpause => simp [hl] at hpause
  | pass hops hw hpause => exact (hpause hl).1

theorem LockInv.waitRank_blocked {s : Threads} (h : LockInv s) {t : Thread} {m : Mutex}
    (hw : s.wants t = some m) : waitRank s t = m.rank := by
  have hnot : ¬ (t = .handler ∧ s.paused .handler = true) := by
    rintro ⟨rfl, hl⟩
    exact (h.handler.blocked hw).2 hl
  simp only [waitRank, hnot, if_false, hw]

theorem LockInv.waitRank_lt {s : Threads} (h : LockInv s) {t u v : Thread} (htu : WaitsFor s t u)
    (huv : WaitsFor s u v) : waitRank s t < waitRank s u := by
  obtain ⟨m, hw, ho⟩ | ⟨rfl, rfl, hl⟩ := htu
  · rw [h.waitRank_blocked hw]
    obtain ⟨m', hw', ho'⟩ | ⟨rfl, rfl, hl⟩ := huv
    · rw [h.waitRank_blocked hw']
      by_cases hu : u = .handler
      · subst hu
        exact absurd ho ((h.handler.blocked hw').1 m)
      · exact (h.disciplined u hu).rank_lt hw' ho
    · have hrank : m.rank < 4 := by cases m <;> simp [Mutex.rank]
      simpa [waitRank, hl] using hrank
  · -- while the retransmit thread is in its loop the receive thread is not blocked
    have hnone := h.handler.looping hl
    obtain ⟨m', hw', ho'⟩ | ⟨hr, -, -⟩ := huv
    · simp [hnone] at hw'
    · simp at hr

theorem no_circular_wait (es : List (SysEvent Thread Mutex))
    (hes : Along sysStep (fun s e => Legal e ∧ Uncontended s e) idle es) (t : Thread) :
    ¬ Relation.TransGen (WaitsFor (run sysStep idle es)) t t := by
  have hinv : LockInv (run sysStep idle es) :=
    run_invariant sysStep (fun s e h hc => h.step e hc.1 hc.2) idle_lockInv hes
  exact no_cycle (fun a b c hab hbc => hinv.waitRank_lt hab hbc) t

def lastRetry : List (SysEvent Thread Mutex) :=
  let msgs := (run step (sampleConn 1000) (List.replicate 9 .retransmit)).messagesArray
  let tcb := (sampleConn 1000).tcb
  let pkt := samplePeer 5000 1001 tcpSynAck 1000 []
  [.start .handler (retransmitOps msgs),
    .start .receive (tcpRxOps (fun _ => true) ⟨0, true, true⟩ (lookup [(1, tcb)] pkt) tcb pkt)]

theorem lastRetry_legal : ∀ e ∈ lastRetry, Legal e := by
  intro e he
  simp only [lastRetry, List.mem_cons, List.not_mem_nil, or_false] at he
  obtain rfl | rfl := he
  · exact ⟨_, .retransmit _, .retransmit _⟩
  · exact ⟨_, .tcpRx _ _ _, .tcpRx _ _ _ _ _⟩

/-- tcp_rx comes first and gets all three mutexes. -/
theorem no_circular_wait_rx_first :
    let s := run sysStep idle (lastRetry ++ [.exec .receive, .exec .receive, .exec .receive])
    s.owner .msgArrLock = some .receive ∧ ¬ Relation.TransGen (WaitsFor s) .receive .receive := by
  refine ⟨by decide +kernel, no_circular_wait _ ?_ .receive⟩
  have hrecv {s : Threads} (hp : s.paused .handler = false) : Uncontended s (.exec .receive) :=
    ⟨fun ht => by simp at ht, fun _ hl => by simp [hp] at hl⟩
  refine ⟨⟨lastRetry_legal _ (by simp [lastRetry]), fun _ m => by simp [idle]⟩,
    ⟨lastRetry_legal _ (by simp [lastRetry]), fun _ m => by simp [sysStep, idle]⟩,
    ⟨trivial, hrecv (by decide +kernel)⟩, ⟨trivial, hrecv (by decide +kernel)⟩,
    ⟨trivial, hrecv (by decide +kernel)⟩, trivial⟩

/-- The pass has msg_arr_lock and wants tcb_lock; tcp_rx has tcb_lock and wants msg_arr_lock. -/
theorem circular_wait_at_last_retry :
    let s := run sysStep idle (lastRetry ++ [.exec .handler, .exec .handler, .exec .receive,
      .exec .receive, .exec .receive, .exec .handler])
    Relation.TransGen (WaitsFor s) .receive .receive := by
  intro s
  have hrecv : WaitsFor s .receive .handler :=
    Or.inl ⟨.msgArrLock, by decide +kernel, by decide +kernel⟩
  have hhandler : WaitsFor s .handler .receive :=
    Or.inl ⟨.tcbLock 1, by decide +kernel, by decide +kernel⟩
  exact .tail (.single hrecv) hhandler

end AnpNetstack
