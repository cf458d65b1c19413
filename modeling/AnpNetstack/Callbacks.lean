import AnpNetstack.ClockWrap
import AnpNetstack.PeerLinks
import AnpNetstack.BufferReads

/-! The functions that run on timers, with the threads of one process: tcp_retransmit_handler, which
init_threads starts once and which then schedules itself, close_connection after the last FIN, and
icmp_reply_handler as long as a reply cannot be sent. -/
namespace AnpNetstack
open Runs

abbrev Task := Nat × Nat

inductive Callback where
  | tcpRetransmitHandler
  | closeConnection
  | icmpReplyHandler
  deriving DecidableEq, Repr

def Callback.addr : Callback → Nat
  | .tcpRetransmitHandler => 0
  | .closeConnection => 1
  | .icmpReplyHandler => 2

def retransmitTask : Task := (Callback.addr .tcpRetransmitHandler, 0)
def closeTask (tcb : Nat) : Task := (Callback.addr .closeConnection, tcb)
def replyTask (info : Nat) : Task := (Callback.addr .icmpReplyHandler, info)

def tcpWaitTime : UInt32 := 10
def icmpRetryWaitTime : UInt32 := 100

section Pending
variable {s s' : Timers} {x : Task}

def Timer.task (t : Timer) : Task := (t.handler, t.arg)

def Timers.pending (s : Timers) (x : Task) : List Nat :=
  (List.range s.next).filter fun id => !(s.heap id).cancelled && (s.heap id).task == x

def Note.created : Note → Option Task
  | .checked _ _ start => start
  | _ => none

def Timers.created (s s' : Timers) : List Task := (s'.log.drop s.log.length).filterMap Note.created

theorem mem_pending {id : Nat} :
    id ∈ s.pending x ↔ id < s.next ∧ (s.heap id).cancelled = false ∧ (s.heap id).task = x := by
  simp [Timers.pending]

theorem pending_nodup (s : Timers) (x : Task) : (s.pending x).Nodup := List.nodup_range.filter _

theorem pending_schedule (s : Timers) (refcnt : Int) (expire : UInt32) (handler arg : Nat)
    (x : Task) :
    (timerSchedule s refcnt expire handler arg).pending x =
      s.pending x ++ if (handler, arg) = x then [s.next] else [] := by
  have hold : ∀ id ∈ List.range s.next,
      (!((timerSchedule s refcnt expire handler arg).heap id).cancelled &&
        ((timerSchedule s refcnt expire handler arg).heap id).task == x) =
      (!(s.heap id).cancelled && (s.heap id).task == x) := by
    intro id hid
    have hne : id ≠ s.next := Nat.ne_of_lt (List.mem_range.mp hid)
    have hheap : (timerSchedule s refcnt expire handler arg).heap id = s.heap id :=
      Function.update_of_ne hne _ _
    rw [hheap]
  have hnew : (timerSchedule s refcnt expire handler arg).heap s.next = _ := Function.update_self ..
  have hnext : (timerSchedule s refcnt expire handler arg).next = s.next + 1 := rfl
  rw [Timers.pending, hnext, List.range_succ, List.filter_append, List.filter_congr hold,
    List.filter_singleton, hnew]
  by_cases hx : (handler, arg) = x
  · simp [Timer.task, hx, Timers.pending]
  · simp [Timer.task, hx, beq_eq_false_iff_ne.mpr hx, Timers.pending]

structure Oneshots (s : Timers) : Prop where
  waiting : ∀ id ∈ s.waiting, id < s.next
  list : ∀ id ∈ s.list, id < s.next
  walk : ∀ rest, s.thread = .walking rest → ∀ id ∈ rest, id < s.next
  unlocked : ∀ id, (s.heap id).lock = none

theorem timersInit_oneshots : Oneshots timersInit where
  waiting := List.forall_mem_nil _
  list := List.forall_mem_nil _
  walk := by
    intro rest hrest
    cases hrest
  unlocked := fun _ => rfl

theorem Oneshots.schedule (h : Oneshots s) (expire : UInt32) (handler arg : Nat) :
    Oneshots (timerOneshot s expire handler arg) where
  waiting := by
    intro id hid
    cases List.mem_append.mp hid with
    | inl hid => exact Nat.lt_succ_of_lt (h.waiting id hid)
    | inr hid =>
      rw [List.mem_singleton.mp hid]
      exact Nat.lt_succ_self _
  list := fun id hid => Nat.lt_succ_of_lt (h.list id hid)
  walk := fun rest hrest id hid => Nat.lt_succ_of_lt (h.walk rest hrest id hid)
  unlocked := by
    intro id
    by_cases hid : id = s.next
    · have hheap : (timerOneshot s expire handler arg).heap s.next = _ := Function.update_self ..
      rw [hid, hheap]
    · have hheap : (timerOneshot s expire handler arg).heap id = s.heap id :=
        Function.update_of_ne hid _ _
      rw [hheap]
      exact h.unlocked id

/-- What the timer service does without a call: the insertion that a call has waited for, and its
own thread. -/
inductive ServiceEvent where
  | insert (id : Nat)
  | advance
  | begin
  | visit

def ServiceEvent.timer : ServiceEvent → TimerEvent
  | .insert id => .insert id
  | .advance => .advance
  | .begin => .begin
  | .visit => .visit

inductive ServiceMove (s : Timers) : ServiceEvent → Timers → Prop where
  | same (e : ServiceEvent) : ServiceMove s e s
  | insert (id : Nat) (hwalk : ∀ rest, s.thread ≠ .walking rest) (hid : id ∈ s.waiting) :
      ServiceMove s (.insert id)
        (Timers.note { s with waiting := s.waiting.erase id, list := s.list ++ [id] }
          (.inserted id))
  | advance (hthread : s.thread = .asleep) : ServiceMove s .advance { s with
    tick := s.tick + 10, thread := .ticked }
  | begin (hthread : s.thread = .ticked) : ServiceMove s .begin
    (Timers.note { s with thread := .walking s.list } .begin)
  | check (id : Nat) (rest : List Nat) (hthread : s.thread = .walking (id :: rest)) :
      ServiceMove s .visit (timersCheck { s with thread := .walking rest } id)
  | finish (hthread : s.thread = .walking []) : ServiceMove s .visit
    (Timers.note { s with thread := .asleep } .finish)

theorem Oneshots.move (h : Oneshots s) (e : ServiceEvent) :
    ServiceMove s e (timersStep s e.timer) := by
  have hmove := timers_move s e.timer
  generalize timersStep s e.timer = s' at hmove ⊢
  generalize clockStep s e.timer = k at hmove
  generalize htimer : e.timer = t at hmove
  cases hmove with
  | same => exact .same e
  | schedule owned expire handler arg => cases e <;> cases owned <;> cases htimer
  | insert id hwalk hid =>
    cases e <;> cases htimer
    exact .insert id hwalk hid
  | call op id hlock => cases e <;> cases htimer
  | cancel id hlock => cases e <;> cases htimer
  | release id hlock => cases e <;> cases htimer
  | advance hthread =>
    cases e <;> cases htimer
    exact .advance hthread
  | begin hthread =>
    cases e <;> cases htimer
    exact .begin hthread
  | busy id rest hthread hlock => simp [h.unlocked id] at hlock
  | check id rest hthread hlock =>
    cases e <;> cases htimer
    exact .check id rest hthread
  | finish hthread =>
    cases e <;> cases htimer
    exact .finish hthread

theorem Oneshots.serve (h : Oneshots s) (e : ServiceEvent) : Oneshots (timersStep s e.timer) := by
  have hmove := h.move e
  generalize timersStep s e.timer = s' at hmove ⊢
  cases hmove with
  | same => exact h
  | insert id hwalk hid =>
    refine ⟨fun j hj => h.waiting j (List.mem_of_mem_erase hj), ?_,
      fun rest hrest => absurd hrest (hwalk rest), h.unlocked⟩
    intro j hj
    cases List.mem_append.mp hj with
    | inl hj => exact h.list j hj
    | inr hj => exact List.mem_singleton.mp hj ▸ h.waiting id hid
  | advance hthread =>
    refine ⟨h.waiting, h.list, fun rest hrest => ?_, h.unlocked⟩
    cases hrest
  | begin hthread =>
    refine ⟨h.waiting, h.list, fun rest hrest => ?_, h.unlocked⟩
    cases hrest
    exact h.list
  | check id rest hthread =>
    have hc := timersCheck_checked { s with thread := .walking rest } id
    refine ⟨?_, ?_, ?_, ?_⟩
    · rw [hc.waiting, hc.next]
      exact h.waiting
    · rw [hc.next]
      exact fun j hj => h.list j (hc.list j hj)
    · rw [hc.thread, hc.next]
      intro rest' hrest j hj
      cases hrest
      exact h.walk _ hthread j (List.mem_cons_of_mem id hj)
    · intro j
      by_cases hj : j = id
      · rw [hj, hc.timer]
        exact h.unlocked id
      · rw [hc.others j hj]
        exact h.unlocked j
  | finish hthread =>
    refine ⟨h.waiting, h.list, fun rest hrest => ?_, h.unlocked⟩
    cases hrest

theorem created_self (s : Timers) : s.created s = [] := by simp [Timers.created]

theorem created_note {n : Note} (hlog : s'.log = s.log ++ [n]) (hn : n.created = none) :
    s.created s' = [] := by
  simp [Timers.created, hlog, hn]

theorem created_check (s : Timers) (id : Nat) :
    s.created (timersCheck s id) = if (s.heap id).due s.tick then [(s.heap id).task] else [] := by
  have hnone (k : Int) : (Note.freed id k).created = none := rfl
  simp only [Timers.created, timersCheck]
  split_ifs with hgone hdue hdue
  all_goals simp [Timers.note, Note.created, Timer.task]

theorem Timer.due_iff {t : Timer} {tick : UInt32} :
    t.due tick = true ↔ t.cancelled = false ∧ t.expires < tick := by
  simp [Timer.due]

theorem pending_check (id : Nat) (hid : id < s.next) (x : Task) :
    ((timersCheck s id).pending x).length + (s.created (timersCheck s id)).count x =
      (s.pending x).length := by
  have hc := timersCheck_checked s id
  rw [created_check]
  by_cases hdue : (s.heap id).due s.tick = true
  · rw [if_pos hdue]
    by_cases hx : (s.heap id).task = x
    · have hmem : id ∈ s.pending x := mem_pending.mpr ⟨hid, (Timer.due_iff.mp hdue).1, hx⟩
      have herase : (timersCheck s id).pending x = (s.pending x).erase id := by
        rw [(pending_nodup s x).erase_eq_filter, Timers.pending, Timers.pending,
          List.filter_filter, hc.next]
        refine List.filter_congr fun j _ => ?_
        by_cases hj : j = id
        · rw [hj, hc.timer]
          simp [hdue]
        · rw [hc.others j hj]
          simp [hj]
      have hpos : 0 < (s.pending x).length := List.length_pos_of_mem hmem
      rw [herase, List.length_erase_of_mem hmem, hx, List.count_singleton_self]
      omega
    · rw [List.count_singleton, if_neg (by simpa using hx), Nat.add_zero, Timers.pending,
        Timers.pending, hc.next]
      congr 1
      refine List.filter_congr fun j _ => ?_
      by_cases hj : j = id
      · rw [hj, hc.timer]
        have htask : ({ s.heap id with
            cancelled := (s.heap id).cancelled || (s.heap id).due s.tick } : Timer).task =
            (s.heap id).task := rfl
        rw [htask, beq_eq_false_iff_ne.mpr hx, Bool.and_false, Bool.and_false]
      · rw [hc.others j hj]
  · rw [if_neg hdue, List.count_nil, Nat.add_zero, Timers.pending, Timers.pending, hc.next]
    congr 1
    refine List.filter_congr fun j _ => ?_
    by_cases hj : j = id
    · rw [hj, hc.timer]
      simp [Bool.eq_false_iff.mpr hdue, Timer.task]
    · rw [hc.others j hj]

theorem Oneshots.pending_serve (h : Oneshots s) (e : ServiceEvent) (x : Task) :
    ((timersStep s e.timer).pending x).length + (s.created (timersStep s e.timer)).count x =
      (s.pending x).length := by
  have hmove := h.move e
  generalize timersStep s e.timer = s' at hmove ⊢
  cases hmove with
  | same =>
    rw [created_self]
    rfl
  | insert id hwalk hid =>
    rw [created_note rfl rfl]
    rfl
  | advance hthread =>
    have hcreated : s.created { s with tick := s.tick + 10, thread := .ticked } = [] := by
      simp [Timers.created]
    rw [hcreated]
    rfl
  | begin hthread =>
    rw [created_note rfl rfl]
    rfl
  | check id rest hthread =>
    exact pending_check (s := { s with thread := .walking rest }) id
      (h.walk _ hthread id List.mem_cons_self) x
  | finish hthread =>
    rw [created_note rfl rfl]
    rfl

end Pending

section Process

/-- struct icmp_reply_info without the packet; `tries` and `frees` record the calls of ip_output
and of free for it. -/
structure IcmpReplyInfo where
  retries : Nat
  tries : Nat
  frees : Nat
  deriving DecidableEq, Repr

/-- `threads` are the calls of the three functions in progress. A connection block and a reply are
given by a number of their own. -/
structure Process where
  timers : Timers
  threads : List Task
  conns : Nat → Conn
  infos : List IcmpReplyInfo

def processInit (blocks : Nat → PeerBlock) : Process where
  timers := timersInit
  threads := [retransmitTask]
  conns tcb := (blocks tcb).conn
  infos := []

namespace Process
variable (p : Process)

def schedule (expire : UInt32) (f : Callback) (arg : Nat) : Process :=
  { p with timers := timerOneshot p.timers expire f.addr arg }

def leave (x : Task) : Process := { p with threads := p.threads.erase x }

def update (tcb : Nat) (e : Event) : Process :=
  { p with conns := Function.update p.conns tcb (step (p.conns tcb) e) }

def serve (e : ServiceEvent) : Process :=
  { p with
    timers := timersStep p.timers e.timer
    threads := p.threads ++ p.timers.created (timersStep p.timers e.timer) }

end Process

def Conn.schedules (c : Conn) : Event → Bool
  | .rxStep => c.rx.head? == some .timer
  | _ => false

def Event.onTimer : Event → Bool
  | .retransmit => true
  | .closeTimer => true
  | _ => false

def Process.other (p : Process) (tcb : Nat) (e : Event) : Process :=
  if e.onTimer then p
  else if (p.conns tcb).schedules e then (p.update tcb e).schedule tcpWaitTime .closeConnection tcb
  else p.update tcb e

def Process.retransmit (p : Process) : Process :=
  if retransmitTask ∈ p.threads then
    { (p.leave retransmitTask).schedule tcpWaitTime .tcpRetransmitHandler 0 with
      conns := fun tcb => step (p.conns tcb) .retransmit }
  else p

def Process.close (p : Process) (tcb : Nat) : Process :=
  if closeTask tcb ∈ p.threads ∧ (p.conns tcb).tcbLock = false then
    (p.leave (closeTask tcb)).update tcb .closeTimer
  else p

/-- icmp_reply up to its call of icmp_reply_handler; `alloc` is the outcome of calloc. -/
def Process.icmpReply (p : Process) (alloc : Bool) : Process :=
  if alloc then
    { p with
      threads := p.threads ++ [replyTask p.infos.length]
      infos := p.infos ++ [{ retries := Wire.icmpRetryCount, tries := 0, frees := 0 }] }
  else p

/-- icmp_reply_handler; `again` says that ip_output has returned -EAGAIN. -/
def Process.icmpReplyHandler (p : Process) (info : Nat) (again : Bool) : Process :=
  match p.infos[info]? with
  | none => p
  | some reply =>
    if replyTask info ∈ p.threads then
      if again ∧ 0 < reply.retries then
        { (p.leave (replyTask info)).schedule icmpRetryWaitTime .icmpReplyHandler info with
          infos :=
            p.infos.set info { reply with retries := reply.retries - 1, tries := reply.tries + 1 } }
      else
        { p.leave (replyTask info) with
          infos :=
            p.infos.set info { reply with tries := reply.tries + 1, frees := reply.frees + 1 } }
    else p

inductive ProcessEvent where
  | serve (e : ServiceEvent)
  | other (tcb : Nat) (e : Event)
  | retransmit
  | close (tcb : Nat)
  | icmpReply (alloc : Bool)
  | icmpReplyHandler (info : Nat) (again : Bool)

def processStep (p : Process) : ProcessEvent → Process
  | .serve e => p.serve e
  | .other tcb e => p.other tcb e
  | .retransmit => p.retransmit
  | .close tcb => p.close tcb
  | .icmpReply alloc => p.icmpReply alloc
  | .icmpReplyHandler info again => p.icmpReplyHandler info again

def connEvents (tcb : Nat) (p : Process) : ProcessEvent → List Event
  | .other b e => if b = tcb ∧ e.onTimer = false then [e] else []
  | .retransmit => if retransmitTask ∈ p.threads then [.retransmit] else []
  | .close b => if b = tcb ∧ closeTask b ∈ p.threads ∧ (p.conns b).tcbLock = false then
    [.closeTimer] else []
  | _ => []

def Process.held (p : Process) (x : Task) : Nat := p.threads.count x + (p.timers.pending x).length

end Process

end AnpNetstack
