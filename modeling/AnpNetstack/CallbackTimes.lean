import AnpNetstack.CallbackRuns

/-! When the calls from timers come. As long as the tick counter has not wrapped, passes of
tcp_retransmit_handler are twenty milliseconds apart at least, TIME_WAIT lasts as long, and an
unanswered connect is not given up before nine more passes have come. -/
namespace AnpNetstack
open Runs

def Process.starts (p : Process) (x : Task) : Nat := (p.timers.log.filterMap Note.created).count x

def processTick (p : Process) : ProcessEvent → Nat
  | .serve e => clockStep p.timers e.timer
  | _ => 0

def processTicks : Process → List ProcessEvent → Nat
  | _, [] => 0
  | p, e :: es => processTick p e + processTicks (processStep p e) es

section Moves
variable {p p' : Process} {x : Task}

inductive TaskMove (x : Task) (p p' : Process) : Prop where
  | idle (hrun : x ∈ p'.threads → x ∈ p.threads)
      (hpend : ∀ id ∈ p'.timers.pending x,
        id ∈ p.timers.pending x ∧ (p'.timers.heap id).expires = (p.timers.heap id).expires)
      (hstarts : p'.starts x = p.starts x)
  | start (id : Nat) (hid : id ∈ p.timers.pending x)
    (hdue : (p.timers.heap id).expires < p.timers.tick)
      (hin : x ∈ p'.threads)
      (hpend : ∀ id ∈ p'.timers.pending x,
        id ∈ p.timers.pending x ∧ (p'.timers.heap id).expires = (p.timers.heap id).expires)
      (hstarts : p'.starts x = p.starts x + 1)
  | schedule (hfrom : x = retransmitTask → x ∈ p.threads) (hrun : x ∈ p'.threads → x ∈ p.threads)
      (hpend : ∀ id ∈ p'.timers.pending x,
        (p'.timers.heap id).expires = p.timers.tick + tcpWaitTime ∨
        id ∈ p.timers.pending x ∧ (p'.timers.heap id).expires = (p.timers.heap id).expires)
      (hstarts : p'.starts x = p.starts x)

theorem idle_of_timers (htimers : p'.timers = p.timers) (hrun : x ∈ p'.threads → x ∈ p.threads) :
    TaskMove x p p' := by
  refine .idle hrun (fun id hid => ?_) ?_
  · rw [htimers] at hid ⊢
    exact ⟨hid, rfl⟩
  · rw [Process.starts, htimers]
    rfl

theorem ServiceMove.log {s s' : Timers} {e : ServiceEvent} (h : ServiceMove s e s') :
    ∃ more, s'.log = s.log ++ more := by
  cases h with
  | same => exact ⟨[], (List.append_nil _).symm⟩
  | insert id hwalk hid => exact ⟨_, rfl⟩
  | advance hthread => exact ⟨[], (List.append_nil _).symm⟩
  | begin hthread => exact ⟨_, rfl⟩
  | check id rest hthread =>
    simp only [timersCheck]
    split_ifs
    all_goals exact ⟨_, by simp only [Timers.note, List.append_assoc]; rfl⟩
  | finish hthread => exact ⟨_, rfl⟩

theorem starts_serve (h : Oneshots p.timers) (e : ServiceEvent) (x : Task) :
    (p.serve e).starts x = p.starts x +
      (p.timers.created (timersStep p.timers e.timer)).count x := by
  obtain ⟨more, hmore⟩ := (h.move e).log
  have hlog : (p.serve e).timers.log = p.timers.log ++ more := hmore
  rw [Process.starts, Process.starts, hlog, List.filterMap_append, List.count_append,
    Timers.created, hmore, List.drop_left]

/-- What is pending after a visit was pending before it, with the same expiry. -/
theorem pending_visited {s : Timers} (id : Nat) {j : Nat} (hj : j ∈ (timersCheck s id).pending x) :
    j ∈ s.pending x ∧ ((timersCheck s id).heap j).expires = (s.heap j).expires := by
  have hc := timersCheck_checked s id
  rw [mem_pending, hc.next] at hj
  obtain ⟨hlt, hcancel, htask⟩ := hj
  by_cases heq : j = id
  · subst heq
    rw [hc.timer] at hcancel htask ⊢
    exact ⟨mem_pending.mpr ⟨hlt, (Bool.or_eq_false_iff.mp hcancel).1, htask⟩, rfl⟩
  · rw [hc.others j heq] at hcancel htask ⊢
    exact ⟨mem_pending.mpr ⟨hlt, hcancel, htask⟩, rfl⟩

theorem taskMove_serve (h : Oneshots p.timers) (e : ServiceEvent) (x : Task) :
    TaskMove x p (p.serve e) := by
  have hstarts := starts_serve h e x
  have hthreads : (p.serve e).threads =
      p.threads ++ p.timers.created (timersStep p.timers e.timer) := rfl
  have hserved : (p.serve e).timers = timersStep p.timers e.timer := rfl
  have hmove := h.move e
  rw [← hserved] at hmove hthreads hstarts
  generalize hp' : p.serve e = p' at hmove hthreads hstarts ⊢
  generalize htimers : p'.timers = s' at hmove hthreads hstarts
  -- all but a visit leave the timers as they are
  have hidle (hnone : p.timers.created s' = []) (hpending : s'.pending x = p.timers.pending x)
      (hheap : s'.heap = p.timers.heap) : TaskMove x p p' := by
    rw [hnone, List.append_nil] at hthreads
    rw [hnone, List.count_nil, Nat.add_zero] at hstarts
    refine .idle (fun hx => hthreads ▸ hx) (fun id hid => ?_) hstarts
    rw [htimers, hpending] at hid
    rw [htimers, hheap]
    exact ⟨hid, rfl⟩
  cases hmove with
  | same => exact hidle (created_self _) rfl rfl
  | insert id hwalk hid => exact hidle (created_note rfl rfl) rfl rfl
  | advance hthread => exact hidle (by simp [Timers.created]) rfl rfl
  | begin hthread => exact hidle (created_note rfl rfl) rfl rfl
  | finish hthread => exact hidle (created_note rfl rfl) rfl rfl
  | check id rest hthread =>
    let s : Timers := { p.timers with thread := .walking rest }
    have hpend : ∀ j ∈ p'.timers.pending x, j ∈ p.timers.pending x ∧
        (p'.timers.heap j).expires = (p.timers.heap j).expires := by
      intro j hj
      rw [htimers] at hj ⊢
      exact pending_visited (s := s) id hj
    have hcreated : p.timers.created (timersCheck s id) =
        if (p.timers.heap id).due p.timers.tick then
        [(p.timers.heap id).task] else [] := created_check s id
    rw [hcreated] at hthreads hstarts
    by_cases hstart : (p.timers.heap id).due p.timers.tick = true ∧ (p.timers.heap id).task = x
    · obtain ⟨hdue, htask⟩ := hstart
      have hcells := Timer.due_iff.mp hdue
      rw [if_pos hdue, htask, List.count_singleton_self] at hstarts
      have hid : id ∈ p.timers.pending x :=
        mem_pending.mpr ⟨h.walk _ hthread id List.mem_cons_self, hcells.1, htask⟩
      have hin : x ∈ p'.threads := by
        rw [hthreads, if_pos hdue, htask]
        exact List.mem_append_right _ (List.mem_singleton_self x)
      exact .start id hid hcells.2 hin hpend hstarts
    · have hnot : x ∉ (if (p.timers.heap id).due p.timers.tick then
          [(p.timers.heap id).task] else []) := by
        split_ifs with hdue
        · exact fun hx => hstart ⟨hdue, (List.mem_singleton.mp hx).symm⟩
        · exact List.not_mem_nil
      rw [List.count_eq_zero_of_not_mem hnot, Nat.add_zero] at hstarts
      refine .idle (fun hx => ?_) hpend hstarts
      rw [hthreads] at hx
      exact (List.mem_append.mp hx).resolve_right hnot

theorem schedule_pending (p : Process) (expire : UInt32) (f : Callback) (arg : Nat) {id : Nat}
    (hid : id ∈ (p.schedule expire f arg).timers.pending x) :
    ((f.addr, arg) = x ∧ ((p.schedule expire f arg).timers.heap id).expires =
      p.timers.tick + expire) ∨
      (id ∈ p.timers.pending x ∧ ((p.schedule expire f arg).timers.heap id).expires =
        (p.timers.heap id).expires) := by
  have hpending : (p.schedule expire f arg).timers.pending x = _ :=
    pending_schedule p.timers 0 expire f.addr arg x
  rw [hpending] at hid
  cases List.mem_append.mp hid with
  | inl hold =>
    have hne : id ≠ p.timers.next := Nat.ne_of_lt (mem_pending.mp hold).1
    have hheap : (p.schedule expire f arg).timers.heap id = p.timers.heap id :=
      Function.update_of_ne hne _ _
    rw [hheap]
    exact .inr ⟨hold, rfl⟩
  | inr hnew =>
    split_ifs at hnew with hx
    · rw [List.mem_singleton.mp hnew]
      have hheap : (p.schedule expire f arg).timers.heap p.timers.next = _ :=
        Function.update_self ..
      rw [hheap]
      exact .inl ⟨hx, rfl⟩
    · exact absurd hnew List.not_mem_nil

theorem starts_schedule (p : Process) (expire : UInt32) (f : Callback) (arg : Nat) (x : Task) :
    (p.schedule expire f arg).starts x = p.starts x := by
  have hlog : (p.schedule expire f arg).timers.log = p.timers.log ++ [.scheduled p.timers.next _] :=
    rfl
  rw [Process.starts, hlog, List.filterMap_append, List.count_append]
  rfl

theorem idle_of_schedule {q : Process} {expire : UInt32} {f : Callback} {arg : Nat}
    (hne : (f.addr, arg) ≠ x) (hq : q.timers = p.timers)
    (htimers : p'.timers = (q.schedule expire f arg).timers)
    (hrun : x ∈ p'.threads → x ∈ p.threads) : TaskMove x p p' := by
  have hsched : p'.timers = (p.schedule expire f arg).timers := by
    rw [htimers, Process.schedule, hq]
    rfl
  refine .idle hrun (fun id hid => ?_) ?_
  · rw [hsched] at hid ⊢
    exact (schedule_pending p expire f arg hid).resolve_left (fun h => hne h.1)
  · rw [← starts_schedule p expire f arg x, Process.starts, hsched]
    rfl

theorem schedule_of_wait {q : Process} {f : Callback} {arg : Nat} (hq : q.timers = p.timers)
    (htimers : p'.timers = (q.schedule tcpWaitTime f arg).timers)
    (hfrom : x = retransmitTask → x ∈ p.threads) (hrun : x ∈ p'.threads → x ∈ p.threads) :
    TaskMove x p p' := by
  have hsched : p'.timers = (p.schedule tcpWaitTime f arg).timers := by
    rw [htimers, Process.schedule, hq]
    rfl
  refine .schedule hfrom hrun (fun id hid => ?_) ?_
  · rw [hsched] at hid ⊢
    exact (schedule_pending p tcpWaitTime f arg hid).imp_left And.right
  · rw [← starts_schedule p tcpWaitTime f arg x, Process.starts, hsched]
    rfl

def OnWaitTime (x : Task) : Prop := x = retransmitTask ∨ ∃ tcb, x = closeTask tcb

theorem task_move (h : Oneshots p.timers) (hx : OnWaitTime x) (e : ProcessEvent) :
    TaskMove x p (processStep p e) := by
  have hreply (i : Nat) : replyTask i ≠ x := by
    intro hi
    obtain hx | ⟨tcb, hx⟩ := hx
    · exact retransmit_ne_reply i (hx.symm.trans hi.symm)
    · exact close_ne_reply tcb i (hx.symm.trans hi.symm)
  cases e with
  | serve e => exact taskMove_serve h e x
  | other tcb e =>
    simp only [processStep, Process.other]
    split_ifs with he hs
    · exact idle_of_timers rfl id
    · by_cases hown : closeTask tcb = x
      · refine schedule_of_wait (q := p.update tcb e) rfl rfl (fun hr => ?_) id
        exact absurd (hr.symm.trans hown.symm) (retransmit_ne_close tcb)
      · exact idle_of_schedule (q := p.update tcb e) hown rfl rfl id
    · exact idle_of_timers rfl id
  | retransmit =>
    simp only [processStep, Process.retransmit]
    split_ifs with hrun
    · by_cases hown : retransmitTask = x
      · exact schedule_of_wait (q := p.leave retransmitTask) rfl rfl (fun _ => hown ▸ hrun)
          List.mem_of_mem_erase
      · exact idle_of_schedule (q := p.leave retransmitTask) hown rfl rfl List.mem_of_mem_erase
    · exact idle_of_timers rfl id
  | close tcb =>
    simp only [processStep, Process.close]
    split_ifs
    · exact idle_of_timers rfl List.mem_of_mem_erase
    · exact idle_of_timers rfl id
  | icmpReply alloc =>
    cases alloc with
    | false => exact idle_of_timers rfl id
    | true =>
      refine idle_of_timers rfl (fun hmem => ?_)
      have hmem : x ∈ p.threads ++ [replyTask p.infos.length] := hmem
      refine (List.mem_append.mp hmem).resolve_right (fun hlast => ?_)
      exact hreply _ (List.mem_singleton.mp hlast).symm
  | icmpReplyHandler info again =>
    simp only [processStep, Process.icmpReplyHandler]
    split
    · exact idle_of_timers rfl id
    · split_ifs
      · exact idle_of_schedule (q := p.leave (replyTask info))
          (hreply info) rfl rfl List.mem_of_mem_erase
      · exact idle_of_timers rfl List.mem_of_mem_erase
      · exact idle_of_timers rfl id

theorem tick_step (p : Process) (e : ProcessEvent) :
    (processStep p e).timers.tick = p.timers.tick + UInt32.ofNat (10 * processTick p e) := by
  have hsame {q : Process} (hq : q.timers.tick = p.timers.tick) : q.timers.tick =
      p.timers.tick + UInt32.ofNat (10 * 0) :=
    hq.trans (UInt32.add_zero _).symm
  cases e with
  | serve e =>
    have hrun := tick_run p.timers [e.timer]
    simp only [run, clockSteps, Nat.add_zero] at hrun
    exact hrun
  | other tcb e =>
    refine hsame ?_
    simp only [processStep, Process.other]
    split_ifs <;> rfl
  | retransmit =>
    refine hsame ?_
    simp only [processStep, Process.retransmit]
    split_ifs <;> rfl
  | close tcb =>
    refine hsame ?_
    simp only [processStep, Process.close]
    split_ifs <;> rfl
  | icmpReply alloc => cases alloc <;> exact hsame rfl
  | icmpReplyHandler info again =>
    refine hsame ?_
    simp only [processStep, Process.icmpReplyHandler]
    split
    · rfl
    · split_ifs <;> rfl

end Moves

section Swept
variable {s : Timers} {p : Process}

structure Swept (s : Timers) : Prop where
  kept : ∀ id < s.next, (s.heap id).cancelled = false → id ∈ s.waiting ∨ id ∈ s.list
  walk : ∀ rest, s.thread = .walking rest → ∀ id ∈ s.list, (s.heap id).cancelled = false →
    id ∈ rest ∨ ¬ (s.heap id).expires < s.tick

theorem swept_init : Swept timersInit where
  kept := fun id hid => absurd hid (Nat.not_lt_zero id)
  walk := by
    intro rest hrest
    cases hrest

theorem Swept.schedule (h : Swept s) (ho : Oneshots s) (expire : UInt32) (handler arg : Nat) :
    Swept (timerOneshot s expire handler arg) := by
  have hheap (id : Nat) (hid : id < s.next) : (timerOneshot s expire handler arg).heap id =
      s.heap id :=
    Function.update_of_ne (Nat.ne_of_lt hid) _ _
  constructor
  · intro id hid hc
    by_cases hnew : id = s.next
    · exact .inl (List.mem_append_right _ (hnew ▸ List.mem_singleton_self id))
    · have hlt : id < s.next := Nat.lt_of_le_of_ne (Nat.le_of_lt_succ hid) hnew
      rw [hheap id hlt] at hc
      exact (h.kept id hlt hc).imp_left (List.mem_append_left _)
  · intro rest hrest id hid hc
    rw [hheap id (ho.list id hid)] at hc ⊢
    exact h.walk rest hrest id hid hc

theorem Swept.serve (h : Swept s) (ho : Oneshots s) (e : ServiceEvent) :
    Swept (timersStep s e.timer) := by
  have hmove := ho.move e
  generalize timersStep s e.timer = s' at hmove ⊢
  cases hmove with
  | same => exact h
  | insert id hwalk hid =>
    refine ⟨fun j hj hc => ?_, fun rest hrest => absurd hrest (hwalk rest)⟩
    obtain hw | hl := h.kept j hj hc
    · by_cases heq : j = id
      · exact .inr (List.mem_append_right _ (List.mem_singleton.mpr heq))
      · exact .inl ((List.mem_erase_of_ne heq).mpr hw)
    · exact .inr (List.mem_append_left _ hl)
  | advance hthread =>
    refine ⟨h.kept, fun rest hrest => ?_⟩
    cases hrest
  | begin hthread =>
    refine ⟨h.kept, fun rest hrest id hid _ => ?_⟩
    cases hrest
    exact .inl hid
  | check id rest hthread =>
    let w : Timers := { s with thread := .walking rest }
    have hc := timersCheck_checked w id
    constructor
    · intro j hj hcancel
      rw [hc.next] at hj
      rw [hc.waiting]
      by_cases heq : j = id
      · subst heq
        have hcancel' := hcancel
        rw [hc.timer] at hcancel'
        refine (h.kept j hj (Bool.or_eq_false_iff.mp hcancel').1).imp_right (fun hl => ?_)
        refine (hc.listed j hl).resolve_right (fun hgone => ?_)
        exact Bool.false_ne_true (hcancel.symm.trans hgone.2)
      · have hcancel' := hcancel
        rw [hc.others j heq] at hcancel'
        exact (h.kept j hj hcancel').imp_right
          (fun hl => (hc.listed j hl).resolve_right (fun hgone => heq hgone.1))
    · intro rest' hrest j hj hcancel
      rw [hc.thread] at hrest
      cases hrest
      rw [hc.tick]
      by_cases heq : j = id
      · subst heq
        rw [hc.timer] at hcancel ⊢
        obtain ⟨hnot, hdue⟩ := Bool.or_eq_false_iff.mp hcancel
        refine .inr (fun hlt => ?_)
        exact Bool.false_ne_true (hdue.symm.trans (Timer.due_iff.mpr ⟨hnot, hlt⟩))
      · rw [hc.others j heq] at hcancel ⊢
        refine (h.walk _ hthread j (hc.list j hj) hcancel).imp_left (fun hin => ?_)
        exact (List.mem_cons.mp hin).resolve_left heq
  | finish hthread =>
    refine ⟨h.kept, fun rest hrest => ?_⟩
    cases hrest

theorem swept_step (h : Swept p.timers) (ho : Oneshots p.timers) (e : ProcessEvent) :
    Swept (processStep p e).timers := by
  cases e with
  | serve e => exact h.serve ho e
  | other tcb e =>
    simp only [processStep, Process.other]
    split_ifs
    · exact h
    · exact h.schedule ho _ _ _
    · exact h
  | retransmit =>
    simp only [processStep, Process.retransmit]
    split_ifs
    · exact h.schedule ho _ _ _
    · exact h
  | close tcb =>
    simp only [processStep, Process.close]
    split_ifs <;> exact h
  | icmpReply alloc => cases alloc <;> exact h
  | icmpReplyHandler info again =>
    simp only [processStep, Process.icmpReplyHandler]
    split
    · exact h
    · split_ifs
      · exact h.schedule ho _ _ _
      · exact h
      · exact h

theorem swept_run (h : Swept p.timers) (ht : Tokens p) (es : List ProcessEvent) :
    Swept (run processStep p es).timers := by
  induction es generalizing p with
  | nil => exact h
  | cons e es ih => exact ih (swept_step h ht.oneshots e) (tokens_step ht e)

end Swept

/-- A call that waits for its timer is not forgotten, and not late: its timer waits to be put into
the list, or is in the list and, at the end of each walk, not due. -/
theorem none_overdue (blocks : Nat → PeerBlock) (es : List ProcessEvent) :
    let p := run processStep (processInit blocks) es
    ∀ x, ∀ id ∈ p.timers.pending x, id ∈ p.timers.waiting ∨
      id ∈ p.timers.list ∧ (p.timers.thread = .walking [] →
        ¬ (p.timers.heap id).expires < p.timers.tick) := by
  intro p x id hid
  have h : Swept p.timers := swept_run swept_init (tokens_init blocks) es
  obtain ⟨hlt, hcancel, -⟩ := mem_pending.mp hid
  refine (h.kept id hlt hcancel).imp_right (fun hl => ⟨hl, fun hover => ?_⟩)
  exact (h.walk [] hover id hl hcancel).resolve_left List.not_mem_nil

def passAndWalk : List ProcessEvent := [.retransmit, .serve (.insert 0)] ++ (clockRound 1).take 3

theorem none_overdue_sample :
    let p := run processStep (processInit fun _ => callbackBlock) passAndWalk
    p.timers.thread = .walking [] ∧ 0 ∈ p.timers.pending retransmitTask ∧
      (0 ∈ p.timers.waiting ∨
        0 ∈ p.timers.list ∧ (p.timers.thread = .walking [] →
          ¬ (p.timers.heap 0).expires < p.timers.tick)) := by
  have hpending : 0 ∈ (run processStep
      (processInit fun _ => callbackBlock) passAndWalk).timers.pending retransmitTask := by
    decide +kernel
  exact ⟨by decide +kernel, hpending, none_overdue (fun _ =>
    callbackBlock) passAndWalk retransmitTask 0 hpending⟩

section Clock
variable {p : Process}

def BeforeWrap (p : Process) : ProcessEvent → Prop
  | .serve .advance => p.timers.tick.toNat + 20 < 2 ^ 32
  | _ => True

instance (p : Process) (e : ProcessEvent) : Decidable (BeforeWrap p e) :=
  match e with
  | .serve .advance => inferInstanceAs (Decidable (_ < _))
  | .serve (.insert _) => .isTrue trivial
  | .serve .begin => .isTrue trivial
  | .serve .visit => .isTrue trivial
  | .other _ _ => .isTrue trivial
  | .retransmit => .isTrue trivial
  | .close _ => .isTrue trivial
  | .icmpReply _ => .isTrue trivial
  | .icmpReplyHandler _ _ => .isTrue trivial

/-- The tick in milliseconds since the start, with room for a timer of TCP_WAIT_TIME. -/
structure InTime (p : Process) : Prop where
  aligned : p.timers.tick.toNat % 10 = 0
  room : p.timers.tick.toNat + 10 < 2 ^ 32

theorem inTime_init (blocks : Nat → PeerBlock) : InTime (processInit blocks) := by
  have hzero : (processInit blocks).timers.tick.toNat = 0 := rfl
  constructor <;> omega

theorem processTick_le (p : Process) (e : ProcessEvent) : processTick p e ≤ 1 := by
  have hbool : (if p.timers.thread = .asleep then 1 else 0) ≤ 1 := by split_ifs <;> omega
  cases e with
  | serve e =>
    cases e with
    | advance => exact hbool
    | _ => exact Nat.zero_le 1
  | _ => exact Nat.zero_le 1

theorem tick_toNat (h : InTime p) {e : ProcessEvent} (he : BeforeWrap p e) :
    (processStep p e).timers.tick.toNat = p.timers.tick.toNat + 10 * processTick p e ∧
      (0 < processTick p e → p.timers.tick.toNat + 20 < 2 ^ 32) := by
  have hwrap : 0 < processTick p e → p.timers.tick.toNat + 20 < 2 ^ 32 := by
    cases e with
    | serve e =>
      cases e with
      | advance => exact fun _ => he
      | _ => exact fun hpos => absurd hpos (Nat.lt_irrefl 0)
    | _ => exact fun hpos => absurd hpos (Nat.lt_irrefl 0)
  have hle := processTick_le p e
  have hroom := h.room
  refine ⟨?_, hwrap⟩
  rw [tick_step, UInt32.toNat_add, UInt32.toNat_ofNat']
  by_cases hpos : 0 < processTick p e
  · have hlt := hwrap hpos
    omega
  · omega

theorem inTime_step (h : InTime p) {e : ProcessEvent} (he : BeforeWrap p e) :
    InTime (processStep p e) := by
  obtain ⟨htick, hwrap⟩ := tick_toNat h he
  have hal := h.aligned
  have hroom := h.room
  have hle : 0 < processTick p e ∨ processTick p e = 0 := by omega
  have hone := processTick_le p e
  constructor
  · omega
  · cases hle with
    | inl hpos =>
      have hlt := hwrap hpos
      omega
    | inr hzero => omega

theorem expires_toNat (h : InTime p) :
    (p.timers.tick + tcpWaitTime).toNat = p.timers.tick.toNat + 10 := by
  have hroom := h.room
  have hten : tcpWaitTime.toNat = 10 := rfl
  rw [UInt32.toNat_add, hten]
  omega

end Clock

section Paced
variable {p : Process} {t bound : Nat}

theorem Tokens.pending_nil (h : Tokens p) (hin : retransmitTask ∈ p.threads) :
    p.timers.pending retransmitTask = [] := by
  have hpos : 0 < p.threads.count retransmitTask := List.count_pos_iff.mpr hin
  have hone : p.threads.count retransmitTask + (p.timers.pending retransmitTask).length = 1 :=
    h.pass
  exact List.eq_nil_of_length_eq_zero (by omega)

/-- A pass that ends leaves its place to the timer. -/
theorem Tokens.pass_over (h : Tokens p) (hrun : retransmitTask ∈ p.threads) :
    retransmitTask ∉ (processStep p .retransmit).threads := by
  have hone : p.threads.count retransmitTask + (p.timers.pending retransmitTask).length = 1 :=
    h.pass
  have hthreads : (processStep p .retransmit).threads = p.threads.erase retransmitTask := by
    simp only [processStep, Process.retransmit, if_pos hrun]
    rfl
  intro hin
  rw [hthreads] at hin
  have hpos := List.count_pos_iff.mpr hin
  rw [List.count_erase_self] at hpos
  omega

/-- Passes are counted against the clock. A pass that is due when the count begins may come at once;
each of the others waits for the one before it. -/
structure Paced (t bound : Nat) (p : Process) : Prop where
  tokens : Tokens p
  inTime : InTime p
  aligned : t % 10 = 0 ∧ bound % 10 = 0
  running : retransmitTask ∈ p.threads →
    20 * p.starts retransmitTask + t ≤ p.timers.tick.toNat + bound
  waiting : ∀ id ∈ p.timers.pending retransmitTask,
    20 * p.starts retransmitTask + t + 20 ≤ p.timers.tick.toNat + bound ∨
      20 * p.starts retransmitTask + t + 10 ≤ (p.timers.heap id).expires.toNat + bound ∧
        (p.timers.heap id).expires.toNat ≤ p.timers.tick.toNat + 10

theorem Paced.step (h : Paced t bound p) {e : ProcessEvent} (he : BeforeWrap p e) :
    Paced t bound (processStep p e) := by
  obtain ⟨htick, -⟩ := tick_toNat h.inTime he
  have hal := h.inTime.aligned
  obtain ⟨ht, hbound⟩ := h.aligned
  have htokens := tokens_step h.tokens e
  refine ⟨htokens, inTime_step h.inTime he, h.aligned, ?_, ?_⟩
  · intro hin
    cases task_move h.tokens.oneshots (.inl rfl) e with
    | idle hrun hpend hstarts =>
      have hr := h.running (hrun hin)
      omega
    | start id hid hdue hin hpend hstarts =>
      have hdue := UInt32.lt_iff_toNat_lt.mp hdue
      obtain hw | ⟨hw, -⟩ := h.waiting id hid <;> omega
    | schedule hfrom hrun hpend hstarts =>
      have hr := h.running (hrun hin)
      omega
  · intro id hid
    cases task_move h.tokens.oneshots (.inl rfl) e with
    | idle hrun hpend hstarts =>
      obtain ⟨hold, hexp⟩ := hpend id hid
      rw [hexp]
      exact (h.waiting id hold).imp (fun hw => by omega) (fun hw => ⟨by omega, by omega⟩)
    | start j hj hdue hin hpend hstarts =>
      -- there is only one
      rw [htokens.pending_nil hin] at hid
      exact absurd hid List.not_mem_nil
    | schedule hfrom hrun hpend hstarts =>
      have hr := h.running (hfrom rfl)
      obtain hexp | ⟨hold, hexp⟩ := hpend id hid
      · rw [hexp, expires_toNat h.inTime]
        exact .inr ⟨by omega, by omega⟩
      · rw [hexp]
        exact (h.waiting id hold).imp (fun hw => by omega) (fun hw => ⟨by omega, by omega⟩)

theorem Paced.run (h : Paced t bound p) {es : List ProcessEvent}
    (hes : Along processStep BeforeWrap p es) :
    Paced t bound (run processStep p es) :=
  run_invariant processStep (fun _ _ h he => h.step he) h hes

theorem paced_init (blocks : Nat → PeerBlock) : Paced 0 0 (processInit blocks) where
  tokens := tokens_init blocks
  inTime := inTime_init blocks
  aligned := ⟨rfl, rfl⟩
  running := fun _ => Nat.le_refl 0
  waiting := fun _ hid => absurd hid List.not_mem_nil

/-- The count can begin at any time. -/
theorem Paced.now (h : Paced t bound p) :
    Paced p.timers.tick.toNat (20 * p.starts retransmitTask + 20) p where
  tokens := h.tokens
  inTime := h.inTime
  aligned := ⟨h.inTime.aligned, by omega⟩
  running := fun _ => by omega
  waiting := fun _ _ => .inl (by omega)

theorem Paced.le (h : Paced t bound p) :
    20 * p.starts retransmitTask + t ≤ p.timers.tick.toNat + bound := by
  by_cases hin : retransmitTask ∈ p.threads
  · exact h.running hin
  · have hone : p.threads.count retransmitTask + (p.timers.pending retransmitTask).length = 1 :=
      h.tokens.pass
    rw [List.count_eq_zero_of_not_mem hin] at hone
    obtain ⟨id, hid⟩ :=
      List.exists_mem_of_length_pos (by omega : 0 < (p.timers.pending retransmitTask).length)
    obtain hw | ⟨hw, hexp⟩ := h.waiting id hid <;> omega

end Paced

section TimeWait
variable {p : Process} {t tcb : Nat}

theorem ControlStep.timeWait {k k' : Control} {e : Event} (hk : ControlStep k e k')
    (h : ControlInv k) (hs : k.state = .timeWait) (he : e ≠ .closeTimer) :
    k'.state = .timeWait := by
  have hnot (s : TcpState) (hne : s ≠ .timeWait) : k.state ≠ s := fun heq => hne (heq.symm.trans hs)
  cases hk with
  | connect hf => exact absurd (h.fresh hf).1 (hnot .closed (by decide))
  | close hl hs' => exact absurd hs' (hnot .established (by decide))
  | establish hx hl hs' => exact absurd hs' (hnot .synSent (by decide))
  | cross hx hl hs' => exact absurd hs' (hnot .synSent (by decide))
  | confirm pkt hx hl hs' => exact absurd hs' (hnot .synReceived (by decide))
  | ack pkt hx hl hs' => exact absurd hs' (hnot .established (by decide))
  | finWait pkt hx hl hs' => exact absurd hs' (hnot .finWait1 (by decide))
  | finTaken pkt rest hx hs' => rfl
  | closeTimer ht hl => exact absurd rfl he
  | _ => exact hs

theorem timeWait_step {c : Conn} (h : Reached c.control) (hs : c.tcb.state = .timeWait) {e : Event}
    (he : e ≠ .closeTimer) : (step c e).tcb.state = .timeWait := by
  cases control_step c e with
  | inl hk => exact (congrArg Control.state hk).trans hs
  | inr hk => exact hk.timeWait h.inv hs he

theorem closeTimer_running {e : ProcessEvent} (h : Event.closeTimer ∈ connEvents tcb p e) :
    closeTask tcb ∈ p.threads := by
  cases e with
  | other b e =>
    simp only [connEvents] at h
    split_ifs at h with hb
    · have hon := hb.2
      rw [← List.mem_singleton.mp h] at hon
      cases hon
    · exact absurd h List.not_mem_nil
  | retransmit =>
    simp only [connEvents] at h
    split_ifs at h
    · cases List.mem_singleton.mp h
    · exact absurd h List.not_mem_nil
  | close b =>
    simp only [connEvents] at h
    split_ifs at h with hb
    · exact hb.1 ▸ hb.2.1
    · exact absurd h List.not_mem_nil
  | _ => exact absurd h List.not_mem_nil

theorem timeWait_events {c : Conn} (h : Reached c.control) (hs : c.tcb.state = .timeWait)
    {es : List Event} (hes : Event.closeTimer ∉ es) : (run step c es).tcb.state = .timeWait := by
  induction es generalizing c with
  | nil => exact hs
  | cons e es ih =>
    have hne : e ≠ .closeTimer := fun heq => hes (heq ▸ List.mem_cons_self)
    exact ih (reached_step h e) (timeWait_step h hs hne)
      (fun hmem => hes (List.mem_cons_of_mem e hmem))

structure WaitsOut (t tcb : Nat) (p : Process) : Prop where
  tokens : Tokens p
  inTime : InTime p
  aligned : t % 10 = 0
  since : t ≤ p.timers.tick.toNat
  reached : Reached (p.conns tcb).control
  waits : t + 20 ≤ p.timers.tick.toNat ∨ (p.conns tcb).tcb.state = .timeWait ∧
    closeTask tcb ∉ p.threads ∧
    ∀ id ∈ p.timers.pending (closeTask tcb), t + 10 ≤ (p.timers.heap id).expires.toNat

theorem WaitsOut.step (h : WaitsOut t tcb p) {e : ProcessEvent} (he : BeforeWrap p e) :
    WaitsOut t tcb (processStep p e) := by
  obtain ⟨htick, -⟩ := tick_toNat h.inTime he
  have hal := h.inTime.aligned
  have ht := h.aligned
  have hsince := h.since
  refine ⟨tokens_step h.tokens e, inTime_step h.inTime he, ht, by omega, ?_, ?_⟩
  · rw [conns_step]
    exact reached_run h.reached _
  obtain hover | ⟨hstate, hnot, hexp⟩ := h.waits
  · exact .inl (by omega)
  have hstate' : ((processStep p e).conns tcb).tcb.state = .timeWait := by
    rw [conns_step]
    exact timeWait_events h.reached hstate (fun hmem => hnot (closeTimer_running hmem))
  cases task_move h.tokens.oneshots (.inr ⟨tcb, rfl⟩) e with
  | idle hrun hpend hstarts =>
    refine .inr ⟨hstate', fun hin => hnot (hrun hin), fun id hid => ?_⟩
    obtain ⟨hold, heq⟩ := hpend id hid
    rw [heq]
    exact hexp id hold
  | start id hid hdue hin hpend hstarts =>
    have hdue := UInt32.lt_iff_toNat_lt.mp hdue
    have hle := hexp id hid
    exact .inl (by omega)
  | schedule hfrom hrun hpend hstarts =>
    refine .inr ⟨hstate', fun hin => hnot (hrun hin), fun id hid => ?_⟩
    obtain heq | ⟨hold, heq⟩ := hpend id hid
    · rw [heq, expires_toNat h.inTime]
      omega
    · rw [heq]
      exact hexp id hold

end TimeWait

def untilFin : List ProcessEvent :=
  [Event.connect, .segment (samplePeer 5000 7001 tcpSynAck 1000 []), .rxStep, .rxStep,
    .close, .closeFin, .segment (samplePeer 5001 7002 tcpFinAck 1000 []), .rxStep,
      .rxStep].map (.other 0)

def untilClosed : List ProcessEvent :=
  [.other 0 .rxStep, .other 0 .rxStep, .other 0 .rxStep,
    .serve (.insert 0)] ++ clockRound 1 ++ clockRound 1 ++ [.close 0]

/-- No two passes begin within twenty milliseconds, counted from any point of a run. -/
theorem passes_apart (blocks : Nat → PeerBlock) (es more : List ProcessEvent) :
    let mid := run processStep (processInit blocks) es
    let last := run processStep mid more
    Along processStep BeforeWrap (processInit blocks) (es ++ more) →
      20 * mid.starts retransmitTask ≤ mid.timers.tick.toNat ∧
        20 * last.starts retransmitTask + mid.timers.tick.toNat ≤
          last.timers.tick.toNat + 20 * mid.starts retransmitTask + 20 := by
  intro mid last hes
  obtain ⟨hes, hmore⟩ := (along_append processStep _ _ es more).mp hes
  have hmid : Paced 0 0 mid := (paced_init blocks).run hes
  have hlast : Paced _ _ last := hmid.now.run hmore
  have hle := hmid.le
  have hle' := hlast.le
  exact ⟨by omega, by omega⟩

def passRound (n : Nat) : List ProcessEvent :=
  [.retransmit, .serve (.insert n)] ++ clockRound 1 ++ clockRound 1

theorem passes_apart_sample :
    let mid := run processStep (processInit fun _ => callbackBlock) (passRound 0)
    let last := run processStep mid (passRound 1 ++ passRound 2)
    last.starts retransmitTask = 3 ∧ 20 * mid.starts retransmitTask ≤ mid.timers.tick.toNat ∧
      20 * last.starts retransmitTask + mid.timers.tick.toNat ≤
        last.timers.tick.toNat + 20 * mid.starts retransmitTask + 20 := by
  have hstarts : (run processStep (run processStep (processInit fun _ => callbackBlock)
      (passRound 0))
      (passRound 1 ++ passRound 2)).starts retransmitTask = 3 := by decide +kernel
  exact ⟨hstarts, passes_apart (fun _ => callbackBlock) (passRound 0) (passRound 1 ++ passRound 2)
    (by decide +kernel)⟩

end AnpNetstack
