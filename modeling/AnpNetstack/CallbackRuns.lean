import AnpNetstack.Callbacks

/-! Each call from a timer has one place: a thread that runs it or one timer that will. So there is
one tcp_retransmit_handler at any time, the timers of a connection are those that its machine
counts, and a reply is freed once. -/
namespace AnpNetstack
open Runs

section Held
variable {p p' : Process} {x y : Task}

theorem held_congr (hthreads : p'.threads = p.threads) (htimers : p'.timers = p.timers) (x : Task) :
    p'.held x = p.held x := by
  rw [Process.held, hthreads, htimers]
  rfl

theorem held_leave (hx : x ∈ p.threads) (y : Task) :
    (p.leave x).held y + (if x = y then 1 else 0) = p.held y := by
  have hpos : 0 < p.threads.count x := List.count_pos_iff.mpr hx
  simp only [Process.held, Process.leave]
  by_cases hxy : x = y
  · subst hxy
    rw [if_pos rfl, List.count_erase_self]
    omega
  · rw [if_neg hxy, List.count_erase_of_ne (Ne.symm hxy)]
    rfl

theorem held_leave_other (hx : x ∈ p.threads) (hy : x ≠ y) : (p.leave x).held y = p.held y := by
  have hleave := held_leave hx y
  rw [if_neg hy] at hleave
  exact hleave

theorem held_schedule (p : Process) (expire : UInt32) (f : Callback) (arg : Nat) (y : Task) :
    (p.schedule expire f arg).held y = p.held y + if (f.addr, arg) = y then 1 else 0 := by
  have hpending : ((p.schedule expire f arg).timers.pending y) = _ :=
    pending_schedule p.timers 0 expire f.addr arg y
  rw [Process.held, hpending, List.length_append, Process.held]
  by_cases hy : (f.addr, arg) = y
  · rw [if_pos hy, if_pos hy]
    rfl
  · rw [if_neg hy, if_neg hy]
    rfl

theorem held_again {f : Callback} {arg : Nat} (hx : (f.addr, arg) ∈ p.threads) (expire : UInt32)
    (y : Task) :
    ((p.leave (f.addr, arg)).schedule expire f arg).held y = p.held y := by
  rw [held_schedule, ← held_leave hx y]

theorem held_serve (h : Oneshots p.timers) (e : ServiceEvent) (x : Task) :
    (p.serve e).held x = p.held x := by
  have hpending := h.pending_serve e x
  have hthreads : (p.serve e).threads =
      p.threads ++ p.timers.created (timersStep p.timers e.timer) := rfl
  have htimers : (p.serve e).timers = timersStep p.timers e.timer := rfl
  rw [Process.held, Process.held, hthreads, htimers, List.count_append]
  omega

theorem running_held (hx : x ∈ p.threads) : 0 < p.held x := by
  have hpos : 0 < p.threads.count x := List.count_pos_iff.mpr hx
  unfold Process.held
  omega

end Held

section Tasks

theorem task_inj {f g : Callback} {i j : Nat} (h : (f.addr, i) = (g.addr, j)) : f = g ∧ i = j := by
  have haddr : f.addr = g.addr := congrArg Prod.fst h
  refine ⟨?_, congrArg Prod.snd h⟩
  cases f <;> cases g <;> first | rfl | cases haddr

theorem closeTask_inj {i j : Nat} : closeTask i = closeTask j ↔ i = j :=
  ⟨fun h => (task_inj h).2, fun h => h ▸ rfl⟩

theorem replyTask_inj {i j : Nat} : replyTask i = replyTask j ↔ i = j :=
  ⟨fun h => (task_inj h).2, fun h => h ▸ rfl⟩

theorem retransmit_ne_close (i : Nat) : retransmitTask ≠ closeTask i := fun h => by
  cases (task_inj h).1
theorem retransmit_ne_reply (i : Nat) : retransmitTask ≠ replyTask i := fun h => by
  cases (task_inj h).1
theorem close_ne_reply (i j : Nat) : closeTask i ≠ replyTask j := fun h => by cases (task_inj h).1

end Tasks

section Blocks
variable {c : Conn} {e : Event}

theorem ControlStep.closeTimers_eq {k k' : Control} (h : ControlStep k e k')
    (he : e.onTimer = false) (hrx : e = .rxStep → ∀ rest, k.rx ≠ .timer :: rest) :
    k'.closeTimers = k.closeTimers := by
  cases h with
  | timer rest hx => exact absurd hx (hrx rfl rest)
  | closeTimer ht hl => cases he
  | _ => rfl

theorem closeTimers_step (he : e.onTimer = false) :
    (step c e).closeTimers = c.closeTimers + if c.schedules e then 1 else 0 := by
  by_cases hs : c.schedules e = true
  · rw [if_pos hs]
    cases e with
    | rxStep =>
      obtain ⟨rest, hrest⟩ : ∃ rest, c.rx = .timer :: rest := by
        cases hrx : c.rx with
        | nil => simp [Conn.schedules, hrx] at hs
        | cons act rest =>
          simp only [Conn.schedules, hrx, List.head?_cons, beq_iff_eq, Option.some.injEq] at hs
          exact ⟨rest, by rw [hs]⟩
      have hstep : step c .rxStep = _ := rxStep_timer hrest
      rw [hstep]
    | _ => cases hs
  · rw [if_neg hs, Nat.add_zero]
    cases control_step c e with
    | inl hk => exact congrArg Control.closeTimers hk
    | inr hk =>
      refine hk.closeTimers_eq he ?_
      intro hrx rest hx
      have hx : c.rx = .timer :: rest := hx
      subst hrx
      simp [Conn.schedules, hx] at hs

theorem closeTimers_close (hpos : 0 < c.closeTimers) (hlock : c.tcbLock = false) :
    (step c .closeTimer).closeTimers + 1 = c.closeTimers := by
  have hgo : ¬ (c.closeTimers = 0 ∨ c.tcbLock = true) := by
    rw [hlock]
    simp only [Bool.false_eq_true, or_false]
    omega
  simp only [step, closeConnection, if_neg hgo]
  omega

end Blocks

/-- Every call from a timer has one owner: the thread that makes it or the timer that will start
it. -/
structure Tokens (p : Process) : Prop where
  oneshots : Oneshots p.timers
  pass : p.held retransmitTask = 1
  close : ∀ tcb, p.held (closeTask tcb) = (p.conns tcb).closeTimers
  reply : ∀ i reply, p.infos[i]? = some reply → p.held (replyTask i) + reply.frees = 1 ∧
    reply.tries + reply.retries = Wire.icmpRetryCount + reply.frees
  unborn : ∀ i, p.infos.length ≤ i → p.held (replyTask i) = 0

section Steps
variable {p : Process}

theorem tokens_init (blocks : Nat → PeerBlock) : Tokens (processInit blocks) where
  oneshots := timersInit_oneshots
  pass := rfl
  close := fun tcb => rfl
  reply := by
    intro i reply hi
    cases hi
  unborn := fun i _ => rfl

theorem Tokens.serve (h : Tokens p) (e : ServiceEvent) : Tokens (p.serve e) where
  oneshots := h.oneshots.serve e
  pass := (held_serve h.oneshots e _).trans h.pass
  close := fun tcb => (held_serve h.oneshots e _).trans (h.close tcb)
  reply := fun i reply hi => by
    rw [held_serve h.oneshots e]
    exact h.reply i reply hi
  unborn := fun i hi => (held_serve h.oneshots e _).trans (h.unborn i hi)

theorem Tokens.other (h : Tokens p) (tcb : Nat) (e : Event) : Tokens (p.other tcb e) := by
  unfold Process.other
  by_cases he : e.onTimer = true
  · rw [if_pos he]
    exact h
  have hcount := closeTimers_step (c := p.conns tcb) (Bool.eq_false_iff.mpr he)
  have hsame (y : Task) : (p.update tcb e).held y = p.held y := held_congr rfl rfl y
  have hown : (p.update tcb e).conns tcb = step (p.conns tcb) e := Function.update_self ..
  have hothers (b : Nat) (hb : b ≠ tcb) : (p.update tcb e).conns b = p.conns b :=
    Function.update_of_ne hb _ _
  rw [if_neg he]
  by_cases hs : (p.conns tcb).schedules e = true
  · rw [if_pos hs] at hcount ⊢
    have hheld (y : Task) (hy : closeTask tcb ≠ y) :
        ((p.update tcb e).schedule tcpWaitTime .closeConnection tcb).held y = p.held y := by
      rw [held_schedule, hsame]
      exact congrArg (p.held y + ·) (if_neg hy)
    refine ⟨h.oneshots.schedule _ _ _, ?_, ?_, ?_, ?_⟩
    · rw [hheld _ (retransmit_ne_close tcb).symm]
      exact h.pass
    · intro b
      have hconns : ((p.update tcb e).schedule tcpWaitTime .closeConnection tcb).conns =
          (p.update tcb e).conns := rfl
      by_cases hb : b = tcb
      · have htask : (Callback.addr .closeConnection, tcb) = closeTask tcb := rfl
        rw [hb, hconns, hown, hcount, held_schedule, hsame, h.close tcb, if_pos htask]
      · rw [hheld _ (fun heq => hb (closeTask_inj.mp heq).symm), hconns, hothers b hb]
        exact h.close b
    · intro i reply hi
      rw [hheld _ (close_ne_reply tcb i)]
      exact h.reply i reply hi
    · intro i hi
      rw [hheld _ (close_ne_reply tcb i)]
      exact h.unborn i hi
  · rw [if_neg hs] at hcount ⊢
    refine ⟨h.oneshots, (hsame _).trans h.pass, ?_, ?_, ?_⟩
    · intro b
      rw [hsame]
      by_cases hb : b = tcb
      · rw [hb, hown, hcount]
        exact h.close tcb
      · rw [hothers b hb]
        exact h.close b
    · intro i reply hi
      rw [hsame]
      exact h.reply i reply hi
    · intro i hi
      rw [hsame]
      exact h.unborn i hi

theorem Tokens.retransmit (h : Tokens p) : Tokens p.retransmit := by
  unfold Process.retransmit
  by_cases hrun : retransmitTask ∈ p.threads
  · rw [if_pos hrun]
    -- the call in progress is given up for a timer
    have hheld (y : Task) :
        ((p.leave retransmitTask).schedule tcpWaitTime .tcpRetransmitHandler 0).held y = p.held y :=
      held_again hrun tcpWaitTime y
    refine ⟨h.oneshots.schedule _ _ _, ?_, ?_, ?_, ?_⟩
    · exact (hheld _).trans h.pass
    · exact fun tcb => (hheld _).trans (h.close tcb)
    · intro i reply hi
      have hr := h.reply i reply hi
      rw [← hheld] at hr
      exact hr
    · exact fun i hi => (hheld _).trans (h.unborn i hi)
  · rw [if_neg hrun]
    exact h

theorem Tokens.closeConnection (h : Tokens p) (tcb : Nat) : Tokens (p.close tcb) := by
  unfold Process.close
  by_cases hgo : closeTask tcb ∈ p.threads ∧ (p.conns tcb).tcbLock = false
  · rw [if_pos hgo]
    have hheld (y : Task) (hy : closeTask tcb ≠ y) :
        ((p.leave (closeTask tcb)).update tcb .closeTimer).held y = p.held y :=
      held_leave_other hgo.1 hy
    have hpos : 0 < (p.conns tcb).closeTimers := h.close tcb ▸ running_held hgo.1
    refine ⟨h.oneshots, ?_, ?_, ?_, ?_⟩
    · rw [hheld _ (retransmit_ne_close tcb).symm]
      exact h.pass
    · intro b
      by_cases hb : b = tcb
      · have hown : ((p.leave (closeTask tcb)).update tcb .closeTimer).conns tcb =
            step (p.conns tcb) .closeTimer :=
          Function.update_self ..
        have hleave := held_leave hgo.1 (closeTask tcb)
        have hclose := closeTimers_close hpos hgo.2
        have hsame : ((p.leave (closeTask tcb)).update tcb .closeTimer).held (closeTask tcb) =
            (p.leave (closeTask tcb)).held (closeTask tcb) := rfl
        rw [if_pos rfl, h.close tcb] at hleave
        rw [hb, hown, hsame]
        omega
      · have hother : ((p.leave (closeTask tcb)).update tcb .closeTimer).conns b = p.conns b :=
          Function.update_of_ne hb _ _
        rw [hheld _ (fun heq => hb (closeTask_inj.mp heq).symm), hother]
        exact h.close b
    · intro i reply hi
      rw [hheld _ (close_ne_reply tcb i)]
      exact h.reply i reply hi
    · intro i hi
      rw [hheld _ (close_ne_reply tcb i)]
      exact h.unborn i hi
  · rw [if_neg hgo]
    exact h

theorem Tokens.icmpReply (h : Tokens p) (alloc : Bool) : Tokens (p.icmpReply alloc) := by
  unfold Process.icmpReply
  cases alloc with
  | false => exact h
  | true =>
    let q : Process :=
      { p with
        threads := p.threads ++ [replyTask p.infos.length]
        infos := p.infos ++ [{ retries := Wire.icmpRetryCount, tries := 0, frees := 0 }] }
    have hheld (y : Task) : q.held y = p.held y +
        if replyTask p.infos.length = y then 1 else 0 := by
      have hcount : q.threads.count y = p.threads.count y +
          if replyTask p.infos.length = y then 1 else 0 := by
        simp only [q, List.count_append, List.count_singleton, beq_iff_eq]
      have htimers : q.timers = p.timers := rfl
      rw [Process.held, hcount, htimers, Process.held]
      omega
    have hold (y : Task) (hy : replyTask p.infos.length ≠ y) : q.held y = p.held y := by
      rw [hheld, if_neg hy, Nat.add_zero]
    refine ⟨h.oneshots, ?_, ?_, ?_, ?_⟩
    · exact (hold _ (retransmit_ne_reply _).symm).trans h.pass
    · exact fun tcb => (hold _ (close_ne_reply tcb _).symm).trans (h.close tcb)
    · intro i reply hi
      have hi : (p.infos ++
          [({ retries := Wire.icmpRetryCount, tries := 0, frees := 0 } : IcmpReplyInfo)])[i]? =
        some reply := hi
      obtain hlt | heq | hgt := Nat.lt_trichotomy i p.infos.length
      · rw [List.getElem?_append_left hlt] at hi
        have hr := h.reply i reply hi
        rw [← hold _ (fun heq => Nat.ne_of_gt hlt (replyTask_inj.mp heq))] at hr
        exact hr
      · rw [heq, List.getElem?_append_right (Nat.le_refl _), Nat.sub_self] at hi
        cases hi
        have hnone := h.unborn p.infos.length (Nat.le_refl _)
        refine ⟨?_, rfl⟩
        rw [heq]
        exact (hheld _).trans (by rw [hnone, if_pos rfl])
      · rw [List.getElem?_eq_none (by rw [List.length_append]; exact hgt)] at hi
        cases hi
    · intro i hi
      have hi : p.infos.length + 1 ≤ i := by simpa using hi
      exact (hold _ (fun heq => by have := replyTask_inj.mp heq; omega)).trans
        (h.unborn i (Nat.le_of_succ_le hi))
  
theorem tried_reply (h : Tokens p) {q : Process} {info : Nat} {next : IcmpReplyInfo}
    (hlt : info < p.infos.length) (hinfos : q.infos = p.infos.set info next)
    (hheld : ∀ i, info ≠ i → q.held (replyTask i) = p.held (replyTask i))
    (hnext : q.held (replyTask info) + next.frees = 1 ∧
      next.tries + next.retries = Wire.icmpRetryCount + next.frees)
    (i : Nat) (reply : IcmpReplyInfo) (hi : q.infos[i]? = some reply) :
    q.held (replyTask i) + reply.frees = 1 ∧
      reply.tries + reply.retries = Wire.icmpRetryCount + reply.frees := by
  rw [hinfos] at hi
  by_cases heq : info = i
  · subst heq
    rw [List.getElem?_set_self hlt] at hi
    cases hi
    exact hnext
  · rw [List.getElem?_set_ne heq] at hi
    rw [hheld i heq]
    exact h.reply i reply hi

theorem Tokens.icmpReplyHandler (h : Tokens p) (info : Nat) (again : Bool) :
    Tokens (p.icmpReplyHandler info again) := by
  unfold Process.icmpReplyHandler
  cases hget : p.infos[info]? with
  | none => exact h
  | some reply =>
    obtain ⟨hone, htries⟩ := h.reply info reply hget
    have hlt : info < p.infos.length := (List.getElem?_eq_some_iff.mp hget).1
    dsimp only
    by_cases hrun : replyTask info ∈ p.threads
    · rw [if_pos hrun]
      by_cases hagain : again = true ∧ 0 < reply.retries
      · rw [if_pos hagain]
        let q : Process :=
          { (p.leave (replyTask info)).schedule icmpRetryWaitTime .icmpReplyHandler info with
            infos :=
              p.infos.set info { reply with
                retries := reply.retries - 1, tries := reply.tries + 1 } }
        have hheld (y : Task) : q.held y = p.held y := held_again hrun icmpRetryWaitTime y
        refine ⟨h.oneshots.schedule _ _ _, (hheld _).trans h.pass,
          fun tcb => (hheld _).trans (h.close tcb), ?_, ?_⟩
        · refine tried_reply h hlt rfl (fun i _ => hheld (replyTask i)) ⟨?_, ?_⟩
          · exact (congrArg (· + reply.frees) (hheld _)).trans hone
          · have hret := hagain.2
            dsimp only
            omega
        · intro i hi
          have hi : p.infos.length ≤ i := by simpa using hi
          exact (hheld _).trans (h.unborn i hi)
      · rw [if_neg hagain]
        let q : Process :=
          { p.leave (replyTask info) with
            infos :=
              p.infos.set info { reply with tries := reply.tries + 1, frees := reply.frees + 1 } }
        have hleave : q.held (replyTask info) + (if replyTask info = replyTask info then 1 else 0) =
            p.held (replyTask info) :=
          held_leave hrun (replyTask info)
        have hheld (y : Task) (hy : replyTask info ≠ y) : q.held y = p.held y :=
          held_leave_other hrun hy
        refine ⟨h.oneshots, (hheld _ (retransmit_ne_reply info).symm).trans h.pass,
          fun tcb => (hheld _ (close_ne_reply tcb info).symm).trans (h.close tcb), ?_, ?_⟩
        · refine tried_reply h hlt rfl (fun i hi =>
            hheld _ (fun heq => hi (replyTask_inj.mp heq))) ⟨?_, ?_⟩
          · rw [if_pos rfl] at hleave
            have hq : q.held (replyTask info) + (reply.frees + 1) = 1 := by omega
            exact hq
          · dsimp only
            omega
        · intro i hi
          have hi : p.infos.length ≤ i := by simpa using hi
          exact (hheld _ (fun heq => by have := replyTask_inj.mp heq; omega)).trans (h.unborn i hi)
    · rw [if_neg hrun]
      exact h

theorem tokens_step (h : Tokens p) (e : ProcessEvent) : Tokens (processStep p e) := by
  cases e with
  | serve e => exact h.serve e
  | other tcb e => exact h.other tcb e
  | retransmit => exact h.retransmit
  | close tcb => exact h.closeConnection tcb
  | icmpReply alloc => exact h.icmpReply alloc
  | icmpReplyHandler info again => exact h.icmpReplyHandler info again

theorem tokens_run (h : Tokens p) (es : List ProcessEvent) : Tokens (run processStep p es) := by
  induction es generalizing p with
  | nil => exact h
  | cons e es ih => exact ih (tokens_step h e)

end Steps

section Conns

theorem conns_step (p : Process) (tcb : Nat) (e : ProcessEvent) :
    (processStep p e).conns tcb = run step (p.conns tcb) (connEvents tcb p e) := by
  have hupdate (b : Nat) (e : Event) : (p.update b e).conns tcb =
      if b = tcb then step (p.conns tcb) e else p.conns tcb := by
    by_cases hb : b = tcb
    · subst hb
      rw [if_pos rfl]
      exact Function.update_self ..
    · rw [if_neg hb]
      exact Function.update_of_ne (Ne.symm hb) _ _
  cases e with
  | serve e => rfl
  | other b e =>
    simp only [processStep, Process.other, connEvents]
    by_cases he : e.onTimer = true
    · simp [he, run]
    · rw [if_neg he]
      have hconns : (if (p.conns b).schedules e then
          (p.update b e).schedule tcpWaitTime .closeConnection b
          else p.update b e).conns = (p.update b e).conns := by split_ifs <;> rfl
      rw [hconns, hupdate]
      by_cases hb : b = tcb <;> simp [hb, he, run]
  | retransmit =>
    simp only [processStep, Process.retransmit, connEvents]
    split_ifs <;> rfl
  | close b =>
    simp only [processStep, Process.close, connEvents]
    by_cases hgo : closeTask b ∈ p.threads ∧ (p.conns b).tcbLock = false
    · have hsame : ((p.leave (closeTask b)).update b .closeTimer).conns =
          (p.update b .closeTimer).conns := rfl
      rw [if_pos hgo, hsame, hupdate]
      by_cases hb : b = tcb
      · rw [if_pos hb, if_pos ⟨hb, hgo⟩]
        rfl
      · rw [if_neg hb, if_neg (fun h => hb h.1)]
        rfl
    · rw [if_neg hgo, if_neg (fun h => hgo h.2)]
      rfl
  | icmpReply alloc => cases alloc <;> rfl
  | icmpReplyHandler info again =>
    simp only [processStep, Process.icmpReplyHandler, connEvents]
    split
    · rfl
    · split_ifs <;> rfl

theorem conns_run (p : Process) (tcb : Nat) (es : List ProcessEvent) :
    (run processStep p es).conns tcb = run step (p.conns tcb)
      (translate processStep (connEvents tcb) p es) := by
  refine run_simulation processStep (R := fun p c => p.conns tcb = c) ?_ rfl es
  rintro p _ e rfl
  exact conns_step p tcb e

theorem conns_reached (blocks : Nat → PeerBlock) (es : List ProcessEvent) (tcb : Nat) :
    Reached ((run processStep (processInit blocks) es).conns tcb).control := by
  rw [conns_run]
  exact reached_run (connectBlock_reached _ _ _ _ _ _ _) _

end Conns

def callbackBlock : PeerBlock where
  self := 12
  localPort := 49155
  remotePort := 43211
  localIp := 0x0400000a
  remoteIp := 0x0a000005
  iss := 7000
  msgs := []
  iss_pos := by decide
  iss_max := by decide
  others := List.forall_mem_nil _

def clockRound (timers : Nat) : List ProcessEvent :=
  .serve .advance :: .serve .begin :: List.replicate (timers + 1) (.serve .visit)

def replyTwice : List ProcessEvent :=
  [.icmpReply true, .icmpReplyHandler 0 true,
    .serve (.insert 0)] ++ (List.replicate 11 (clockRound 1)).flatten ++
    [.icmpReplyHandler 0 false]

end AnpNetstack
