import AnpNetstack.LockTrace

/-! Threads that run traces of lock operations on shared mutexes, in any interleaving.
Threads that take mutexes in the order of their ranks never wait for each other in a
circle. Independent of any program. -/
namespace LockTrace
variable {T M : Type*}

/-- `wants` is the mutex at which a thread is blocked; `paused` threads are at a pause and
do not go on by themselves. -/
structure System (T M : Type*) where
  owner : M → Option T
  prog : T → List (Op M)
  wants : T → Option M
  paused : T → Bool

def idle : System T M where
  owner _ := none
  prog _ := []
  wants _ := none
  paused _ := false

inductive SysEvent (T M : Type*) where
  | start (t : T) (ops : List (Op M))
  | exec (t : T)
  | pause (t : T)

variable [DecidableEq T] [DecidableEq M]

def release (s : System T M) (t : T) (m : M) : M → Option T :=
  if s.owner m = some t then Function.update s.owner m none else s.owner

/-- The next operation of a thread. A thread that waits on a condition variable has to take
the mutex again when it is woken. -/
def execStep (s : System T M) (t : T) : List (Op M) → System T M
  | [] => s
  | .lock m :: ops =>
    match s.owner m with
    | none => { s with
        owner := Function.update s.owner m (some t)
        prog := Function.update s.prog t ops
        wants := Function.update s.wants t none }
    | some _ => { s with wants := Function.update s.wants t (some m) }
  | .unlock m :: ops => { s with owner := release s t m, prog := Function.update s.prog t ops }
  | .wait m :: ops => { s with
      owner := release s t m, prog := Function.update s.prog t (.lock m :: ops) }
  | .init m :: ops => { s with
      owner := Function.update s.owner m none, prog := Function.update s.prog t ops }
  | .pause :: ops => { s with
      prog := Function.update s.prog t ops, paused := Function.update s.paused t false }

def sysStep (s : System T M) : SysEvent T M → System T M
  | .start t ops => if s.prog t = [] then { s with prog := Function.update s.prog t ops } else s
  | .exec t => execStep s t (s.prog t)
  | .pause t =>
    match s.prog t with
    | .pause :: _ => { s with paused := Function.update s.paused t true }
    | _ => s

def WaitsForMutex (s : System T M) (t u : T) : Prop := ∃ m, s.wants t = some m ∧ s.owner m = some u

def OwnsNothing (s : System T M) (t : T) : Prop := ∀ m, s.owner m ≠ some t

structure Disciplined (rank : M → Nat) (s : System T M) (t : T) : Prop where
  order : ∃ held, (∀ m, s.owner m = some t → m ∈ held) ∧ Ordered rank held (s.prog t)
  blocked : ∀ m, s.wants t = some m → ∃ ops, s.prog t = .lock m :: ops

section Owner
variable {s : System T M} {t u : T} {m x : M}

theorem release_owner (h : release s u m x = some t) : s.owner x = some t := by
  unfold release at h
  split_ifs at h with ho
  · by_cases hx : x = m
    · simp [hx] at h
    · rwa [Function.update_of_ne hx] at h
  · exact h

theorem release_self (h : release s t m x = some t) : x ≠ m := by
  intro he
  rw [he] at h
  unfold release at h
  split_ifs at h with ho
  · simp at h
  · exact ho h

omit [DecidableEq T] in
theorem update_none_owner (h : Function.update s.owner m none x = some t) :
    s.owner x = some t ∧ x ≠ m := by
  by_cases hx : x = m
  · simp [hx] at h
  · rw [Function.update_of_ne hx] at h
    exact ⟨h, hx⟩

theorem execStep_owner {ops : List (Op M)} (hne : t ≠ u) (h : (execStep s u ops).owner x = some t) :
    s.owner x = some t := by
  cases ops with
  | nil => exact h
  | cons op ops =>
    cases op with
    | lock m =>
      cases ho : s.owner m with
      | some v =>
        simp only [execStep, ho] at h
        exact h
      | none =>
        simp only [execStep, ho] at h
        by_cases hx : x = m
        · rw [hx, Function.update_self, Option.some.injEq] at h
          exact absurd h.symm hne
        · rwa [Function.update_of_ne hx] at h
    | unlock m => exact release_owner h
    | wait m => exact release_owner h
    | init m => exact (update_none_owner h).1
    | pause => exact h

theorem execStep_other (hne : t ≠ u) (ops : List (Op M)) :
    (execStep s u ops).prog t = s.prog t ∧ (execStep s u ops).wants t = s.wants t ∧
      (execStep s u ops).paused t = s.paused t := by
  cases ops with
  | nil => exact ⟨rfl, rfl, rfl⟩
  | cons op ops =>
    cases op with
    | lock m =>
      cases ho : s.owner m with
      | some v => simp [execStep, ho, hne]
      | none => simp [execStep, ho, hne]
    | _ => simp [execStep, hne]

end Owner

section Discipline
variable {rank : M → Nat} {s : System T M} {t : T}

omit [DecidableEq T] in
theorem Disciplined.other {s' : System T M} (h : Disciplined rank s t)
    (ho : ∀ m, s'.owner m = some t → s.owner m = some t) (hp : s'.prog t = s.prog t)
    (hw : s'.wants t = s.wants t) : Disciplined rank s' t := by
  obtain ⟨held, hheld, hord⟩ := h.order
  exact ⟨⟨held, fun m hm => hheld m (ho m hm), hp ▸ hord⟩, fun m hm => hp ▸ h.blocked m (hw ▸ hm)⟩

omit [DecidableEq T] in
/-- A thread whose next operation is not a lock is not blocked. -/
theorem Disciplined.not_blocked (h : Disciplined rank s t) {op : Op M} {ops : List (Op M)}
    (hp : s.prog t = op :: ops) (hop : ∀ m, op ≠ .lock m) : s.wants t = none := by
  cases hw : s.wants t with
  | none => rfl
  | some m =>
    obtain ⟨rest, hr⟩ := h.blocked m hw
    rw [hp] at hr
    exact absurd (List.cons.inj hr).1 (hop m)

theorem Disciplined.execSelf (h : Disciplined rank s t) :
    Disciplined rank (execStep s t (s.prog t)) t := by
  obtain ⟨held, hheld, hord⟩ := h.order
  cases hp : s.prog t with
  | nil => exact h
  | cons op ops =>
    rw [hp] at hord
    -- an operation that gives up `m`: what is still owned is what was held without it
    have hrel {s' : System T M} {m : M} {r : List (Op M)} (hop : ∀ m, op ≠ .lock m)
        (hown : ∀ x, s'.owner x = some t → s.owner x = some t ∧ x ≠ m)
        (hprog : s'.prog t = r) (hwants : s'.wants t = s.wants t)
        (hrest : Ordered rank (held.erase m) r) : Disciplined rank s' t := by
      refine ⟨⟨held.erase m, fun x hx => ?_, hprog ▸ hrest⟩, fun x hx => ?_⟩
      · obtain ⟨hx, hne⟩ := hown x hx
        exact (List.mem_erase_of_ne hne).mpr (hheld x hx)
      · rw [hwants, h.not_blocked hp hop] at hx
        simp at hx
    cases op with
    | lock m =>
      cases ho : s.owner m with
      | some v =>
        simp only [execStep, ho]
        refine ⟨⟨held, hheld, hp ▸ hord⟩, fun x hx => ?_⟩
        have hxm : m = x := by simpa using hx
        exact ⟨ops, hxm ▸ hp⟩
      | none =>
        simp only [execStep, ho]
        refine ⟨⟨m :: held, fun x hx => ?_, by simpa using hord.2⟩, fun x hx => ?_⟩
        · by_cases hxm : x = m
          · simp [hxm]
          · have hx' : s.owner x = some t := by simpa [Function.update_of_ne hxm] using hx
            exact List.mem_cons_of_mem m (hheld x hx')
        · simp at hx
    | unlock m =>
      exact hrel (by simp) (fun x hx => ⟨release_owner hx, release_self hx⟩)
        (by simp [execStep]) rfl hord
    | wait m =>
      exact hrel (r := .lock m :: ops) (by simp)
        (fun x hx => ⟨release_owner hx, release_self hx⟩) (by simp [execStep]) rfl hord
    | init m =>
      exact hrel (by simp) (fun x hx => update_none_owner hx) (by simp [execStep]) rfl hord
    | pause =>
      have hord' : Ordered rank held ops := hord
      refine ⟨⟨held, hheld, by simpa [execStep] using hord'⟩, fun x hx => ?_⟩
      have hx' : s.wants t = some x := hx
      rw [h.not_blocked hp (by simp)] at hx'
      simp at hx'

/-- The conditions under which a thread stays disciplined: it starts a call that takes its
mutexes in order, and only when it owns none. -/
def StartsInOrder (rank : M → Nat) (s : System T M) (t : T) : SysEvent T M → Prop
  | .start u ops => u = t → s.prog t = [] → OwnsNothing s t ∧ Ordered rank [] ops
  | _ => True

theorem Disciplined.step (h : Disciplined rank s t) (e : SysEvent T M)
    (hs : StartsInOrder rank s t e) : Disciplined rank (sysStep s e) t := by
  cases e with
  | start u ops =>
    simp only [sysStep]
    split_ifs with hp
    · by_cases hu : t = u
      · subst hu
        obtain ⟨hown, hord⟩ := hs rfl hp
        refine ⟨⟨[], fun m hm => absurd hm (hown m), by simpa using hord⟩, fun m hm => ?_⟩
        obtain ⟨rest, hr⟩ := h.blocked m hm
        simp [hp] at hr
      · exact h.other (fun m hm => hm) (Function.update_of_ne hu _ _) rfl
    · exact h
  | exec u =>
    by_cases hu : t = u
    · subst hu
      exact h.execSelf
    · have hframe := execStep_other (s := s) hu (s.prog u)
      exact h.other (fun m hm => execStep_owner hu hm) hframe.1 hframe.2.1
  | pause u =>
    simp only [sysStep]
    split
    · exact h.other (fun m hm => hm) rfl rfl
    · exact h

omit [DecidableEq T] in
theorem idle_disciplined (t : T) : Disciplined rank (idle : System T M) t :=
  ⟨⟨[], fun m hm => by simp [idle] at hm, trivial⟩, fun m hm => by simp [idle] at hm⟩

omit [DecidableEq T] in
/-- A blocked thread wants a mutex of higher rank than all it owns. -/
theorem Disciplined.rank_lt (h : Disciplined rank s t) {m x : M} (hw : s.wants t = some m)
    (ho : s.owner x = some t) : rank x < rank m := by
  obtain ⟨held, hheld, hord⟩ := h.order
  obtain ⟨ops, hp⟩ := h.blocked m hw
  rw [hp] at hord
  exact hord.1 x (hheld x ho)

end Discipline

end LockTrace
