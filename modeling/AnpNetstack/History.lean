import Mathlib.Tactic

/-! Logs whose entries are judged by what came before them. Independent of what is logged. -/
namespace History
variable {ν : Type*}

def Each (P : List ν → ν → Prop) (log : List ν) : Prop :=
  ∀ past x rest, log = past ++ x :: rest → P past x

variable {P : List ν → ν → Prop} {log : List ν}

theorem each_nil (P : List ν → ν → Prop) : Each P [] := by
  intro past x rest h
  simp at h

theorem Each.snoc (h : Each P log) {x : ν} (hx : P log x) : Each P (log ++ [x]) := by
  intro past y rest heq
  rcases List.eq_nil_or_concat rest with rfl | ⟨rest', z, rfl⟩
  · obtain ⟨rfl, hy⟩ := List.append_inj' heq rfl
    rw [List.cons.injEq] at hy
    rw [← hy.1]
    exact hx
  · rw [List.concat_eq_append, ← List.cons_append, ← List.append_assoc] at heq
    exact h past y rest' (List.append_inj' heq rfl).1

theorem Each.append (h : Each P log) {xs : List ν} (hx : ∀ x ∈ xs, ∀ past, P past x) :
    Each P (log ++ xs) := by
  induction xs generalizing log with
  | nil => rwa [List.append_nil]
  | cons x xs ih =>
    have hfirst : Each P (log ++ [x]) := h.snoc (hx x List.mem_cons_self log)
    have hrest := ih hfirst (fun y hy => hx y (List.mem_cons_of_mem x hy))
    rwa [List.append_assoc] at hrest

theorem Each.mono {Q : List ν → ν → Prop} (h : Each P log) (hpq : ∀ past x, P past x → Q past x) :
    Each Q log :=
  fun past x rest hlog => hpq past x (h past x rest hlog)

theorem Each.of_mem (h : Each P log) {x : ν} (hx : x ∈ log) :
    ∃ past rest, log = past ++ x :: rest ∧ P past x := by
  obtain ⟨past, rest, hlog⟩ := List.append_of_mem hx
  exact ⟨past, rest, hlog, h past x rest hlog⟩

/-- What rules out its own kind before it comes at most once. -/
theorem Each.countP_le_one {q : ν → Bool}
    (h : Each (fun past x => q x = true → ∀ y ∈ past, q y = false) log) :
    log.countP q ≤ 1 := by
  by_cases hq : ∃ x ∈ log, q x = true
  · obtain ⟨x, hx, hqx⟩ := hq
    obtain ⟨past, rest, rfl, hpast⟩ := h.of_mem hx
    have hrest : ∀ y ∈ rest, q y = false := by
      intro y hy
      by_contra hqy
      obtain ⟨mid, after, rfl⟩ := List.append_of_mem hy
      have hx' := h (past ++ x :: mid) y after (by simp) (by simpa using hqy) x (by simp)
      rw [hqx] at hx'
      cases hx'
    have h0 : past.countP q = 0 := List.countP_eq_zero.mpr fun y hy => by simp [hpast hqx y hy]
    have h1 : rest.countP q = 0 := List.countP_eq_zero.mpr fun y hy => by simp [hrest y hy]
    simp [List.countP_append, h0, h1, hqx]
  · push Not at hq
    rw [List.countP_eq_zero.mpr hq]
    decide

end History
