import Mathlib.Tactic

/-! Runs of a deterministic labelled machine, with side conditions that are
checked along the run. Independent of any particular machine. -/
namespace Runs
variable {σ ε : Type*} (step : σ → ε → σ)

def run : σ → List ε → σ
  | s, [] => s
  | s, e :: es => run (step s e) es

def Along (P : σ → ε → Prop) : σ → List ε → Prop
  | _, [] => True
  | s, e :: es => P s e ∧ Along P (step s e) es

instance Along.decidable (P : σ → ε → Prop) [∀ s e, Decidable (P s e)] :
    (s : σ) → (es : List ε) → Decidable (Along step P s es)
  | _, [] => inferInstanceAs (Decidable True)
  | s, e :: es =>
    have := Along.decidable P (step s e) es
    inferInstanceAs (Decidable (P s e ∧ Along step P (step s e) es))

theorem run_append (s : σ) (es fs : List ε) :
    run step s (es ++ fs) = run step (run step s es) fs := by
  induction es generalizing s with
  | nil => rfl
  | cons e es ih => exact ih (step s e)

theorem along_append (P : σ → ε → Prop) (s : σ) (es fs : List ε) :
    Along step P s (es ++ fs) ↔ Along step P s es ∧ Along step P (run step s es) fs := by
  induction es generalizing s with
  | nil => simp [Along, run]
  | cons e es ih => simp only [List.cons_append, Along, run, ih, and_assoc]

theorem along_of_forall {P : σ → ε → Prop} {es : List ε} (h : ∀ e ∈ es, ∀ s, P s e) (s : σ) :
    Along step P s es := by
  induction es generalizing s with
  | nil => trivial
  | cons e es ih =>
    exact ⟨h e (by simp) s, ih (fun e' he' => h e' (List.mem_cons_of_mem e he')) (step s e)⟩

variable {step} in
theorem along_mono {P Q : σ → ε → Prop} (h : ∀ s e, P s e → Q s e) {s : σ} {es : List ε}
    (hes : Along step P s es) : Along step Q s es := by
  induction es generalizing s with
  | nil => trivial
  | cons e es ih => exact ⟨h s e hes.1, ih hes.2⟩

/-- An invariant that every admissible event keeps holds after the whole run. -/
theorem run_invariant {I : σ → Prop} {P : σ → ε → Prop}
    (hstep : ∀ s e, I s → P s e → I (step s e)) {s : σ} {es : List ε}
    (hs : I s) (hp : Along step P s es) : I (run step s es) := by
  induction es generalizing s with
  | nil => exact hs
  | cons e es ih => exact ih (hstep s e hs hp.1) hp.2

def translate {δ : Type*} (tr : σ → ε → List δ) : σ → List ε → List δ
  | _, [] => []
  | s, e :: es => tr s e ++ translate tr (step s e) es

/-- Two machines stay related when what an event stands for keeps them so. -/
theorem run_simulation {τ δ : Type*} {tr : σ → ε → List δ} {other : τ → δ → τ} {R : σ → τ → Prop}
    (hstep : ∀ s t e, R s t → R (step s e) (run other t (tr s e))) {s : σ} {t : τ} (h : R s t)
    (es : List ε) :
    R (run step s es) (run other t (translate step tr s es)) := by
  induction es generalizing s t with
  | nil => exact h
  | cons e es ih =>
    rw [translate, run_append]
    exact ih (hstep s t e h)

end Runs
