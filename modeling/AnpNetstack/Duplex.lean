import AnpNetstack.Runs

/-! Two parties and the medium between them. What a party has sent stays on the medium, which hands
it over at any time, in any order, again and again or never, with noise of its own. Independent of
what the parties are. -/
namespace Duplex
open Runs

inductive Side where
  | near
  | far
  deriving DecidableEq, Repr

def Side.other : Side → Side
  | .near => .far
  | .far => .near

theorem Side.other_other (s : Side) : s.other.other = s := by
  cases s <;> rfl

theorem Side.other_ne (s : Side) : s.other ≠ s := by
  cases s <;> decide

structure Party (σ ε μ ν : Type*) where
  act : σ → ε → σ
  emits : σ → ε → List μ
  take : σ → μ → ν → σ

structure Net (σ μ : Type*) where
  party : Side → σ
  medium : Side → List μ

inductive Move (ε ν : Type*) where
  | act (s : Side) (e : ε)
  | deliver (s : Side) (i : Nat) (noise : ν)

variable {σ ε μ ν : Type*} (p : Party σ ε μ ν)

/-- A message is picked by its number on the medium of the other side and stays there. -/
def step (n : Net σ μ) : Move ε ν → Net σ μ
  | .act s e =>
    { party := Function.update n.party s (p.act (n.party s) e)
      medium := Function.update n.medium s (n.medium s ++ p.emits (n.party s) e) }
  | .deliver s i noise =>
    match (n.medium s.other)[i]? with
    | none => n
    | some m => { n with party := Function.update n.party s (p.take (n.party s) m noise) }

section Moves
variable (n : Net σ μ) {s t : Side}

theorem act_self (s : Side) (e : ε) : (step p n (.act s e)).party s = p.act (n.party s) e :=
  Function.update_self ..

theorem act_ne (h : t ≠ s) (e : ε) : (step p n (.act s e)).party t = n.party t :=
  Function.update_of_ne h _ _

theorem act_medium (s : Side) (e : ε) :
    (step p n (.act s e)).medium s = n.medium s ++ p.emits (n.party s) e :=
  Function.update_self ..

theorem deliver_self {i : Nat} {m : μ} (h : (n.medium s.other)[i]? = some m) (noise : ν) :
    (step p n (.deliver s i noise)).party s = p.take (n.party s) m noise := by
  simp only [step, h, Function.update_self]

theorem deliver_ne (h : t ≠ s) (i : Nat) (noise : ν) :
    (step p n (.deliver s i noise)).party t = n.party t := by
  cases hm : (n.medium s.other)[i]? with
  | none => simp only [step, hm]
  | some m => simp only [step, hm, Function.update_of_ne h]

theorem acts_self (s : Side) (es : List ε) :
    (run (step p) n (es.map (.act s))).party s = run p.act (n.party s) es := by
  induction es generalizing n with
  | nil => rfl
  | cons e es ih =>
    rw [List.map_cons, run, run, ih, act_self]

theorem acts_ne (h : t ≠ s) (es : List ε) :
    (run (step p) n (es.map (.act s))).party t = n.party t := by
  induction es generalizing n with
  | nil => rfl
  | cons e es ih =>
    rw [List.map_cons, run, ih, act_ne p n h]

end Moves

def Both (J : σ → σ → Prop) (n : Net σ μ) : Prop :=
  ∀ s, J (n.party s) (n.party s.other)

/-- Every message on the medium says something true of its sender. -/
def Sound (Says : σ → μ → Prop) (n : Net σ μ) : Prop :=
  ∀ s, ∀ m ∈ n.medium s, Says (n.party s) m

def Permitted (actOk : σ → σ → ε → Prop) (takeOk : σ → σ → μ → ν → Prop) (n : Net σ μ) :
    Move ε ν → Prop
  | .act s e => actOk (n.party s) (n.party s.other) e
  | .deliver s i noise => ∀ m, (n.medium s.other)[i]? = some m →
    takeOk (n.party s) (n.party s.other) m noise

/-- What has to be shown for one step, where `a` moves and `b` is its peer. -/
structure Steady (J : σ → σ → Prop) (Says : σ → μ → Prop) (actOk : σ → σ → ε → Prop)
    (takeOk : σ → σ → μ → ν → Prop) : Prop where
  act : ∀ a b e, J a b → J b a → actOk a b e → J (p.act a e) b ∧ J b (p.act a e)
  take : ∀ a b m noise, J a b → J b a → Says b m → takeOk a b m noise →
    J (p.take a m noise) b ∧ J b (p.take a m noise)
  emits : ∀ a b e, J a b → ∀ m ∈ p.emits a e, Says (p.act a e) m
  keeps : ∀ a e m, Says a m → Says (p.act a e) m
  keeps_take : ∀ a m' noise m, Says a m → Says (p.take a m' noise) m

variable {p} {J : σ → σ → Prop} {Says : σ → μ → Prop} {actOk : σ → σ → ε → Prop}
  {takeOk : σ → σ → μ → ν → Prop}

theorem both_update {n : Net σ μ} {s : Side} {a : σ} {medium : Side → List μ}
    (h : J a (n.party s.other) ∧ J (n.party s.other) a) :
    Both J { party := Function.update n.party s a, medium := medium } := by
  intro t
  by_cases ht : t = s
  · subst ht
    simp only [Function.update_self, Function.update_of_ne t.other_ne]
    exact h.1
  · have hother : t = s.other := by
      cases s <;> cases t <;> simp_all [Side.other]
    subst hother
    simp only [Side.other_other, Function.update_self, Function.update_of_ne s.other_ne]
    exact h.2

/-- A party that moves keeps what its messages say, and the other has not moved. -/
theorem sound_update {n : Net σ μ} (h : Sound Says n) {s : Side} {a : σ} {ms : List μ}
    (hkeep : ∀ m, Says (n.party s) m → Says a m) (hnew : ∀ m ∈ ms, Says a m) :
    Sound Says { party := Function.update n.party s a
                 medium := Function.update n.medium s (n.medium s ++ ms) } := by
  intro t m hm
  by_cases ht : t = s
  · subst ht
    simp only [Function.update_self] at hm ⊢
    cases List.mem_append.mp hm with
    | inl hm => exact hkeep m (h t m hm)
    | inr hm => exact hnew m hm
  · simp only [Function.update_of_ne ht] at hm ⊢
    exact h t m hm

theorem Steady.step (h : Steady p J Says actOk takeOk) {n : Net σ μ} (hJ : Both J n)
    (hS : Sound Says n) {e : Move ε ν} (he : Permitted actOk takeOk n e) :
    Both J (Duplex.step p n e) ∧ Sound Says (Duplex.step p n e) := by
  have hback (s : Side) : J (n.party s.other) (n.party s) := by
    have hs := hJ s.other
    rwa [Side.other_other] at hs
  cases e with
  | act s e =>
    refine ⟨both_update (h.act _ _ e (hJ s) (hback s) he), ?_⟩
    exact sound_update hS (fun m => h.keeps _ e m) (h.emits _ _ e (hJ s))
  | deliver s i noise =>
    cases hm : (n.medium s.other)[i]? with
    | none =>
      simp only [Duplex.step, hm]
      exact ⟨hJ, hS⟩
    | some m =>
      have hsaid : Says (n.party s.other) m := hS s.other m (List.mem_of_getElem? hm)
      simp only [Duplex.step, hm]
      refine ⟨both_update (h.take _ _ m noise (hJ s) (hback s) hsaid (he m hm)), ?_⟩
      have hkeep := sound_update hS (s := s) (fun m' => h.keeps_take (n.party s) m noise m')
        (List.forall_mem_nil _)
      rwa [List.append_nil, Function.update_eq_self] at hkeep

/-- Whatever the medium does, what is kept by every move of either party holds after every run. -/
theorem Steady.run (h : Steady p J Says actOk takeOk) {n : Net σ μ} (hJ : Both J n)
    (hS : Sound Says n) {es : List (Move ε ν)}
    (hes : Along (Duplex.step p) (Permitted actOk takeOk) n es) :
    Both J (Runs.run (Duplex.step p) n es) ∧ Sound Says (Runs.run (Duplex.step p) n es) :=
  run_invariant (Duplex.step p) (I := fun n => Both J n ∧ Sound Says n)
    (fun _ _ hi he => h.step hi.1 hi.2 he) ⟨hJ, hS⟩ hes

end Duplex
