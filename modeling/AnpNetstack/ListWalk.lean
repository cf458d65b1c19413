import Mathlib.Data.List.TakeWhile
import AnpNetstack.LinkList

/-! list_for_each and list_for_each_safe of linklist.h, with a body that may write to the list. -/
namespace AnpNetstack
open Allocation LinkRing

section Loops
variable {ι τ : Type*} [DecidableEq ι] (head : ι) (links : τ → Links ι) (body : ι → τ → Outcome ι τ)

/-- list_for_each from `pos` on, for `fuel` tests of its condition. `visited` are the nodes that the
body has been given. -/
def listForEachFrom : Nat → ι → List ι → τ → Outcome ι (List ι × τ)
  | 0, _, visited, t => .running (visited, t)
  | fuel + 1, pos, visited, t =>
    if pos = head then .done (visited, t)
    else match body pos t with
      | .running t => .running (visited ++ [pos], t)
      | .fault a => .fault a
      | .done t =>
        match getNext (links t) pos with
        | .error a => .fault a
        | .ok next => listForEachFrom fuel next (visited ++ [pos]) t

def listForEach (fuel : Nat) (t : τ) : Outcome ι (List ι × τ) :=
  match getNext (links t) head with
  | .error a => .fault a
  | .ok pos => listForEachFrom head links body fuel pos [] t

/-- In list_for_each_safe, `p` is the node after `pos` as it was before the body. -/
def listForEachSafeFrom : Nat → ι → ι → List ι → τ → Outcome ι (List ι × τ)
  | 0, _, _, visited, t => .running (visited, t)
  | fuel + 1, pos, p, visited, t =>
    if pos = head then .done (visited, t)
    else match body pos t with
      | .running t => .running (visited ++ [pos], t)
      | .fault a => .fault a
      | .done t =>
        match getNext (links t) p with
        | .error a => .fault a
        | .ok next => listForEachSafeFrom fuel p next (visited ++ [pos]) t

def listForEachSafe (fuel : Nat) (t : τ) : Outcome ι (List ι × τ) :=
  match getNext (links t) head with
  | .error a => .fault a
  | .ok pos =>
    match getNext (links t) pos with
    | .error a => .fault a
    | .ok p => listForEachSafeFrom head links body fuel pos p [] t

variable {head links body} {I : List ι → τ → Prop}

/-- One round of list_for_each: the body is over, and the node it was given still has its link. -/
theorem listForEachFrom_next {pos next : ι} {t t' : τ} {fuel : Nat} (hne : pos ≠ head)
    (hbody : body pos t = .done t') (hnext : nextOf (links t') pos = some next) (visited : List ι) :
    listForEachFrom head links body (fuel + 1) pos visited t =
      listForEachFrom head links body fuel next (visited ++ [pos]) t' := by
  rw [listForEachFrom, if_neg hne, hbody]
  simp only [getNext_ok hnext]

theorem listForEachSafeFrom_next {pos p next : ι} {t t' : τ} {fuel : Nat} (hne : pos ≠ head)
    (hbody : body pos t = .done t') (hnext : nextOf (links t') p = some next) (visited : List ι) :
    listForEachSafeFrom head links body (fuel + 1) pos p visited t =
      listForEachSafeFrom head links body fuel p next (visited ++ [pos]) t' := by
  rw [listForEachSafeFrom, if_neg hne, hbody]
  simp only [getNext_ok hnext]

/-- What is left to be visited is always the end of the ring; what is in front of it is the
body's. -/
theorem listForEachSafeFrom_rule
    (hring : ∀ todo t, I todo t → ∃ kept, Ring (links t) head (kept ++ todo))
    (hbody : ∀ x rest t, I (x :: rest) t → ∃ t', body x t = .done t' ∧ I rest t')
    {todo : List ι} {t : τ} (h : I todo t) {pos p : ι} (hpos : (todo ++ [head]).head? = some pos)
    (hp : nextOf (links t) pos = some p) {fuel : Nat} (hfuel : todo.length < fuel)
    (visited : List ι) :
    ∃ t', listForEachSafeFrom head links body fuel pos p visited t = .done (visited ++ todo, t') ∧
      I [] t' := by
  induction todo generalizing t pos p fuel visited with
  | nil =>
    cases fuel with
    | zero => exact absurd hfuel (Nat.not_lt_zero _)
    | succ fuel =>
      have hend : pos = head := (Option.some.inj hpos).symm
      exact ⟨t, by rw [listForEachSafeFrom, if_pos hend, List.append_nil], h⟩
  | cons x rest ih =>
    cases fuel with
    | zero => exact absurd hfuel (Nat.not_lt_zero _)
    | succ fuel =>
      obtain ⟨kept, hr⟩ := hring _ t h
      have hx : x = pos := Option.some.inj hpos
      subst hx
      have hmem : x ∈ kept ++ x :: rest := List.mem_append_right kept List.mem_cons_self
      have hne : x ≠ head := ne_of_mem_of_not_mem hmem (List.nodup_cons.mp hr.nodup).1
      have hrest : (rest ++ [head]).head? = some p := hr.next.symm.trans hp
      obtain ⟨t', hdone, h'⟩ := hbody x rest t h
      obtain ⟨kept', hr'⟩ := hring rest t' h'
      obtain ⟨next, hnext⟩ : ∃ next, nextOf (links t') p = some next := by
        refine hr'.next_of_mem ?_
        cases List.mem_cons.mp (mem_of_next hrest) with
        | inl hp => exact hp ▸ List.mem_cons_self
        | inr hp => exact List.mem_cons_of_mem head (List.mem_append_right kept' hp)
      obtain ⟨t'', hrun, hI⟩ := ih h' hrest hnext (Nat.lt_of_succ_lt_succ hfuel) (visited ++ [x])
      rw [listForEachSafeFrom_next hne hdone hnext, hrun, List.append_assoc]
      exact ⟨t'', rfl, hI⟩

/-- list_for_each_safe visits the whole list once, in order. -/
theorem listForEachSafe_rule
    (hring : ∀ todo t, I todo t → ∃ kept, Ring (links t) head (kept ++ todo))
    (hbody : ∀ x rest t, I (x :: rest) t → ∃ t', body x t = .done t' ∧ I rest t')
    {xs : List ι} {t : τ} (h : I xs t) (hxs : Ring (links t) head xs) {fuel : Nat}
    (hfuel : xs.length < fuel) :
    ∃ t', listForEachSafe head links body fuel t = .done (xs, t') ∧ I [] t' := by
  obtain ⟨pos, hpos⟩ := exists_next head xs
  obtain ⟨p, hp⟩ := hxs.next_of_mem (mem_of_next hpos)
  obtain ⟨t', hrun, hI⟩ := listForEachSafeFrom_rule hring hbody h hpos hp hfuel []
  simp only [listForEachSafe, getNext_ok (hxs.next_head.trans hpos), getNext_ok hp]
  exact ⟨t', hrun, hI⟩

/-- The body comes to its end at every node of `front`, where the node keeps its link. -/
theorem listForEachFrom_front {P : ι → Prop} (hbody : ∀ x rest t, I (x :: rest) t → P x →
      ∃ t', body x t = .done t' ∧ I rest t' ∧ nextOf (links t') x = (rest ++ [head]).head?)
    {front rest : List ι} (hP : ∀ x ∈ front, P x) (hhead : head ∉ front) {t : τ}
    (h : I (front ++ rest) t) {pos : ι} (hpos : (front ++ rest ++ [head]).head? = some pos)
    (visited : List ι) :
    ∃ pos' t', I rest t' ∧ (rest ++ [head]).head? = some pos' ∧ ∀ fuel,
      listForEachFrom head links body (front.length + fuel) pos visited t =
        listForEachFrom head links body fuel pos' (visited ++ front) t' := by
  induction front generalizing t pos visited with
  | nil =>
    exact ⟨pos, t, h, hpos, fun fuel => by rw [List.length_nil, Nat.zero_add, List.append_nil]⟩
  | cons x front ih =>
    have hx : x = pos := Option.some.inj hpos
    subst hx
    have hne : x ≠ head := fun he => hhead (he ▸ List.mem_cons_self)
    obtain ⟨t', hdone, h', hlink⟩ := hbody x (front ++ rest) t h (hP x List.mem_cons_self)
    obtain ⟨next, hnext⟩ := exists_next head (front ++ rest)
    obtain ⟨pos', t'', hI, hpos', hrun⟩ := ih (fun y hy => hP y (List.mem_cons_of_mem x hy))
      (fun hin => hhead (List.mem_cons_of_mem x hin)) h' hnext (visited ++ [x])
    refine ⟨pos', t'', hI, hpos', fun fuel => ?_⟩
    rw [List.length_cons, Nat.succ_add, listForEachFrom_next hne hdone (hlink.trans hnext), hrun,
      List.append_assoc]
    rfl

/-- The walk visits all of `xs` in order: no fault stops it, it is done only behind the last node,
and it comes to its end if the body does at each node of `xs`, which is `P`. -/
structure WalksAll (walk : Nat → Outcome ι (List ι × τ)) (xs : List ι) (P : ι → Prop) : Prop where
  no_fault : ∀ fuel a, walk fuel ≠ .fault a
  visits : ∀ fuel visited t, walk fuel = .running (visited, t) → visited <+: xs
  complete : ∀ fuel visited t, walk fuel = .done (visited, t) → visited = xs
  ends : (∀ x ∈ xs, P x) → ∃ fuel t, walk fuel = .done (xs, t)

/-- Where `P` does not hold, the body does not come to its end. -/
theorem listForEachFrom_rule {P : ι → Prop} (hbody : ∀ x rest t, I (x :: rest) t → P x →
      ∃ t', body x t = .done t' ∧ I rest t' ∧ nextOf (links t') x = (rest ++ [head]).head?)
    (hwait : ∀ x rest t, I (x :: rest) t → ¬ P x → ∃ t', body x t = .running t') {todo : List ι}
    (hhead : head ∉ todo) {t : τ} (h : I todo t) {pos : ι}
    (hpos : (todo ++ [head]).head? = some pos) (fuel : Nat) (visited : List ι) :
    ∃ front t', front <+: todo ∧ (listForEachFrom head links body fuel pos visited t =
      .running (visited ++ front, t') ∨
      listForEachFrom head links body fuel pos visited t = .done (visited ++ front, t') ∧
        front = todo) := by
  induction fuel generalizing todo t pos visited with
  | zero => exact ⟨[], t, List.nil_prefix, .inl (by rw [List.append_nil]; rfl)⟩
  | succ fuel ih =>
    cases todo with
    | nil =>
      have hend : pos = head := (Option.some.inj hpos).symm
      exact ⟨[], t, List.nil_prefix, .inr
        ⟨by rw [listForEachFrom, if_pos hend, List.append_nil], rfl⟩⟩
    | cons x rest =>
      have hx : x = pos := Option.some.inj hpos
      subst hx
      have hne : x ≠ head := fun he => hhead (he ▸ List.mem_cons_self)
      by_cases hP : P x
      · obtain ⟨t', hdone, h', hlink⟩ := hbody x rest t h hP
        obtain ⟨next, hnext⟩ := exists_next head rest
        obtain ⟨front, t'', hfront, hrun⟩ :=
          ih (fun hin => hhead (List.mem_cons_of_mem x hin)) h' hnext (visited ++ [x])
        refine ⟨x :: front, t'', List.cons_prefix_cons.mpr ⟨rfl, hfront⟩, ?_⟩
        rw [listForEachFrom_next hne hdone (hlink.trans hnext), List.append_cons visited x front]
        exact hrun.imp_right (And.imp_right fun he => by rw [he])
      · obtain ⟨t', hrunning⟩ := hwait x rest t h hP
        refine ⟨[x], t', List.cons_prefix_cons.mpr ⟨rfl, List.nil_prefix⟩, .inl ?_⟩
        rw [listForEachFrom, if_neg hne, hrunning]

theorem listForEach_first {xs : List ι} {t : τ} {pos : ι}
    (hnext : nextOf (links t) head = (xs ++ [head]).head?) (hpos : (xs ++ [head]).head? = some pos)
    (fuel : Nat) :
    listForEach head links body fuel t = listForEachFrom head links body fuel pos [] t := by
  rw [listForEach, getNext_ok (hnext.trans hpos)]

/-- The walk comes to its end with what the body has made of the whole list. -/
theorem listForEach_done {P : ι → Prop} (hbody : ∀ x rest t, I (x :: rest) t → P x →
      ∃ t', body x t = .done t' ∧ I rest t' ∧ nextOf (links t') x = (rest ++ [head]).head?)
    {xs : List ι} (hP : ∀ x ∈ xs, P x) {t : τ} (h : I xs t) (hxs : Ring (links t) head xs) :
    ∃ fuel t', listForEach head links body fuel t = .done (xs, t') ∧ I [] t' := by
  have hhead : head ∉ xs := (List.nodup_cons.mp hxs.nodup).1
  obtain ⟨pos, hpos⟩ := exists_next head xs
  have hall : I (xs ++ []) t := by rwa [List.append_nil]
  obtain ⟨pos', t', hI, hend, hwalk⟩ :=
    listForEachFrom_front hbody hP hhead hall (by rwa [List.append_nil]) []
  refine ⟨xs.length + 1, t', ?_, hI⟩
  rw [listForEach_first hxs.next_head hpos, hwalk]
  exact if_pos (Option.some.inj hend).symm

theorem listForEach_rule {P : ι → Prop} (hbody : ∀ x rest t, I (x :: rest) t → P x →
      ∃ t', body x t = .done t' ∧ I rest t' ∧ nextOf (links t') x = (rest ++ [head]).head?)
    (hwait : ∀ x rest t, I (x :: rest) t → ¬ P x → ∃ t', body x t = .running t') {xs : List ι}
    {t : τ} (h : I xs t) (hxs : Ring (links t) head xs) :
    WalksAll (fun fuel => listForEach head links body fuel t) xs P := by
  have hhead : head ∉ xs := (List.nodup_cons.mp hxs.nodup).1
  obtain ⟨pos, hpos⟩ := exists_next head xs
  have hrun (fuel : Nat) := listForEachFrom_rule hbody hwait hhead h hpos fuel []
  simp only [listForEach_first hxs.next_head hpos]
  refine ⟨fun fuel a hfault => ?_, fun fuel visited t' hrunning => ?_,
    fun fuel visited t' hdone => ?_, fun hP => ?_⟩
  · obtain ⟨front, t', -, heq | ⟨heq, -⟩⟩ := hrun fuel
    · rw [hfault] at heq
      cases heq
    · rw [hfault] at heq
      cases heq
  · obtain ⟨front, t'', hfront, heq | ⟨heq, -⟩⟩ := hrun fuel
    · rw [hrunning] at heq
      cases heq
      exact hfront
    · rw [hrunning] at heq
      cases heq
  · obtain ⟨front, t'', -, heq | ⟨heq, hall⟩⟩ := hrun fuel
    · rw [hdone] at heq
      cases heq
    · rw [hdone] at heq
      cases heq
      exact hall
  · obtain ⟨fuel, t', hdone, -⟩ := listForEach_done hbody hP h hxs
    exact ⟨fuel, t', (listForEach_first hxs.next_head hpos fuel).symm.trans hdone⟩

/-- A walk faults at a node that the body cannot do with, or whose link it has freed. -/
theorem listForEach_fault {P : ι → Prop} (hbody : ∀ x rest t, I (x :: rest) t → P x →
      ∃ t', body x t = .done t' ∧ I rest t' ∧ nextOf (links t') x = (rest ++ [head]).head?)
    {front rest : List ι} {x : ι} (hP : ∀ y ∈ front, P y) {t : τ} (h : I (front ++ x :: rest) t)
    (hxs : Ring (links t) head (front ++ x :: rest))
    (hx : ∀ t, I (x :: rest) t → (∃ a, body x t = .fault a) ∨ ∃ t',
      body x t = .done t' ∧ links t' x = none) :
    ∃ fuel a, listForEach head links body fuel t = .fault a := by
  have hhead : head ∉ front ++ x :: rest := (List.nodup_cons.mp hxs.nodup).1
  have hne : x ≠ head := fun he => hhead (he ▸ List.mem_append_right front List.mem_cons_self)
  obtain ⟨pos, hpos⟩ := exists_next head (front ++ x :: rest)
  obtain ⟨pos', t', hI, hpos', hwalk⟩ := listForEachFrom_front hbody hP
    (fun hin => hhead (List.mem_append_left _ hin)) h hpos []
  have hat : x = pos' := Option.some.inj hpos'
  subst hat
  refine ⟨front.length + 1, ?_⟩
  simp only [listForEach_first hxs.next_head hpos, hwalk]
  rw [listForEachFrom, if_neg hne]
  cases hx t' hI with
  | inl hfault =>
    obtain ⟨a, ha⟩ := hfault
    exact ⟨a, by rw [ha]⟩
  | inr hfreed =>
    obtain ⟨t'', hdone, hgone⟩ := hfreed
    refine ⟨x, ?_⟩
    have hread : getNext (links t'') x = .error x := by
      rw [getNext, load_error hgone]
      rfl
    simp only [hdone, hread]

/-- `P` says where the body comes to its end, `Q` where it leaves the node in the list. -/
theorem listForEach_iff {P Q : ι → Prop} [DecidablePred P]
    (hgood : ∀ x rest t, I (x :: rest) t → P x → Q x →
      ∃ t', body x t = .done t' ∧ I rest t' ∧ nextOf (links t') x = (rest ++ [head]).head?)
    (hwait : ∀ x rest t, I (x :: rest) t → ¬ P x → ∃ t', body x t = .running t')
    (hbad : ∀ x rest t, I (x :: rest) t → P x → ¬ Q x →
      (∃ a, body x t = .fault a) ∨ ∃ t', body x t = .done t' ∧ links t' x = none)
    {xs : List ι} {t : τ} (h : I xs t) (hxs : Ring (links t) head xs) :
    WalksAll (fun fuel => listForEach head links body fuel t) xs P ↔
      ∀ x ∈ xs.takeWhile (decide <| P ·), Q x := by
  constructor
  · intro hwalk
    by_contra hnot
    classical
    obtain ⟨x, hx⟩ : ∃ x, (xs.takeWhile (decide <| P ·)).find? (fun x => decide (¬ Q x)) =
        some x := by
      refine Option.isSome_iff_exists.mp (List.find?_isSome.mpr ?_)
      simpa only [decide_eq_true_eq, not_forall, exists_prop] using hnot
    obtain ⟨hQ, front, rest, hsplit, hfront⟩ := List.find?_eq_some_iff_append.mp hx
    have hxs' : xs = front ++ x :: (rest ++ xs.dropWhile (decide <| P ·)) := by
      rw [← List.cons_append, ← List.append_assoc, ← hsplit, List.takeWhile_append_dropWhile]
    have hP {y : ι} (hy : y ∈ front ++ x :: rest) : P y := by
      have hin : y ∈ xs.takeWhile (decide <| P ·) := hsplit ▸ hy
      have hp : decide (P y) = true := List.mem_takeWhile_imp (p := (decide <| P ·)) hin
      exact of_decide_eq_true hp
    rw [hxs'] at h hxs
    obtain ⟨fuel, a, hfault⟩ := listForEach_fault (P := fun y => P y ∧ Q y)
      (fun y rest t hy hPQ => hgood y rest t hy hPQ.1 hPQ.2)
      (fun y hy => ⟨hP (List.mem_append_left _ hy), by simpa using hfront y hy⟩) h hxs
      (fun t ht => hbad x _ t ht (hP (List.mem_append_right front List.mem_cons_self))
        (of_decide_eq_true hQ))
    exact hwalk.no_fault fuel a hfault
  · intro hQ
    refine listForEach_rule (I := fun todo t => I todo t ∧
      ∀ x ∈ todo.takeWhile (decide <| P ·), Q x)
      (fun x rest t ht hP => ?_) (fun x rest t ht hP => hwait x rest t ht.1 hP) ⟨h, hQ⟩ hxs
    have hcons : (x :: rest).takeWhile (decide <| P ·) = x :: rest.takeWhile (decide <| P ·) :=
      List.takeWhile_cons_of_pos (decide_eq_true hP)
    have hQx : ∀ y ∈ x :: rest.takeWhile (decide <| P ·), Q y := hcons ▸ ht.2
    obtain ⟨t', hdone, hI, hlink⟩ := hgood x rest t ht.1 hP (hQx x List.mem_cons_self)
    exact ⟨t', hdone, ⟨hI, fun y hy => hQx y (List.mem_cons_of_mem x hy)⟩, hlink⟩

/-- The same for a body that always comes to its end. -/
theorem listForEach_all_iff {Q : ι → Prop}
    (hgood : ∀ x rest t, I (x :: rest) t → Q x →
      ∃ t', body x t = .done t' ∧ I rest t' ∧ nextOf (links t') x = (rest ++ [head]).head?)
    (hbad : ∀ x rest t, I (x :: rest) t → ¬ Q x →
      (∃ a, body x t = .fault a) ∨ ∃ t', body x t = .done t' ∧ links t' x = none)
    {xs : List ι} {t : τ} (h : I xs t) (hxs : Ring (links t) head xs) :
    WalksAll (fun fuel => listForEach head links body fuel t) xs (fun _ => True) ↔
      ∀ x ∈ xs, Q x := by
  have hall : xs.takeWhile (fun _ => decide True) = xs :=
    List.takeWhile_eq_self_iff.mpr fun _ _ => decide_eq_true trivial
  refine Iff.trans (listForEach_iff (fun x rest t ht _ hQ => hgood x rest t ht hQ)
    (fun x rest t _ hP => absurd trivial hP) (fun x rest t ht _ hQ => hbad x rest t ht hQ) h hxs) ?_
  rw [hall]

end Loops

end AnpNetstack
