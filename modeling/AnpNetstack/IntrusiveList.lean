import AnpNetstack.ListWalk

/-! The lists of linklist.h as sequences, and the walks over them that take nodes out, as in
timers_tick, free_arp_cache and free_routes. -/
namespace AnpNetstack
open Allocation LinkRing

inductive Fate where
  | kept
  | unlinked
  | released
  deriving DecidableEq, Repr

/-- `rest` is what the loop works on besides the list, `fate` what has become of each node. -/
structure Walk (ι σ : Type*) where
  links : Links ι
  rest : σ
  fate : ι → Fate

section Bodies
variable {ι σ : Type*} [DecidableEq ι]

def Fate.apply (x : ι) (s : Links ι) : Fate → Except ι (Links ι)
  | .kept => .ok s
  | .unlinked => listDel s x
  | .released => do free (← listDel s x) x

def walkBody (choose : ι → Walk ι σ → Fate × σ) (x : ι) (w : Walk ι σ) : Outcome ι (Walk ι σ) :=
  let c := choose x w
  .of ((c.1.apply x w.links).map fun links =>
    { links := links, rest := c.2, fate := Function.update w.fate x c.1 })

def walkInit (s : Links ι) (rest : σ) : Walk ι σ where
  links := s
  rest := rest
  fate _ := .kept

def freeEntries (head : ι) (fuel : Nat) (s : Links ι) : Outcome ι (List ι × Walk ι Unit) :=
  listForEachSafe head Walk.links (walkBody fun _ w => (.released, w.rest)) fuel (walkInit s ())

def freeArpCache (arpCache : ι) (fuel : Nat) (s : Links ι) : Outcome ι (List ι × Walk ι Unit) :=
  freeEntries arpCache fuel s

def freeRoutes (routes : ι) (fuel : Nat) (s : Links ι) : Outcome ι (List ι × Walk ι Unit) :=
  freeEntries routes fuel s

variable {s : Links ι} {head x : ι} {xs ys zs items : List ι}

theorem Fate.apply_ring (h : Ring s head (ys ++ x :: zs)) (fate : Fate) :
    ∃ s', fate.apply x s = .ok s' ∧ Ring s' head
      (ys ++ ((if fate = .kept then [x] else []) ++ zs)) ∧
      (fate ≠ .released → nextOf s' x = (zs ++ [head]).head?) ∧ (fate = .released → s' x = none) ∧
      ∀ b, b ∉ head :: (ys ++ x :: zs) → s' b = s b := by
  have hx : x ∉ head :: (ys ++ zs) := (middle_apart h.nodup).1
  obtain ⟨s', hdel, hring, hframe, hsome⟩ := listDel_ring h
  have hout {b : ι} (hb : b ∉ head :: (ys ++ x :: zs)) : b ≠ x ∧ b ∉ head :: (ys ++ zs) := by
    have hb : b ∉ head :: ys ++ x :: zs := hb
    exact not_or.mp (List.mem_cons.not.mp (List.perm_middle.mem_iff.not.mp hb))
  cases fate with
  | kept => exact ⟨s, rfl, h, fun _ => h.next, nofun, fun b _ => rfl⟩
  | unlinked =>
    refine ⟨s', hdel, hring, fun _ => ?_, nofun, fun b hb => hframe b (hout hb).2⟩
    rw [nextOf, hframe x hx]
    exact h.next
  | released =>
    have hallocated : (s' x).isSome := by
      rw [hsome]
      exact h.allocated (List.mem_cons_of_mem head (List.mem_append_right ys List.mem_cons_self))
    refine ⟨drop s' x, ?_, ?_, fun hne => absurd rfl hne, fun _ => drop_same s' x, fun b hb => ?_⟩
    · simp only [Fate.apply, hdel, bind, Except.bind]
      exact free_ok hallocated
    · exact hring.congr fun b hb => drop_other (ne_of_mem_of_not_mem hb hx)
    · rw [drop_other (hout hb).1, hframe b (hout hb).2]

theorem filter_visited {fate : ι → Fate} {visited : List ι} (hx : x ∉ visited) (c : Fate) :
    (visited ++ [x]).filter (Function.update fate x c · = .kept) =
      visited.filter (fate · = .kept) ++ if c = .kept then [x] else [] := by
  have hsame : visited.filter (Function.update fate x c · = .kept) =
      visited.filter (fate · = .kept) := by
    refine List.filter_congr fun y hy => ?_
    rw [Function.update_of_ne (ne_of_mem_of_not_mem hy hx)]
  rw [List.filter_append, hsame, List.filter_singleton, Function.update_self, Bool.cond_decide]

structure Walk.Inv (s : Links ι) (head : ι) (items todo : List ι) (w : Walk ι σ) : Prop where
  suffix : ∃ visited, items = visited ++ todo ∧
    Ring w.links head (visited.filter (w.fate · = .kept) ++ todo)
  gone : ∀ x ∈ items, w.fate x = .released → w.links x = none
  ahead : ∀ x ∈ todo, w.fate x = .kept
  outside : ∀ b, b ∉ head :: items → w.links b = s b

omit [DecidableEq ι] in
theorem walkInit_inv (h : Ring s head items) (rest : σ) :
    Walk.Inv s head items items (walkInit s rest) where
  suffix := ⟨[], rfl, h⟩
  gone _ _ := nofun
  ahead _ _ := rfl
  outside _ _ := rfl

theorem walkBody_inv (choose : ι → Walk ι σ → Fate × σ) (hnodup : (head :: items).Nodup)
    {todo : List ι} {w : Walk ι σ} (h : Walk.Inv s head items (x :: todo) w) :
    ∃ w', walkBody choose x w = .done w' ∧ Walk.Inv s head items todo w' ∧
      ((choose x w).1 ≠ .released → nextOf w'.links x = (todo ++ [head]).head?) := by
  obtain ⟨visited, rfl, hring⟩ := h.suffix
  have hx : x ∉ head :: (visited ++ todo) := (middle_apart hnodup).1
  have hxv : x ∉ visited :=
    fun hin => hx (List.mem_cons_of_mem head (List.mem_append_left todo hin))
  have hxt : x ∉ todo :=
    fun hin => hx (List.mem_cons_of_mem head (List.mem_append_right visited hin))
  cases hchoose : choose x w with
  | mk fate rest =>
    obtain ⟨s', hdone, hring', hnext, hreleased, hframe⟩ := Fate.apply_ring hring fate
    refine ⟨⟨s', rest, Function.update w.fate x fate⟩, ?_, ?_, hnext⟩
    · simp only [walkBody, hchoose, hdone]
      rfl
    have hself : Function.update w.fate x fate x = fate := Function.update_self x fate w.fate
    have hother {y : ι} (hy : y ≠ x) : Function.update w.fate x fate y = w.fate y :=
      Function.update_of_ne hy fate w.fate
    refine ⟨⟨visited ++ [x], List.append_cons visited x todo, ?_⟩, fun y hy hfate => ?_,
      fun y hy => ?_, fun b hb => ?_⟩
    · rw [filter_visited hxv, List.append_assoc]
      exact hring'
    · by_cases hyx : y = x
      · subst hyx
        exact hreleased (hself.symm.trans hfate)
      · have hfate : w.fate y = .released := (hother hyx).symm.trans hfate
        have hkept : w.fate y ≠ .kept := by rw [hfate]; exact nofun
        have hnot : y ∉ head :: (visited.filter (w.fate · = .kept) ++ x :: todo) := by
          simp only [List.mem_cons, List.mem_append, List.mem_filter, decide_eq_true_eq, not_or]
          refine ⟨ne_of_mem_of_not_mem hy (List.nodup_cons.mp hnodup).1, fun hin => hkept hin.2,
            hyx, fun hin => ?_⟩
          exact hkept (h.ahead y (List.mem_cons_of_mem x hin))
        exact (hframe y hnot).trans (h.gone y hy hfate)
    · exact (hother (ne_of_mem_of_not_mem hy hxt)).trans (h.ahead y (List.mem_cons_of_mem x hy))
    · refine (hframe b fun hin => hb ?_).trans (h.outside b hb)
      have hsub : (visited.filter (w.fate · = .kept) ++ x :: todo).Sublist (visited ++ x :: todo) :=
        List.filter_sublist.append_right _
      exact (hsub.cons_cons head).subset hin

theorem walkBody_done {choose : ι → Walk ι σ → Fate × σ} {w w' : Walk ι σ}
    (h : walkBody choose x w = .done w') :
    w'.rest = (choose x w).2 ∧ w'.fate = Function.update w.fate x (choose x w).1 := by
  cases hdone : (choose x w).1.apply x w.links with
  | error a =>
    simp only [walkBody, hdone] at h
    cases h
  | ok links =>
    simp only [walkBody, hdone] at h
    cases h
    exact ⟨rfl, rfl⟩

/-- list_for_each_safe under a body that may take out and free the node it is given. -/
theorem walk_rule (choose : ι → Walk ι σ → Fate × σ) {J : List ι → Walk ι σ → Prop}
    (h : Ring s head items) {rest : σ} (hinit : J items (walkInit s rest))
    (hstep : ∀ x todo w w', Walk.Inv s head items (x :: todo) w → J (x :: todo) w →
      w'.rest = (choose x w).2 →
      w'.fate = Function.update w.fate x (choose x w).1 → J todo w') {fuel : Nat}
      (hfuel : items.length < fuel) :
    ∃ w, listForEachSafe head Walk.links (walkBody choose) fuel (walkInit s rest) =
      .done (items, w) ∧
      Walk.Inv s head items [] w ∧ J [] w := by
  refine listForEachSafe_rule (I := fun todo w => Walk.Inv s head items todo w ∧ J todo w)
    (fun todo w hw => ?_)
    (fun x todo w hw => ?_) ⟨walkInit_inv h rest, hinit⟩ h hfuel
  · obtain ⟨visited, -, hring⟩ := hw.1.suffix
    exact ⟨_, hring⟩
  · obtain ⟨w', hdone, hw', -⟩ := walkBody_inv choose h.nodup hw.1
    obtain ⟨hrest, hfate⟩ := walkBody_done hdone
    exact ⟨w', hdone, hw', hstep x todo w w' hw.1 hw.2 hrest hfate⟩

omit [DecidableEq ι] in
theorem Walk.Inv.ring {w : Walk ι σ} (h : Walk.Inv s head items [] w) :
    Ring w.links head (items.filter (w.fate · = .kept)) := by
  obtain ⟨visited, hitems, hring⟩ := h.suffix
  rw [List.append_nil] at hitems hring
  rw [hitems]
  exact hring

/-- What becomes of a node is what the body has chosen at its visit. -/
theorem walk_ring (choose : ι → Walk ι σ → Fate × σ) (h : Ring s head items) (rest : σ) {fuel : Nat}
    (hfuel : items.length < fuel) :
    ∃ w, listForEachSafe head Walk.links (walkBody choose) fuel (walkInit s rest) =
      .done (items, w) ∧
      Walk.Inv s head items [] w ∧ ∀ x ∈ items, ∃ v, w.fate x = (choose x v).1 := by
  obtain ⟨w, hrun, hw, hchosen⟩ := walk_rule choose
    (J := fun todo w => ∀ x ∈ items, x ∈ todo ∨ ∃ v,
      w.fate x = (choose x v).1) h (fun x hx => .inl hx)
    (fun x todo w w' _ hw _ hfate y hy => by
      by_cases hyx : y = x
      · subst hyx
        exact .inr ⟨w, by rw [hfate, Function.update_self]⟩
      · rw [hfate, Function.update_of_ne hyx]
        exact (hw y hy).imp_left fun hin => (List.mem_cons.mp hin).resolve_left hyx) hfuel
  exact ⟨w, hrun, hw, fun x hx => (hchosen x hx).resolve_left List.not_mem_nil⟩

/-- list_for_each bears list_del in its body, but not free. -/
theorem listForEach_walk_iff (fate : ι → Fate) (h : Ring s head items) (rest : σ) :
    WalksAll (fun fuel => listForEach head Walk.links (walkBody fun x w => (fate x, w.rest)) fuel
      (walkInit s rest)) items
        (fun _ => True) ↔ ∀ x ∈ items, fate x ≠ .released := by
  refine listForEach_all_iff (I := Walk.Inv s head items) (fun x todo w hw hkept => ?_)
    (fun x todo w hw hfreed => ?_)
    (walkInit_inv h rest) h
  · obtain ⟨w', hdone, hw', hnext⟩ := walkBody_inv (fun x w => (fate x, w.rest)) h.nodup hw
    exact ⟨w', hdone, hw', hnext hkept⟩
  · obtain ⟨w', hdone, hw', -⟩ := walkBody_inv (fun x w => (fate x, w.rest)) h.nodup hw
    obtain ⟨visited, hitems, -⟩ := hw.suffix
    have hx : x ∈ items := hitems ▸ List.mem_append_right visited List.mem_cons_self
    have hfate : w'.fate x = fate x := by rw [(walkBody_done hdone).2, Function.update_self]
    exact .inr ⟨w', hdone, hw'.gone x hx (hfate.trans (Classical.not_not.mp hfreed))⟩

/-- free_arp_cache and free_routes leave an empty list and none of its nodes. -/
theorem freeEntries_ring (h : Ring s head items) {fuel : Nat} (hfuel : items.length < fuel) :
    ∃ w, freeEntries head fuel s = .done (items, w) ∧ Ring w.links head [] ∧
      (∀ x ∈ items, w.links x = none) ∧
      ∀ b, b ∉ head :: items → w.links b = s b := by
  obtain ⟨w, hrun, hw, hchosen⟩ := walk_ring (fun _ w => (.released, w.rest)) h () hfuel
  have hreleased : ∀ x ∈ items, w.fate x = .released := fun x hx => by
    obtain ⟨v, hv⟩ := hchosen x hx
    exact hv
  have hempty : items.filter (w.fate · = .kept) = [] := by
    refine List.filter_eq_nil_iff.mpr fun x hx => ?_
    rw [hreleased x hx]
    exact Bool.false_ne_true
  exact ⟨w, hrun, hempty ▸ hw.ring, fun x hx => hw.gone x hx (hreleased x hx), hw.outside⟩

end Bodies

section Sequences
variable {ι : Type*} [DecidableEq ι]

structure IntrusiveList (ι : Type*) where
  links : Links ι
  head : ι
  items : List ι
  ring : Ring links head items

def sampleList : IntrusiveList Nat where
  links a :=
    if a = 0 then some ⟨1, 2⟩ else if a = 1 then some ⟨2, 0⟩ else
      if a = 2 then some ⟨0, 1⟩ else none
  head := 0
  items := [1, 2]
  ring := ⟨by decide, .cons_cons ⟨rfl,
    rfl⟩ (.cons_cons ⟨rfl, rfl⟩ (.cons_cons ⟨rfl, rfl⟩ (.singleton 0)))⟩

/-- The operations of linklist.h on well-formed lists are those of sequences, and a walk by
list_for_each_safe may take out what it likes. -/
theorem intrusive_list (l : IntrusiveList ι) :
    (∀ n, n ∉ l.head :: l.items → (l.links n).isSome →
      (∃ s, listAdd l.links n l.head = .ok s ∧ Ring s l.head (n :: l.items) ∧
        ∀ b, b ∉ n :: l.head :: l.items → s b = l.links b) ∧
      ∃ s, listAddTail l.links n l.head = .ok s ∧ Ring s l.head (l.items ++ [n]) ∧
        ∀ b, b ∉ n :: l.head :: l.items → s b = l.links b) ∧
    (∀ x ∈ l.items, ∃ s, listDel l.links x = .ok s ∧ Ring s l.head (l.items.erase x) ∧
      ∀ b, b ∉ l.head :: l.items.erase x → s b = l.links b) ∧
    listEmpty l.links l.head = .ok l.items.isEmpty ∧
    ∀ (σ : Type*) (choose : ι → Walk ι σ → Fate × σ) (rest : σ) (fuel : Nat),
      l.items.length < fuel →
      ∃ w, listForEachSafe l.head Walk.links (walkBody choose) fuel (walkInit l.links rest) =
        .done (l.items, w) ∧
        Ring w.links l.head (l.items.filter (w.fate · = .kept)) ∧
        (∀ x ∈ l.items, (∃ v, w.fate x = (choose x v).1) ∧
          (w.fate x = .released → w.links x = none)) ∧
        ∀ b, b ∉ l.head :: l.items → w.links b = l.links b := by
  refine ⟨fun n hn ha => ⟨listAdd_ring l.ring hn ha, listAddTail_ring l.ring hn ha⟩, fun x hx => ?_,
    listEmpty_ring l.ring, fun σ choose rest fuel hfuel => ?_⟩
  · obtain ⟨ys, zs, -, hitems, herase⟩ := List.exists_erase_eq hx
    obtain ⟨s, hdel, hring, hframe, -⟩ := listDel_ring (hitems ▸ l.ring)
    rw [herase]
    exact ⟨s, hdel, hring, hframe⟩
  · obtain ⟨w, hrun, hw, hchosen⟩ := walk_ring choose l.ring rest hfuel
    exact ⟨w, hrun, hw.ring, fun x hx => ⟨hchosen x hx, hw.gone x hx⟩, hw.outside⟩

/-- A walk that frees its first node and leaves the second one in the list. -/
theorem intrusive_list_sample :
    ∃ w, listForEachSafe sampleList.head Walk.links
        (walkBody fun x (_ : Walk Nat Unit) => (if x = 1 then .released else .kept, ())) 3
        (walkInit sampleList.links ()) = .done ([1, 2], w) ∧
      Ring w.links 0 [2] ∧ w.links 1 = none := by
  obtain ⟨w, hrun, hring, hfate, -⟩ := (intrusive_list sampleList).2.2.2 Unit
    (fun x _ => (if x = 1 then .released else .kept, ())) () 3 (by decide)
  have hfirst : w.fate 1 = .released := (hfate 1 (by decide)).1.elim fun _ h => h
  have hsecond : w.fate 2 = .kept := (hfate 2 (by decide)).1.elim fun _ h => h
  refine ⟨w, hrun, ?_, (hfate 1 (by decide)).2 hfirst⟩
  simpa [sampleList, hfirst, hsecond] using hring

end Sequences

end AnpNetstack
