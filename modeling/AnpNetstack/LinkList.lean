import AnpNetstack.LinkRing

/-! linklist.h over memory that can be freed. The operations keep the ring of a list whatever its
length, also where a neighbour is the head; list_for_each_safe has read the next link before its
body deletes the node. -/
namespace AnpNetstack
open Allocation LinkRing

section Operations
variable {ι : Type*} [DecidableEq ι]

def listInit (s : Links ι) (head : ι) : Except ι (Links ι) := do
  let s ← setNext s head head
  setPrev s head head

def listAdd (s : Links ι) (new head : ι) : Except ι (Links ι) := do
  let s ← setPrev s (← getNext s head) new
  let s ← setNext s new (← getNext s head)
  let s ← setPrev s new head
  setNext s head new

def listAddTail (s : Links ι) (new head : ι) : Except ι (Links ι) := do
  let s ← setNext s (← getPrev s head) new
  let s ← setPrev s new (← getPrev s head)
  let s ← setNext s new head
  setPrev s head new

def listDel (s : Links ι) (elem : ι) : Except ι (Links ι) := do
  let prev ← getPrev s elem
  let next ← getNext s elem
  let s ← setNext s prev next
  setPrev s next prev

def listEmpty (s : Links ι) (head : ι) : Except ι Bool :=
  (getNext s head).map fun next => decide (next = head)

variable {s : Links ι} {head n x : ι} {xs ys zs : List ι}

theorem listInit_ring (h : (s head).isSome) : ∃ s', listInit s head = .ok s' ∧ Ring s' head [] ∧
    ∀ b, b ≠ head → s' b = s b := by
  have h' : (withNext s head head head).isSome := by rwa [isSome_withNext]
  refine ⟨withPrev (withNext s head head) head head, ?_, ⟨List.nodup_singleton head, ?_⟩,
    fun b hb => ?_⟩
  · rw [listInit, setNext_ok h]
    exact setPrev_ok h' head
  · refine List.isChain_cons_cons.mpr ⟨⟨?_, ?_⟩, .singleton head⟩
    · rw [nextOf_withPrev, nextOf_withNext h, if_pos rfl]
    · rw [prevOf_withPrev h', if_pos rfl]
  · rw [withPrev_other hb, withNext_other hb]

theorem listAdd_ring (h : Ring s head xs) (hn : n ∉ head :: xs) (ha : (s n).isSome) :
    ∃ s', listAdd s n head = .ok s' ∧ Ring s' head (n :: xs) ∧ ∀ b, b ∉ n :: head :: xs →
      s' b = s b := by
  obtain ⟨q, hq⟩ := exists_next head xs
  have hnext : nextOf s head = some q := h.next_head.trans hq
  have hqmem : q ∈ head :: xs := mem_of_next hq
  have hsome : (s q).isSome := h.allocated hqmem
  have hhead : (s head).isSome := h.allocated List.mem_cons_self
  have hring : Ring s head ([] ++ xs) := h
  have hfirst : head ∈ [head].getLast? := rfl
  have hread : nextOf (withPrev s q n) head = some q := by rw [nextOf_withPrev, hnext]
  have h1 : (withPrev s q n n).isSome := by rwa [isSome_withPrev]
  have h2 : (withNext (withPrev s q n) n q n).isSome := by rwa [isSome_withNext]
  have h3 : (withPrev (withNext (withPrev s q n) n q) n head head).isSome := by
    rwa [isSome_withPrev, isSome_withNext, isSome_withPrev]
  refine ⟨withNext (withPrev (withNext (withPrev s q n) n q) n head) head n, ?_, ?_, fun b hb => ?_⟩
  · simp only [listAdd, getNext_ok hnext, setPrev_ok hsome, getNext_ok hread, setNext_ok h1,
      setPrev_ok h2, setNext_ok h3, bind, Except.bind]
  · refine hring.insert hn hfirst hq (fun b => ?_) (fun b => ?_)
    · rw [nextOf_withNext h3, nextOf_withPrev, nextOf_withNext h1, nextOf_withPrev]
    · rw [prevOf_withNext, prevOf_withPrev h2, prevOf_withNext, prevOf_withPrev hsome]
  · obtain ⟨hbn, hbr⟩ := not_or.mp (List.mem_cons.not.mp hb)
    have hbh : b ≠ head := fun he => hbr (he ▸ List.mem_cons_self)
    have hbq : b ≠ q := fun he => hbr (he ▸ hqmem)
    rw [withNext_other hbh, withPrev_other hbn, withNext_other hbn, withPrev_other hbq]

theorem listAddTail_ring (h : Ring s head xs) (hn : n ∉ head :: xs) (ha : (s n).isSome) :
    ∃ s', listAddTail s n head = .ok s' ∧ Ring s' head (xs ++ [n]) ∧ ∀ b, b ∉ n :: head :: xs →
      s' b = s b := by
  obtain ⟨p, hp⟩ : ∃ p, (head :: xs).getLast? = some p := ⟨_, List.getLast?_cons⟩
  have hprev : prevOf s head = some p := h.prev_head.trans hp
  have hpmem : p ∈ head :: xs := List.mem_of_getLast? hp
  have hsome : (s p).isSome := h.allocated hpmem
  have hhead : (s head).isSome := h.allocated List.mem_cons_self
  have hread : prevOf (withNext s p n) head = some p := by rw [prevOf_withNext, hprev]
  have h1 : (withNext s p n n).isSome := by rwa [isSome_withNext]
  have h2 : (withPrev (withNext s p n) n p n).isSome := by rwa [isSome_withPrev]
  have h3 : (withNext (withPrev (withNext s p n) n p) n head head).isSome := by
    rwa [isSome_withNext, isSome_withPrev, isSome_withNext]
  have hring : Ring s head (xs ++ []) := by rwa [List.append_nil]
  have hfresh : n ∉ head :: (xs ++ []) := by rwa [List.append_nil]
  have hpn : p ≠ n := ne_of_mem_of_not_mem hpmem hn
  have hhn : head ≠ n := ne_of_mem_of_not_mem List.mem_cons_self hn
  refine ⟨withPrev (withNext (withPrev (withNext s p n) n p) n head) head n, ?_, ?_, fun b hb => ?_⟩
  · simp only [listAddTail, getPrev_ok hprev, setNext_ok hsome, getPrev_ok hread, setPrev_ok h1,
      setNext_ok h2, setPrev_ok h3, bind, Except.bind]
  · refine hring.insert hfresh hp rfl (fun b => ?_) (fun b => ?_)
    · rw [nextOf_withPrev, nextOf_withNext h2, nextOf_withPrev, nextOf_withNext hsome]
      split_ifs with hbn hbp
      · exact absurd (hbp.symm.trans hbn) hpn
      · rfl
      · rfl
      · rfl
    · rw [prevOf_withPrev h3, prevOf_withNext, prevOf_withPrev h1, prevOf_withNext]
      split_ifs with hbh hbn
      · exact absurd (hbh.symm.trans hbn) hhn
      · rfl
      · rfl
      · rfl
  · obtain ⟨hbn, hbr⟩ := not_or.mp (List.mem_cons.not.mp hb)
    have hbh : b ≠ head := fun he => hbr (he ▸ List.mem_cons_self)
    have hbp : b ≠ p := fun he => hbr (he ▸ hpmem)
    rw [withPrev_other hbh, withNext_other hbn, withPrev_other hbn, withNext_other hbp]

/-- list_del takes a node out and leaves its own links as they are. -/
theorem listDel_ring (h : Ring s head (ys ++ x :: zs)) :
    ∃ s', listDel s x = .ok s' ∧ Ring s' head (ys ++ zs) ∧
      (∀ b, b ∉ head :: (ys ++ zs) → s' b = s b) ∧
      ∀ b, (s' b).isSome = (s b).isSome := by
  obtain ⟨p, hp⟩ : ∃ p, (head :: ys).getLast? = some p := ⟨_, List.getLast?_cons⟩
  obtain ⟨q, hq⟩ := exists_next head zs
  have hprev : prevOf s x = some p := h.prev.trans hp
  have hnext : nextOf s x = some q := h.next.trans hq
  have hpmem : p ∈ head :: ys := List.mem_of_getLast? hp
  have hqmem : q ∈ head :: zs := mem_of_next hq
  have hpring : p ∈ head :: (ys ++ zs) := List.mem_append_left zs hpmem
  have hqring : q ∈ head :: (ys ++ zs) := by
    cases List.mem_cons.mp hqmem with
    | inl hqh => exact hqh ▸ List.mem_cons_self
    | inr hqz => exact List.mem_cons_of_mem head (List.mem_append_right ys hqz)
  have hkept {b : ι} (hb : b ∈ head :: (ys ++ zs)) : b ∈ head :: (ys ++ x :: zs) := by
    simp only [List.mem_cons, List.mem_append] at hb ⊢
    exact hb.imp_right (Or.imp_right Or.inr)
  have hpsome : (s p).isSome := h.allocated (hkept hpring)
  have hqsome : (withNext s p q q).isSome := by
    rw [isSome_withNext]
    exact h.allocated (hkept hqring)
  refine ⟨withPrev (withNext s p q) q p, ?_, ?_, fun b hb => ?_, fun b => ?_⟩
  · simp only [listDel, getPrev_ok hprev, getNext_ok hnext, setNext_ok hpsome,
      setPrev_ok hqsome, bind, Except.bind]
  · refine h.remove hp hq (fun b _ => ?_) (fun b _ => ?_)
    · rw [nextOf_withPrev, nextOf_withNext hpsome]
    · rw [prevOf_withPrev hqsome, prevOf_withNext]
  · have hbp : b ≠ p := fun he => hb (he ▸ hpring)
    have hbq : b ≠ q := fun he => hb (he ▸ hqring)
    rw [withPrev_other hbq, withNext_other hbp]
  · rw [isSome_withPrev, isSome_withNext]

theorem listEmpty_ring (h : Ring s head xs) : listEmpty s head = .ok xs.isEmpty := by
  cases xs with
  | nil =>
    have hnext : nextOf s head = some head := h.next_head
    rw [listEmpty, getNext_ok hnext]
    exact congrArg Except.ok (decide_eq_true rfl)
  | cons x xs =>
    have hnext : nextOf s head = some x := h.next_head
    have hne : x ≠ head := fun he => (List.nodup_cons.mp h.nodup).1 (he ▸ List.mem_cons_self)
    rw [listEmpty, getNext_ok hnext]
    exact congrArg Except.ok (decide_eq_false hne)

end Operations

end AnpNetstack
