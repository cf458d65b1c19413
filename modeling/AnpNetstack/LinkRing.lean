import AnpNetstack.Allocation

/-! Doubly linked rings in memory. A ring through `head` stands for the sequence of the other nodes;
a node is put in or taken out by writing to its two neighbours, which may be one and the same.
Independent of what the nodes are part of. -/
namespace LinkRing
open Allocation
variable {ι : Type*}

structure Link (ι : Type*) where
  next : ι
  prev : ι
  deriving DecidableEq

abbrev Links (ι : Type*) := Store ι (Link ι)

def nextOf (s : Links ι) (a : ι) : Option ι := (s a).map Link.next

def prevOf (s : Links ι) (a : ι) : Option ι := (s a).map Link.prev

def getNext (s : Links ι) (a : ι) : Except ι ι := (load s a).map Link.next

def getPrev (s : Links ι) (a : ι) : Except ι ι := (load s a).map Link.prev

theorem getNext_ok {s : Links ι} {a b : ι} (h : nextOf s a = some b) : getNext s a = .ok b := by
  obtain ⟨l, hl, rfl⟩ := Option.map_eq_some_iff.mp h
  rw [getNext, load_ok hl]
  rfl

theorem getPrev_ok {s : Links ι} {a b : ι} (h : prevOf s a = some b) : getPrev s a = .ok b := by
  obtain ⟨l, hl, rfl⟩ := Option.map_eq_some_iff.mp h
  rw [getPrev, load_ok hl]
  rfl

theorem isSome_of_prev {s : Links ι} {a b : ι} (h : prevOf s a = some b) : (s a).isSome := by
  obtain ⟨l, hl, -⟩ := Option.map_eq_some_iff.mp h
  rw [hl]
  rfl

section Writing
variable [DecidableEq ι]

def withNext (s : Links ι) (a x : ι) : Links ι :=
  fun b => if b = a then (s b).map fun l => { l with next := x } else s b

def withPrev (s : Links ι) (a x : ι) : Links ι :=
  fun b => if b = a then (s b).map fun l => { l with prev := x } else s b

def setNext (s : Links ι) (a x : ι) : Except ι (Links ι) := (load s a).map fun _ => withNext s a x

def setPrev (s : Links ι) (a x : ι) : Except ι (Links ι) := (load s a).map fun _ => withPrev s a x

variable {s : Links ι} {a b : ι}

theorem setNext_ok (h : (s a).isSome) (x : ι) : setNext s a x = .ok (withNext s a x) := by
  obtain ⟨l, hl⟩ := Option.isSome_iff_exists.mp h
  rw [setNext, load_ok hl]
  rfl

theorem setPrev_ok (h : (s a).isSome) (x : ι) : setPrev s a x = .ok (withPrev s a x) := by
  obtain ⟨l, hl⟩ := Option.isSome_iff_exists.mp h
  rw [setPrev, load_ok hl]
  rfl

theorem nextOf_withNext (h : (s a).isSome) (x b : ι) :
    nextOf (withNext s a x) b = if b = a then some x else nextOf s b := by
  obtain ⟨l, hl⟩ := Option.isSome_iff_exists.mp h
  unfold nextOf withNext
  split_ifs with hb
  · rw [hb, hl]
    rfl
  · rfl

@[simp] theorem prevOf_withNext (s : Links ι) (a x b : ι) :
    prevOf (withNext s a x) b = prevOf s b := by
  unfold prevOf withNext
  split_ifs
  · rw [Option.map_map]
    rfl
  · rfl

theorem prevOf_withPrev (h : (s a).isSome) (x b : ι) :
    prevOf (withPrev s a x) b = if b = a then some x else prevOf s b := by
  obtain ⟨l, hl⟩ := Option.isSome_iff_exists.mp h
  unfold prevOf withPrev
  split_ifs with hb
  · rw [hb, hl]
    rfl
  · rfl

@[simp] theorem nextOf_withPrev (s : Links ι) (a x b : ι) :
    nextOf (withPrev s a x) b = nextOf s b := by
  unfold nextOf withPrev
  split_ifs
  · rw [Option.map_map]
    rfl
  · rfl

@[simp] theorem isSome_withNext (s : Links ι) (a x b : ι) :
    (withNext s a x b).isSome = (s b).isSome := by
  unfold withNext
  split_ifs
  · exact Option.isSome_map
  · rfl

@[simp] theorem isSome_withPrev (s : Links ι) (a x b : ι) :
    (withPrev s a x b).isSome = (s b).isSome := by
  unfold withPrev
  split_ifs
  · exact Option.isSome_map
  · rfl

theorem withNext_other (h : b ≠ a) (x : ι) : withNext s a x b = s b := if_neg h

theorem withPrev_other (h : b ≠ a) (x : ι) : withPrev s a x b = s b := if_neg h

end Writing

def Linked (s : Links ι) (a b : ι) : Prop := nextOf s a = some b ∧ prevOf s b = some a

/-- The nodes behind `head` are `xs`, and the last of them leads back to `head`. -/
structure Ring (s : Links ι) (head : ι) (xs : List ι) : Prop where
  nodup : (head :: xs).Nodup
  links : List.IsChain (Linked s) (head :: (xs ++ [head]))

/-- A chain does not depend on what its last node points to and on what its first node points back
to. -/
theorem chain_kept {s s' : Links ι} {l : List ι} (h : l.IsChain (Linked s))
    (hnext : ∀ a ∈ l.dropLast, nextOf s' a = nextOf s a)
    (hprev : ∀ b ∈ l.tail, prevOf s' b = prevOf s b) :
    l.IsChain (Linked s') := by
  induction l with
  | nil => exact .nil
  | cons a l ih =>
    cases l with
    | nil => exact .singleton a
    | cons b l =>
      obtain ⟨⟨hn, hp⟩, hrest⟩ := List.isChain_cons_cons.mp h
      refine List.isChain_cons_cons.mpr ⟨⟨?_, ?_⟩, ih hrest ?_ ?_⟩
      · rw [hnext a List.mem_cons_self, hn]
      · rw [hprev b List.mem_cons_self, hp]
      · intro x hx
        exact hnext x (List.mem_cons_of_mem a hx)
      · intro x hx
        exact hprev x (List.mem_cons_of_mem b hx)

section Ring
variable {s s' : Links ι} {head p q n x : ι} {xs ys zs : List ι}

theorem Ring.split (h : Ring s head (ys ++ zs)) :
    (head :: ys).IsChain (Linked s) ∧ (zs ++ [head]).IsChain (Linked s) ∧
      ∀ p ∈ (head :: ys).getLast?, ∀ q ∈ (zs ++ [head]).head?, Linked s p q := by
  have hlinks := h.links
  rw [List.append_assoc, ← List.cons_append] at hlinks
  exact List.isChain_append.mp hlinks

theorem Ring.join (hnodup : (head :: (ys ++ zs)).Nodup) (hl : (head :: ys).IsChain (Linked s))
    (hr : (zs ++ [head]).IsChain (Linked s))
    (hgap : ∀ p ∈ (head :: ys).getLast?, ∀ q ∈ (zs ++ [head]).head?, Linked s p q) :
    Ring s head (ys ++ zs) := by
  refine ⟨hnodup, ?_⟩
  rw [List.append_assoc, ← List.cons_append]
  exact List.isChain_append.mpr ⟨hl, hr, hgap⟩

/-- A gap of the ring lies between two nodes of it, and neither occurs elsewhere on its side. -/
theorem gap_left (h : (head :: (ys ++ zs)).Nodup) (hp : p ∈ (head :: ys).getLast?) :
    p ∈ head :: ys ∧ p ∉ (head :: ys).dropLast ∧ p ∉ zs := by
  have hys : (head :: ys).Nodup := h.sublist ((List.sublist_append_left ys zs).cons_cons head)
  have hmem : p ∈ head :: ys := List.mem_of_getLast? hp
  have hapart : List.Disjoint (head :: ys) zs := (List.nodup_append'.mp (List.cons_append ▸ h)).2.2
  refine ⟨hmem, ?_, fun hz => hapart hmem hz⟩
  have hback : (head :: ys).dropLast ++ [p] = head :: ys := List.dropLast_append_getLast? p hp
  rw [← hback] at hys
  intro hdrop
  exact (List.nodup_append'.mp hys).2.2 hdrop List.mem_cons_self

theorem gap_right (h : (head :: (ys ++ zs)).Nodup) (hq : q ∈ (zs ++ [head]).head?) :
    q ∈ zs ++ [head] ∧ q ∉ (zs ++ [head]).tail ∧ q ∉ ys := by
  have hmem : q ∈ zs ++ [head] := List.mem_of_mem_head? hq
  obtain ⟨hhead, hrest⟩ := List.nodup_cons.mp h
  obtain ⟨-, hzs, hapart⟩ := List.nodup_append'.mp hrest
  rw [List.mem_append, not_or] at hhead
  cases zs with
  | nil =>
    cases hq
    exact ⟨hmem, List.not_mem_nil, hhead.1⟩
  | cons z zs =>
    cases hq
    refine ⟨hmem, ?_, fun hy => hapart hy List.mem_cons_self⟩
    intro htail
    cases List.mem_append.mp htail with
    | inl hz => exact (List.nodup_cons.mp hzs).1 hz
    | inr hz => exact hhead.2 (List.mem_singleton.mp hz ▸ List.mem_cons_self)

theorem exists_next (head : ι) (xs : List ι) : ∃ q, (xs ++ [head]).head? = some q := by
  cases xs with
  | nil => exact ⟨head, rfl⟩
  | cons x xs => exact ⟨x, rfl⟩

theorem middle_apart (h : (head :: (ys ++ x :: zs)).Nodup) :
    x ∉ head :: (ys ++ zs) ∧ (head :: (ys ++ zs)).Nodup := by
  have hmiddle : (head :: ys ++ x :: zs).Nodup := h
  exact List.nodup_cons.mp (List.nodup_middle.mp hmiddle)

theorem mem_of_next (hq : (zs ++ [head]).head? = some q) : q ∈ head :: zs := by
  cases List.mem_append.mp (List.mem_of_mem_head? hq) with
  | inl hin => exact List.mem_cons_of_mem head hin
  | inr hin => exact List.mem_singleton.mp hin ▸ List.mem_cons_self

theorem Ring.next (h : Ring s head (ys ++ x :: zs)) : nextOf s x = (zs ++ [head]).head? := by
  rw [List.append_cons] at h
  have hlast : x ∈ (head :: (ys ++ [x])).getLast? := by
    rw [← List.cons_append, List.getLast?_concat]
    rfl
  obtain ⟨q, hq⟩ := exists_next head zs
  rw [hq]
  exact (h.split.2.2 x hlast q hq).1

theorem Ring.prev (h : Ring s head (ys ++ x :: zs)) : prevOf s x = (head :: ys).getLast? := by
  obtain ⟨p, hp⟩ : ∃ p, (head :: ys).getLast? = some p := ⟨_, List.getLast?_cons⟩
  rw [hp]
  exact (h.split.2.2 p hp x rfl).2

theorem Ring.next_head (h : Ring s head xs) : nextOf s head = (xs ++ [head]).head? := by
  obtain ⟨q, hq⟩ := exists_next head xs
  rw [hq]
  have hring : Ring s head ([] ++ xs) := h
  exact (hring.split.2.2 head rfl q hq).1

theorem Ring.prev_head (h : Ring s head xs) : prevOf s head = (head :: xs).getLast? := by
  obtain ⟨p, hp⟩ : ∃ p, (head :: xs).getLast? = some p := ⟨_, List.getLast?_cons⟩
  rw [hp]
  have hring : Ring s head (xs ++ []) := by rwa [List.append_nil]
  exact (hring.split.2.2 p hp head rfl).2

theorem Ring.allocated (h : Ring s head xs) (hx : x ∈ head :: xs) : (s x).isSome := by
  cases List.mem_cons.mp hx with
  | inl hx =>
    rw [hx]
    exact isSome_of_prev (h.prev_head.trans List.getLast?_cons)
  | inr hx =>
    obtain ⟨ys, zs, rfl⟩ := List.append_of_mem hx
    exact isSome_of_prev (h.prev.trans List.getLast?_cons)

theorem Ring.next_of_mem (h : Ring s head xs) (hx : x ∈ head :: xs) : ∃ q, nextOf s x = some q := by
  obtain ⟨l, hl⟩ := Option.isSome_iff_exists.mp (h.allocated hx)
  exact ⟨l.next, by rw [nextOf, hl]; rfl⟩

/-- Only the nodes of the ring matter. -/
theorem Ring.congr (h : Ring s head xs) (hs : ∀ b ∈ head :: xs, s' b = s b) : Ring s' head xs := by
  have hin {b : ι} (hb : b ∈ head :: (xs ++ [head])) : b ∈ head :: xs := by
    simp only [List.mem_cons, List.mem_append, List.mem_nil_iff, or_false] at hb ⊢
    rcases hb with hb | hb | hb
    · exact .inl hb
    · exact .inr hb
    · exact .inl hb
  refine ⟨h.nodup, chain_kept h.links (fun a ha => ?_) (fun b hb => ?_)⟩
  · rw [nextOf, nextOf, hs a (hin (List.mem_of_mem_dropLast ha))]
  · rw [prevOf, prevOf, hs b (hin (List.mem_of_mem_tail hb))]

variable [DecidableEq ι]

theorem Ring.insert (h : Ring s head (ys ++ zs)) (hn : n ∉ head :: (ys ++ zs))
    (hp : p ∈ (head :: ys).getLast?) (hq : q ∈ (zs ++ [head]).head?)
    (hnext : ∀ b, nextOf s' b = if b = p then some n else if b = n then some q else nextOf s b)
    (hprev : ∀ b, prevOf s' b = if b = n then some p else if b = q then some n else prevOf s b) :
    Ring s' head (ys ++ n :: zs) := by
  obtain ⟨hl, hr, -⟩ := h.split
  obtain ⟨hpmem, hpdrop, hpz⟩ := gap_left h.nodup hp
  obtain ⟨hqmem, hqtail, hqy⟩ := gap_right h.nodup hq
  have hnl : n ∉ head :: ys := fun hin => hn (List.mem_append_left zs hin)
  have hnz : n ∉ zs := fun hin => hn (List.mem_append_right (head :: ys) hin)
  have hnh : n ≠ head := fun he => hnl (he ▸ List.mem_cons_self)
  have hpn : p ≠ n := fun he => hnl (he ▸ hpmem)
  have hnr : n ∉ zs ++ [head] := by
    rw [List.mem_append, List.mem_singleton, not_or]
    exact ⟨hnz, hnh⟩
  have hqn : q ≠ n := fun he => hnr (he ▸ hqmem)
  have hnodup : (head :: ys ++ n :: zs).Nodup :=
    List.nodup_middle.mpr (List.nodup_cons.mpr ⟨hn, h.nodup⟩)

  have hleft : (head :: ys).IsChain (Linked s') := by
    refine chain_kept hl (fun a ha => ?_) (fun b hb => ?_)
    · have han : a ≠ n := ne_of_mem_of_not_mem (List.mem_of_mem_dropLast ha) hnl
      rw [hnext, if_neg (ne_of_mem_of_not_mem ha hpdrop), if_neg han]
    · have hbn : b ≠ n := ne_of_mem_of_not_mem (List.mem_of_mem_tail hb) hnl
      rw [hprev, if_neg hbn, if_neg (ne_of_mem_of_not_mem hb hqy)]
  have hright : (zs ++ [head]).IsChain (Linked s') := by
    refine chain_kept hr (fun a ha => ?_) (fun b hb => ?_)
    · rw [List.dropLast_concat] at ha
      rw [hnext, if_neg (ne_of_mem_of_not_mem ha hpz), if_neg (ne_of_mem_of_not_mem ha hnz)]
    · have hbn : b ≠ n := ne_of_mem_of_not_mem (List.mem_of_mem_tail hb) hnr
      rw [hprev, if_neg hbn, if_neg (ne_of_mem_of_not_mem hb hqtail)]
  have hnq : Linked s' n q :=
    ⟨by rw [hnext, if_neg hpn.symm, if_pos rfl], by rw [hprev, if_neg hqn, if_pos rfl]⟩
  have hpn' : Linked s' p n := ⟨by rw [hnext, if_pos rfl], by rw [hprev, if_pos rfl]⟩
  refine Ring.join hnodup hleft (List.isChain_cons.mpr ⟨?_, hright⟩) ?_
  · intro y hy
    rw [Option.some.inj (hy.symm.trans hq)]
    exact hnq
  · intro x hx y hy
    rw [Option.some.inj (hx.symm.trans hp), ← Option.some.inj hy]
    exact hpn'

/-- A node less; what it points to itself does not matter. -/
theorem Ring.remove (h : Ring s head (ys ++ n :: zs)) (hp : p ∈ (head :: ys).getLast?)
    (hq : q ∈ (zs ++ [head]).head?)
    (hnext : ∀ b, b ≠ n → nextOf s' b = if b = p then some q else nextOf s b)
    (hprev : ∀ b, b ≠ n → prevOf s' b = if b = q then some p else prevOf s b) :
    Ring s' head (ys ++ zs) := by
  obtain ⟨hn, hnodup⟩ := middle_apart h.nodup
  obtain ⟨hl, hnr, -⟩ := h.split
  obtain ⟨-, hr⟩ := List.isChain_cons.mp hnr
  obtain ⟨hpmem, hpdrop, hpz⟩ := gap_left hnodup hp
  obtain ⟨hqmem, hqtail, hqy⟩ := gap_right hnodup hq
  have hnl : n ∉ head :: ys := fun hin => hn (List.mem_append_left zs hin)
  have hnz : n ∉ zs := fun hin => hn (List.mem_append_right (head :: ys) hin)
  have hnh : n ≠ head := fun he => hnl (he ▸ List.mem_cons_self)
  have hnback : n ∉ zs ++ [head] := by
    rw [List.mem_append, List.mem_singleton, not_or]
    exact ⟨hnz, hnh⟩
  refine Ring.join hnodup ?_ ?_ ?_
  · refine chain_kept hl (fun a ha => ?_) (fun b hb => ?_)
    · rw [hnext a (ne_of_mem_of_not_mem (List.mem_of_mem_dropLast ha) hnl),
        if_neg (ne_of_mem_of_not_mem ha hpdrop)]
    · rw [hprev b (ne_of_mem_of_not_mem (List.mem_of_mem_tail hb) hnl),
        if_neg (ne_of_mem_of_not_mem hb hqy)]
  · refine chain_kept hr (fun a ha => ?_) (fun b hb => ?_)
    · rw [List.dropLast_concat] at ha
      rw [hnext a (ne_of_mem_of_not_mem ha hnz), if_neg (ne_of_mem_of_not_mem ha hpz)]
    · rw [hprev b (ne_of_mem_of_not_mem (List.mem_of_mem_tail hb) hnback),
        if_neg (ne_of_mem_of_not_mem hb hqtail)]
  · intro x hx y hy
    rw [Option.some.inj (hx.symm.trans hp), Option.some.inj (hy.symm.trans hq)]
    exact ⟨by rw [hnext p (ne_of_mem_of_not_mem hpmem hnl), if_pos rfl],
      by rw [hprev q (ne_of_mem_of_not_mem hqmem hnback), if_pos rfl]⟩

end Ring

end LinkRing
