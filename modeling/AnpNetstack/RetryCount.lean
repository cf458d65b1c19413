import AnpNetstack.WireQueue

/-! How often tcp_retransmit_handler sends an entry. The three modes share one unsigned counter:
two of its values are modes of their own, and only the third counts down. -/
namespace AnpNetstack.Wire
open Runs History

section Accounts

def Note.isVisit (n : Nat) : Note → Bool
  | .visited v => v.number == n
  | _ => false

def transmissions (n : Nat) (log : List Note) : Nat := log.countP (Note.isVisit n)

def Note.visitNumber : Note → Option Nat
  | .visited v => some v.number
  | _ => none

def visits (log : List Note) : List Nat := log.filterMap Note.visitNumber

def Note.inPass : Note → Bool
  | .began _ | .ended _ => false
  | _ => true

structure Account where
  number : Nat
  tcb : Nat
  retries : UInt32

def Message.account (m : Message) : Account where
  number := m.number
  tcb := m.tcb
  retries := m.retries

def Account.afterPass (a : Account) : Option Account :=
  (retriesLeft a.retries).map fun k => { a with retries := k }

/-- A pass from its beginning to its end: it gets every entry out once, in order, and leaves those
whose counter is not used up in the order in which they stood. -/
structure CompletedPass (past : List Note) (left : List Message) : Prop where
  pass : ∃ before start mid, past = before ++ .began start :: mid ∧ (∀ n ∈ mid, n.inPass = true) ∧
    visits mid = start.map Message.number ∧
    left.map Message.account = (start.map Message.account).filterMap Account.afterPass

/-- What a visit does, after `past`, to an entry that `seg` was made into: it is removed at once or
after the tenth time, and then, if it was connect's, the waiter of its connection is signalled. -/
structure VisitOk (seg : NewSegment) (past : List Note) (v : Visit) : Prop where
  removed : v.removed = true ↔ seg.retries = retriesSendonce ∨
    seg.retries = retriesConnMax ∧ transmissions v.number past = 9
  signalled : v.signalled = if seg.retries = retriesConnMax ∧ transmissions v.number past = 9 then
    some seg.self else none

inductive RetriesAt : Int → Nat → UInt32 → Prop where
  | once : RetriesAt retriesSendonce 0 (UInt32.ofInt retriesSendonce)
  | infinite (k : Nat) : RetriesAt retriesInfinite k (UInt32.ofInt retriesInfinite)
  | counted (k : Nat) (r : UInt32) (h : r.toNat + k = 10) (hpos : 0 < r.toNat) :
      RetriesAt retriesConnMax k r

theorem RetriesAt.start {retries : Int} (h : retriesValid retries = true) :
    RetriesAt retries 0 (UInt32.ofInt retries) := by
  simp only [retriesValid, Bool.or_eq_true, beq_iff_eq, or_assoc] at h
  rcases h with rfl | rfl | rfl
  · exact .infinite 0
  · exact .counted 0 _ (by decide) (by decide)
  · exact .once

theorem counted_ne {k : Nat} {r : UInt32} (h : r.toNat + k = 10) :
    r ≠ UInt32.ofInt retriesSendonce ∧ r ≠ UInt32.ofInt retriesInfinite := by
  have h1 : (UInt32.ofInt retriesSendonce).toNat = 4294967294 := by decide
  have h2 : (UInt32.ofInt retriesInfinite).toNat = 4294967295 := by decide
  constructor
  · rintro rfl
    omega
  · rintro rfl
    omega

theorem sub_one_toNat {r : UInt32} (h : 0 < r.toNat) : (r - 1).toNat = r.toNat - 1 := by
  have hle : (1 : UInt32) ≤ r := by
    rw [UInt32.le_iff_toNat_le]
    exact h
  rw [UInt32.toNat_sub_of_le _ _ hle]
  rfl

theorem retriesLeft_counted {k : Nat} {r : UInt32} (h : r.toNat + k = 10) (hpos : 0 < r.toNat) :
    retriesLeft r = if k = 9 then none else some (r - 1) := by
  obtain ⟨hs, hi⟩ := counted_ne h
  have hz : r - 1 = 0 ↔ k = 9 := by
    rw [← UInt32.toNat_inj, sub_one_toNat hpos, UInt32.toNat_zero]
    omega
  simp only [retriesLeft, hs, hi, if_false, hz]

theorem expires_counted {k : Nat} {r : UInt32} (h : r.toNat + k = 10) (hpos : 0 < r.toNat) :
    expires r = decide (k = 9) := by
  obtain ⟨hs, hi⟩ := counted_ne h
  have hz : r - 1 = 0 ↔ k = 9 := by
    rw [← UInt32.toNat_inj, sub_one_toNat hpos, UInt32.toNat_zero]
    omega
  simp [expires, hs, hi, hz]

variable {retries : Int} {k : Nat} {r : UInt32}

theorem RetriesAt.next (h : RetriesAt retries k r) {r' : UInt32} (hl : retriesLeft r = some r') :
    RetriesAt retries (k + 1) r' := by
  cases h with
  | once =>
    have hnone : retriesLeft (UInt32.ofInt retriesSendonce) = none := by decide
    rw [hnone] at hl
    cases hl
  | infinite =>
    have hsame : retriesLeft (UInt32.ofInt retriesInfinite) =
        some (UInt32.ofInt retriesInfinite) := by decide
    rw [← Option.some.inj (hsame.symm.trans hl)]
    exact .infinite _
  | counted k r h hpos =>
    rw [retriesLeft_counted h hpos] at hl
    split_ifs at hl with h9
    rw [← Option.some.inj hl]
    have hsub := sub_one_toNat hpos
    exact .counted _ _ (by omega) (by omega)

/-- How often an entry can have been sent while it stands in the queue. -/
theorem RetriesAt.bound (h : RetriesAt retries k r) :
    (retries = retriesSendonce → k = 0) ∧ (retries = retriesConnMax → k ≤ 9) := by
  cases h with
  | once => exact ⟨fun _ => rfl, fun h => absurd h (by decide)⟩
  | infinite => exact ⟨fun h => absurd h (by decide), fun h => absurd h (by decide)⟩
  | counted k r h hpos => exact ⟨fun h => absurd h (by decide), fun _ => by omega⟩

theorem RetriesAt.left_none_iff (h : RetriesAt retries k r) :
    (retriesLeft r).isNone = true ↔ retries = retriesSendonce ∨
      retries = retriesConnMax ∧ k = 9 := by
  cases h with
  | once => exact iff_of_true (by decide) (.inl rfl)
  | infinite =>
    exact iff_of_false (by decide) (fun h => h.elim (by decide) (fun h => absurd h.1 (by decide)))
  | counted k r h hpos =>
    have hne : retriesConnMax ≠ retriesSendonce := by decide
    rw [retriesLeft_counted h hpos]
    split_ifs with h9 <;> simp [h9, hne]

theorem RetriesAt.expires_iff (h : RetriesAt retries k r) :
    expires r = true ↔ retries = retriesConnMax ∧ k = 9 := by
  cases h with
  | once => exact iff_of_false (by decide) (fun h => absurd h.1 (by decide))
  | infinite => exact iff_of_false (by decide) (fun h => absurd h.1 (by decide))
  | counted k r h hpos => simp [expires_counted h hpos]

theorem transmissions_append (n : Nat) (xs ys : List Note) :
    transmissions n (xs ++ ys) = transmissions n xs + transmissions n ys := List.countP_append

theorem visits_append (xs ys : List Note) : visits (xs ++ ys) = visits xs ++ visits ys :=
  List.filterMap_append

theorem transmissions_visited (n : Nat) (v : Visit) :
    transmissions n [.visited v] = if v.number = n then 1 else 0 := by
  simp [transmissions, Note.isVisit, List.countP_singleton]

/-- A note that is no visit leaves the counters alone. -/
theorem transmissions_quiet {x : Note} (hx : x.visitNumber = none) (n : Nat) (log : List Note) :
    transmissions n (log ++ [x]) = transmissions n log := by
  have hnone : transmissions n [x] = 0 := by
    cases x with
    | visited v => cases hx
    | _ => rfl
  rw [transmissions_append, hnone, Nat.add_zero]

/-- tdev_write alone is no visit. -/
theorem writeNotes_quiet (m : Message) (out : Output) :
    (∀ n, transmissions n (WireQueue.writeNotes m out) = 0) ∧
      visits (WireQueue.writeNotes m out) = [] ∧
      ∀ x ∈ WireQueue.writeNotes m out, x.inPass = true ∧ x.visitNumber = none := by
  cases out <;> simp [WireQueue.writeNotes, transmissions, visits, Note.isVisit, Note.visitNumber,
    Note.inPass]

end Accounts

section Entry

theorem Message.setTcpBuf_account (m : Message) (buf : List UInt8) :
    (m.setTcpBuf buf).account = m.account := by
  unfold Message.setTcpBuf
  split <;> rfl

/-- ip_output changes nothing that the accounting looks at. -/
theorem Message.ipOutput_account (routes : List RtEntry) (cache : List ArpCacheEntry) (dst : UInt32)
    (m : Message) : (m.ipOutput routes cache dst).2.account = m.account := by
  unfold Message.ipOutput
  split
  · rfl
  · dsimp only
    split
    · exact Message.setTcpBuf_account _ _
    · rfl

theorem Message.stop_account {self : Nat} {tcb : Tcb} {m m' : Message}
    (h : Message.stop self tcb m = some m') :
    m'.account = m.account := by
  have hset (m : Message) (seq : UInt32) : (m.setSeqNum seq).account = m.account :=
    Message.setTcpBuf_account m _
  simp only [Message.stop] at h
  split_ifs at h
  · rw [← Option.some.inj h, hset]
    exact hset m _
  · rw [← Option.some.inj h, hset]
    exact hset m _
  · rw [← Option.some.inj h]

end Entry

section Invariant

def WireQueue.Walking (q : WireQueue) : Prop :=
  ∃ before start mid, q.log = before ++ .began start :: mid ∧ (∀ n ∈ mid, n.inPass = true) ∧
    visits mid ++ q.todo.map Message.number = start.map Message.number ∧
    q.passed.map Message.account ++ (q.todo.map Message.account).filterMap Account.afterPass =
      (start.map Message.account).filterMap Account.afterPass

def PassOk (past : List Note) : Note → Prop
  | .ended left => CompletedPass past left
  | _ => True

def VisitsOk (added : List NewSegment) (past : List Note) : Note → Prop
  | .visited v => ∃ seg, added[v.number]? = some seg ∧ VisitOk seg past v
  | _ => True

def EntryOk (added : List NewSegment) (log : List Note) (m : Message) : Prop :=
  ∃ seg, added[m.number]? = some seg ∧ m.tcb = seg.self ∧
    RetriesAt seg.retries (transmissions m.number log) m.retries

structure Accounting (q : WireQueue) : Prop where
  order : (q.messagesArray.map Message.number).Pairwise (· < ·)
  entry : ∀ m ∈ q.messagesArray, EntryOk q.added q.log m
  gone : ∀ n seg, q.added[n]? = some seg → n ∉ q.messagesArray.map Message.number →
    (seg.retries = retriesSendonce → transmissions n q.log ≤ 1) ∧
    (seg.retries = retriesConnMax → transmissions n q.log ≤ 10)
  unborn : ∀ n, q.added.length ≤ n → transmissions n q.log = 0
  passes : Each PassOk q.log
  visited : Each (VisitsOk q.added) q.log
  walk : if q.busy then q.Walking else q.todo = []

theorem Accounting.bound {q : WireQueue} (h : Accounting q) {n : Nat} {seg : NewSegment}
    (hn : q.added[n]? = some seg) :
    (seg.retries = retriesSendonce → transmissions n q.log ≤ 1) ∧
    (seg.retries = retriesConnMax → transmissions n q.log ≤ 10 ∧
      (transmissions n q.log = 10 → n ∉ q.messagesArray.map Message.number)) := by
  by_cases hin : n ∈ q.messagesArray.map Message.number
  · obtain ⟨m, hm, rfl⟩ := List.mem_map.mp hin
    obtain ⟨seg', hseg, -, hr⟩ := h.entry m hm
    rw [Option.some.inj (hn.symm.trans hseg)]
    obtain ⟨honce, hconn⟩ := hr.bound
    refine ⟨fun hs => by rw [honce hs]; exact Nat.zero_le 1, fun hs => ?_⟩
    have h9 := hconn hs
    exact ⟨by omega, fun h10 => by omega⟩
  · obtain ⟨honce, hconn⟩ := h.gone n seg hn hin
    exact ⟨honce, fun hs => ⟨hconn hs, fun _ => hin⟩⟩

theorem EntryOk.of_account {added : List NewSegment} {log : List Note} {m m' : Message}
    (h : EntryOk added log m) (ha : m'.account = m.account) : EntryOk added log m' := by
  obtain ⟨seg, hseg, htcb, hr⟩ := h
  have hn : m'.number = m.number := congrArg Account.number ha
  have ht : m'.tcb = m.tcb := congrArg Account.tcb ha
  have hrt : m'.retries = m.retries := congrArg Account.retries ha
  exact ⟨seg, by rw [hn, hseg], by rw [ht, htcb], by rw [hn, hrt]; exact hr⟩

theorem EntryOk.grow {added : List NewSegment} {log : List Note} {m : Message}
    (h : EntryOk added log m) (seg : NewSegment) : EntryOk (added ++ [seg]) log m := by
  obtain ⟨s, hs, ht, hr⟩ := h
  have hlt := (List.getElem?_eq_some_iff.mp hs).1
  exact ⟨s, by rw [List.getElem?_append_left hlt, hs], ht, hr⟩

theorem VisitsOk.grow {added : List NewSegment} {past : List Note} {x : Note}
    (h : VisitsOk added past x) (seg : NewSegment) : VisitsOk (added ++ [seg]) past x := by
  cases x with
  | visited v =>
    obtain ⟨s, hs, hv⟩ := h
    have hlt := (List.getElem?_eq_some_iff.mp hs).1
    exact ⟨s, by rw [List.getElem?_append_left hlt, hs], hv⟩
  | _ => trivial

theorem EntryOk.logged {added : List NewSegment} {log log' : List Note} {m : Message}
    (h : EntryOk added log m) (hcount : transmissions m.number log' = transmissions m.number log) :
    EntryOk added log' m := by
  obtain ⟨seg, hseg, ht, hr⟩ := h
  refine ⟨seg, hseg, ht, ?_⟩
  rw [hcount]
  exact hr

theorem Accounting.walking {q : WireQueue} (h : Accounting q) (hb : q.busy = true) : q.Walking := by
  have hw := h.walk
  rwa [if_pos hb] at hw

theorem Accounting.idle {q : WireQueue} (h : Accounting q) (hb : q.busy = false) : q.todo = [] := by
  have hw := h.walk
  rwa [if_neg (by simp [hb])] at hw

theorem Accounting.number_lt {q : WireQueue} (h : Accounting q) {n : Nat}
    (hn : n ∈ q.messagesArray.map Message.number) : n < q.added.length := by
  obtain ⟨m, hm, rfl⟩ := List.mem_map.mp hn
  obtain ⟨seg, hseg, -, -⟩ := h.entry m hm
  exact (List.getElem?_eq_some_iff.mp hseg).1

theorem Accounting.add {q : WireQueue} (h : Accounting q) (seg : NewSegment) (hb : q.busy = false) :
    Accounting { q with added := q.added ++ [seg], passed := q.passed ++ [q.newMessage seg] } := by
  have hidle := h.idle hb
  have hold : q.messagesArray = q.passed := WireQueue.messagesArray_idle hidle
  let q' : WireQueue :=
    { q with added := q.added ++ [seg], passed := q.passed ++ [q.newMessage seg] }
  have hnew : q'.messagesArray = q.messagesArray ++ [q.newMessage seg] := by
    rw [hold, WireQueue.messagesArray, hidle, List.append_nil]
  have hnumber : (q.newMessage seg).number = q.added.length := rfl
  refine ⟨?_, ?_, ?_, ?_, h.passes, h.visited.mono (fun _ _ hv => hv.grow seg), ?_⟩
  · rw [hnew, List.map_append, List.map_singleton, hnumber, List.pairwise_append]
    refine ⟨h.order, List.pairwise_singleton _ _, fun a ha b hb => ?_⟩
    rw [List.mem_singleton.mp hb]
    exact h.number_lt ha
  · intro m hm
    rw [hnew] at hm
    cases List.mem_append.mp hm with
    | inl hm => exact (h.entry m hm).grow seg
    | inr hm =>
      rw [List.mem_singleton.mp hm]
      refine ⟨seg, by rw [hnumber, List.getElem?_concat_length], rfl, ?_⟩
      rw [hnumber, h.unborn _ (Nat.le_refl _)]
      exact RetriesAt.start seg.valid
  · intro n s hs hn
    rw [hnew, List.map_append, List.map_singleton, hnumber, List.mem_append, List.mem_singleton,
      not_or] at hn
    have hlt : n < q.added.length := by
      have hle := (List.getElem?_eq_some_iff.mp hs).1
      rw [List.length_append, List.length_singleton] at hle
      omega
    rw [List.getElem?_append_left hlt] at hs
    exact h.gone n s hs hn.1
  · intro n hn
    rw [List.length_append] at hn
    exact h.unborn n (by omega)
  · rw [if_neg (by simp [hb])]
    exact hidle

theorem Accounting.stop {q : WireQueue} (h : Accounting q) (self : Nat) (tcb : Tcb)
    (hb : q.busy = false) :
    Accounting { q with passed := q.passed.filterMap (Message.stop self tcb) } := by
  have hidle := h.idle hb
  have hold : q.messagesArray = q.passed := WireQueue.messagesArray_idle hidle
  let q' : WireQueue := { q with passed := q.passed.filterMap (Message.stop self tcb) }
  have hnew : q'.messagesArray = q.messagesArray.filterMap (Message.stop self tcb) := by
    rw [hold, WireQueue.messagesArray, hidle, List.append_nil]
  have hsub : ((q.messagesArray.filterMap (Message.stop self tcb)).map Message.number).Sublist
      (q.messagesArray.map Message.number) := by
    generalize q.messagesArray = ms
    induction ms with
    | nil => exact List.Sublist.refl _
    | cons m ms ih =>
      cases hs : Message.stop self tcb m with
      | none =>
        rw [List.filterMap_cons_none hs]
        exact ih.cons _
      | some m' =>
        have hn : m'.number = m.number := congrArg Account.number (Message.stop_account hs)
        rw [List.filterMap_cons_some hs, List.map_cons, List.map_cons, hn]
        exact ih.cons_cons _
  refine ⟨?_, ?_, ?_, h.unborn, h.passes, h.visited, ?_⟩
  · rw [hnew]
    exact h.order.sublist hsub
  · intro m' hm'
    rw [hnew] at hm'
    obtain ⟨m, hm, hs⟩ := List.mem_filterMap.mp hm'
    exact (h.entry m hm).of_account (Message.stop_account hs)
  · intro n seg hn hgone
    -- what stop_retransmit has removed has been sent no more often than before
    obtain ⟨honce, hconn⟩ := h.bound hn
    exact ⟨honce, fun hs => (hconn hs).1⟩
  · rw [if_neg (by simp [hb])]
    exact hidle

theorem Accounting.begin {q : WireQueue} (h : Accounting q) (hb : q.busy = false) :
    Accounting { q with
      passed := [], todo := q.passed, busy := true, log := q.log ++ [.began q.passed] } := by
  have hold : q.messagesArray = q.passed := WireQueue.messagesArray_idle (h.idle hb)
  have hcount (n : Nat) : transmissions n (q.log ++ [.began q.passed]) = transmissions n q.log :=
    transmissions_quiet rfl n q.log
  have hentry := h.entry
  have horder := h.order
  have hgone := h.gone
  rw [hold] at hentry horder hgone
  refine ⟨horder, fun m hm => (hentry m hm).logged (hcount _), ?_, ?_, h.passes.snoc trivial,
    h.visited.snoc trivial, ?_⟩
  · intro n seg hn hin
    rw [hcount]
    exact hgone n seg hn hin
  · intro n hn
    rw [hcount]
    exact h.unborn n hn
  · rw [if_pos rfl]
    exact ⟨q.log, q.passed, [], rfl, by simp, rfl, rfl⟩

theorem Accounting.finish {q : WireQueue} (h : Accounting q) (hb : q.busy = true)
    (ht : q.todo = []) :
    Accounting { q with busy := false, log := q.log ++ [.ended q.passed] } := by
  have hcount (n : Nat) : transmissions n (q.log ++ [.ended q.passed]) = transmissions n q.log :=
    transmissions_quiet rfl n q.log
  have hpass : CompletedPass q.log q.passed := by
    obtain ⟨before, start, mid, hlog, hmid, hvisits, hleft⟩ := h.walking hb
    rw [ht, List.map_nil, List.append_nil] at hvisits
    rw [ht, List.map_nil, List.filterMap_nil, List.append_nil] at hleft
    exact ⟨before, start, mid, hlog, hmid, hvisits, hleft⟩
  refine ⟨h.order, fun m hm => (h.entry m hm).logged (hcount _), ?_, ?_, h.passes.snoc hpass,
    h.visited.snoc trivial, ?_⟩
  · intro n seg hn hin
    rw [hcount]
    exact h.gone n seg hn hin
  · intro n hn
    rw [hcount]
    exact h.unborn n hn
  · rw [if_neg Bool.false_ne_true]
    exact ht

theorem Accounting.again {q : WireQueue} (h : Accounting q) {m m' : Message} {rest : List Message}
    (hb : q.busy = true) (hq : q.todo = m :: rest) (ha : m'.account = m.account) :
    Accounting { q with todo := m' :: rest, log := q.log ++ [.again m.number] } := by
  let q' : WireQueue := { q with todo := m' :: rest, log := q.log ++ [.again m.number] }
  have hcount (n : Nat) : transmissions n q'.log = transmissions n q.log :=
    transmissions_quiet rfl n q.log
  have hn : m'.number = m.number := congrArg Account.number ha
  have hold : q.messagesArray = q.passed ++ m :: rest := by rw [WireQueue.messagesArray, hq]
  have hnumbers : q'.messagesArray.map Message.number = q.messagesArray.map Message.number := by
    rw [hold]
    simp only [q', WireQueue.messagesArray, List.map_append, List.map_cons, hn]
  have hentry : ∀ x ∈ q'.messagesArray, EntryOk q.added q.log x := by
    intro x hx
    rcases WireQueue.mem_swapped hx with rfl | hx
    · exact (h.entry m (WireQueue.mem_current hq)).of_account ha
    · exact h.entry x (WireQueue.mem_others hq hx)
  obtain ⟨before, start, mid, hlog, hmid, hvisits, hleft⟩ := h.walking hb
  refine ⟨by rw [hnumbers]; exact h.order, fun x hx => (hentry x hx).logged (hcount _), ?_, ?_,
    h.passes.snoc trivial, h.visited.snoc trivial, ?_⟩
  · intro n seg hs hin
    rw [hnumbers] at hin
    rw [hcount]
    exact h.gone n seg hs hin
  · intro n hle
    rw [hcount]
    exact h.unborn n hle
  · rw [if_pos hb]
    refine ⟨before, start, mid ++ [.again m.number], ?_, ?_, ?_, ?_⟩
    · simp only [hlog, List.append_assoc, List.cons_append]
    · intro x hx
      cases List.mem_append.mp hx with
      | inl hx => exact hmid x hx
      | inr hx =>
        rw [List.mem_singleton.mp hx]
        rfl
    · have hquiet : visits [.again m.number] = [] := rfl
      rw [hq] at hvisits
      rw [visits_append, hquiet, List.append_nil, ← hvisits, List.map_cons, List.map_cons, hn]
    · rw [hq] at hleft
      rw [← hleft, List.map_cons, List.map_cons, ha]

section Out
variable {q : WireQueue} {m m' : Message} {rest : List Message} {added : List NewSegment}
  {log log' writes : List Note}

def Message.visit (m : Message) : Visit where
  number := m.number
  removed := (retriesLeft m.retries).isNone
  signalled := if expires m.retries then some m.tcb else none

def Message.left (m m' : Message) : List Message :=
  ((retriesLeft m.retries).map fun k => { m' with retries := k }).toList

theorem transmissions_out (hquiet : ∀ n, transmissions n writes = 0) (log : List Note)
    (m : Message) (n : Nat) :
    transmissions n (log ++ writes ++ [.visited m.visit]) =
      transmissions n log + if m.number = n then 1 else 0 := by
  rw [transmissions_append, transmissions_append, hquiet, Nat.add_zero, transmissions_visited]
  rfl

theorem left_number (ha : m'.account = m.account) {x : Message} (hx : x ∈ m.left m') :
    x.number = m.number := by
  obtain ⟨k, hk, rfl⟩ := Option.map_eq_some_iff.mp (Option.mem_toList.mp hx)
  exact congrArg Account.number ha

theorem left_accounts (ha : m'.account = m.account) :
    (m.left m').map Message.account = [m.account].filterMap Account.afterPass := by
  have haccount : Account.afterPass m.account =
      (retriesLeft m.retries).map fun k => { m.account with retries := k } := rfl
  rw [Message.left]
  cases hl : retriesLeft m.retries with
  | none =>
    rw [hl] at haccount
    rw [List.filterMap_cons_none haccount]
    rfl
  | some k =>
    rw [hl] at haccount
    rw [List.filterMap_cons_some haccount, ← ha]
    rfl

/-- The other entries have other numbers. -/
theorem Accounting.others_apart (h : Accounting q) (hq : q.todo = m :: rest) :
    ∀ x ∈ q.passed ++ rest, m.number ≠ x.number := by
  have horder := h.order
  rw [WireQueue.messagesArray, hq, List.map_append, List.map_cons, List.pairwise_append,
    List.pairwise_cons] at horder
  obtain ⟨-, ⟨hbehind, -⟩, hfront⟩ := horder
  intro x hx
  cases List.mem_append.mp hx with
  | inl hx =>
    exact Nat.ne_of_gt (hfront x.number (List.mem_map_of_mem hx) m.number List.mem_cons_self)
  | inr hx => exact Nat.ne_of_lt (hbehind x.number (List.mem_map_of_mem hx))

theorem numbers_out (hq : q.todo = m :: rest) (ha : m'.account = m.account) :
    ((q.passed ++ m.left m' ++ rest).map Message.number).Sublist
      (q.messagesArray.map Message.number) := by
  have hn : m'.number = m.number := congrArg Account.number ha
  rw [WireQueue.messagesArray, hq, Message.left, List.append_assoc]
  cases retriesLeft m.retries with
  | none => exact ((List.Sublist.refl _).append ((List.Sublist.refl rest).cons m)).map _
  | some k =>
    simp only [Option.map_some, Option.toList_some, List.map_append, List.map_cons,
      List.map_nil, hn]
    exact List.Sublist.refl _

/-- An entry that is no longer there was not there before, or it has just been removed. -/
theorem number_gone (hq : q.todo = m :: rest) {n : Nat} (hmn : m.number ≠ n)
    (hin : n ∉ (q.passed ++ m.left m' ++ rest).map Message.number) :
    n ∉ q.messagesArray.map Message.number := by
  intro hold
  refine hin ?_
  rw [WireQueue.messagesArray, hq] at hold
  simp only [List.map_append, List.map_cons, List.mem_append, List.mem_cons] at hold ⊢
  rcases hold with hp | hm | hp
  · exact .inl (.inl hp)
  · exact absurd hm.symm hmn
  · exact .inr hp

theorem EntryOk.left (h : EntryOk added log m) (ha : m'.account = m.account)
    (hcount : transmissions m.number log' = transmissions m.number log + 1) {x : Message}
    (hx : x ∈ m.left m') : EntryOk added log' x := by
  obtain ⟨seg, hseg, htcb, hr⟩ := h
  have hn := left_number ha hx
  obtain ⟨k, hk, rfl⟩ := Option.map_eq_some_iff.mp (Option.mem_toList.mp hx)
  have ht : m'.tcb = m.tcb := congrArg Account.tcb ha
  refine ⟨seg, hn ▸ hseg, ht.trans htcb, ?_⟩
  rw [hn, hcount]
  exact hr.next hk

theorem EntryOk.gone (h : EntryOk added log m)
    (hcount : transmissions m.number log' = transmissions m.number log + 1) {seg : NewSegment}
    (hseg : added[m.number]? = some seg) :
    (seg.retries = retriesSendonce → transmissions m.number log' ≤ 1) ∧
    (seg.retries = retriesConnMax → transmissions m.number log' ≤ 10) := by
  obtain ⟨seg', hseg', -, hr⟩ := h
  obtain ⟨honce, hconn⟩ := hr.bound
  rw [Option.some.inj (hseg.symm.trans hseg'), hcount]
  exact ⟨fun hm => by rw [honce hm], fun hm => Nat.succ_le_succ (hconn hm)⟩

theorem EntryOk.visited (h : EntryOk added log m) (hquiet : ∀ n, transmissions n writes = 0) :
    VisitsOk added (log ++ writes) (.visited m.visit) := by
  obtain ⟨seg, hseg, htcb, hr⟩ := h
  have hpast : transmissions m.number (log ++ writes) = transmissions m.number log := by
    rw [transmissions_append, hquiet, Nat.add_zero]
  refine ⟨seg, hseg, ?_, ?_⟩
  · rw [Message.visit, hpast]
    exact hr.left_none_iff
  · rw [Message.visit, hpast]
    simp only [hr.expires_iff, htcb]

theorem passOk_inPass {past : List Note} {x : Note} (hx : x.inPass = true) : PassOk past x := by
  cases x with
  | ended left => exact absurd hx Bool.false_ne_true
  | _ => trivial

theorem visitsOk_quiet {past : List Note} {x : Note} (hx : x.visitNumber = none) :
    VisitsOk added past x := by
  cases x with
  | visited v => simp [Note.visitNumber] at hx
  | _ => trivial

/-- The pass has come past one more entry. -/
theorem WireQueue.Walking.out (h : q.Walking) (hq : q.todo = m :: rest)
    (ha : m'.account = m.account) (hin : ∀ x ∈ writes, x.inPass = true)
    (hno : visits writes = []) :
    WireQueue.Walking { q with
      passed := q.passed ++ m.left m'
      todo := rest
      log := q.log ++ writes ++ [.visited m.visit] } := by
  obtain ⟨before, start, mid, hlog, hmid, hvisits, hleft⟩ := h
  refine ⟨before, start, mid ++ writes ++ [.visited m.visit], ?_, ?_, ?_, ?_⟩
  · simp only [hlog, List.append_assoc, List.cons_append]
  · intro x hx
    simp only [List.mem_append, List.mem_singleton] at hx
    rcases hx with (hx | hx) | rfl
    · exact hmid x hx
    · exact hin x hx
    · rfl
  · have hone : visits [.visited m.visit] = [m.number] := rfl
    rw [hq, List.map_cons] at hvisits
    rw [visits_append, visits_append, hno, hone, List.append_nil, List.append_assoc,
      List.singleton_append, hvisits]
  · have hcons : ∀ xs : List Account, (m.account :: xs).filterMap Account.afterPass =
        [m.account].filterMap Account.afterPass ++ xs.filterMap Account.afterPass := fun xs => by
      rw [← List.filterMap_append, List.singleton_append]
    rw [hq, List.map_cons, hcons] at hleft
    rw [← hleft, List.map_append, left_accounts ha, List.append_assoc]

end Out

theorem Accounting.out {q : WireQueue} (h : Accounting q) {m m' : Message} {rest : List Message}
    (out : Output) (hb : q.busy = true) (hq : q.todo = m :: rest) (ha : m'.account = m.account) :
    Accounting { q with
      passed := q.passed ++ m.left m'
      todo := rest
      log := q.log ++ WireQueue.writeNotes m.reset out ++ [.visited m.visit] } := by
  obtain ⟨hquiet, hnovisits, hwrites⟩ := writeNotes_quiet m.reset out
  generalize WireQueue.writeNotes m.reset out = writes at hquiet hnovisits hwrites
  have hcount := transmissions_out hquiet q.log m
  have hone : transmissions m.number (q.log ++ writes ++ [.visited m.visit]) =
      transmissions m.number q.log + 1 := (hcount m.number).trans (by rw [if_pos rfl])
  have hmore {n : Nat} (hmn : m.number ≠ n) :
      transmissions n (q.log ++ writes ++ [.visited m.visit]) = transmissions n q.log :=
    (hcount n).trans (by rw [if_neg hmn, Nat.add_zero])
  have hentry := h.entry m (WireQueue.mem_current hq)
  refine ⟨h.order.sublist (numbers_out hq ha), ?_, ?_, ?_, ?_, ?_, ?_⟩
  · intro x hx
    cases WireQueue.mem_between hx with
    | inl hx => exact hentry.left ha hone hx
    | inr hx =>
      exact (h.entry x (WireQueue.mem_others hq hx)).logged (hmore (h.others_apart hq x hx))
  · intro n seg hs hin
    by_cases hmn : m.number = n
    · subst hmn
      exact hentry.gone hone hs
    · rw [hmore hmn]
      exact h.gone n seg hs (number_gone hq hmn hin)
  · intro n hle
    have hlt := h.number_lt (List.mem_map_of_mem (f := Message.number) (WireQueue.mem_current hq))
    rw [hmore (Nat.ne_of_lt (Nat.lt_of_lt_of_le hlt hle)), h.unborn n hle]
  · exact (h.passes.append fun x hx past => passOk_inPass (hwrites x hx).1).snoc trivial
  · exact (h.visited.append fun x hx past => visitsOk_quiet (hwrites x hx).2).snoc
      (hentry.visited hquiet)
  · rw [if_pos hb]
    exact (h.walking hb).out hq ha (fun x hx => (hwrites x hx).1) hnovisits

theorem Accounting.step {q : WireQueue} (h : Accounting q) (remoteIp : Nat → UInt32)
    (e : QueueEvent) :
    Accounting (queueStep remoteIp q e) := by
  have hstep := queueStep_cases remoteIp q e
  generalize queueStep remoteIp q e = q' at hstep
  have haccount {m m' : Message} {out : Output}
      (hout : m.reset.ipOutput routeInit q.cache (remoteIp m.tcb) = (out, m')) : m'.account =
        m.account := by
    have hsame := Message.ipOutput_account routeInit q.cache (remoteIp m.tcb) m.reset
    rw [hout] at hsame
    exact hsame
  cases hstep with
  | same => exact h
  | arp cache => exact ⟨h.order, h.entry, h.gone, h.unborn, h.passes, h.visited, h.walk⟩
  | add seg hb => exact h.add seg hb
  | stop self tcb hb => exact h.stop self tcb hb
  | begin hb => exact h.begin hb
  | again m m' rest src dst hb hq hout => exact h.again hb hq (haccount hout)
  | out m m' rest out hb hq hout hn => exact h.out out hb hq (haccount hout)
  | finish hb ht => exact h.finish hb ht

theorem accounting_start (cache : List ArpCacheEntry) : Accounting (emptyQueue cache) where
  order := List.Pairwise.nil
  entry := by simp [emptyQueue, WireQueue.messagesArray]
  gone := by simp [emptyQueue]
  unborn := fun _ _ => rfl
  passes := each_nil _
  visited := each_nil _
  walk := rfl

theorem accounting_run (remoteIp : Nat → UInt32) (cache : List ArpCacheEntry)
    (es : List QueueEvent) :
    Accounting (run (queueStep remoteIp) (emptyQueue cache) es) :=
  run_invariant (queueStep remoteIp) (P := fun _ _ => True) (fun _ e h _ => h.step remoteIp e)
    (accounting_start cache) (along_of_forall _ (fun _ _ _ => trivial) _)

end Invariant

theorem retry_accounting (remoteIp : Nat → UInt32) (cache : List ArpCacheEntry)
    (es : List QueueEvent) :
    let q := run (queueStep remoteIp) (emptyQueue cache) es
    (∀ past left rest, q.log = past ++ .ended left :: rest → CompletedPass past left) ∧
    (∀ n seg, q.added[n]? = some seg →
      (seg.retries = retriesSendonce → transmissions n q.log ≤ 1) ∧
      (seg.retries = retriesConnMax → transmissions n q.log ≤ 10 ∧
        (transmissions n q.log = 10 → n ∉ q.messagesArray.map Message.number)) ∧
      ∀ past v rest, q.log = past ++ .visited v :: rest → v.number = n → VisitOk seg past v) ∧
    (q.messagesArray.map Message.number).Pairwise (· < ·) := by
  intro q
  have h : Accounting q := accounting_run remoteIp cache es
  refine ⟨fun past left rest hlog => h.passes past _ rest hlog, fun n seg hn => ?_, h.order⟩
  obtain ⟨honce, hconn⟩ := h.bound hn
  refine ⟨honce, hconn, fun past v rest hlog hv => ?_⟩
  obtain ⟨seg', hseg, hok⟩ := h.visited past _ rest hlog
  rw [hv] at hseg
  rw [Option.some.inj (hn.symm.trans hseg)]
  exact hok

end AnpNetstack.Wire
