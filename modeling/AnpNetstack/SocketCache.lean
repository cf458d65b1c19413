import AnpNetstack.Descriptors

/-! The descriptors in use and the socket cache are two accounts of the same set, kept by
different functions. -/
namespace AnpNetstack
open Runs

structure Agree (t : Table) : Prop where
  inUse : ∀ i, 0 ≤ i → i < fdMaxVal - fdStartVal →
    (t.fdInUse i = true ↔ fdStartVal + i ∈ t.sockets.map AnpSocket.fd)
  unique : (t.sockets.map AnpSocket.fd).Nodup
  range : ∀ fd ∈ t.sockets.map AnpSocket.fd, fdStartVal ≤ fd ∧ fd < fdMaxVal

def LeastFree (t : Table) (i : Nat) : Prop :=
  i < (fdMaxVal - fdStartVal).toNat ∧ t.fdInUse i = false ∧ ∀ k < i, t.fdInUse k = true

def AllInUse (t : Table) : Prop := ∀ i < (fdMaxVal - fdStartVal).toNat, t.fdInUse (i : Nat) = true

section NextFree
variable {inUse : Int → Bool} {i n j : Nat}

theorem nextFree_some (h : nextFree inUse i n = some j) :
    j < i + n ∧ inUse j = false ∧ ∀ k, i ≤ k → k < j → inUse k = true := by
  induction n generalizing i with
  | zero => simp [nextFree] at h
  | succ n ih =>
    simp only [nextFree] at h
    split_ifs at h with hi
    · obtain ⟨hj, hfree, hbefore⟩ := ih h
      refine ⟨by omega, hfree, fun k hk hkj => ?_⟩
      rcases Nat.eq_or_lt_of_le hk with rfl | hlt
      · exact hi
      · exact hbefore k hlt hkj
    · cases h
      refine ⟨by omega, by simpa using hi, fun k hk hkj => ?_⟩
      omega

theorem nextFree_none (h : nextFree inUse i n = none) (k : Nat) (hik : i ≤ k) (hkn : k < i + n) :
    inUse k = true := by
  induction n generalizing i with
  | zero => omega
  | succ n ih =>
    simp only [nextFree] at h
    split_ifs at h with hi
    rcases Nat.eq_or_lt_of_le hik with rfl | hlt
    · exact hi
    · exact ih h hlt (by omega)

end NextFree

section Socket
variable {t : Table} {domain type protocol : Int32}

theorem getNextFd_cases (t : Table) :
    (∃ i : Nat, LeastFree t i ∧
      getNextFd t = ({ t with fdInUse := Function.update t.fdInUse i true }, i + fdStartVal)) ∨
    AllInUse t ∧ getNextFd t = (t, -1) := by
  unfold getNextFd
  cases hn : nextFree t.fdInUse 0 (fdMaxVal - fdStartVal).toNat with
  | none => exact .inr ⟨fun k hk => nextFree_none hn k (by omega) (by omega), rfl⟩
  | some i =>
    obtain ⟨hi, hfree, hbefore⟩ := nextFree_some hn
    exact .inl ⟨i, ⟨by omega, hfree, fun k hk => hbefore k (by omega) hk⟩, rfl⟩

/-- What socket does for a supported type when it has the memory for a socket. -/
theorem socket_cases (t : Table) (hsup : isSocketSupported domain type protocol = true) :
    (∃ i : Nat, LeastFree t i ∧ socket t domain type protocol true =
      (Table.log { t with
          fdInUse := Function.update t.fdInUse i true
          sockets := t.sockets ++ [{ fd := i + fdStartVal, connInfo := none }] }
            (i + fdStartVal) .opened,
        .fd (i + fdStartVal))) ∨
    AllInUse t ∧ socket t domain type protocol true = (t, .error .emfile) := by
  simp only [socket, hsup, Bool.not_true, Bool.false_eq_true, if_false]
  rcases getNextFd_cases t with ⟨i, hi, hr⟩ | ⟨hall, hr⟩
  · have hfd : ¬ (i : Int) + fdStartVal = -1 := by
      have hstart : fdStartVal = 1000000 := rfl
      omega
    refine .inl ⟨i, hi, ?_⟩
    simp only [hr]
    rw [if_neg hfd]
  · refine .inr ⟨hall, ?_⟩
    simp only [hr, if_true]

theorem LeastFree.not_allInUse {i : Nat} (h : LeastFree t i) : ¬ AllInUse t := by
  intro hall
  have := hall i h.1
  rw [h.2.1] at this
  cases this

end Socket

theorem Agree.frame {t t' : Table} (h : Agree t) (hu : t'.fdInUse = t.fdInUse)
    (hf : t'.sockets.map AnpSocket.fd = t.sockets.map AnpSocket.fd) : Agree t' where
  inUse := by
    rw [hu, hf]
    exact h.inUse
  unique := by
    rw [hf]
    exact h.unique
  range := by
    rw [hf]
    exact h.range

theorem agree_opened {t : Table} (h : Agree t) {i : Nat} (hi : LeastFree t i) :
    Agree (Table.log { t with
      fdInUse := Function.update t.fdInUse i true
      sockets := t.sockets ++ [{ fd := i + fdStartVal, connInfo := none }] }
        (i + fdStartVal) .opened) := by
  have hbound : (i : Int) < fdMaxVal - fdStartVal := by
    have := hi.1
    omega
  have hnew : fdStartVal + (i : Int) ∉ t.sockets.map AnpSocket.fd := by
    rw [← h.inUse i (by omega) hbound, hi.2.1]
    decide
  have hmap : (t.sockets ++ [AnpSocket.mk (i + fdStartVal) none]).map AnpSocket.fd =
      t.sockets.map AnpSocket.fd ++ [fdStartVal + (i : Int)] := by
    rw [List.map_append, List.map_singleton, Int.add_comm]
  constructor
  · intro k hk hk'
    simp only [Table.log, hmap, List.mem_append, List.mem_singleton]
    by_cases he : k = i
    · simp [he]
    · rw [Function.update_of_ne he, h.inUse k hk hk']
      have hne : ¬ fdStartVal + k = fdStartVal + i := by omega
      simp only [hne, or_false]
  · simp only [Table.log, hmap]
    refine List.Nodup.append h.unique (List.nodup_singleton _) ?_
    rw [List.disjoint_singleton]
    exact hnew
  · intro fd hfd
    simp only [Table.log, hmap, List.mem_append, List.mem_singleton] at hfd
    cases hfd with
    | inl hold => exact h.range fd hold
    | inr hfd => omega

theorem agree_dropped {t : Table} (h : Agree t) {sock : AnpSocket} (hs : sock ∈ t.sockets) :
    Agree (freeAnpSocket t sock) := by
  have hmap : (freeAnpSocket t sock).sockets.map AnpSocket.fd =
      (t.sockets.map AnpSocket.fd).erase sock.fd := by
    simp only [freeAnpSocket, List.erase_eq_eraseP, List.eraseP_map]
    congr 2
    funext s
    simp [eq_comm, Bool.beq_eq_decide_eq]
  have hrange := h.range sock.fd (List.mem_map_of_mem hs)
  constructor
  · intro k hk hk'
    rw [hmap, h.unique.mem_erase_iff]
    simp only [freeAnpSocket]
    by_cases he : k = sock.fd - fdStartVal
    · have hfd : fdStartVal + k = sock.fd := by omega
      simp [he]
    · have hne : fdStartVal + k ≠ sock.fd := by omega
      rw [Function.update_of_ne he, h.inUse k hk hk']
      simp only [hne, ne_eq, not_false_eq_true, true_and]
  · rw [hmap]
    exact h.unique.erase _
  · intro fd hfd
    rw [hmap] at hfd
    exact h.range fd (List.mem_of_mem_erase hfd)

theorem agree_connect {t : Table} (h : Agree t) (fd : Int) (sinPort : UInt16) (sinAddr : UInt32)
    (alloc : Bool) :
    Agree (connectAttach t fd sinPort sinAddr alloc).1 := by
  unfold connectAttach
  split
  · exact h
  · split
    · exact h
    · next sock hs =>
      split
      · exact (agree_dropped h (List.mem_of_find?_eq_some hs)).frame rfl rfl
      · exact h.frame rfl (setConnInfo_fds fd _ t.sockets)

theorem fillStep_sockets (t : Table) (b : Nat) (f : Fill) :
    (fillStep t b f).sockets = t.sockets := by
  cases f with
  | localIp =>
    simp only [fillStep]
    split <;> rfl
  | _ => rfl

theorem agree_step {t : Table} (h : Agree t) (e : TableEvent) : Agree (tableStep t e) := by
  cases e with
  | socket domain type protocol alloc =>
    by_cases hsup : isSocketSupported domain type protocol = true
    · cases alloc with
      | true =>
        rcases socket_cases t hsup with ⟨i, hi, hs⟩ | ⟨-, hs⟩
        · simp only [tableStep, hs]
          exact agree_opened h hi
        · simp only [tableStep, hs]
          exact h
      | false => simpa [tableStep, socket, hsup] using h
    · simpa [tableStep, socket, hsup] using h
  | connect fd sinPort sinAddr alloc => exact agree_connect h fd sinPort sinAddr alloc
  | connectFill i =>
    simp only [tableStep, connectFill]
    split
    · exact h.frame (fillStep_frame _ _ _).1 (by rw [fillStep_sockets])
    · exact h
  | send fd => exact h
  | recv fd => exact h
  | close fd established =>
    simp only [tableStep, closeWait]
    split
    · split_ifs
      · exact h.frame rfl rfl
      · exact h
    · exact h
  | closeReturn i done =>
    simp only [tableStep, closeReturn]
    split
    · exact h
    · next fd hi =>
      split_ifs
      · exact h.frame rfl (setConnInfo_fds fd none t.sockets)
      · exact h.frame rfl rfl

theorem initTable_agree (outside : Int → Bool) : Agree (initTable outside) where
  inUse i hi hi' := by
    have hcell : (initTable outside).fdInUse i = false := if_pos ⟨hi, hi'⟩
    rw [hcell]
    simp [initTable]
  unique := List.nodup_nil
  range fd hfd := by simp [initTable] at hfd

theorem agree_run (outside : Int → Bool) (es : List TableEvent) :
    Agree (run tableStep (initTable outside) es) := by
  refine run_invariant _ (P := fun _ _ => True) (fun t e h _ => ?_) (initTable_agree outside)
    (along_of_forall _ (fun _ _ _ => trivial) _)
  exact agree_step h e

theorem descriptors_agree (outside : Int → Bool) (es : List TableEvent)
    (domain type protocol : Int32) (hsup : isSocketSupported domain type protocol = true) :
    let t := run tableStep (initTable outside) es
    let r := socket t domain type protocol true
    Agree t ∧ (¬ AllInUse t → ∃ i, LeastFree t i ∧ r.2 = .fd (fdStartVal + i)) ∧
      (r.2 = .error .emfile ↔ AllInUse t) ∧ (AllInUse t → r.1 = t) ∧
      socket t domain type protocol false = (t, .error .enomem) := by
  intro t r
  have hnomem : socket t domain type protocol false = (t, .error .enomem) := by simp [socket, hsup]
  refine ⟨agree_run outside es, ?_⟩
  rcases socket_cases t hsup with ⟨i, hi, hs⟩ | ⟨hall, hs⟩
  · have hr : r.2 = .fd (fdStartVal + i) := by rw [Int.add_comm, show r = _ from hs]
    refine ⟨fun _ => ⟨i, hi, hr⟩, ?_, fun hall => absurd hall hi.not_allInUse, hnomem⟩
    rw [hr]
    exact ⟨fun h => (nomatch h), fun hall => absurd hall hi.not_allInUse⟩
  · have hr : r = (t, .error .emfile) := hs
    rw [hr]
    exact ⟨fun h => absurd hall h, ⟨fun _ => hall, fun _ => rfl⟩, fun _ => rfl, hnomem⟩

theorem descriptors_agree_sample :
    let t := run tableStep (initTable fun _ => false) openAndClose
    isSocketSupported 2 1 0 = true ∧ Agree t ∧
      (¬ AllInUse t → ∃ i, LeastFree t i ∧ (socket t 2 1 0 true).2 = .fd (fdStartVal + i)) :=
  have h := descriptors_agree (fun _ => false) openAndClose 2 1 0 (by decide)
  ⟨by decide, h.1, h.2.1⟩

/-- Without memory for the socket there is neither a descriptor nor EMFILE. -/
theorem socket_without_memory :
    ¬ ∀ (es : List TableEvent) (alloc : Bool),
      let t := run tableStep (initTable fun _ => false) es
      ∀ i, LeastFree t i → (socket t 2 1 0 alloc).2 = .fd (fdStartVal + i) := by
  intro h
  have hfree : LeastFree (initTable fun _ => false) 0 :=
    ⟨by decide, rfl, fun k hk => absurd hk (Nat.not_lt_zero k)⟩
  exact nomatch h [] false 0 hfree

end AnpNetstack
