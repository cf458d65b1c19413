import AnpNetstack.SocketTable

/-! Which calls on a descriptor go to libc. The bit of a descriptor in fd_in_use follows
socket and a connect that runs out of memory; close does not touch it. -/
namespace AnpNetstack
open Runs

def InArray (fd : Int) : Prop := 0 ≤ fd - fdStartVal ∧ fd - fdStartVal < fdMaxVal - fdStartVal

instance (fd : Int) : Decidable (InArray fd) := inferInstanceAs (Decidable (_ ∧ _))

/-- What has happened to `fd` since socket last returned it, if it ever did. -/
def track (fd : Int) (since : Option (List Life)) (x : Int × Life) : Option (List Life) :=
  if x.1 = fd then
    match x.2 with
    | .opened => some []
    | .closed => since.map (· ++ [.closed])
    | .dropped => since.map (· ++ [.dropped])
  else since

def sinceOpened (life : List (Int × Life)) (fd : Int) : Option (List Life) :=
  life.foldl (track fd) none

def OpenWithout (x : Life) (life : List (Int × Life)) (fd : Int) : Prop :=
  ∃ l, sinceOpened life fd = some l ∧ x ∉ l

theorem sinceOpened_append (life : List (Int × Life)) (x : Int × Life) (fd : Int) :
    sinceOpened (life ++ [x]) fd = track fd (sinceOpened life fd) x := by
  simp [sinceOpened]

section Track
variable {life : List (Int × Life)} {fd : Int}

theorem openWithout_other {fd' : Int} {x y : Life} (h : fd' ≠ fd) :
    OpenWithout x (life ++ [(fd', y)]) fd ↔ OpenWithout x life fd := by
  simp [OpenWithout, sinceOpened_append, track, h]

theorem openWithout_opened (x : Life) : OpenWithout x (life ++ [(fd, Life.opened)]) fd := by
  simp [OpenWithout, sinceOpened_append, track]

theorem openWithout_closed :
    OpenWithout .dropped (life ++ [(fd, Life.closed)]) fd ↔ OpenWithout .dropped life fd := by
  simp only [OpenWithout, sinceOpened_append, track, if_true]
  cases sinceOpened life fd <;> simp

theorem openWithout_dropped : ¬ OpenWithout .dropped (life ++ [(fd, Life.dropped)]) fd := by
  simp only [OpenWithout, sinceOpened_append, track, if_true]
  cases sinceOpened life fd <;> simp

end Track

def FdInv (t : Table) : Prop :=
  ∀ fd, InArray fd → (isAnpSockfd t fd = true ↔ OpenWithout .dropped t.life fd)

theorem fdInv_frame {t t' : Table} (h : FdInv t) (hu : t'.fdInUse = t.fdInUse)
    (hl : t'.life = t.life) : FdInv t' := by
  intro fd hfd
  rw [isAnpSockfd, hu, hl]
  exact h fd hfd

theorem fdInv_socket {t : Table} (h : FdInv t) (domain type protocol : Int32) (alloc : Bool) :
    FdInv (socket t domain type protocol alloc).1 := by
  unfold socket getNextFd
  split_ifs
  · exact h
  · exact h
  · cases hn : nextFree t.fdInUse 0 (fdMaxVal - fdStartVal).toNat with
    | none => exact h
    | some i =>
      dsimp only
      split_ifs
      · exact h
      · intro fd hfd
        by_cases he : fd = i + fdStartVal
        · simp only [isAnpSockfd, Table.log, he, Int.add_sub_cancel, Function.update_self, true_iff]
          exact openWithout_opened .dropped
        · have hne : fd - fdStartVal ≠ i := by omega
          simp only [isAnpSockfd, Table.log, Function.update_of_ne hne,
            openWithout_other (Ne.symm he)]
          exact h fd hfd

theorem fdInv_connect {t : Table} (h : FdInv t) (fd : Int) (sinPort : UInt16) (sinAddr : UInt32)
    (alloc : Bool) : FdInv (connectAttach t fd sinPort sinAddr alloc).1 := by
  by_cases hfd : isAnpSockfd t fd = true
  · cases hs : getAnpSocket t fd with
    | none =>
      simp only [connectAttach, hfd, hs, Bool.not_true, Bool.false_eq_true, if_false]
      exact h
    | some sock =>
      have hsock : sock.fd = fd := by simpa using List.find?_some hs
      cases alloc with
      | true =>
        simp only [connectAttach, hfd, hs, Bool.not_true, Bool.false_eq_true, if_false]
        exact fdInv_frame h rfl rfl
      | false =>
        simp only [connectAttach, hfd, hs, Bool.not_true, Bool.not_false,
          Bool.false_eq_true, if_false, if_true]
        intro fd' hfd'
        by_cases he : fd' = fd
        · simp only [isAnpSockfd, Table.log, freeAnpSocket, he, hsock, Function.update_self,
            Bool.false_eq_true, false_iff]
          exact openWithout_dropped
        · have hne : fd' - fdStartVal ≠ sock.fd - fdStartVal := by omega
          simp only [isAnpSockfd, Table.log, freeAnpSocket, Function.update_of_ne hne,
            openWithout_other (Ne.symm he)]
          exact h fd' hfd'
  · simp only [connectAttach, hfd, Bool.not_false, if_true]
    exact h

theorem fillStep_frame (t : Table) (b : Nat) (f : Fill) :
    (fillStep t b f).fdInUse = t.fdInUse ∧ (fillStep t b f).life = t.life := by
  cases f with
  | localIp =>
    simp only [fillStep]
    split <;> exact ⟨rfl, rfl⟩
  | _ => exact ⟨rfl, rfl⟩

theorem fdInv_step {t : Table} (h : FdInv t) (e : TableEvent) : FdInv (tableStep t e) := by
  cases e with
  | socket domain type protocol alloc => exact fdInv_socket h domain type protocol alloc
  | connect fd sinPort sinAddr alloc => exact fdInv_connect h fd sinPort sinAddr alloc
  | connectFill i =>
    simp only [tableStep, connectFill]
    split
    · exact fdInv_frame h (fillStep_frame _ _ _).1 (fillStep_frame _ _ _).2
    · exact h
  | send fd => exact h
  | recv fd => exact h
  | close fd established =>
    simp only [tableStep, closeWait]
    split
    · split_ifs
      · exact fdInv_frame h rfl rfl
      · exact h
    · exact h
  | closeReturn i done =>
    simp only [tableStep, closeReturn]
    split
    · exact h
    · next fd hi =>
      split_ifs
      · intro fd' hfd'
        by_cases he : fd' = fd
        · rw [he] at hfd' ⊢
          exact (h fd hfd').trans openWithout_closed.symm
        · exact (h fd' hfd').trans (openWithout_other (Ne.symm he)).symm
      · exact fdInv_frame h rfl rfl

theorem initTable_fdInv (outside : Int → Bool) : FdInv (initTable outside) := by
  intro fd hfd
  have hcell : isAnpSockfd (initTable outside) fd = false := if_pos hfd
  rw [hcell]
  simp [OpenWithout, sinceOpened, initTable]

theorem fdInv_run {t : Table} (h : FdInv t) (es : List TableEvent) :
    FdInv (run tableStep t es) := by
  induction es generalizing t with
  | nil => exact h
  | cons e es ih => exact ih (fdInv_step h e)

inductive FdCall where
  | connect (sinPort : UInt16) (sinAddr : UInt32) (alloc : Bool)
  | send
  | recv
  | close (established : Bool)

def reply (t : Table) (fd : Int) : FdCall → Reply
  | .connect sinPort sinAddr alloc => (connectAttach t fd sinPort sinAddr alloc).2
  | .send => withConnInfo t fd
  | .recv => withConnInfo t fd
  | .close established => (closeWait t fd established).2

theorem withConnInfo_libc (t : Table) (fd : Int) :
    withConnInfo t fd ≠ .libc ↔ isAnpSockfd t fd = true := by
  by_cases hfd : isAnpSockfd t fd = true
  · simp only [withConnInfo, hfd, Bool.not_true, Bool.false_eq_true, if_false, iff_true]
    split
    · simp
    · split <;> simp
  · simp [withConnInfo, hfd]

theorem reply_libc (t : Table) (fd : Int) (call : FdCall) :
    reply t fd call ≠ .libc ↔ isAnpSockfd t fd = true := by
  cases call with
  | connect sinPort sinAddr alloc =>
    by_cases hfd : isAnpSockfd t fd = true
    · simp only [reply, connectAttach, hfd, Bool.not_true, Bool.false_eq_true, if_false, iff_true]
      split
      · simp
      · split_ifs <;> simp
    · simp [reply, connectAttach, hfd]
  | send => exact withConnInfo_libc t fd
  | recv => exact withConnInfo_libc t fd
  | close established =>
    rw [← withConnInfo_libc]
    simp only [reply, closeWait]
    split
    · next b hb => split_ifs <;> simp [hb]
    · rfl

theorem descriptor_dispatch (outside : Int → Bool) (es : List TableEvent) (fd : Int) :
    let t := run tableStep (initTable outside) es
    (InArray fd ∧ ∀ call, reply t fd call ≠ .libc ↔ OpenWithout .closed t.life fd) ↔
      InArray fd ∧ ∀ l, sinceOpened t.life fd = some l → (.closed ∈ l ↔ .dropped ∈ l) := by
  intro t
  refine and_congr_right (fun hfd => ?_)
  have hbit : isAnpSockfd t fd = true ↔ OpenWithout .dropped t.life fd :=
    fdInv_run (initTable_fdInv outside) es fd hfd
  simp only [reply_libc, hbit]
  have hcalls (p : Prop) : (FdCall → p) ↔ p := ⟨fun h => h .send, fun h _ => h⟩
  rw [hcalls]
  cases hl : sinceOpened t.life fd with
  | none => simp [OpenWithout, hl]
  | some l =>
    simp only [OpenWithout, hl, Option.some.injEq, exists_eq_left', forall_eq']
    tauto

def openAndClose : List TableEvent :=
  [.socket 2 1 0 true, .connect fdStartVal 43211 0x0500000a true, .connectFill 0, .connectFill 0,
    .connectFill 0, .connectFill 0, .close fdStartVal true, .closeReturn 0 true]

/-- The closed descriptor stays with the library, and the test of an ordinary descriptor
reads outside the array. -/
theorem descriptor_kept_after_close :
    let t := run tableStep (initTable (fun _ => false)) openAndClose
    reply t fdStartVal .send = .error .enotconn ∧ ¬ OpenWithout .closed t.life fdStartVal ∧
      ¬ InArray 3 := by
  intro t
  have hsince : sinceOpened t.life fdStartVal = some [.closed] := by decide +kernel
  refine ⟨by decide +kernel, ?_, by decide⟩
  rintro ⟨l, hl, hn⟩
  rw [hsince, Option.some.injEq] at hl
  simp [← hl] at hn

end AnpNetstack
