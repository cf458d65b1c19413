import AnpNetstack.Timers
import AnpNetstack.History

/-! What the timer service keeps to. A timer's record agrees with what the log says about it, the
list holds what is inserted and not freed, and every entry of the log is one that the entries
before it allow. -/
namespace AnpNetstack
open Runs History

def Note.touches : Note → Option Nat
  | .scheduled id _ => some id
  | .called id _ => some id
  | .cancelled id => some id
  | .released id => some id
  | .checked id _ _ => some id
  | _ => none

def Note.tries (id : Nat) : Note → Bool
  | .busy j => j = id
  | .checked j _ _ => j = id
  | _ => false

def Note.starts (id : Nat) : Note → Bool
  | .checked j _ (some _) => j = id
  | _ => false

section Log
variable {log : List Note} {id : Nat} {n : Note}

def Started (log : List Note) (id : Nat) : Prop := ∃ n ∈ log, n.starts id = true

def GivenBack (log : List Note) (id : Nat) : Prop := .cancelled id ∈ log ∨ .released id ∈ log

theorem started_snoc : Started (log ++ [n]) id ↔ Started log id ∨ n.starts id = true := by
  simp [Started, or_and_right, exists_or]

theorem givenBack_snoc :
    GivenBack (log ++ [n]) id ↔ GivenBack log id ∨ n = .cancelled id ∨ n = .released id := by
  simp only [GivenBack, List.mem_append, List.mem_singleton]
  grind

theorem Note.starts_touches (h : n.starts id = true) : n.touches = some id := by
  cases n with
  | checked j k start =>
    cases start with
    | none => simp [Note.starts] at h
    | some x => simpa [Note.starts, Note.touches] using h
  | _ => simp [Note.starts] at h

end Log

structure Cell (log : List Note) (id : Nat) (t : Timer) (req : Request) : Prop where
  scheduled : .scheduled id req ∈ log
  unique : ∀ req', .scheduled id req' ∈ log → req' = req
  expires : t.expires.toNat = req.tick.toNat + req.expire.toNat
  handler : t.handler = req.handler
  arg : t.arg = req.arg
  cancelled : t.cancelled = true ↔ Started log id ∨ .cancelled id ∈ log
  kept : ¬ GivenBack log id → t.refcnt = req.refcnt
  given : GivenBack log id → t.refcnt = req.refcnt - 1 ∧ ∃ op, .called id op ∈ log
  locked : ∀ op, t.lock = some op → .called id op ∈ log ∧ ¬ GivenBack log id
  owned : ∀ op, .called id op ∈ log → req.refcnt = 1

theorem Cell.frame {log : List Note} {id : Nat} {t : Timer} {req : Request}
    (h : Cell log id t req) {n : Note} (hn : n.touches ≠ some id) : Cell (log ++ [n]) id t req := by
  have hmem {m : Note} (hm : m.touches = some id) : m ∈ log ++ [n] ↔ m ∈ log := by
    have hne : m ≠ n := by
      rintro rfl
      exact hn hm
    simp [hne]
  have hstart : Started (log ++ [n]) id ↔ Started log id := by
    rw [started_snoc, or_iff_left]
    exact fun hs => hn (Note.starts_touches hs)
  have hret : GivenBack (log ++ [n]) id ↔ GivenBack log id := or_congr (hmem rfl) (hmem rfl)
  have hcalled (op : TimerOp) : .called id op ∈ log ++ [n] ↔ .called id op ∈ log := hmem rfl
  exact {
    scheduled := (hmem rfl).mpr h.scheduled
    unique := fun req' hreq => h.unique req' ((hmem rfl).mp hreq)
    expires := h.expires
    handler := h.handler
    arg := h.arg
    cancelled := by rw [hstart, hmem rfl, h.cancelled]
    kept := by
      rw [hret]
      exact h.kept
    given := by
      simp only [hret, hcalled]
      exact h.given
    locked := by
      simp only [hret, hcalled]
      exact h.locked
    owned := by
      simp only [hcalled]
      exact h.owned }

def Covered (log : List Note) (rest : List Nat) : Prop :=
  ∃ before mid, log = before ++ .begin :: mid ∧ .begin ∉ mid ∧
    ∀ id, .inserted id ∈ before → (∀ n, .freed id n ∉ before) →
      id ∈ rest ∨ ∃ n ∈ mid, n.tries id = true

section Covered
variable {log : List Note} {rest : List Nat}

theorem Covered.snoc (h : Covered log rest) {n : Note} (hn : n ≠ .begin) :
    Covered (log ++ [n]) rest := by
  obtain ⟨before, mid, rfl, hmid, hall⟩ := h
  refine ⟨before, mid ++ [n], by simp, by simp [hmid, Ne.symm hn], fun id hin hfree => ?_⟩
  rcases hall id hin hfree with hrest | ⟨m, hm, ht⟩
  · exact .inl hrest
  · exact .inr ⟨m, by simp [hm], ht⟩

theorem Covered.tried {id : Nat} (h : Covered log (id :: rest)) {n : Note}
    (hn : n.tries id = true) :
    Covered (log ++ [n]) rest := by
  obtain ⟨before, mid, rfl, hmid, hall⟩ := h
  have hbegin : n ≠ .begin := by
    rintro rfl
    cases hn
  refine ⟨before, mid ++ [n], by simp, by simp [hmid, Ne.symm hbegin], fun j hin hfree => ?_⟩
  rcases hall j hin hfree with hrest | ⟨m, hm, ht⟩
  · rcases List.mem_cons.mp hrest with rfl | hrest
    · exact .inr ⟨n, by simp, hn⟩
    · exact .inl hrest
  · exact .inr ⟨m, by simp [hm], ht⟩

end Covered

def Fires (past : List Note) (id : Nat) (req : Request) (tick : UInt32) : Prop :=
  req.tick.toNat + req.expire.toNat < tick.toNat ∧ ¬ Started past id ∧ .cancelled id ∉ past

def Allowed (past : List Note) : Note → Prop
  | .scheduled id _ => ∀ req, .scheduled id req ∉ past
  | .checked id tick start => ∃ req, .scheduled id req ∈ past ∧
      ((Fires past id req tick ∧ start = some (req.handler, req.arg)) ∨
        (¬ Fires past id req tick ∧ start = none))
  | .freed id refcnt => refcnt = 0 ∧ (Started past id ∨ .cancelled id ∈ past) ∧
      ∃ req, .scheduled id req ∈ past ∧ (req.refcnt = 1 → GivenBack past id)
  | .finish => Covered past []
  | _ => True

section Cells

structure CellsInv (next : Nat) (heap : Nat → Timer) (log : List Note) : Prop where
  fresh : ∀ n ∈ log, ∀ id, n.touches = some id → id < next
  cell : ∀ id < next, ∃ req, Cell log id (heap id) req
  idle : ∀ id, next ≤ id → (heap id).lock = none

variable {next id : Nat} {heap : Nat → Timer} {log : List Note} {n : Note}

theorem CellsInv.skip (h : CellsInv next heap log) (hn : n.touches = none) :
    CellsInv next heap (log ++ [n]) where
  fresh m hm id hid := by
    rcases List.mem_append.mp hm with hm | hm
    · exact h.fresh m hm id hid
    · rw [List.mem_singleton.mp hm, hn] at hid
      cases hid
  cell id hid := by
    obtain ⟨req, hcell⟩ := h.cell id hid
    exact ⟨req, hcell.frame (by simp [hn])⟩
  idle := h.idle

theorem CellsInv.touch (h : CellsInv next heap log) (hid : id < next)
    (hn : n.touches = some id) {t : Timer}
    (ht : ∀ req, Cell log id (heap id) req → Cell (log ++ [n]) id t req) :
    CellsInv next (Function.update heap id t) (log ++ [n]) where
  fresh m hm j hj := by
    rcases List.mem_append.mp hm with hm | hm
    · exact h.fresh m hm j hj
    · rw [List.mem_singleton.mp hm, hn] at hj
      rw [← Option.some.inj hj]
      exact hid
  cell j hj := by
    obtain ⟨req, hcell⟩ := h.cell j hj
    refine ⟨req, ?_⟩
    by_cases he : j = id
    · rw [he, Function.update_self]
      rw [he] at hcell
      exact ht req hcell
    · rw [Function.update_of_ne he]
      refine hcell.frame ?_
      rw [hn]
      exact fun h => he (Option.some.inj h).symm
  idle j hj := by
    rw [Function.update_of_ne (by omega)]
    exact h.idle j hj

theorem CellsInv.schedule (h : CellsInv next heap log) {req : Request}
    (hsum : req.tick.toNat + req.expire.toNat < 2 ^ 31) :
    CellsInv (next + 1)
      (Function.update heap next
        { refcnt := req.refcnt, expires := req.tick + req.expire, cancelled := false,
          handler := req.handler, arg := req.arg, lock := none })
      (log ++ [Note.scheduled next req]) := by
  have hnone {m : Note} (hm : m.touches = some next) : m ∉ log :=
    fun hin => absurd (h.fresh m hin next hm) (by omega)
  have hstart : ¬ Started (log ++ [Note.scheduled next req]) next := by
    rw [started_snoc]
    rintro (⟨m, hm, hs⟩ | hs)
    · exact hnone (Note.starts_touches hs) hm
    · cases hs
  have hret : ¬ GivenBack (log ++ [Note.scheduled next req]) next := by
    have hc : .cancelled next ∉ log := hnone rfl
    have hr : .released next ∉ log := hnone rfl
    simp [GivenBack, hc, hr]
  have hcalled (op : TimerOp) : .called next op ∉ log ++ [Note.scheduled next req] := by
    have hc : .called next op ∉ log := hnone rfl
    simp [hc]
  have hcancel : .cancelled next ∉ log ++ [Note.scheduled next req] := fun h => hret (.inl h)
  have hnew : Cell (log ++ [Note.scheduled next req]) next
      { refcnt := req.refcnt, expires := req.tick + req.expire, cancelled := false,
        handler := req.handler, arg := req.arg, lock := none } req := {
    scheduled := by simp
    unique := fun req' hreq => by
      have hold : .scheduled next req' ∉ log := hnone rfl
      simpa [hold] using hreq
    expires := by
      rw [UInt32.toNat_add]
      omega
    handler := rfl
    arg := rfl
    cancelled := by simp only [hstart, hcancel, Bool.false_eq_true, or_self]
    kept := fun _ => rfl
    given := fun hr => absurd hr hret
    locked := fun op hop => by cases hop
    owned := fun op hop => absurd hop (hcalled op) }
  constructor
  · intro m hm id hid
    rcases List.mem_append.mp hm with hm | hm
    · exact Nat.lt_succ_of_lt (h.fresh m hm id hid)
    · rw [List.mem_singleton.mp hm, Note.touches] at hid
      rw [← Option.some.inj hid]
      exact Nat.lt_succ_self next
  · intro id hid
    by_cases he : id = next
    · rw [he, Function.update_self]
      exact ⟨req, hnew⟩
    · obtain ⟨req', hcell⟩ := h.cell id (by omega)
      rw [Function.update_of_ne he]
      exact ⟨req', hcell.frame fun h => he (Option.some.inj h).symm⟩
  · intro id hid
    rw [Function.update_of_ne (by omega)]
    exact h.idle id (by omega)

end Cells

section Lists

def Note.lists : Note → Bool
  | .inserted _ => true
  | .freed _ _ => true
  | _ => false

structure ListInv (next : Nat) (waiting list : List Nat) (log : List Note) : Prop where
  inserted : ∀ id, .inserted id ∈ log → id < next
  awaited : ∀ id ∈ waiting, id < next ∧ .inserted id ∉ log
  freed : ∀ id n, .freed id n ∈ log → .inserted id ∈ log
  listed : ∀ id, id ∈ list ↔ .inserted id ∈ log ∧ ∀ n, .freed id n ∉ log
  nodupWaiting : waiting.Nodup
  nodup : list.Nodup

variable {next id : Nat} {waiting list : List Nat} {log : List Note} {n : Note}

theorem ListInv.skip (h : ListInv next waiting list log) (hn : n.lists = false) :
    ListInv next waiting list (log ++ [n]) := by
  have hmem {m : Note} (hm : m.lists = true) : m ∈ log ++ [n] ↔ m ∈ log := by
    have hne : m ≠ n := by
      rintro rfl
      simp [hn] at hm
    simp [hne]
  have hin (id : Nat) : .inserted id ∈ log ++ [n] ↔ .inserted id ∈ log := hmem rfl
  have hfree (id : Nat) (k : Int) : .freed id k ∈ log ++ [n] ↔ .freed id k ∈ log := hmem rfl
  constructor
  · simpa only [hin] using h.inserted
  · simpa only [hin] using h.awaited
  · simpa only [hin, hfree] using h.freed
  · simpa only [hin, hfree] using h.listed
  · exact h.nodupWaiting
  · exact h.nodup

theorem ListInv.schedule (h : ListInv next waiting list log) :
    ListInv (next + 1) (waiting ++ [next]) list log where
  inserted id hid := Nat.lt_succ_of_lt (h.inserted id hid)
  awaited id hid := by
    rcases List.mem_append.mp hid with hid | hid
    · exact ⟨Nat.lt_succ_of_lt (h.awaited id hid).1, (h.awaited id hid).2⟩
    · rw [List.mem_singleton.mp hid]
      exact ⟨Nat.lt_succ_self next, fun hin => absurd (h.inserted next hin) (by omega)⟩
  freed := h.freed
  listed := h.listed
  nodupWaiting := by
    refine List.Nodup.append h.nodupWaiting (List.nodup_singleton next) ?_
    rw [List.disjoint_singleton]
    exact fun hin => absurd (h.awaited next hin).1 (by omega)
  nodup := h.nodup

theorem ListInv.insert (h : ListInv next waiting list log) (hid : id ∈ waiting) :
    ListInv next (waiting.erase id) (list ++ [id]) (log ++ [Note.inserted id]) := by
  have hout := (h.awaited id hid).2
  have hin (j : Nat) : .inserted j ∈ log ++ [Note.inserted id] ↔ .inserted j ∈ log ∨ j = id := by
    simp
  have hfree (j : Nat) (k : Int) : .freed j k ∈ log ++ [Note.inserted id] ↔ .freed j k ∈ log := by
    simp
  constructor
  · simp only [hin]
    rintro j (hj | rfl)
    · exact h.inserted j hj
    · exact (h.awaited j hid).1
  · intro j hj
    rw [h.nodupWaiting.mem_erase_iff] at hj
    rw [hin]
    exact ⟨(h.awaited j hj.2).1, fun hor => hor.elim (h.awaited j hj.2).2 hj.1⟩
  · simp only [hin, hfree]
    exact fun j k hj => .inl (h.freed j k hj)
  · intro j
    simp only [hin, hfree, List.mem_append, List.mem_singleton, h.listed]
    constructor
    · rintro (⟨hj, hf⟩ | rfl)
      · exact ⟨.inl hj, hf⟩
      · exact ⟨.inr rfl, fun k hk => hout (h.freed j k hk)⟩
    · rintro ⟨hj | hj, hf⟩
      · exact .inl ⟨hj, hf⟩
      · exact .inr hj
  · exact h.nodupWaiting.erase id
  · refine List.Nodup.append h.nodup (List.nodup_singleton id) ?_
    rw [List.disjoint_singleton, h.listed]
    exact fun hor => hout hor.1

theorem ListInv.free (h : ListInv next waiting list log) (hid : id ∈ list) (k : Int) :
    ListInv next waiting (list.erase id) (log ++ [Note.freed id k]) := by
  have hin (j : Nat) : .inserted j ∈ log ++ [Note.freed id k] ↔ .inserted j ∈ log := by simp
  have hfree (j : Nat) (i : Int) : .freed j i ∈ log ++ [Note.freed id k] ↔
      .freed j i ∈ log ∨ j = id ∧ i = k := by simp
  constructor
  · simpa only [hin] using h.inserted
  · simpa only [hin] using h.awaited
  · simp only [hin, hfree]
    rintro j i (hj | ⟨rfl, -⟩)
    · exact h.freed j i hj
    · exact ((h.listed j).mp hid).1
  · intro j
    simp only [hin, hfree, h.nodup.mem_erase_iff, h.listed]
    constructor
    · rintro ⟨hne, hj, hf⟩
      exact ⟨hj, fun i hor => hor.elim (hf i) fun he => hne he.1⟩
    · rintro ⟨hj, hf⟩
      exact ⟨fun he => hf k (.inr ⟨he, rfl⟩), hj, fun i hi => hf i (.inl hi)⟩
  · exact h.nodupWaiting
  · exact h.nodup.erase id

end Lists

def WalkInv (thread : TimerThread) (list : List Nat) (log : List Note) : Prop :=
  ∀ rest, thread = .walking rest → rest ⊆ list ∧ rest.Nodup ∧ Covered log rest

theorem WalkInv.skip {thread : TimerThread} {list : List Nat} {log : List Note}
    (h : WalkInv thread list log) {n : Note} (hn : n ≠ .begin) :
    WalkInv thread list (log ++ [n]) := by
  intro rest hrest
  obtain ⟨hsub, hnodup, hcov⟩ := h rest hrest
  exact ⟨hsub, hnodup, hcov.snoc hn⟩

structure TimersInv (s : Timers) : Prop where
  tick : s.tick.toNat < 2 ^ 31
  cells : CellsInv s.next s.heap s.log
  lists : ListInv s.next s.waiting s.list s.log
  walk : WalkInv s.thread s.list s.log
  allowed : Each Allowed s.log

theorem timersInit_inv : TimersInv timersInit where
  tick := by decide
  cells :=
    ⟨fun n hn => absurd hn List.not_mem_nil, fun id hid => absurd hid (Nat.not_lt_zero id),
      fun _ _ => rfl⟩
  lists := by constructor <;> simp [timersInit]
  walk := fun rest hrest => nomatch hrest
  allowed := each_nil _

section Step
variable {s : Timers}

theorem inv_schedule (h : TimersInv s) {refcnt : Int} {expire : UInt32} (handler arg : Nat)
    (hsum : s.tick.toNat + expire.toNat < 2 ^ 31) :
    TimersInv (timerSchedule s refcnt expire handler arg) where
  tick := h.tick
  cells :=
    let req : Request :=
      { refcnt := refcnt, tick := s.tick, expire := expire, handler := handler, arg := arg }
    have hreq : req.tick.toNat + req.expire.toNat < 2 ^ 31 := hsum
    h.cells.schedule hreq
  lists := h.lists.schedule.skip rfl
  walk := h.walk.skip (by simp)
  allowed := by
    refine h.allowed.snoc fun req hreq => ?_
    exact absurd (h.cells.fresh _ hreq s.next rfl) (by omega)

theorem inv_insert (h : TimersInv s) (id : Nat) : TimersInv (timerInsert s id) := by
  simp only [timerInsert]
  split
  · exact h
  · next hwalk =>
    split_ifs with hid
    · exact {
        tick := h.tick
        cells := h.cells.skip rfl
        lists := h.lists.insert hid
        walk := fun rest hrest => absurd hrest (hwalk rest)
        allowed := h.allowed.snoc trivial }
    · exact h

theorem inv_call (h : TimersInv s) (op : TimerOp) {id : Nat} (hid : Untouched s.log id) :
    TimersInv (timerCall s op (some id)) := by
  simp only [timerCall]
  split_ifs with hlock
  · exact h
  · obtain ⟨⟨req₀, hreq₀, hone⟩, -, hcalled⟩ := hid
    exact {
      tick := h.tick
      cells := by
        refine h.cells.touch (h.cells.fresh _ hreq₀ id rfl) rfl fun req hcell => ?_
        have hret : ¬ GivenBack s.log id := by
          intro hr
          obtain ⟨-, op', hop⟩ := hcell.given hr
          exact hcalled op' hop
        have hret' : ¬ GivenBack (s.log ++ [Note.called id op]) id := by
          simpa [givenBack_snoc] using hret
        exact {
          scheduled := by simp [hcell.scheduled]
          unique := fun req' hreq => hcell.unique req' (by simpa using hreq)
          expires := hcell.expires
          handler := hcell.handler
          arg := hcell.arg
          cancelled := by simpa [started_snoc, Note.starts] using hcell.cancelled
          kept := fun _ => hcell.kept hret
          given := fun hr => absurd hr hret'
          locked := fun op' hop => by
            rw [← Option.some.inj hop]
            exact ⟨by simp, hret'⟩
          owned := fun op' hop => by
            rw [← hcell.unique req₀ hreq₀]
            exact hone }
      lists := h.lists.skip rfl
      walk := h.walk.skip (by simp)
      allowed := h.allowed.snoc trivial }

theorem inv_return (h : TimersInv s) {id : Nat} {op : TimerOp}
    (hlock : (s.heap id).lock = some op) {n : Note} {cancelled : Bool}
    (hn : n = .cancelled id ∧ cancelled = true ∨
      n = .released id ∧ cancelled = (s.heap id).cancelled) :
    TimersInv (Timers.note { s with
      heap := Function.update s.heap id
        { s.heap id with
          refcnt := (s.heap id).refcnt - 1, cancelled := cancelled, lock := none } } n) := by
  have hid : id < s.next := by
    by_contra hid
    rw [h.cells.idle id (by omega)] at hlock
    cases hlock
  have htouch : n.touches = some id := by
    rcases hn with ⟨rfl, -⟩ | ⟨rfl, -⟩ <;> rfl
  have hstart : n.starts id = false := by
    rcases hn with ⟨rfl, -⟩ | ⟨rfl, -⟩ <;> rfl
  have hret : GivenBack (s.log ++ [n]) id := by
    rw [givenBack_snoc]
    exact .inr (hn.imp And.left And.left)
  have hmem {m : Note} (hm : m ∈ s.log ++ [n]) (hne : m ≠ n) : m ∈ s.log := by simpa [hne] using hm
  have hsched (req : Request) : Note.scheduled id req ≠ n := by
    rcases hn with ⟨rfl, -⟩ | ⟨rfl, -⟩ <;> simp
  have hcall (op : TimerOp) : Note.called id op ≠ n := by
    rcases hn with ⟨rfl, -⟩ | ⟨rfl, -⟩ <;> simp
  refine {
    tick := h.tick
    cells := h.cells.touch hid htouch fun req hcell => ?_
    lists := h.lists.skip ?_
    walk := h.walk.skip ?_
    allowed := h.allowed.snoc ?_ }
  · obtain ⟨hop, hnot⟩ := hcell.locked op hlock
    exact {
      scheduled := by simp [hcell.scheduled]
      unique := fun req' hreq => hcell.unique req' (hmem hreq (hsched req'))
      expires := hcell.expires
      handler := hcell.handler
      arg := hcell.arg
      cancelled := by
        rw [started_snoc, hstart]
        rcases hn with ⟨rfl, rfl⟩ | ⟨rfl, rfl⟩
        · simp
        · simpa using hcell.cancelled
      kept := fun hr => absurd hret hr
      given := fun _ => by
        refine ⟨?_, op, by simp [hop]⟩
        rw [hcell.kept hnot]
      locked := fun op hop => by cases hop
      owned := fun op hop => hcell.owned op (hmem hop (hcall op)) }
  · rcases hn with ⟨rfl, -⟩ | ⟨rfl, -⟩ <;> rfl
  · rcases hn with ⟨rfl, -⟩ | ⟨rfl, -⟩ <;> simp
  · rcases hn with ⟨rfl, -⟩ | ⟨rfl, -⟩ <;> trivial

theorem inv_unlock (h : TimersInv s) (id : Nat) : TimersInv (timerReturn s id) := by
  simp only [timerReturn]
  split
  · exact h
  · next hlock => exact inv_return h hlock (.inl ⟨rfl, rfl⟩)
  · next hlock => exact inv_return h hlock (.inr ⟨rfl, rfl⟩)

theorem inv_begin (h : TimersInv s) : TimersInv (timersBegin s) := by
  simp only [timersBegin]
  split_ifs
  · exact {
      tick := h.tick
      cells := h.cells.skip rfl
      lists := h.lists.skip rfl
      walk := fun rest hrest => by
        cases hrest
        refine ⟨List.Subset.refl _, h.lists.nodup, s.log, [], rfl, List.not_mem_nil,
          fun id hin hfree => ?_⟩
        exact .inl ((h.lists.listed id).mpr ⟨hin, hfree⟩)
      allowed := h.allowed.snoc trivial }
  · exact h

/-- The timer in a cell fires exactly when the log says it should. -/
theorem Cell.due_iff {log : List Note} {id : Nat} {t : Timer} {req : Request}
    (h : Cell log id t req) (tick : UInt32) :
    t.due tick = true ↔ Fires log id req tick := by
  have hc : t.cancelled = false ↔ ¬ Started log id ∧ .cancelled id ∉ log := by
    rw [← not_or, ← h.cancelled, Bool.not_eq_true]
  simp only [Timer.due, Bool.and_eq_true, Bool.not_eq_true', decide_eq_true_eq,
    UInt32.lt_iff_toNat_lt, h.expires, hc]
  exact and_comm

theorem Note.starts_checked (id : Nat) (tick : UInt32) (fire : Bool) (x : Nat × Nat) :
    (Note.checked id tick (if fire = true then some x else none)).starts id = fire := by
  cases fire with
  | false => rfl
  | true => simp [Note.starts]

/-- The visit up to the question whether the timer can be freed. -/
theorem inv_fire (h : TimersInv s) {id : Nat} {rest : List Nat}
    (hwalk : s.thread = .walking (id :: rest)) {t : Timer} (ht : t = s.heap id)
    (hlock : t.lock = none) :
    TimersInv (Timers.note { s with
      thread := .walking rest
      heap := Function.update s.heap id { t with cancelled := t.cancelled || t.due s.tick } }
      (.checked id s.tick (if t.due s.tick then some (t.handler, t.arg) else none))) := by
  obtain ⟨hsub, hnodup, hcov⟩ := h.walk _ hwalk
  have hin : id ∈ s.list := hsub (List.mem_cons_self ..)
  have hid : id < s.next := h.lists.inserted id ((h.lists.listed id).mp hin).1
  obtain ⟨req₀, hcell₀⟩ := h.cells.cell id hid
  rw [← ht] at hcell₀
  generalize hn : Note.checked id s.tick
    (if t.due s.tick then some (t.handler, t.arg) else none) = n
  have hstart : n.starts id = t.due s.tick := by
    rw [← hn, Note.starts_checked]
  have htouch : n.touches = some id := by
    rw [← hn]
    rfl
  refine {
    tick := h.tick
    cells := h.cells.touch hid htouch fun req hcell => ?_
    lists := h.lists.skip ?_
    walk := ?_
    allowed := h.allowed.snoc ?_ }
  · rw [← ht] at hcell
    have hret : GivenBack (s.log ++ [n]) id ↔ GivenBack s.log id := by
      rw [givenBack_snoc, ← hn]
      simp
    exact {
      scheduled := by simp [hcell.scheduled]
      unique := fun req' hreq => hcell.unique req' (by simpa [← hn] using hreq)
      expires := hcell.expires
      handler := hcell.handler
      arg := hcell.arg
      cancelled := by
        rw [started_snoc, hstart, Bool.or_eq_true, hcell.cancelled]
        simp only [List.mem_append, List.mem_singleton, ← hn, reduceCtorEq, or_false]
        tauto
      kept := fun hr => hcell.kept (by rwa [hret] at hr)
      given := fun hr => by
        obtain ⟨hcnt, op, hop⟩ := hcell.given (hret.mp hr)
        exact ⟨hcnt, op, by simp [hop]⟩
      locked := fun op hop => by
        rw [hlock] at hop
        cases hop
      owned := fun op hop => hcell.owned op (by simpa [← hn] using hop) }
  · rw [← hn]
    rfl
  · intro rest' hrest
    cases hrest
    refine ⟨List.Subset.trans (List.subset_cons_self ..) hsub, hnodup.of_cons, hcov.tried ?_⟩
    simp [← hn, Note.tries]
  · rw [← hn]
    refine ⟨req₀, hcell₀.scheduled, ?_⟩
    rw [← hcell₀.due_iff, hcell₀.handler, hcell₀.arg]
    cases t.due s.tick with
    | true => exact .inl ⟨rfl, rfl⟩
    | false => exact .inr ⟨by decide, rfl⟩

theorem inv_free (h : TimersInv s) {id : Nat} {rest : List Nat} (hwalk : s.thread = .walking rest)
    (hout : id ∉ rest) (hin : id ∈ s.list) {t : Timer} (ht : s.heap id = t)
    (hc : t.cancelled = true) (hr : t.refcnt = 0) :
    TimersInv (Timers.note { s with list := s.list.erase id } (.freed id t.refcnt)) := by
  obtain ⟨hsub, hnodup, hcov⟩ := h.walk rest hwalk
  obtain ⟨req, hcell⟩ := h.cells.cell id (h.lists.inserted id ((h.lists.listed id).mp hin).1)
  rw [ht] at hcell
  refine {
    tick := h.tick
    cells := h.cells.skip rfl
    lists := h.lists.free hin _
    walk := fun rest' hrest => ?_
    allowed := h.allowed.snoc ⟨hr, hcell.cancelled.mp hc, req, hcell.scheduled, fun hone => ?_⟩ }
  · have heq : rest = rest' := TimerThread.walking.inj (hwalk.symm.trans hrest)
    rw [← heq]
    refine ⟨fun j hj => h.lists.nodup.mem_erase_iff.mpr ⟨?_, hsub hj⟩, hnodup, hcov.snoc (by simp)⟩
    rintro rfl
    exact hout hj
  · by_contra hnot
    rw [hcell.kept hnot, hone] at hr
    cases hr

theorem inv_check (h : TimersInv s) {id : Nat} {rest : List Nat}
    (hwalk : s.thread = .walking (id :: rest)) (hlock : (s.heap id).lock = none) :
    TimersInv (timersCheck { s with thread := .walking rest } id) := by
  have hfire := inv_fire h hwalk rfl hlock
  obtain ⟨hsub, hnodup, -⟩ := h.walk _ hwalk
  dsimp only [timersCheck]
  split
  · next hfree =>
    rw [Bool.and_eq_true, decide_eq_true_eq] at hfree
    let t : Timer := { s.heap id with cancelled := (s.heap id).cancelled || (s.heap id).due s.tick }
    have ht : Function.update s.heap id t id = t := Function.update_self ..
    have hfreed :=
      inv_free hfire rfl (List.nodup_cons.mp hnodup).1
        (hsub (List.mem_cons_self ..)) ht hfree.1 hfree.2
    exact hfreed
  · exact hfire

theorem inv_visit (h : TimersInv s) : TimersInv (timersVisit s) := by
  simp only [timersVisit]
  split
  · next id rest hwalk =>
    split_ifs with hlock
    · obtain ⟨hsub, hnodup, hcov⟩ := h.walk _ hwalk
      refine {
        tick := h.tick
        cells := h.cells.skip rfl
        lists := h.lists.skip rfl
        walk := fun rest' hrest => ?_
        allowed := h.allowed.snoc trivial }
      cases hrest
      refine ⟨List.Subset.trans (List.subset_cons_self ..) hsub, hnodup.of_cons, hcov.tried ?_⟩
      simp [Note.tries]
    · exact inv_check h hwalk (by simpa using hlock)
  · next hwalk =>
    exact {
      tick := h.tick
      cells := h.cells.skip rfl
      lists := h.lists.skip rfl
      walk := fun rest hrest => nomatch hrest
      allowed := h.allowed.snoc (h.walk [] hwalk).2.2 }
  · exact h

theorem inv_step (h : TimersInv s) (e : TimerEvent) (he : TimerAdmissible s e) :
    TimersInv (timersStep s e) := by
  cases e with
  | oneshot expire handler arg => exact inv_schedule h handler arg he
  | add expire handler arg => exact inv_schedule h handler arg he
  | insert id => exact inv_insert h id
  | call op id =>
    cases id with
    | none => exact h
    | some id => exact inv_call h op he
  | unlock id => exact inv_unlock h id
  | advance =>
    simp only [timersStep, timersAdvance]
    split_ifs
    · refine { h with tick := ?_, walk := fun rest hrest => nomatch hrest }
      have hadd : (s.tick + 10).toNat = (s.tick.toNat + 10) % 2 ^ 32 := UInt32.toNat_add ..
      have hlt : s.tick.toNat + 10 < 2 ^ 31 := he
      show (s.tick + 10).toNat < 2 ^ 31
      omega
    · exact h
  | begin => exact inv_begin h
  | visit => exact inv_visit h

end Step

theorem inv_run {es : List TimerEvent} (hes : Along timersStep TimerAdmissible timersInit es) :
    TimersInv (run timersStep timersInit es) := by
  refine run_invariant _ (fun s e h he => ?_) timersInit_inv hes
  exact inv_step h e he

/-- What the service promises. A handler is started once at most, only when the tick exceeds that of
the request and its expire, at the first visit after that which gets the lock unless a cancel has
returned by then, and never after one. A timer is freed once it has been started or cancelled, with
refcnt 0 and after the call of its owner; until then it is in the list, and every timer that is in
the list when a walk begins is tried in it. -/
structure TimerContract (s : Timers) : Prop where
  scheduled : ∀ id req req', .scheduled id req ∈ s.log → .scheduled id req' ∈ s.log → req' = req
  once : ∀ id, s.log.countP (Note.starts id) ≤ 1
  afterExpiry : ∀ id tick x, .checked id tick (some x) ∈ s.log → ∃ req, .scheduled id req ∈ s.log ∧
    x = (req.handler, req.arg) ∧ req.tick.toNat + req.expire.toNat < tick.toNat
  atFirst : ∀ past id tick start rest, s.log = past ++ .checked id tick start :: rest →
    ∀ req, .scheduled id req ∈ s.log → req.tick.toNat + req.expire.toNat < tick.toNat →
      ¬ Started past id → .cancelled id ∉ past → start = some (req.handler, req.arg)
  notAfterCancel : ∀ past id rest, s.log = past ++ .cancelled id :: rest → ¬ Started rest id
  freed : ∀ past id refcnt rest, s.log = past ++ .freed id refcnt :: rest →
    refcnt = 0 ∧ (Started past id ∨ .cancelled id ∈ past) ∧
      ∀ req, .scheduled id req ∈ s.log → req.refcnt = 1 → GivenBack past id
  listed : ∀ id, id ∈ s.list ↔ .inserted id ∈ s.log ∧ ∀ n, .freed id n ∉ s.log
  walks : ∀ past rest, s.log = past ++ .finish :: rest → Covered past []

theorem Note.starts_iff {n : Note} {id : Nat} :
    n.starts id = true ↔ ∃ tick x, n = .checked id tick (some x) := by
  cases n with
  | checked j tick start =>
    cases start with
    | none => simp [Note.starts]
    | some x => simp [Note.starts]
  | _ => simp [Note.starts]

/-- A start rules out an earlier start and an earlier cancel. -/
theorem Allowed.of_starts {past : List Note} {n : Note} {id : Nat} (h : Allowed past n)
    (hn : n.starts id = true) :
    ¬ Started past id ∧ .cancelled id ∉ past := by
  obtain ⟨tick, x, rfl⟩ := Note.starts_iff.mp hn
  obtain ⟨req, -, ⟨hfires, -⟩ | ⟨-, hx⟩⟩ := h
  · exact hfires.2
  · cases hx

theorem TimersInv.unique {s : Timers} (h : TimersInv s) {id : Nat} {req req' : Request}
    (hreq : .scheduled id req ∈ s.log) (hreq' : .scheduled id req' ∈ s.log) : req' = req := by
  obtain ⟨req₀, hcell⟩ := h.cells.cell id (h.cells.fresh _ hreq id rfl)
  rw [hcell.unique req hreq, hcell.unique req' hreq']

theorem TimersInv.contract {s : Timers} (h : TimersInv s) : TimerContract s where
  scheduled id req req' hreq hreq' := h.unique hreq hreq'
  once id := by
    refine Each.countP_le_one fun past n rest hlog hn y hy => ?_
    have hnot := ((h.allowed past n rest hlog).of_starts hn).1
    by_contra hys
    exact hnot ⟨y, hy, by simpa using hys⟩
  afterExpiry id tick x hx := by
    obtain ⟨past, rest, hlog, req, hreq, ⟨hfires, hstart⟩ | ⟨-, hstart⟩⟩ := h.allowed.of_mem hx
    · exact ⟨req, by simp [hlog, hreq], Option.some.inj hstart, hfires.1⟩
    · cases hstart
  atFirst past id tick start rest hlog req hreq hdue hnot hcancel := by
    obtain ⟨req', hreq', hor⟩ := h.allowed past _ rest hlog
    have heq : req' = req := h.unique hreq (by simp [hlog, hreq'])
    rw [heq] at hor
    rcases hor with ⟨-, hstart⟩ | ⟨hfires, -⟩
    · exact hstart
    · exact absurd ⟨hdue, hnot, hcancel⟩ hfires
  notAfterCancel past id rest hlog := by
    rintro ⟨n, hn, hs⟩
    obtain ⟨mid, after, rfl⟩ := List.append_of_mem hn
    have hallowed := h.allowed (past ++ .cancelled id :: mid) n after (by simp [hlog])
    exact (hallowed.of_starts hs).2 (by simp)
  freed past id refcnt rest hlog := by
    obtain ⟨hzero, hdone, req, hreq, howned⟩ := h.allowed past _ rest hlog
    refine ⟨hzero, hdone, fun req' hreq' hone => howned ?_⟩
    have heq : req = req' := h.unique hreq' (by simp [hlog, hreq])
    rw [heq]
    exact hone
  listed := h.lists.listed
  walks past rest hlog := h.allowed past .finish rest hlog

theorem timer_contract {es : List TimerEvent}
    (hes : Along timersStep TimerAdmissible timersInit es) :
    TimerContract (run timersStep timersInit es) :=
  (inv_run hes).contract

def addAndCancel : List TimerEvent :=
  [.add 5 7 8, .insert 0, .advance, .begin, .visit, .visit, .call .cancel (some 0), .unlock 0,
    .advance, .begin, .visit, .visit]

theorem addAndCancel_contract :
    let s := run timersStep timersInit addAndCancel
    Along timersStep TimerAdmissible timersInit addAndCancel ∧ TimerContract s ∧
      .checked 0 10 (some (7, 8)) ∈ s.log ∧
      .freed 0 0 ∈ s.log := by
  have hes : Along timersStep TimerAdmissible timersInit addAndCancel := by
    let req : Request := { refcnt := 1, tick := 0, expire := 5, handler := 7, arg := 8 }
    have hcall (op : TimerOp) : .called 0 op ∉
        (run timersStep timersInit (addAndCancel.take 6)).log := by
      cases op <;> decide +kernel
    have hadd : (0 : UInt32).toNat + (5 : UInt32).toNat < 2 ^ 31 := by decide
    have htick : (0 : UInt32).toNat + 10 < 2 ^ 31 := by decide
    have htick' : (10 : UInt32).toNat + 10 < 2 ^ 31 := by decide
    exact ⟨hadd, trivial, htick, trivial, trivial, trivial,
      ⟨⟨req, by decide +kernel, rfl⟩, by decide +kernel, hcall⟩, trivial, htick', trivial, trivial,
        trivial, trivial⟩
  exact ⟨hes, timer_contract hes, by decide +kernel, by decide +kernel⟩

end AnpNetstack
