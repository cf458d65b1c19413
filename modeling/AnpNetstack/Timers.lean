import AnpNetstack.Runs

/-! timer.c: the list of timers, the thread that counts ticks and walks over it, and the calls
that schedule, cancel and release timers meanwhile. A call is cut where it waits for a mutex;
what it does under the lock of a timer is one step. -/
namespace AnpNetstack

inductive TimerOp where
  | cancel
  | release
  deriving DecidableEq, Repr

structure Timer where
  refcnt : Int
  expires : UInt32
  cancelled : Bool
  handler : Nat
  arg : Nat
  lock : Option TimerOp

/-- A call of timer_oneshot or timer_add, which differ in the refcnt they set, with the tick it
has read. -/
structure Request where
  refcnt : Int
  tick : UInt32
  expire : UInt32
  handler : Nat
  arg : Nat
  deriving DecidableEq, Repr

/-- What has happened, in order. `called` is a call that has got the lock, `cancelled` and
`released` are its return. `checked` is a visit by timers_tick that has got the lock; `start` is
what it has given to pthread_create. -/
inductive Note where
  | scheduled (id : Nat) (req : Request)
  | inserted (id : Nat)
  | called (id : Nat) (op : TimerOp)
  | cancelled (id : Nat)
  | released (id : Nat)
  | begin
  | busy (id : Nat)
  | checked (id : Nat) (tick : UInt32) (start : Option (Nat × Nat))
  | freed (id : Nat) (refcnt : Int)
  | finish
  deriving DecidableEq, Repr

/-- The thread of timers_start: asleep, waiting for the lock of the list, or in the walk with
the timers that are left. -/
inductive TimerThread where
  | asleep
  | ticked
  | walking (rest : List Nat)
  deriving DecidableEq, Repr

/-- `tick` is the bit pattern of the int; a timer is given by a number of its own. `waiting` are
the timers that are not in the list yet, `log` records history. -/
structure Timers where
  tick : UInt32
  heap : Nat → Timer
  next : Nat
  waiting : List Nat
  list : List Nat
  thread : TimerThread
  log : List Note

def timersInit : Timers where
  tick := 0
  heap _ := { refcnt := 0, expires := 0, cancelled := false, handler := 0, arg := 0, lock := none }
  next := 0
  waiting := []
  list := []
  thread := .asleep
  log := []

def Timers.note (s : Timers) (n : Note) : Timers := { s with log := s.log ++ [n] }

/-- timer_oneshot and timer_add up to the lock of the list. -/
def timerSchedule (s : Timers) (refcnt : Int) (expire : UInt32) (handler arg : Nat) : Timers :=
  Timers.note { s with
    heap := Function.update s.heap s.next
      { refcnt := refcnt, expires := s.tick + expire, cancelled := false, handler := handler,
        arg := arg, lock := none }
    next := s.next + 1
    waiting := s.waiting ++ [s.next] }
    (.scheduled s.next {
      refcnt := refcnt, tick := s.tick, expire := expire, handler := handler, arg := arg })

def timerOneshot (s : Timers) (expire : UInt32) (handler arg : Nat) : Timers :=
  timerSchedule s 0 expire handler arg

def timerAdd (s : Timers) (expire : UInt32) (handler arg : Nat) : Timers :=
  timerSchedule s 1 expire handler arg

def timerInsert (s : Timers) (id : Nat) : Timers :=
  match s.thread with
  | .walking _ => s
  | _ =>
    if id ∈ s.waiting then
      Timers.note { s with waiting := s.waiting.erase id, list := s.list ++ [id] } (.inserted id)
    else s

def timerCall (s : Timers) (op : TimerOp) : Option Nat → Timers
  | none => s
  | some id =>
    if (s.heap id).lock.isSome then s
    else
      Timers.note { s with heap := Function.update s.heap id { s.heap id with lock := some op } }
        (.called id op)

def timerCancel (s : Timers) (id : Nat) : Timers :=
  Timers.note { s with
    heap := Function.update s.heap id
      { s.heap id with refcnt := (s.heap id).refcnt - 1, cancelled := true, lock := none } }
        (.cancelled id)

def timerRelease (s : Timers) (id : Nat) : Timers :=
  Timers.note { s with
    heap := Function.update s.heap id
      { s.heap id with refcnt := (s.heap id).refcnt - 1, lock := none } } (.released id)

def timerReturn (s : Timers) (id : Nat) : Timers :=
  match (s.heap id).lock with
  | none => s
  | some .cancel => timerCancel s id
  | some .release => timerRelease s id

def timersAdvance (s : Timers) : Timers :=
  if s.thread = .asleep then { s with tick := s.tick + 10, thread := .ticked } else s

def timersBegin (s : Timers) : Timers :=
  if s.thread = .ticked then Timers.note { s with thread := .walking s.list } .begin else s

/-- The comparison is made in unsigned int. -/
def Timer.due (t : Timer) (tick : UInt32) : Bool := !t.cancelled && t.expires < tick

/-- The body of the loop of timers_tick once trylock has succeeded. -/
def timersCheck (s : Timers) (id : Nat) : Timers :=
  let t := s.heap id
  let fire := t.due s.tick
  let t := { t with cancelled := t.cancelled || fire }
  let s := Timers.note { s with heap := Function.update s.heap id t }
    (.checked id s.tick (if fire then some (t.handler, t.arg) else none))
  if t.cancelled && t.refcnt = 0 then
    Timers.note { s with list := s.list.erase id } (.freed id t.refcnt)
  else s

def timersVisit (s : Timers) : Timers :=
  match s.thread with
  | .walking (id :: rest) =>
    let s := { s with thread := .walking rest }
    if (s.heap id).lock.isSome then Timers.note s (.busy id) else timersCheck s id
  | .walking [] => Timers.note { s with thread := .asleep } .finish
  | _ => s

inductive TimerEvent where
  | oneshot (expire : UInt32) (handler arg : Nat)
  | add (expire : UInt32) (handler arg : Nat)
  | insert (id : Nat)
  | call (op : TimerOp) (id : Option Nat)
  | unlock (id : Nat)
  | advance
  | begin
  | visit

def timersStep (s : Timers) : TimerEvent → Timers
  | .oneshot expire handler arg => timerOneshot s expire handler arg
  | .add expire handler arg => timerAdd s expire handler arg
  | .insert id => timerInsert s id
  | .call op id => timerCall s op id
  | .unlock id => timerReturn s id
  | .advance => timersAdvance s
  | .begin => timersBegin s
  | .visit => timersVisit s

def Untouched (log : List Note) (id : Nat) : Prop :=
  (∃ req, .scheduled id req ∈ log ∧ req.refcnt = 1) ∧ .inserted id ∈ log ∧ ∀ op, .called id op ∉ log

/-- Ticks stay below 2 ^ 31, and each result of timer_add gets one cancel or release at most. -/
def TimerAdmissible (s : Timers) : TimerEvent → Prop
  | .oneshot expire _ _ => s.tick.toNat + expire.toNat < 2 ^ 31
  | .add expire _ _ => s.tick.toNat + expire.toNat < 2 ^ 31
  | .call _ (some id) => Untouched s.log id
  | .advance => s.tick.toNat + 10 < 2 ^ 31
  | _ => True

end AnpNetstack
