import Sylar.Lib.OrderedSet

/-! `timer.h` and `timer.cc`.

A `Timer::ptr` is the address of its object; the comparator orders timers by
`m_next` first and by address second. Every clock reading is an argument, so the
clock may run backwards, and so is every address the allocator hands out.
Times are `uint64_t` and wrap around. -/
namespace Sylar

structure Timer (κ : Type) where
  recurring : Bool
  ms : UInt64
  next : UInt64
  cb : Option κ

/-- `writes` is not a member of the class: it records every assignment to the
`m_next` of an existing timer, and whether the set held the timer just then. -/
structure TimerManager (κ : Type) where
  object : Nat → Option (Timer κ)
  timers : List Nat
  tickled : Bool
  previouseTime : UInt64
  writes : List (Nat × Bool)

/-- What the iterators of `m_timers` must not be used for. -/
inductive TimerFault where
  | eraseEnd
  | derefEnd
  | badPointer
deriving DecidableEq, Repr

namespace TimerManager
variable {κ : Type}

def new (now : UInt64) : TimerManager κ where
  object := fun _ => none
  timers := []
  tickled := false
  previouseTime := now
  writes := []

def next (m : TimerManager κ) (ptr : Nat) : UInt64 :=
  match m.object ptr with
  | none => 0
  | some timer => timer.next

/-- `Timer::Comparator` on two non-null timers, given their `m_next`. -/
def less (next : Nat → UInt64) (lhs rhs : Nat) : Bool :=
  if next lhs < next rhs then true
  else if next rhs < next lhs then false
  else decide (lhs < rhs)

def setObject (m : TimerManager κ) (ptr : Nat) (timer : Timer κ) : TimerManager κ :=
  { m with object := fun p => if p = ptr then some timer else m.object p }

def setNext (m : TimerManager κ) (ptr : Nat) (timer : Timer κ) (v : UInt64) : TimerManager κ :=
  { m.setObject ptr { timer with next := v } with
    writes := (ptr, decide (ptr ∈ m.timers)) :: m.writes }

def find (m : TimerManager κ) (ptr : Nat) : Option Nat :=
  Lib.setFind (less m.next) ptr m.timers

def erase (m : TimerManager κ) (ptr : Nat) : TimerManager κ :=
  { m with timers := m.timers.erase ptr }

def insert (m : TimerManager κ) (ptr : Nat) : TimerManager κ :=
  { m with timers := Lib.setInsert (less m.next) ptr m.timers }

/-- `addTimer(val, lock)`. The flag says that `onTimerInsertedAtFront` is called
once the lock is released. -/
def addTimerLocked (m : TimerManager κ) (ptr : Nat) : Bool × TimerManager κ :=
  let m := m.insert ptr
  let atFront := decide (m.timers.head? = some ptr) && !m.tickled
  (atFront, if atFront then { m with tickled := true } else m)

/-- `addTimer(ms, cb, recurring)`: the constructor reads the clock before the
lock is taken. -/
def addTimer (m : TimerManager κ) (ptr : Nat) (ms : UInt64) (cb : κ) (recurring : Bool)
    (now : UInt64) : Except TimerFault (Bool × TimerManager κ) :=
  match m.object ptr with
  | some _ => .error .badPointer
  | none => .ok ((m.setObject ptr ⟨recurring, ms, now + ms, some cb⟩).addTimerLocked ptr)

def cancel (m : TimerManager κ) (ptr : Nat) : Except TimerFault (Bool × TimerManager κ) :=
  match m.object ptr with
  | none => .error .badPointer
  | some timer =>
    if timer.cb.isSome then
      let m := m.setObject ptr { timer with cb := none }
      match m.find ptr with
      | none => .error .eraseEnd
      | some it => .ok (true, m.erase it)
    else .ok (false, m)

def refresh (m : TimerManager κ) (ptr : Nat) (now : UInt64) :
    Except TimerFault (Bool × TimerManager κ) :=
  match m.object ptr with
  | none => .error .badPointer
  | some timer =>
    if timer.cb.isNone then .ok (false, m)
    else
      match m.find ptr with
      | none => .ok (false, m)
      | some it => .ok (true, ((m.erase it).setNext ptr timer (now + timer.ms)).insert ptr)

/-- The first flag is the result, the second one `onTimerInsertedAtFront`. -/
def reset (m : TimerManager κ) (ptr : Nat) (ms : UInt64) (fromNow : Bool) (now : UInt64) :
    Except TimerFault ((Bool × Bool) × TimerManager κ) :=
  match m.object ptr with
  | none => .error .badPointer
  | some timer =>
    if ms = timer.ms ∧ fromNow = false then .ok ((true, false), m)
    else if timer.cb.isNone then .ok ((false, false), m)
    else
      match m.find ptr with
      | none => .ok ((false, false), m)
      | some it =>
        let m := m.erase it
        let start := if fromNow then now else timer.next - timer.ms
        let (atFront, m) := (m.setNext ptr { timer with ms := ms } (start + ms)).addTimerLocked ptr
        .ok ((true, atFront), m)

def getNextTimer (m : TimerManager κ) (now : UInt64) : UInt64 × TimerManager κ :=
  let m := { m with tickled := false }
  match m.timers with
  | [] => (~~~0, m)
  | ptr :: _ => (if now ≥ m.next ptr then 0 else m.next ptr - now, m)

def detectClockRollover (m : TimerManager κ) (now : UInt64) : Bool × TimerManager κ :=
  (decide (now < m.previouseTime ∧ now < m.previouseTime - 60 * 60 * 1000),
    { m with previouseTime := now })

/-- The range `[m_timers.begin(), it)` that `listExpiredCb` takes out. `probe` is
the address of the temporary `now_timer`. -/
def expired (m : TimerManager κ) (rollover : Bool) (now : UInt64) (probe : Nat) : List Nat :=
  if rollover then m.timers
  else
    let before := m.timers.takeWhile fun ptr =>
      less (fun p => if p = probe then now else m.next p) ptr probe
    before ++ (m.timers.drop before.length).takeWhile fun ptr => decide (m.next ptr = now)

def fireAll (m : TimerManager κ) (now : UInt64) :
    List Nat → List (Option κ) → List (Option κ) × TimerManager κ
  | [], cbs => (cbs, m)
  | ptr :: ptrs, cbs =>
    match m.object ptr with
    | none => fireAll m now ptrs cbs
    | some timer =>
      let m :=
        if timer.recurring then (m.setNext ptr timer (now + timer.ms)).insert ptr
        else m.setObject ptr { timer with cb := none }
      fireAll m now ptrs (cbs ++ [timer.cb])

/-- The part of `listExpiredCb` under the write lock. -/
def listExpiredLocked (m : TimerManager κ) (now : UInt64) (probe : Nat) :
    Except TimerFault (List (Option κ) × TimerManager κ) :=
  let (rollover, m) := m.detectClockRollover now
  let run : Except TimerFault (List (Option κ) × TimerManager κ) :=
    let expired := m.expired rollover now probe
    .ok (fireAll { m with timers := m.timers.drop expired.length } now expired [])
  if rollover then run
  else
    match m.timers with
    | [] => .error .derefEnd
    | ptr :: _ => if m.next ptr > now then .ok ([], m) else run

/-- `listExpiredCb` with nothing between its two critical sections. -/
def listExpiredCb (m : TimerManager κ) (now : UInt64) (probe : Nat) :
    Except TimerFault (List (Option κ) × TimerManager κ) :=
  if m.timers.isEmpty then .ok ([], m) else m.listExpiredLocked now probe

end TimerManager
end Sylar
