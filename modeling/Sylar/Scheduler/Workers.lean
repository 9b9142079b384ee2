import Mathlib.Algebra.Order.Ring.Int
import Mathlib.Tactic.Common

/-! `Scheduler::run` in any number of worker threads, with the fibers of
`fiber.cc` under it and `IOManager::idle` as the idle fiber.

A worker is at one `Pc`; a label is one atomic step of one worker, or of a
thread outside. Each access to `m_fibers` under `m_mutex` is one step. Nothing
guards `m_state`: the assertions of `swapIn` and `reset`, their writes, the write
of a fiber that leaves, the switches to a fiber and from it, the decrement, the
state test and the update behind it are all steps of their own. -/
namespace Sylar

inductive FiberState where
  | init
  | hold
  | exec
  | term
  | ready
  | except
deriving DecidableEq, Repr

inductive Task (φ κ : Type) where
  | fiber (fiber : φ)
  | cb (cb : κ)
deriving DecidableEq

/-- `none` is the thread `-1`. -/
structure FiberAndThread (κ : Type) where
  task : Task Nat κ
  thread : Option Nat
deriving DecidableEq

/-- Every worker has an idle fiber of its own; the others are known by their
address. -/
inductive FiberId where
  | idle (worker : Nat)
  | user (ptr : Nat)
deriving DecidableEq

/-- Which branch of `run` has swapped the fiber in. -/
inductive Role where
  | fiber
  | cb
  | idle
deriving DecidableEq

inductive Outcome where
  | hold
  | ready
  | swapOut
  | term
  | except
deriving DecidableEq

inductive Pc (κ : Type) where
  | scan
  | taken (entry : FiberAndThread κ)
  | renewing (fiber : FiberId)
  | nothing
  | entering (fiber : FiberId) (role : Role)
  | checked (fiber : FiberId) (role : Role)
  | switching (fiber : FiberId) (role : Role)
  | exec (fiber : FiberId) (role : Role)
  | leaving (fiber : FiberId) (role : Role) (outcome : Outcome)
  | polling (fiber : FiberId)
  | returned (fiber : FiberId) (role : Role) (outcome : Outcome)
  | counted (fiber : FiberId) (role : Role) (outcome : Outcome)
  | requeue (fiber : FiberId) (role : Role) (outcome : Outcome)
  | recycle (fiber : FiberId) (outcome : Outcome)
  | recycling (fiber : FiberId)
  | park (fiber : FiberId) (role : Role) (outcome : Outcome)
  | exited
deriving DecidableEq

structure Worker (κ : Type) where
  pc : Pc κ
  cbFiber : Option FiberId
deriving DecidableEq

/-- `pipe` counts the bytes in the tickle pipe. A fiber that was never created
has no state. -/
structure Scheduler (κ : Type) where
  fibers : List (FiberAndThread κ)
  state : FiberId → Option FiberState
  activeThreadCount : Int
  idleThreadCount : Int
  autostop : Bool
  stopping : Bool
  pipe : Nat
  workers : List (Worker κ)

inductive SchedulerFault where
  | disabled
  | assertion
deriving DecidableEq, Repr

inductive SchedulerLabel (κ : Type) where
  | create (ptr : Nat)
  | schedule (entry : FiberAndThread κ)
  | stop
  | pick (w : Nat)
  | dispatch (w : Nat) (fresh : Nat)
  | reset (w : Nat)
  | check (w : Nat)
  | swapIn (w : Nat)
  | yieldToHold (w : Nat)
  | switch (w : Nat)
  | slice (w : Nat) (outcome : Outcome)
  | poll (w : Nat)
  | wake (w : Nat) (drained : Bool)
  | quit (w : Nat)
  | count (w : Nat)
  | test (w : Nat)
  | finish (w : Nat)

namespace Scheduler
variable {κ : Type}

/-- `threads` workers that have just entered `run`. -/
def start (threads : Nat) : Scheduler κ where
  fibers := []
  state := fun
    | .idle _ => some .init
    | .user _ => none
  activeThreadCount := 0
  idleThreadCount := 0
  autostop := false
  stopping := false
  pipe := 0
  workers := List.replicate threads ⟨.scan, none⟩

def hasIdleThreads (s : Scheduler κ) : Bool :=
  decide (s.idleThreadCount > 0)

/-- `IOManager::tickle`. -/
def tickle (s : Scheduler κ) : Scheduler κ :=
  if s.hasIdleThreads then s else { s with pipe := s.pipe + 1 }

/-- `schedule(fc, thread)`: `scheduleNoLock` under the mutex, then `tickle`. -/
def schedule (s : Scheduler κ) (entry : FiberAndThread κ) : Scheduler κ :=
  let needTickle := s.fibers.isEmpty
  let s := { s with fibers := s.fibers ++ [entry] }
  if needTickle then s.tickle else s

def isStopping (s : Scheduler κ) : Bool :=
  s.autostop && s.stopping && s.fibers.isEmpty && decide (s.activeThreadCount = 0)

def setState (s : Scheduler κ) (fiber : FiberId) (state : FiberState) : Scheduler κ :=
  { s with state := fun f => if f = fiber then some state else s.state f }

def setWorker (s : Scheduler κ) (w : Nat) (worker : Worker κ) : Scheduler κ :=
  { s with workers := s.workers.set w worker }

/-- The loop over `m_fibers`: `tickle_me`, and the entry taken with what is left. -/
def scanFibers (state : FiberId → Option FiberState) (thread : Nat) :
    List (FiberAndThread κ) → Bool × Option (FiberAndThread κ × List (FiberAndThread κ))
  | [] => (false, none)
  | it :: rest =>
    let skip := fun (found : Option (FiberAndThread κ × List (FiberAndThread κ))) =>
      found.map fun (entry, left) => (entry, it :: left)
    if it.thread.isSome ∧ it.thread ≠ some thread then
      (true, skip (scanFibers state thread rest).2)
    else
      match it.task with
      | .cb _ => (false, some (it, rest))
      | .fiber ptr =>
        if state (.user ptr) = some .exec then
          let (tickleMe, found) := scanFibers state thread rest
          (tickleMe, skip found)
        else (false, some (it, rest))

def pick (s : Scheduler κ) (w : Nat) (worker : Worker κ) : Scheduler κ :=
  let (tickleMe, found) := scanFibers s.state w s.fibers
  let s :=
    match found with
    | none => s.setWorker w { worker with pc := .nothing }
    | some (entry, left) =>
      { s with fibers := left, activeThreadCount := s.activeThreadCount + 1 }.setWorker w
        { worker with pc := .taken entry }
  if tickleMe then s.tickle else s

/-- The assertion of `Fiber::reset`. -/
def Resettable (state : Option FiberState) : Prop :=
  state = some .term ∨ state = some .except ∨ state = some .init

instance (state : Option FiberState) : Decidable (Resettable state) :=
  inferInstanceAs (Decidable (_ ∨ _))

/-- The three-way branch of `run`, up to the call of `swapIn` or past the assertion
of `reset`. `fresh` is the address of a new `cb_fiber`. -/
def dispatch (s : Scheduler κ) (w : Nat) (worker : Worker κ) (fresh : Nat) :
    Except SchedulerFault (Scheduler κ) :=
  match worker.pc with
  | .taken ⟨.fiber ptr, _⟩ =>
    if s.state (.user ptr) = some .term ∨ s.state (.user ptr) = some .except then
      .ok ({ s with activeThreadCount := s.activeThreadCount - 1 }.setWorker w
        { worker with pc := .scan })
    else .ok (s.setWorker w { worker with pc := .entering (.user ptr) .fiber })
  | .taken ⟨.cb _, _⟩ =>
    match worker.cbFiber with
    | some fiber =>
      if Resettable (s.state fiber) then .ok (s.setWorker w { worker with pc := .renewing fiber })
      else .error .assertion
    | none =>
      if s.state (.user fresh) = none then
        .ok ((s.setState (.user fresh) .init).setWorker w
          ⟨.entering (.user fresh) .cb, some (.user fresh)⟩)
      else .error .disabled
  | .nothing =>
    if s.state (.idle w) = some .term then .ok (s.setWorker w { worker with pc := .exited })
    else
      .ok ({ s with idleThreadCount := s.idleThreadCount + 1 }.setWorker w
        { worker with pc := .entering (.idle w) .idle })
  | _ => .error .disabled

/-- `m_state = INIT` at the end of `Fiber::reset`. -/
def reset (s : Scheduler κ) (w : Nat) (worker : Worker κ) :
    Except SchedulerFault (Scheduler κ) :=
  match worker.pc with
  | .renewing fiber =>
    .ok ((s.setState fiber .init).setWorker w { worker with pc := .entering fiber .cb })
  | .recycling fiber => .ok ((s.setState fiber .init).setWorker w { worker with pc := .scan })
  | _ => .error .disabled

/-- The assertion of `Fiber::swapIn`. -/
def check (s : Scheduler κ) (w : Nat) (worker : Worker κ) : Except SchedulerFault (Scheduler κ) :=
  match worker.pc with
  | .entering fiber role =>
    match s.state fiber with
    | none => .error .disabled
    | some state =>
      if state = .exec then .error .assertion
      else .ok (s.setWorker w { worker with pc := .checked fiber role })
  | _ => .error .disabled

/-- `m_state = EXEC` in `Fiber::swapIn`. -/
def swapIn (s : Scheduler κ) (w : Nat) (worker : Worker κ) :
    Except SchedulerFault (Scheduler κ) :=
  match worker.pc with
  | .checked fiber role =>
    .ok ((s.setState fiber .exec).setWorker w { worker with pc := .switching fiber role })
  | _ => .error .disabled

/-- The running fiber writes its own state and is still to switch. -/
def leave (s : Scheduler κ) (w : Nat) (worker : Worker κ) (fiber : FiberId) (role : Role)
    (outcome : Outcome) (state : FiberState) : Scheduler κ :=
  (s.setState fiber state).setWorker w { worker with pc := .leaving fiber role outcome }

/-- The end of a slice other than through `YieldToHold`, up to the switch:
`YieldToReady`, or `MainFunc` after `m_cb` has returned or thrown. A bare
`swapOut` has only the switch. -/
def slice (s : Scheduler κ) (w : Nat) (worker : Worker κ) (outcome : Outcome) :
    Except SchedulerFault (Scheduler κ) :=
  match worker.pc with
  | .exec fiber role =>
    match outcome with
    | .hold => .error .disabled
    | .swapOut => .ok (s.setWorker w { worker with pc := .returned fiber role .swapOut })
    | .ready => if role = .idle then .error .disabled
      else .ok (s.leave w worker fiber role .ready .ready)
    | .term => if role = .idle then .error .disabled
      else .ok (s.leave w worker fiber role .term .term)
    | .except => if role = .idle then .error .disabled
      else .ok (s.leave w worker fiber role .except .except)
  | _ => .error .disabled

def count (s : Scheduler κ) (w : Nat) (worker : Worker κ) :
    Except SchedulerFault (Scheduler κ) :=
  match worker.pc with
  | .returned fiber role outcome =>
    let counted := { worker with pc := .counted fiber role outcome }
    if role = .idle then
      .ok ({ s with idleThreadCount := s.idleThreadCount - 1 }.setWorker w counted)
    else .ok ({ s with activeThreadCount := s.activeThreadCount - 1 }.setWorker w counted)
  | _ => .error .disabled

def test (s : Scheduler κ) (w : Nat) (worker : Worker κ) : Except SchedulerFault (Scheduler κ) :=
  match worker.pc with
  | .counted fiber role outcome =>
    let state := s.state fiber
    let pc : Pc κ :=
      if state = some .ready ∧ role ≠ .idle then .requeue fiber role outcome
      else if state = some .term ∨ state = some .except then
        if role = .cb then .recycle fiber outcome else .scan
      else .park fiber role outcome
    .ok (s.setWorker w { worker with pc := pc })
  | _ => .error .disabled

/-- What follows the test: `schedule(fiber)`, the assertion of
`cb_fiber->reset(nullptr)`, or `m_state = HOLD`. A callback's fiber that lives on
is let go. -/
def finish (s : Scheduler κ) (w : Nat) (worker : Worker κ) :
    Except SchedulerFault (Scheduler κ) :=
  let kept := fun (role : Role) => if role = .cb then none else worker.cbFiber
  match worker.pc with
  | .requeue (.user ptr) role _ =>
    .ok ((s.schedule ⟨.fiber ptr, none⟩).setWorker w ⟨.scan, kept role⟩)
  | .park fiber role _ => .ok ((s.setState fiber .hold).setWorker w ⟨.scan, kept role⟩)
  | .recycle fiber _ =>
    if Resettable (s.state fiber) then .ok (s.setWorker w { worker with pc := .recycling fiber })
    else .error .assertion
  | _ => .error .disabled

def act (s : Scheduler κ) (w : Nat) (worker : Worker κ) :
    SchedulerLabel κ → Except SchedulerFault (Scheduler κ)
  | .pick _ =>
    match worker.pc with
    | .scan => .ok (s.pick w worker)
    | _ => .error .disabled
  | .dispatch _ fresh => s.dispatch w worker fresh
  | .reset _ => s.reset w worker
  | .check _ => s.check w worker
  | .swapIn _ => s.swapIn w worker
  | .yieldToHold _ =>
    match worker.pc with
    | .exec fiber role => .ok (s.leave w worker fiber role .hold .hold)
    | _ => .error .disabled
  | .switch _ =>
    match worker.pc with
    | .switching fiber role => .ok (s.setWorker w { worker with pc := .exec fiber role })
    | .leaving fiber role outcome =>
      .ok (s.setWorker w { worker with pc := .returned fiber role outcome })
    | _ => .error .disabled
  | .slice _ outcome => s.slice w worker outcome
  | .poll _ =>
    match worker.pc with
    | .exec fiber .idle => .ok (s.setWorker w { worker with pc := .polling fiber })
    | _ => .error .disabled
  | .wake _ drained =>
    match worker.pc with
    | .polling fiber =>
      .ok ({ s with pipe := if drained then 0 else s.pipe }.setWorker w
        { worker with pc := .exec fiber .idle })
    | _ => .error .disabled
  | .quit _ =>
    match worker.pc with
    | .exec fiber .idle =>
      if s.isStopping then .ok (s.leave w worker fiber .idle .term .term)
      else .error .disabled
    | _ => .error .disabled
  | .count _ => s.count w worker
  | .test _ => s.test w worker
  | .finish _ => s.finish w worker
  | _ => .error .disabled

def actBy (s : Scheduler κ) (w : Nat) (label : SchedulerLabel κ) :
    Except SchedulerFault (Scheduler κ) :=
  match s.workers[w]? with
  | none => .error .disabled
  | some worker => s.act w worker label

def perform (s : Scheduler κ) (label : SchedulerLabel κ) : Except SchedulerFault (Scheduler κ) :=
  match label with
  | .create ptr =>
    if s.state (.user ptr) = none then .ok (s.setState (.user ptr) .init) else .error .disabled
  | .schedule entry =>
    match entry.task with
    | .cb _ => .ok (s.schedule entry)
    | .fiber ptr =>
      if s.state (.user ptr) = none then .error .disabled else .ok (s.schedule entry)
  | .stop => .ok (Nat.repeat tickle s.workers.length { s with autostop := true, stopping := true })
  | .pick w | .dispatch w _ | .reset w | .check w | .swapIn w | .yieldToHold w | .switch w
  | .slice w _ | .poll w | .wake w _ | .quit w | .count w | .test w | .finish w => s.actBy w label

def step (s : Scheduler κ) (label : SchedulerLabel κ) : Option (Scheduler κ) :=
  (s.perform label).toOption

end Scheduler
end Sylar
