import Sylar.IOManager.Sound
import Sylar.Timer.Frame

/-! The timeout of hooked I/O: one call of `do_io` or `connect_with_timeout` with
a finite timeout, among all other users of the same timers and the same table of
events. The fiber arms a condition timer, registers its event and parks; the
callback of the timer marks the call as cancelled and then cancels the event. -/
namespace Sylar

/-- The callbacks of condition timers of this call, and all others. -/
inductive Callback where
  | timeout (timer : Nat)
  | other (id : Nat)
deriving DecidableEq

/-- `retries` tells `do_io` from `connect_with_timeout`, which does not loop. A
timeout of `(uint64_t)-1` arms no timer. -/
structure HookedCall where
  fd : Nat
  event : Event
  self : Nat
  timeout : UInt64
  finite : timeout ≠ ~~~0
  retries : Bool

inductive HookPc where
  | call
  | arm
  | register (timer : Nat)
  | failed (timer : Nat)
  | yield (timer ticket : Nat)
  | parked (timer ticket : Nat)
  | resumed (timer : Nat)
  | checked
  | returned
deriving DecidableEq

/-- `cancelled` is `tinfo->cancelled`; `running` is a callback that has set it and
has not called `cancelEvent` yet; `emitted` are callbacks that `listExpiredCb` has
handed to the scheduler and that have not started. -/
structure Hooked (κ : Type) where
  pc : HookPc
  cancelled : Bool
  running : Option Nat
  emitted : List Callback
  timers : TimerManager Callback
  events : IOManager Nat κ

inductive HookLabel (κ : Type) where
  | attempt (blocked : Bool)
  | arm (ptr : Nat) (now : UInt64)
  | addEvent (scheduler : Nat) (fails : Bool)
  | yieldToHold
  | resume
  | cancelTimer
  | check
  | expire (now : UInt64) (probe : Nat)
  | callback (timer : Nat)
  | cancelEvent (fails : Bool)
  | timers (call : TimerManager.Call Callback)
  | events (call : IOManager.Call Nat κ)

namespace HookPc

def timer : HookPc → Option Nat
  | .register timer | .failed timer | .yield timer _ | .parked timer _ | .resumed timer =>
    some timer
  | _ => none

def waits : HookPc → Option Nat
  | .yield timer _ | .parked timer _ => some timer
  | _ => none

end HookPc

namespace Hooked
variable {κ : Type}

def start (tickleFd : Nat) (now : UInt64) : Hooked κ where
  pc := .call
  cancelled := false
  running := none
  emitted := []
  timers := .new now
  events := .new tickleFd

/-- The event of this call is registered, with this fiber as its waiter. -/
def waiting (c : HookedCall) (s : Hooked κ) : Bool :=
  match (s.events.fetch c.fd).bind fun ptr => s.events.heap[ptr]? with
  | none => false
  | some ctx =>
    decide (ctx.events &&& c.event.mask ≠ 0 ∧ (ctx.getContext c.event).fiber = some c.self)

/-- Other code has no pointer to the timer of this call and does not wait in the
name of its fiber. -/
def foreign (s : Hooked κ) : TimerManager.Call Callback → Bool
  | .addTimer ptr _ (.other _) _ _ => decide (s.pc.timer ≠ some ptr)
  | .addTimer _ _ (.timeout _) _ _ | .listExpiredCb _ _ => false
  | .cancel ptr | .refresh ptr _ | .reset ptr _ _ _ | .release ptr =>
    decide (s.pc.timer ≠ some ptr)
  | .getNextTimer _ => true

def strange (c : HookedCall) : IOManager.Call Nat κ → Bool
  | .addEvent _ _ none self _ _ _ => decide (self ≠ c.self)
  | _ => true

def fiberStep (c : HookedCall) (s : Hooked κ) : HookLabel κ → Option (Hooked κ)
  | .attempt blocked =>
    match s.pc with
    | .call => some { s with pc := if blocked then .arm else .returned }
    | _ => none
  | .arm ptr now =>
    match s.pc, s.timers.addTimer ptr c.timeout (.timeout ptr) false now with
    | .arm, .ok (_, timers) => some { s with pc := .register ptr, timers := timers }
    | _, _ => none
  | .addEvent scheduler fails =>
    match s.pc, s.events.addEvent c.fd c.event none c.self true scheduler fails with
    | .register timer, .ok (rt, events) =>
      let pc := if rt = 0 then .yield timer s.events.issued.length else .failed timer
      some { s with pc := pc, events := events }
    | _, _ => none
  | .yieldToHold =>
    match s.pc with
    | .yield timer ticket => some { s with pc := .parked timer ticket }
    | _ => none
  | .resume =>
    match s.pc with
    | .parked timer ticket =>
      if s.events.scheduled.any fun handed => handed.2.ticket == ticket then
        some { s with pc := .resumed timer }
      else none
    | _ => none
  | .cancelTimer =>
    match s.pc.timer, s.pc with
    | some timer, .resumed _ =>
      (s.timers.cancel timer).toOption.map fun result =>
        { s with pc := .checked, timers := result.2 }
    | some timer, .failed _ =>
      (s.timers.cancel timer).toOption.map fun result =>
        { s with pc := .returned, timers := result.2 }
    | _, _ => none
  | .check =>
    match s.pc with
    | .checked =>
      some { s with pc := if s.cancelled then .returned else if c.retries then .call else .returned }
    | _ => none
  | _ => none

/-- The steps of all others. The callback does nothing when the call has
returned, which destroys `tinfo`, or when `cancelled` is set. -/
def step (c : HookedCall) (s : Hooked κ) (label : HookLabel κ) : Option (Hooked κ) :=
  match label with
  | .expire now probe =>
    (s.timers.listExpiredCb now probe).toOption.map fun result =>
      { s with emitted := s.emitted ++ result.1.filterMap id, timers := result.2 }
  | .callback timer =>
    if .timeout timer ∈ s.emitted then
      let s := { s with emitted := s.emitted.erase (.timeout timer) }
      if s.cancelled ∨ s.pc = .returned then some s
      else some { s with cancelled := true, running := some timer }
    else none
  | .cancelEvent fails =>
    match s.running, s.events.cancelEvent c.fd c.event fails with
    | some _, .ok (_, events) => some { s with running := none, events := events }
    | _, _ => none
  | .timers call =>
    if s.foreign call then (s.timers.step call).map fun timers => { s with timers := timers }
    else none
  | .events call =>
    if strange c call then (s.events.step call).map fun events => { s with events := events }
    else none
  | _ => s.fiberStep c label

/-- The fiber does not register its event after the `cancelEvent` of a callback,
and `epoll_ctl` does not fail in that `cancelEvent` on the registered event. -/
def Catches (c : HookedCall) (s : Hooked κ) : HookLabel κ → Prop
  | .addEvent _ fails => fails = false → s.cancelled = true → s.running.isSome = true
  | .cancelEvent fails => fails = true → s.waiting c = false
  | _ => True

instance (c : HookedCall) (s : Hooked κ) (label : HookLabel κ) : Decidable (Catches c s label) :=
  match label with
  | .addEvent _ fails =>
    inferInstanceAs (Decidable (fails = false → s.cancelled = true → s.running.isSome = true))
  | .cancelEvent fails => inferInstanceAs (Decidable (fails = true → s.waiting c = false))
  | .attempt _ | .arm _ _ | .yieldToHold | .resume | .cancelTimer | .check | .expire _ _
  | .callback _ | .timers _ | .events _ => .isTrue trivial

end Hooked
end Sylar
