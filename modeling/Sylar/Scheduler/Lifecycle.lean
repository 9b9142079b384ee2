import Mathlib.Data.List.Basic
import Sylar.Lib.Run
import Sylar.Scheduler.Workers

/-! The life of a fiber under one worker in `Scheduler::run`.

Here a fiber has its `m_cb` and its context, which decide how a slice can end: an empty `m_cb`
throws `std::bad_function_call`, and a context whose `MainFunc` is over runs into its last
assertion. An address is the number of the allocation. Other threads only add to the queue, so what
`run` does behind `swapIn` is one step. -/
namespace Sylar.Lifecycle
variable {κ : Type}

/-- Where `m_ctx` goes on: at the head of `MainFunc`, behind a `swapOut` of the callback, or
behind the `swapOut` of `MainFunc`. -/
inductive Context where
  | start
  | suspended
  | finished
deriving DecidableEq

/-- `stack` is whether there is an `m_stack`. -/
structure Fiber (κ : Type) where
  state : FiberState
  cb : Option κ
  stack : Bool
  ctx : Context
deriving DecidableEq

namespace Fiber

def create (cb : Option κ) : Fiber κ := ⟨.init, cb, true, .start⟩

/-- `Fiber()`, which a thread makes of itself. -/
def main : Fiber κ := ⟨.exec, none, false, .suspended⟩

def reset (fiber : Fiber κ) (cb : Option κ) : Except SchedulerFault (Fiber κ) :=
  if fiber.stack = false then .error .assertion
  else if fiber.state = .term ∨ fiber.state = .except ∨ fiber.state = .init then
    .ok { fiber with cb := cb, ctx := .start, state := .init }
  else .error .assertion

def swapIn (fiber : Fiber κ) : Except SchedulerFault (Fiber κ) :=
  if fiber.state = .exec then .error .assertion else .ok { fiber with state := .exec }

/-- `YieldToHold`, `YieldToReady`, `swapOut`, or the end of `MainFunc`. -/
def leave (fiber : Fiber κ) : Outcome → Fiber κ
  | .hold => { fiber with state := .hold, ctx := .suspended }
  | .ready => { fiber with state := .ready, ctx := .suspended }
  | .swapOut => { fiber with ctx := .suspended }
  | .term => { fiber with cb := none, state := .term, ctx := .finished }
  | .except => { fiber with state := .except, ctx := .finished }

def slice (fiber : Fiber κ) (outcome : Outcome) : Except SchedulerFault (Fiber κ) :=
  match fiber.ctx with
  | .start =>
    if fiber.cb.isNone ∧ outcome ≠ .except then .error .disabled else .ok (fiber.leave outcome)
  | .suspended => .ok (fiber.leave outcome)
  | .finished => .error .assertion

end Fiber

/-- `thread` is `-1` for any. -/
structure FiberAndThread (κ : Type) where
  fiber : Option Nat
  cb : Option κ
  thread : Int
deriving DecidableEq

inductive Pc (κ : Type) where
  | head
  | taken (ft : FiberAndThread κ)
  | nothing
  | exec (fiber : Nat) (role : Role)
  | returned (fiber : Nat) (role : Role)
  | exited
deriving DecidableEq

/-- `heap` are the fibers ever made, by address. -/
structure Scheduler (κ : Type) where
  fibers : List (FiberAndThread κ)
  heap : List (Fiber κ)
  idleFiber : Nat
  cbFiber : Option Nat
  pc : Pc κ
deriving DecidableEq

inductive Label (κ : Type) where
  | create (cb : Option κ)
  | main
  | scheduleFiber (fiber : Option Nat) (thread : Int)
  | scheduleCb (cb : Option κ) (thread : Int)
  | pick
  | dispatch
  | slice (outcome : Outcome)
  | finish

namespace Scheduler

def start (idle : κ) : Scheduler κ := ⟨[], [Fiber.create (some idle)], 0, none, .head⟩

def alloc (s : Scheduler κ) (fiber : Fiber κ) : Scheduler κ := { s with heap := s.heap ++ [fiber] }

def update (s : Scheduler κ) (ptr : Nat) (f : Fiber κ → Except SchedulerFault (Fiber κ)) :
    Except SchedulerFault (Scheduler κ) :=
  match s.heap[ptr]? with
  | none => .error .disabled
  | some fiber => (f fiber).map fun fiber' => { s with heap := s.heap.set ptr fiber' }

def getState (s : Scheduler κ) (ptr : Nat) : Option FiberState := (s.heap[ptr]?).map Fiber.state

def Ended (s : Scheduler κ) (ptr : Nat) : Prop :=
  s.getState ptr = some .term ∨ s.getState ptr = some .except

instance (s : Scheduler κ) (ptr : Nat) : Decidable (s.Ended ptr) :=
  inferInstanceAs (Decidable (_ ∨ _))

def scheduleNoLock (s : Scheduler κ) (ft : FiberAndThread κ) : Scheduler κ :=
  if ft.fiber.isSome ∨ ft.cb.isSome then { s with fibers := s.fibers ++ [ft] } else s

def scanFibers (self : Int) (heap : List (Fiber κ)) : List (FiberAndThread κ) →
    Except SchedulerFault (Option (FiberAndThread κ × List (FiberAndThread κ)))
  | [] => .ok none
  | it :: rest =>
    let skip := (scanFibers self heap rest).map fun found =>
      found.map fun (ft, left) => (ft, it :: left)
    if it.thread ≠ -1 ∧ it.thread ≠ self then skip
    else if it.fiber.isNone ∧ it.cb.isNone then .error .assertion
    else if (it.fiber.bind (heap[·]?)).map Fiber.state = some .exec then skip
    else .ok (some (it, rest))

def pick (self : Int) (s : Scheduler κ) : Except SchedulerFault (Scheduler κ) :=
  (scanFibers self s.heap s.fibers).map fun
    | none => { s with pc := .nothing }
    | some (ft, left) => { s with fibers := left, pc := .taken ft }

def swapIn (s : Scheduler κ) (ptr : Nat) (role : Role) : Except SchedulerFault (Scheduler κ) :=
  (s.update ptr Fiber.swapIn).map fun s => { s with pc := .exec ptr role }

def dispatchCb (s : Scheduler κ) (cb : κ) : Except SchedulerFault (Scheduler κ) :=
  match s.cbFiber with
  | some ptr => do
    let s ← s.update ptr (Fiber.reset · (some cb))
    s.swapIn ptr .cb
  | none =>
    let ptr := s.heap.length
    ({ s.alloc (Fiber.create (some cb)) with cbFiber := some ptr }).swapIn ptr .cb

/-- The three-way branch of `run`, up to the switch. -/
def dispatch (s : Scheduler κ) : Except SchedulerFault (Scheduler κ) :=
  match s.pc with
  | .taken ft =>
    match ft.fiber.filter (fun ptr => !decide (s.Ended ptr)) with
    | some ptr => s.swapIn ptr .fiber
    | none =>
      match ft.cb with
      | some cb => s.dispatchCb cb
      | none => .ok { s with pc := .head }
  | .nothing =>
    if s.getState s.idleFiber = some .term then .ok { s with pc := .exited }
    else s.swapIn s.idleFiber .idle
  | _ => .error .disabled

/-- `Scheduler::idle` and `IOManager::idle` yield to hold, swap out, or return. -/
def slice (s : Scheduler κ) (outcome : Outcome) : Except SchedulerFault (Scheduler κ) :=
  match s.pc with
  | .exec ptr role =>
    if ptr = s.idleFiber ∧ (outcome = .ready ∨ outcome = .except) then .error .disabled
    else (s.update ptr (Fiber.slice · outcome)).map fun s => { s with pc := .returned ptr role }
  | _ => .error .disabled

/-- `m_state = Fiber::HOLD`. -/
def hold (s : Scheduler κ) (ptr : Nat) : Except SchedulerFault (Scheduler κ) :=
  s.update ptr fun fiber => .ok { fiber with state := .hold }

/-- What follows `swapIn` in the three branches. -/
def finish (s : Scheduler κ) : Except SchedulerFault (Scheduler κ) :=
  match s.pc with
  | .returned ptr .fiber =>
    if s.getState ptr = some .ready then
      .ok { s.scheduleNoLock ⟨some ptr, none, -1⟩ with pc := .head }
    else if s.Ended ptr then .ok { s with pc := .head }
    else { s with pc := .head }.hold ptr
  | .returned ptr .cb =>
    if s.getState ptr = some .ready then
      .ok { s.scheduleNoLock ⟨some ptr, none, -1⟩ with cbFiber := none, pc := .head }
    else if s.Ended ptr then { s with pc := .head }.update ptr (Fiber.reset · none)
    else { s with cbFiber := none, pc := .head }.hold ptr
  | .returned ptr .idle =>
    if s.Ended ptr then .ok { s with pc := .head } else { s with pc := .head }.hold ptr
  | _ => .error .disabled

/-- A fiber that is scheduled is one that there is. -/
def step (self : Int) (s : Scheduler κ) : Label κ → Except SchedulerFault (Scheduler κ)
  | .create cb => .ok (s.alloc (Fiber.create cb))
  | .main => .ok (s.alloc Fiber.main)
  | .scheduleFiber fiber thread =>
    if ∀ ptr ∈ fiber, ptr < s.heap.length then .ok (s.scheduleNoLock ⟨fiber, none, thread⟩)
    else .error .disabled
  | .scheduleCb cb thread => .ok (s.scheduleNoLock ⟨none, cb, thread⟩)
  | .pick =>
    match s.pc with
    | .head => s.pick self
    | _ => .error .disabled
  | .dispatch => s.dispatch
  | .slice outcome => s.slice outcome
  | .finish => s.finish

def run (self : Int) (s : Scheduler κ) (labels : List (Label κ)) : Option (Scheduler κ) :=
  Lib.run (fun s label => (s.step self label).toOption) s labels

end Scheduler

namespace Fiber

def renewed (fiber : Fiber κ) (cb : Option κ) : Fiber κ :=
  { fiber with cb := cb, ctx := .start, state := .init }

/-- A fiber that is not being run: only the one that a thread makes of itself is in `EXEC`. -/
def Sound (fiber : Fiber κ) : Prop :=
  match fiber.state with
  | .init => fiber.stack = true ∧ fiber.ctx = .start
  | .hold | .ready => fiber.stack = true ∧ fiber.ctx = .suspended
  | .term | .except => fiber.stack = true ∧ fiber.ctx = .finished
  | .exec => fiber.stack = false

/-- Nothing but a throw is to be expected of it: this is why a stale entry for the recycled
`cb_fiber` does no harm. -/
def Spent (fiber : Fiber κ) : Prop :=
  fiber.state = .term ∨ fiber.state = .except ∨ fiber.ctx = .start ∧ fiber.cb = none

def Idles (fiber : Fiber κ) : Prop :=
  fiber.stack = true ∧ fiber.state ≠ .except ∧ (fiber.ctx = .start → fiber.cb.isSome)

def Live (fiber : Fiber κ) : Prop :=
  fiber.stack = true ∧ (fiber.state = .init ∧ fiber.ctx = .start ∨
    (fiber.state = .hold ∨ fiber.state = .ready) ∧ fiber.ctx = .suspended)

def Running (fiber : Fiber κ) : Prop :=
  fiber.stack = true ∧ fiber.state = .exec ∧ fiber.ctx ≠ .finished

def Returned (fiber : Fiber κ) : Prop :=
  fiber.stack = true ∧ fiber.state ≠ .init ∧
    (fiber.Sound ∨ fiber.state = .exec ∧ fiber.ctx = .suspended)

end Fiber

namespace Scheduler

def At (s : Scheduler κ) (ptr : Nat) (p : Fiber κ → Prop) : Prop :=
  ∃ fiber, s.heap[ptr]? = some fiber ∧ p fiber

/-- What holds at every step, where `current` is the fiber being run, if any, and `exempt` is
`cb_fiber` while it runs a callback. -/
structure Core (s : Scheduler κ) (current exempt : Option Nat) : Prop where
  others : ∀ ptr fiber, s.heap[ptr]? = some fiber → current ≠ some ptr → fiber.Sound
  queue : ∀ ft ∈ s.fibers, (ft.fiber.isSome ∨ ft.cb.isSome) ∧ ∀ ptr ∈ ft.fiber, ptr < s.heap.length
  idle : s.At s.idleFiber Fiber.Idles
  cb : ∀ ptr, s.cbFiber = some ptr → ptr ≠ s.idleFiber ∧
    s.At ptr fun fiber => fiber.stack = true ∧ (exempt = some ptr ∨ fiber.Spent)

def RoleOk (s : Scheduler κ) (ptr : Nat) : Role → Prop
  | .fiber => True
  | .cb => s.cbFiber = some ptr
  | .idle => ptr = s.idleFiber

def exemptOf (ptr : Nat) : Role → Option Nat
  | .cb => some ptr
  | _ => none

def Inv (s : Scheduler κ) : Prop :=
  match s.pc with
  | .head | .nothing | .exited => s.Core none none
  | .taken ft => s.Core none none ∧ ∀ ptr ∈ ft.fiber, s.At ptr fun fiber => fiber.state ≠ .exec
  | .exec ptr role =>
    s.Core (some ptr) (exemptOf ptr role) ∧ s.RoleOk ptr role ∧ s.At ptr Fiber.Running
  | .returned ptr role =>
    s.Core (some ptr) (exemptOf ptr role) ∧ s.RoleOk ptr role ∧ s.At ptr Fiber.Returned

theorem getElem_set (s : Scheduler κ) (ptr : Nat) (old fiber : Fiber κ)
    (hold : s.heap[ptr]? = some old) : (s.heap.set ptr fiber)[ptr]? = some fiber := by
  obtain ⟨hlt, -⟩ := List.getElem?_eq_some_iff.mp hold
  exact List.getElem?_set_self hlt

theorem Core.idle_at {s : Scheduler κ} {current exempt : Option Nat} (h : s.Core current exempt)
    (fiber : Fiber κ) (hfiber : s.heap[s.idleFiber]? = some fiber) : fiber.Idles := by
  obtain ⟨found, hfound, hidles⟩ := h.idle
  cases hfound.symm.trans hfiber
  exact hidles

theorem Core.cb_at {s : Scheduler κ} {current exempt : Option Nat} (h : s.Core current exempt)
    (ptr : Nat) (fiber : Fiber κ) (hptr : s.cbFiber = some ptr) (hfiber : s.heap[ptr]? = some fiber) :
    exempt = some ptr ∨ fiber.Spent := by
  obtain ⟨-, found, hfound, -, hspent⟩ := h.cb ptr hptr
  cases hfound.symm.trans hfiber
  exact hspent

theorem update_ok (s : Scheduler κ) (ptr : Nat) (f : Fiber κ → Except SchedulerFault (Fiber κ))
    (fiber fiber' : Fiber κ) (hfiber : s.heap[ptr]? = some fiber) (hf : f fiber = .ok fiber') :
    s.update ptr f = .ok { s with heap := s.heap.set ptr fiber' } := by
  rw [update, hfiber]
  simp only [hf, Except.map]

theorem Core.set {s : Scheduler κ} {current exempt : Option Nat} (h : s.Core current exempt)
    (ptr : Nat) (fiber : Fiber κ) (pc : Pc κ) (current' exempt' : Option Nat)
    (hcurrent : ∀ other, other ≠ ptr → current ≠ some other ∧ exempt ≠ some other)
    (hsound : current' ≠ some ptr → fiber.Sound) (hidle : ptr = s.idleFiber → fiber.Idles)
    (hcb : s.cbFiber = some ptr → fiber.stack = true ∧ (exempt' = some ptr ∨ fiber.Spent)) :
    { s with heap := s.heap.set ptr fiber, pc := pc }.Core current' exempt' := by
  refine ⟨?_, ?_, ?_, ?_⟩
  · intro other found hfound hother
    rw [List.getElem?_set] at hfound
    split at hfound
    · next heq =>
      cases heq
      split at hfound
      · cases hfound
        exact hsound hother
      · cases hfound
    · next hne => exact h.others other found hfound (hcurrent other (Ne.symm hne)).1
  · intro ft hft
    simp only [List.length_set]
    exact h.queue ft hft
  · by_cases hptr : ptr = s.idleFiber
    · cases hptr
      obtain ⟨old, hold, -⟩ := h.idle
      exact ⟨fiber, getElem_set s _ old fiber hold, hidle rfl⟩
    · obtain ⟨found, hfound, hidles⟩ := h.idle
      exact ⟨found, (List.getElem?_set_ne hptr).trans hfound, hidles⟩
  · intro other hother
    obtain ⟨hne, found, hfound, hstack, hspent⟩ := h.cb other hother
    refine ⟨hne, ?_⟩
    by_cases hptr : ptr = other
    · cases hptr
      exact ⟨fiber, getElem_set s ptr found fiber hfound, hcb hother⟩
    · refine ⟨found, (List.getElem?_set_ne hptr).trans hfound, hstack, .inr ?_⟩
      exact hspent.resolve_left (hcurrent other (Ne.symm hptr)).2

theorem Core.setPc {s : Scheduler κ} {current exempt : Option Nat} (h : s.Core current exempt)
    (pc : Pc κ) : { s with pc := pc }.Core current exempt :=
  ⟨h.others, h.queue, h.idle, h.cb⟩

theorem Core.schedule {s : Scheduler κ} {current exempt : Option Nat} (h : s.Core current exempt)
    (ft : FiberAndThread κ) (hft : ∀ ptr ∈ ft.fiber, ptr < s.heap.length) :
    (s.scheduleNoLock ft).Core current exempt := by
  rw [scheduleNoLock]
  split
  · next hsome =>
    refine ⟨h.others, ?_, h.idle, h.cb⟩
    intro other hother
    rcases List.mem_append.mp hother with hold | hnew
    · exact h.queue other hold
    · cases List.mem_singleton.mp hnew
      exact ⟨hsome, hft⟩
  · exact h

theorem At.alloc {s : Scheduler κ} {ptr : Nat} {p : Fiber κ → Prop} (h : s.At ptr p)
    (fiber : Fiber κ) : (s.alloc fiber).At ptr p := by
  obtain ⟨found, hfound, hp⟩ := h
  obtain ⟨hlt, -⟩ := List.getElem?_eq_some_iff.mp hfound
  exact ⟨found, (List.getElem?_append_left hlt).trans hfound, hp⟩

theorem Core.alloc {s : Scheduler κ} {current exempt : Option Nat} (h : s.Core current exempt)
    (fiber : Fiber κ) (hsound : fiber.Sound) : (s.alloc fiber).Core current exempt := by
  refine ⟨?_, ?_, h.idle.alloc fiber, ?_⟩
  · intro ptr found hfound hptr
    by_cases hlt : ptr < s.heap.length
    · exact h.others ptr found ((List.getElem?_append_left hlt).symm.trans hfound) hptr
    · have hmem := List.mem_of_getElem? ((List.getElem?_append_right (by omega)).symm.trans hfound)
      cases List.mem_singleton.mp hmem
      exact hsound
  · intro ft hft
    obtain ⟨hsome, hptr⟩ := h.queue ft hft
    refine ⟨hsome, ?_⟩
    intro ptr hmem
    have hlt := hptr ptr hmem
    rw [Scheduler.alloc, List.length_append]
    omega
  · intro ptr hptr
    obtain ⟨hne, hat⟩ := h.cb ptr hptr
    exact ⟨hne, hat.alloc fiber⟩

theorem Inv.frame {s s' : Scheduler κ} (h : s.Inv) (hpc : s'.pc = s.pc)
    (hcb : s'.cbFiber = s.cbFiber) (hidle : s'.idleFiber = s.idleFiber)
    (hcore : ∀ current exempt, s.Core current exempt → s'.Core current exempt)
    (hat : ∀ ptr p, s.At ptr p → s'.At ptr p) : s'.Inv := by
  have hrole : ∀ ptr role, s.RoleOk ptr role → s'.RoleOk ptr role := by
    intro ptr role hok
    cases role with
    | fiber => trivial
    | cb => exact hcb.trans hok
    | idle => exact Eq.trans hok hidle.symm
  unfold Inv at h ⊢
  rw [hpc]
  cases hold : s.pc with
  | head | nothing | exited =>
    rw [hold] at h
    exact hcore _ _ h
  | taken ft =>
    rw [hold] at h
    exact ⟨hcore _ _ h.1, fun ptr hptr => hat ptr _ (h.2 ptr hptr)⟩
  | exec ptr role | returned ptr role =>
    rw [hold] at h
    exact ⟨hcore _ _ h.1, hrole _ _ h.2.1, hat _ _ h.2.2⟩

theorem Inv.alloc {s : Scheduler κ} (h : s.Inv) (fiber : Fiber κ) (hsound : fiber.Sound) :
    (s.alloc fiber).Inv :=
  h.frame rfl rfl rfl (fun _ _ hcore => hcore.alloc fiber hsound) (fun _ _ hat => hat.alloc fiber)

theorem scheduleNoLock_eq (s : Scheduler κ) (ft : FiberAndThread κ) :
    ∃ fibers, s.scheduleNoLock ft = { s with fibers := fibers } := by
  rw [scheduleNoLock]
  split
  · exact ⟨_, rfl⟩
  · exact ⟨s.fibers, rfl⟩

theorem Inv.schedule {s : Scheduler κ} (h : s.Inv) (ft : FiberAndThread κ)
    (hft : ∀ ptr ∈ ft.fiber, ptr < s.heap.length) : (s.scheduleNoLock ft).Inv := by
  obtain ⟨fibers, heq⟩ := s.scheduleNoLock_eq ft
  apply h.frame
  · rw [heq]
  · rw [heq]
  · rw [heq]
  · exact fun _ _ hcore => hcore.schedule ft hft
  · rw [heq]
    exact fun _ _ hat => hat

theorem scanFibers_ok (self : Int) (heap : List (Fiber κ)) (fibers : List (FiberAndThread κ))
    (hqueue : ∀ ft ∈ fibers, ft.fiber.isSome ∨ ft.cb.isSome) :
    ∃ found, scanFibers self heap fibers = .ok found ∧ ∀ ft left, found = some (ft, left) →
      ft ∈ fibers ∧ (∀ other ∈ left, other ∈ fibers) ∧
      (ft.fiber.bind (heap[·]?)).map Fiber.state ≠ some .exec := by
  induction fibers with
  | nil => exact ⟨none, rfl, fun ft left hnone => by cases hnone⟩
  | cons it rest ih =>
    obtain ⟨found, hscan, hfound⟩ := ih fun ft hft => hqueue ft (List.mem_cons_of_mem it hft)
    have hskip : ∃ skipped, (scanFibers self heap rest).map (fun found =>
        found.map fun (ft, left) => (ft, it :: left)) = .ok skipped ∧
        ∀ ft left, skipped = some (ft, left) → ft ∈ it :: rest ∧
        (∀ other ∈ left, other ∈ it :: rest) ∧
        (ft.fiber.bind (heap[·]?)).map Fiber.state ≠ some .exec := by
      refine ⟨found.map fun (ft, left) => (ft, it :: left), by rw [hscan]; rfl, ?_⟩
      intro ft left hsome
      cases found with
      | none => cases hsome
      | some pair =>
        cases hsome
        obtain ⟨hmem, hleft, hstate⟩ := hfound _ _ rfl
        refine ⟨List.mem_cons_of_mem it hmem, ?_, hstate⟩
        intro other hother
        rcases List.mem_cons.mp hother with rfl | hold
        · exact List.mem_cons_self
        · exact List.mem_cons_of_mem it (hleft other hold)
    have hit := hqueue it List.mem_cons_self
    rw [scanFibers]
    split
    · exact hskip
    · split
      · next hnone =>
        rw [Option.isNone_iff_eq_none, Option.isNone_iff_eq_none] at hnone
        rw [hnone.1, hnone.2] at hit
        simp at hit
      · split
        · exact hskip
        · next hstate =>
          refine ⟨_, rfl, ?_⟩
          rintro ft left ⟨⟩
          exact ⟨List.mem_cons_self, fun other hother => List.mem_cons_of_mem it hother, hstate⟩

theorem pick_ok (self : Int) (s : Scheduler κ) (h : s.Inv) (hpc : s.pc = .head) :
    ∃ s', s.pick self = .ok s' ∧ s'.Inv := by
  unfold Inv at h
  rw [hpc] at h
  obtain ⟨found, hscan, hfound⟩ :=
    scanFibers_ok self s.heap s.fibers fun ft hft => (h.queue ft hft).1
  cases found with
  | none => exact ⟨{ s with pc := .nothing }, by rw [pick, hscan]; rfl, h.setPc .nothing⟩
  | some pair =>
    obtain ⟨hmem, hleft, hstate⟩ := hfound pair.1 pair.2 rfl
    refine ⟨{ s with fibers := pair.2, pc := .taken pair.1 }, by rw [pick, hscan]; rfl, ?_, ?_⟩
    · exact ⟨h.others, fun ft hft => h.queue ft (hleft ft hft), h.idle, h.cb⟩
    · intro ptr hptr
      have hlt := (h.queue pair.1 hmem).2 ptr hptr
      refine ⟨_, List.getElem?_eq_getElem hlt, ?_⟩
      intro hexec
      apply hstate
      rw [hptr, Option.bind_some, List.getElem?_eq_getElem hlt, Option.map_some, hexec]

end Scheduler
end Sylar.Lifecycle
