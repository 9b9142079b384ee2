import Mathlib.Data.List.Forall2
import Sylar.Scheduler.Lifecycle
import Sylar.Scheduler.Moves

/-! The two models of `Scheduler::run`: a thread that runs fibers with their callbacks and contexts
is a worker of `Sylar.Scheduler`, whose steps are finer. -/
namespace Sylar.Lifecycle
variable {κ : Type}

/-- The worker is thread 0 among the workers. -/
def threadOf (tid thread : Int) : Option Nat :=
  if thread = -1 then none else if thread = tid then some 0 else some 1

def fiberId (idle ptr : Nat) : FiberId :=
  if ptr = idle then .idle 0 else .user ptr

inductive Entry (tid : Int) (idle : Nat) : FiberAndThread κ → Sylar.FiberAndThread κ → Prop where
  | fiber (ptr : Nat) (thread : Int) : ptr ≠ idle →
    Entry tid idle ⟨some ptr, none, thread⟩ ⟨.fiber ptr, threadOf tid thread⟩
  | cb (cb : κ) (thread : Int) :
    Entry tid idle ⟨none, some cb, thread⟩ ⟨.cb cb, threadOf tid thread⟩

inductive PcAt (tid : Int) (idle : Nat) : Pc κ → Sylar.Pc κ → Prop where
  | head : PcAt tid idle .head .scan
  | taken {ft : FiberAndThread κ} {entry : Sylar.FiberAndThread κ} : Entry tid idle ft entry →
    PcAt tid idle (.taken ft) (.taken entry)
  | nothing : PcAt tid idle .nothing .nothing
  | exec (ptr : Nat) (role : Role) : (role = .idle ↔ ptr = idle) →
    PcAt tid idle (.exec ptr role) (.exec (fiberId idle ptr) role)
  | returned (ptr : Nat) (role : Role) (outcome : Outcome) : (role = .idle ↔ ptr = idle) →
    PcAt tid idle (.returned ptr role) (.returned (fiberId idle ptr) role outcome)
  | exited : PcAt tid idle .exited .exited

/-- What the one worker adds to `m_activeThreadCount`. -/
def busy : Pc κ → Int
  | .taken _ | .exec _ .fiber | .exec _ .cb | .returned _ .fiber | .returned _ .cb => 1
  | .head | .nothing | .exec _ .idle | .returned _ .idle | .exited => 0

/-- Every fiber of the heap is in the state that the workers see, and there are no others. -/
def States (idle : Nat) (heap : List (Fiber κ)) (state : FiberId → Option FiberState) : Prop :=
  ∀ ptr, state (fiberId idle ptr) = (heap[ptr]?).map Fiber.state

/-- The queue and the fibers: `s` gives a fiber a callback and a context, `a` only a state. -/
structure Agrees (tid : Int) (s : Scheduler κ) (a : Sylar.Scheduler κ) : Prop where
  queue : List.Forall₂ (Entry tid s.idleFiber) s.fibers a.fibers
  states : States s.idleFiber s.heap a.state
  idle : s.idleFiber < s.heap.length
  cb : s.cbFiber ≠ some s.idleFiber

structure Abstracts (tid : Int) (s : Scheduler κ) (a : Sylar.Scheduler κ) : Prop
    extends Agrees tid s a where
  worker : ∃ pc, a.workers = [⟨pc, s.cbFiber.map FiberId.user⟩] ∧ PcAt tid s.idleFiber s.pc pc
  active : a.activeThreadCount = busy s.pc

/-- The workers can go on from `a` to where `s` is. -/
def Matched (tid : Int) (s : Scheduler κ) (a : Sylar.Scheduler κ) : Prop :=
  ∃ labels a', Lib.run Sylar.Scheduler.step a labels = some a' ∧ Abstracts tid s a'

/-- What the workers do not have: the fiber that a thread makes of itself, a pointer to an idle
fiber in the queue, and an idle fiber that returns before its `stopping()`. -/
def Shared (s : Scheduler κ) : Label κ → Prop
  | .main => False
  | .scheduleFiber fiber _ => fiber ≠ some s.idleFiber
  | .slice outcome => s.pc = .exec s.idleFiber .idle → outcome = .term → s.fibers = []
  | _ => True

theorem fiberId_injective (idle ptr other : Nat) (heq : fiberId idle ptr = fiberId idle other) :
    ptr = other := by
  unfold fiberId at heq
  split at heq <;> split at heq <;> simp_all

theorem fiberId_of_ne (idle ptr : Nat) (hne : ptr ≠ idle) : fiberId idle ptr = .user ptr :=
  if_neg hne

theorem fiberId_idle (idle : Nat) : fiberId idle idle = .idle 0 :=
  if_pos rfl

section
variable {idle : Nat} {heap : List (Fiber κ)} {state : FiberId → Option FiberState}

theorem States.user (h : States idle heap state) (ptr : Nat) (hne : ptr ≠ idle) :
    state (.user ptr) = (heap[ptr]?).map Fiber.state := by
  rw [← h ptr, fiberId_of_ne idle ptr hne]

theorem States.set (h : States idle heap state) (ptr : Nat) (old fiber : Fiber κ)
    (hold : heap[ptr]? = some old) :
    States idle (heap.set ptr fiber)
      (Sylar.Scheduler.stateAfter state (some (fiberId idle ptr, fiber.state))) := by
  obtain ⟨hlt, -⟩ := List.getElem?_eq_some_iff.mp hold
  intro other
  simp only [Sylar.Scheduler.stateAfter]
  by_cases hother : other = ptr
  · rw [hother, if_pos rfl, List.getElem?_set_self hlt]
    rfl
  · have hne : fiberId idle other ≠ fiberId idle ptr :=
      fun heq => hother (fiberId_injective idle other ptr heq)
    rw [if_neg hne, h other, List.getElem?_set_ne (Ne.symm hother)]

theorem States.keep (h : States idle heap state) (ptr : Nat) (old fiber : Fiber κ)
    (hold : heap[ptr]? = some old) (hstate : fiber.state = old.state) :
    States idle (heap.set ptr fiber) state := by
  intro other
  rw [h other, List.getElem?_set]
  split
  · next heq =>
    subst heq
    obtain ⟨hlt, -⟩ := List.getElem?_eq_some_iff.mp hold
    rw [if_pos hlt, hold, Option.map_some, Option.map_some, hstate]
  · rfl

theorem States.alloc (h : States idle heap state) (hidle : idle < heap.length) (fiber : Fiber κ) :
    States idle (heap ++ [fiber])
      (Sylar.Scheduler.stateAfter state (some (.user heap.length, fiber.state))) := by
  have hnew : fiberId idle heap.length = .user heap.length :=
    fiberId_of_ne idle heap.length (by omega)
  intro other
  simp only [Sylar.Scheduler.stateAfter]
  by_cases hother : other = heap.length
  · rw [hother, if_pos hnew, List.getElem?_concat_length]
    rfl
  · have hne : fiberId idle other ≠ .user heap.length := by
      rw [← hnew]
      exact fun heq => hother (fiberId_injective idle other heap.length heq)
    rw [if_neg hne, h other]
    rcases Nat.lt_or_gt_of_ne hother with hlt | hgt
    · rw [List.getElem?_append_left hlt]
    · rw [List.getElem?_eq_none (by omega), List.getElem?_eq_none (by simp; omega)]

theorem States.fresh (h : States idle heap state) (hidle : idle < heap.length) :
    state (.user heap.length) = none := by
  rw [h.user heap.length (by omega), List.getElem?_eq_none (Nat.le_refl _)]
  rfl

end

theorem threadOf_skip (tid thread : Int) :
    (threadOf tid thread).isSome ∧ threadOf tid thread ≠ some 0 ↔
      thread ≠ -1 ∧ thread ≠ tid := by
  unfold threadOf
  split
  · simp_all
  · split <;> simp_all

theorem scanFibers_abstracts (tid : Int) (idle : Nat) (heap : List (Fiber κ))
    (state : FiberId → Option FiberState) (hstates : States idle heap state)
    (fibers : List (FiberAndThread κ)) (entries : List (Sylar.FiberAndThread κ))
    (hqueue : List.Forall₂ (Entry tid idle) fibers entries) :
    ∃ found, Scheduler.scanFibers tid heap fibers = .ok found ∧
      Option.Rel (fun taken entry => Entry tid idle taken.1 entry.1 ∧
        List.Forall₂ (Entry tid idle) taken.2 entry.2) found
        (Sylar.Scheduler.scanFibers state 0 entries).2 := by
  induction hqueue with
  | nil => exact ⟨none, rfl, .none⟩
  | @cons ft entry rest entries hentry hrest ih =>
    obtain ⟨found, hscan, hfound⟩ := ih
    have hskip : Option.Rel (fun taken entry => Entry tid idle taken.1 entry.1 ∧
        List.Forall₂ (Entry tid idle) taken.2 entry.2)
        (found.map fun taken => (taken.1, ft :: taken.2))
        ((Sylar.Scheduler.scanFibers state 0 entries).2.map fun taken =>
          (taken.1, entry :: taken.2)) := by
      generalize (Sylar.Scheduler.scanFibers state 0 entries).2 = taken at hfound
      cases hfound with
      | none => exact .none
      | some hpair => exact .some ⟨hpair.1, .cons hentry hpair.2⟩
    have htaken : Option.Rel (fun taken entry => Entry tid idle taken.1 entry.1 ∧
        List.Forall₂ (Entry tid idle) taken.2 entry.2) (some (ft, rest)) (some (entry, entries)) :=
      .some ⟨hentry, hrest⟩
    cases hentry with
    | fiber ptr thread hne =>
      rw [Scheduler.scanFibers, Sylar.Scheduler.scanFibers, hscan]
      simp only [threadOf_skip, hstates.user ptr hne, Option.isNone_some, Bool.false_eq_true,
        false_and, if_false, Option.bind_some]
      split
      · exact ⟨_, rfl, hskip⟩
      · split
        · exact ⟨_, rfl, hskip⟩
        · exact ⟨_, rfl, htaken⟩
    | cb cb thread =>
      rw [Scheduler.scanFibers, Sylar.Scheduler.scanFibers, hscan]
      simp only [threadOf_skip, Option.isNone_some, Bool.false_eq_true, and_false, if_false]
      split
      · exact ⟨_, rfl, hskip⟩
      · rw [if_neg (by simp)]
        exact ⟨_, rfl, htaken⟩

theorem update_eq (s s' : Scheduler κ) (ptr : Nat)
    (f : Fiber κ → Except SchedulerFault (Fiber κ)) (hok : s.update ptr f = .ok s') :
    ∃ old fiber, s.heap[ptr]? = some old ∧ f old = .ok fiber ∧
      s' = { s with heap := s.heap.set ptr fiber } := by
  unfold Scheduler.update at hok
  split at hok
  · cases hok
  · next old hold =>
    cases hf : f old with
    | error fault =>
      rw [hf] at hok
      cases hok
    | ok fiber =>
      rw [hf] at hok
      cases hok
      exact ⟨old, fiber, hold, hf, rfl⟩

theorem swapIn_eq (s s' : Scheduler κ) (ptr : Nat) (role : Role)
    (hok : s.swapIn ptr role = .ok s') :
    ∃ old, s.heap[ptr]? = some old ∧ old.state ≠ .exec ∧
      s' = { s with heap := s.heap.set ptr { old with state := .exec }, pc := .exec ptr role } := by
  unfold Scheduler.swapIn at hok
  cases hupdate : s.update ptr Fiber.swapIn with
  | error fault =>
    rw [hupdate] at hok
    cases hok
  | ok next =>
    rw [hupdate] at hok
    cases hok
    obtain ⟨old, fiber, hold, hf, rfl⟩ := update_eq s next ptr Fiber.swapIn hupdate
    unfold Fiber.swapIn at hf
    split at hf
    · cases hf
    · next hexec =>
      cases hf
      exact ⟨old, hold, hexec, rfl⟩

theorem reset_eq (old fiber : Fiber κ) (cb : Option κ) (hok : old.reset cb = .ok fiber) :
    (old.state = .term ∨ old.state = .except ∨ old.state = .init) ∧ fiber = old.renewed cb := by
  unfold Fiber.reset at hok
  split at hok
  · cases hok
  · split at hok
    · next hstate =>
      cases hok
      exact ⟨hstate, rfl⟩
    · cases hok

theorem enter_run (a : Sylar.Scheduler κ) (id : FiberId) (role : Role) (cb : Option FiberId)
    (state : FiberState) (hworkers : a.workers = [⟨.entering id role, cb⟩])
    (hstate : a.state id = some state) (hexec : state ≠ .exec) :
    Lib.run Sylar.Scheduler.step a [.check 0, .swapIn 0, .switch 0] =
      some { a.setState id .exec with workers := [⟨.exec id role, cb⟩] } := by
  simp [Lib.run, Sylar.Scheduler.step, Sylar.Scheduler.perform, Sylar.Scheduler.actBy,
    Sylar.Scheduler.act, Sylar.Scheduler.check, Sylar.Scheduler.swapIn, Sylar.Scheduler.setWorker,
    Sylar.Scheduler.setState, hworkers, hstate, hexec, Except.toOption]

theorem step_worker (a : Sylar.Scheduler κ) (worker : Worker κ) (label : SchedulerLabel κ)
    (next : Sylar.Scheduler κ) (hworkers : a.workers = [worker])
    (hby : a.perform label = a.actBy 0 label) (hact : a.act 0 worker label = .ok next) :
    a.step label = some next := by
  rw [Sylar.Scheduler.step, hby, Sylar.Scheduler.actBy, hworkers]
  simp only [List.getElem?_cons_zero, hact]
  rfl

theorem setWorker_workers (a : Sylar.Scheduler κ) (old worker : Worker κ)
    (hworkers : a.workers = [old]) : (a.setWorker 0 worker).workers = [worker] := by
  rw [Sylar.Scheduler.setWorker, hworkers]
  rfl

section
variable {tid : Int} {s : Scheduler κ} {a : Sylar.Scheduler κ}

theorem Matched.of_step (label : SchedulerLabel κ)
    (h : ∃ a', a.step label = some a' ∧ Abstracts tid s a') : Matched tid s a := by
  obtain ⟨a', hstep, habstracts⟩ := h
  exact ⟨_, a', Lib.run_single _ a a' hstep, habstracts⟩

theorem Matched.after (a₁ : Sylar.Scheduler κ) (labels : List (SchedulerLabel κ))
    (hrun : Lib.run Sylar.Scheduler.step a labels = some a₁) (h : Matched tid s a₁) :
    Matched tid s a := by
  obtain ⟨others, a', hothers, habstracts⟩ := h
  exact ⟨_, a', Lib.run_trans _ _ a a₁ a' hrun hothers, habstracts⟩

theorem swapIn_abstracts (s' : Scheduler κ) (ptr : Nat) (role : Role) (h : Agrees tid s a)
    (hworkers : a.workers = [⟨.entering (fiberId s.idleFiber ptr) role, s.cbFiber.map .user⟩])
    (hactive : a.activeThreadCount = busy (.exec ptr role : Pc κ))
    (hrole : role = .idle ↔ ptr = s.idleFiber) (hok : s.swapIn ptr role = .ok s') :
    ∃ a', Lib.run Sylar.Scheduler.step a [.check 0, .swapIn 0, .switch 0] = some a' ∧
      Abstracts tid s' a' := by
  obtain ⟨old, hold, hexec, rfl⟩ := swapIn_eq s s' ptr role hok
  have hstate : a.state (fiberId s.idleFiber ptr) = some old.state := by
    rw [h.states ptr, hold]
    rfl
  refine ⟨_, enter_run a _ role _ old.state hworkers hstate hexec, ?_, ?_, hactive⟩
  · exact ⟨h.queue, h.states.set ptr old _ hold, by simpa using h.idle, h.cb⟩
  · exact ⟨_, rfl, .exec ptr role hrole⟩

theorem pick_abstracts (s' : Scheduler κ) (h : Abstracts tid s a) (hpc : s.pc = .head)
    (hok : s.pick tid = .ok s') :
    ∃ a', a.step (.pick 0) = some a' ∧ Abstracts tid s' a' := by
  obtain ⟨pc, hworkers, hat⟩ := h.worker
  rw [hpc] at hat
  cases hat
  have hactive := h.active
  rw [hpc] at hactive
  refine ⟨_, step_worker a _ (.pick 0) _ hworkers rfl rfl, ?_⟩
  obtain ⟨found, hscan, hfound⟩ := scanFibers_abstracts tid s.idleFiber s.heap a.state h.states
    s.fibers a.fibers h.queue
  obtain ⟨worker', write, active, idle, fibers, hrow, hworkers', hstate', hactive', -, hfibers'⟩ :=
    Sylar.Scheduler.pick_moves a _ 0 ⟨.scan, s.cbFiber.map .user⟩ rfl
  rw [hworkers] at hworkers'
  rw [hactive] at hactive'
  rw [Scheduler.pick, hscan] at hok
  cases hrow with
  | pickNothing cb hnone =>
    rw [hnone] at hfound
    cases hfound
    cases hok
    refine ⟨⟨?_, ?_, h.idle, h.cb⟩, ⟨_, hworkers', .nothing⟩, hactive'⟩
    · rw [hfibers']
      exact h.queue
    · rw [hstate']
      exact h.states
  | pickTask cb entry left hsome =>
    rw [hsome] at hfound
    cases hfound with
    | some hpair =>
      cases hok
      refine ⟨⟨?_, ?_, h.idle, h.cb⟩, ⟨_, hworkers', .taken hpair.1⟩, hactive'⟩
      · rw [hfibers']
        exact hpair.2
      · rw [hstate']
        exact h.states

theorem Abstracts.schedule (h : Abstracts tid s a) (ft : FiberAndThread κ)
    (entry : Sylar.FiberAndThread κ) (hentry : Entry tid s.idleFiber ft entry) :
    Abstracts tid (s.scheduleNoLock ft) (a.schedule entry) := by
  have hsome : ft.fiber.isSome ∨ ft.cb.isSome := by
    cases hentry with
    | fiber => exact .inl rfl
    | cb => exact .inr rfl
  rw [Scheduler.scheduleNoLock, if_pos hsome]
  obtain ⟨pc, hworkers, hat⟩ := h.worker
  refine ⟨⟨?_, ?_, h.idle, h.cb⟩, ⟨pc, ?_, hat⟩, ?_⟩
  · rw [Sylar.Scheduler.schedule_fibers]
    exact List.rel_append h.queue (.cons hentry .nil)
  · rw [Sylar.Scheduler.schedule_state]
    exact h.states
  · rw [Sylar.Scheduler.schedule_workers]
    exact hworkers
  · rw [Sylar.Scheduler.schedule_activeThreadCount]
    exact h.active

theorem create_abstracts (h : Abstracts tid s a) (cb : Option κ) :
    ∃ a', a.step (.create s.heap.length) = some a' ∧
      Abstracts tid (s.alloc (Fiber.create cb)) a' := by
  refine ⟨a.setState (.user s.heap.length) .init, ?_, ?_⟩
  · rw [Sylar.Scheduler.step, Sylar.Scheduler.perform, if_pos (h.states.fresh h.idle)]
    rfl
  · refine ⟨⟨h.queue, h.states.alloc h.idle (Fiber.create cb), ?_, h.cb⟩, h.worker, h.active⟩
    rw [Scheduler.alloc, List.length_append]
    exact Nat.lt_add_right 1 h.idle

theorem scheduleFiber_abstracts (h : Abstracts tid s a) (ptr : Nat) (thread : Int)
    (hlt : ptr < s.heap.length) (hne : ptr ≠ s.idleFiber) :
    ∃ a', a.step (.schedule ⟨.fiber ptr, threadOf tid thread⟩) = some a' ∧
      Abstracts tid (s.scheduleNoLock ⟨some ptr, none, thread⟩) a' := by
  refine ⟨_, ?_, h.schedule _ _ (.fiber ptr thread hne)⟩
  have hstate : a.state (.user ptr) ≠ none := by
    rw [h.states.user ptr hne, List.getElem?_eq_getElem hlt]
    simp
  simp only [Sylar.Scheduler.step, Sylar.Scheduler.perform, if_neg hstate]
  rfl

theorem dispatchCb_abstracts (s' : Scheduler κ) (h : Abstracts tid s a) (cb : κ)
    (thread : Option Nat) (hworkers : a.workers = [⟨.taken ⟨.cb cb, thread⟩, s.cbFiber.map .user⟩])
    (hactive : a.activeThreadCount = 1) (hok : s.dispatchCb cb = .ok s') :
    Matched tid s' a := by
  unfold Scheduler.dispatchCb at hok
  cases hcbFiber : s.cbFiber with
  | some ptr =>
    rw [hcbFiber] at hok hworkers
    obtain ⟨s₁, hreset, hswap⟩ := Lib.of_bind_ok _ _ s' hok
    obtain ⟨old, fiber, hold, hf, rfl⟩ := update_eq s s₁ ptr _ hreset
    have hne : ptr ≠ s.idleFiber := by
      rintro rfl
      exact h.cb hcbFiber
    obtain ⟨hstate, rfl⟩ := reset_eq old fiber (some cb) hf
    have hresettable : Sylar.Scheduler.Resettable (a.state (.user ptr)) := by
      rw [h.states.user ptr hne, hold]
      exact hstate.imp (congrArg some) (Or.imp (congrArg some) (congrArg some))
    have hdispatch := step_worker a _ (.dispatch 0 0) _ hworkers rfl (if_pos hresettable)
    have htaken := setWorker_workers a _ ⟨.renewing (.user ptr), some (.user ptr)⟩ hworkers
    have hrenew := step_worker _ _ (.reset 0) _ htaken rfl rfl
    have hstates := h.states.set ptr old (old.renewed (some cb)) hold
    rw [fiberId_of_ne _ ptr hne] at hstates
    have hagrees : Agrees tid { s with heap := s.heap.set ptr (old.renewed (some cb)) }
        (((a.setWorker 0 ⟨.renewing (.user ptr), some (.user ptr)⟩).setState (.user ptr)
          .init).setWorker 0 ⟨.entering (.user ptr) .cb, some (.user ptr)⟩) :=
      ⟨h.queue, hstates, by simpa using h.idle, h.cb⟩
    obtain ⟨a', hrun, habstracts⟩ := swapIn_abstracts s' ptr .cb hagrees
      (by
        rw [fiberId_of_ne _ ptr hne, hcbFiber]
        exact setWorker_workers _ _ _ htaken)
      hactive (by simpa using hne) hswap
    exact ⟨_, a', Lib.run_cons _ _ a _ a' hdispatch (Lib.run_cons _ _ _ _ a' hrenew hrun),
      habstracts⟩
  | none =>
    rw [hcbFiber] at hok hworkers
    have hdispatch := step_worker a _ (.dispatch 0 s.heap.length) _ hworkers rfl
      (if_pos (h.states.fresh h.idle))
    have hne : s.heap.length ≠ s.idleFiber := Nat.ne_of_gt h.idle
    have hagrees : Agrees tid
        { s.alloc (Fiber.create (some cb)) with cbFiber := some s.heap.length }
        ((a.setState (.user s.heap.length) .init).setWorker 0
          ⟨.entering (.user s.heap.length) .cb, some (.user s.heap.length)⟩) := by
      refine ⟨h.queue, h.states.alloc h.idle (Fiber.create (some cb)), ?_, ?_⟩
      · exact Nat.lt_of_lt_of_le h.idle (by simp [Scheduler.alloc])
      · exact fun heq => hne (Option.some.inj heq)
    obtain ⟨a', hrun, habstracts⟩ := swapIn_abstracts s' s.heap.length .cb hagrees
      (by
        simp only [Scheduler.alloc, fiberId_of_ne _ _ hne]
        exact setWorker_workers _ _ _ hworkers)
      hactive (by simpa [Scheduler.alloc] using hne) hok
    exact ⟨_, a', Lib.run_cons _ _ a _ a' hdispatch hrun, habstracts⟩

theorem ended_iff_states (h : Agrees tid s a) (ptr : Nat) :
    a.state (fiberId s.idleFiber ptr) = some .term ∨
      a.state (fiberId s.idleFiber ptr) = some .except ↔ s.Ended ptr := by
  rw [h.states ptr]
  rfl

theorem dispatch_abstracts (s' : Scheduler κ) (h : Abstracts tid s a) (hok : s.dispatch = .ok s') :
    Matched tid s' a := by
  obtain ⟨pc, hworkers, hat⟩ := h.worker
  have hactive := h.active
  unfold Scheduler.dispatch at hok
  cases hpc : s.pc with
  | head | exec | returned | exited =>
    rw [hpc] at hok
    cases hok
  | nothing =>
    rw [hpc] at hok hat hactive
    cases hat
    have hstate : a.state (.idle 0) = s.getState s.idleFiber := by
      rw [← fiberId_idle s.idleFiber, h.states s.idleFiber]
      rfl
    dsimp only at hok
    split at hok
    · next hterm =>
      cases hok
      have hdispatch := step_worker a _ (.dispatch 0 0) _ hworkers rfl
        (if_pos (hstate.trans hterm))
      refine ⟨_, _, Lib.run_single _ a _ hdispatch, ⟨h.queue, h.states, h.idle, h.cb⟩, ?_,
        hactive⟩
      exact ⟨_, setWorker_workers _ _ _ hworkers, .exited⟩
    · next hterm =>
      have hdispatch := step_worker a _ (.dispatch 0 0) _ hworkers rfl
        (if_neg fun hnow => hterm (hstate.symm.trans hnow))
      obtain ⟨a', hrun, habstracts⟩ := swapIn_abstracts
        (a := { a with idleThreadCount := a.idleThreadCount + 1 }.setWorker 0
          ⟨.entering (.idle 0) .idle, s.cbFiber.map .user⟩) s' s.idleFiber .idle
        ⟨h.queue, h.states, h.idle, h.cb⟩
        (by
          rw [fiberId_idle]
          exact setWorker_workers _ _ _ hworkers) hactive (by simp) hok
      exact ⟨_, a', Lib.run_cons _ _ a _ a' hdispatch hrun, habstracts⟩
  | taken ft =>
    rw [hpc] at hok hat hactive
    cases hat with
    | taken hentry =>
      cases hentry with
      | cb cb thread => exact dispatchCb_abstracts s' h cb _ hworkers hactive hok
      | fiber ptr thread hne =>
        have hended := ended_iff_states h.toAgrees ptr
        rw [fiberId_of_ne _ ptr hne] at hended
        by_cases hptr : s.Ended ptr
        · simp only [Option.filter, hptr, decide_true, Bool.not_true, Bool.false_eq_true,
            if_false] at hok
          cases hok
          have hdispatch := step_worker a _ (.dispatch 0 0) _ hworkers rfl
            (if_pos (hended.mpr hptr))
          refine ⟨_, _, Lib.run_single _ a _ hdispatch,
            ⟨h.queue, h.states, h.idle, h.cb⟩, ?_, ?_⟩
          · exact ⟨_, setWorker_workers _ _ _ hworkers, .head⟩
          · exact congrArg (· - 1) hactive
        · simp only [Option.filter, hptr, decide_false, Bool.not_false, if_true] at hok
          have hdispatch := step_worker a _ (.dispatch 0 0) _ hworkers rfl
            (if_neg fun hnow => hptr (hended.mp hnow))
          obtain ⟨a', hrun, habstracts⟩ := swapIn_abstracts
            (a := a.setWorker 0 ⟨.entering (.user ptr) .fiber, s.cbFiber.map .user⟩) s' ptr .fiber
            ⟨h.queue, h.states, h.idle, h.cb⟩
            (by
              rw [fiberId_of_ne _ ptr hne]
              exact setWorker_workers _ _ _ hworkers) hactive (by simpa using hne) hok
          exact ⟨_, a', Lib.run_cons _ _ a _ a' hdispatch hrun, habstracts⟩

theorem slice_eq (old fiber : Fiber κ) (outcome : Outcome) (hok : old.slice outcome = .ok fiber) :
    fiber = old.leave outcome := by
  unfold Fiber.slice at hok
  split at hok
  · split at hok
    · cases hok
    · cases hok
      rfl
  · cases hok
    rfl
  · cases hok

theorem Agrees.leave (h : Agrees tid s a) (a' : Sylar.Scheduler κ) (ptr : Nat) (old fiber : Fiber κ)
    (hold : s.heap[ptr]? = some old) (pc : Pc κ) (hfibers : a'.fibers = a.fibers)
    (hstate : a'.state =
      Sylar.Scheduler.stateAfter a.state (some (fiberId s.idleFiber ptr, fiber.state))) :
    Agrees tid { s with heap := s.heap.set ptr fiber, pc := pc } a' := by
  refine ⟨?_, ?_, by simpa using h.idle, h.cb⟩
  · rw [hfibers]
    exact h.queue
  · rw [hstate]
    exact h.states.set ptr old fiber hold

theorem leave_run (id : FiberId) (role : Role) (cb : Option FiberId) (outcome : Outcome)
    (state : FiberState) (label : SchedulerLabel κ) (hworkers : a.workers = [⟨.exec id role, cb⟩])
    (hleave : a.step label = some (a.leave 0 ⟨.exec id role, cb⟩ id role outcome state)) :
    ∃ a', Lib.run Sylar.Scheduler.step a [label, .switch 0] = some a' ∧
      a'.workers = [⟨.returned id role outcome, cb⟩] ∧ a'.fibers = a.fibers ∧
      a'.activeThreadCount = a.activeThreadCount ∧
      a'.state = Sylar.Scheduler.stateAfter a.state (some (id, state)) := by
  have hleft : (a.leave 0 ⟨.exec id role, cb⟩ id role outcome state).workers =
      [⟨.leaving id role outcome, cb⟩] := setWorker_workers _ _ _ hworkers
  have hswitch := step_worker _ _ (.switch 0) _ hleft rfl rfl
  exact ⟨_, Lib.run_cons _ _ a _ _ hleave (Lib.run_single _ _ _ hswitch),
    setWorker_workers _ _ _ hleft, rfl, rfl, rfl⟩

theorem quit_run (id : FiberId) (cb : Option FiberId)
    (hworkers : a.workers = [⟨.exec id .idle, cb⟩]) (hfibers : a.fibers = [])
    (hactive : a.activeThreadCount = 0) :
    ∃ a', Lib.run Sylar.Scheduler.step a [.stop, .quit 0, .switch 0] = some a' ∧
      a'.workers = [⟨.returned id .idle .term, cb⟩] ∧ a'.fibers = a.fibers ∧
      a'.activeThreadCount = a.activeThreadCount ∧
      a'.state = Sylar.Scheduler.stateAfter a.state (some (id, .term)) := by
  obtain ⟨a₁, hstop, hstopping⟩ : ∃ a₁, a.step .stop = some a₁ ∧ a₁.isStopping = true := by
    refine ⟨_, rfl, ?_⟩
    rw [hworkers]
    simp [Nat.repeat, Sylar.Scheduler.isStopping, hfibers, hactive]
  have hsame : a₁.workers = a.workers ∧ a₁.state = a.state ∧ a₁.fibers = a.fibers ∧
      a₁.activeThreadCount = a.activeThreadCount := by
    cases hstop
    obtain ⟨hworkers, hstate, hfibers, hactive, -⟩ := Sylar.Scheduler.repeat_tickle a.workers.length
      { a with autostop := true, stopping := true }
    exact ⟨hworkers, hstate, hfibers, hactive⟩
  have hquit := step_worker a₁ _ (.quit 0) _ (hsame.1.trans hworkers) rfl (if_pos hstopping)
  obtain ⟨a', hrun, hworkers', hfibers', hactive', hstate'⟩ :=
    leave_run id .idle cb .term .term (.quit 0) (hsame.1.trans hworkers) hquit
  rw [hsame.2.1] at hstate'
  exact ⟨a', Lib.run_cons _ _ a a₁ a' hstop hrun, hworkers', hfibers'.trans hsame.2.2.1,
    hactive'.trans hsame.2.2.2, hstate'⟩

theorem Abstracts.returned (h : Abstracts tid s a) (ptr : Nat) (role : Role) (outcome : Outcome)
    (old fiber : Fiber κ) (labels : List (SchedulerLabel κ)) (hpc : s.pc = .exec ptr role)
    (hrole : role = .idle ↔ ptr = s.idleFiber) (hold : s.heap[ptr]? = some old)
    (hrun : ∃ a', Lib.run Sylar.Scheduler.step a labels = some a' ∧
      a'.workers = [⟨.returned (fiberId s.idleFiber ptr) role outcome, s.cbFiber.map .user⟩] ∧
      a'.fibers = a.fibers ∧ a'.activeThreadCount = a.activeThreadCount ∧
      a'.state =
        Sylar.Scheduler.stateAfter a.state (some (fiberId s.idleFiber ptr, fiber.state))) :
    Matched tid { s with heap := s.heap.set ptr fiber, pc := .returned ptr role } a := by
  obtain ⟨a', hrun, hworkers', hfibers', hactive', hstate'⟩ := hrun
  refine ⟨labels, a', hrun, h.leave a' ptr old _ hold _ hfibers' hstate', ?_, ?_⟩
  · exact ⟨_, hworkers', .returned ptr role outcome hrole⟩
  · rw [hactive', h.active, hpc]
    cases role <;> rfl

theorem slice_abstracts (s' : Scheduler κ) (outcome : Outcome) (h : Abstracts tid s a)
    (hshared : Shared s (.slice outcome)) (hok : s.slice outcome = .ok s') :
    Matched tid s' a := by
  obtain ⟨pc, hworkers, hat⟩ := h.worker
  have hactive := h.active
  unfold Scheduler.slice at hok
  cases hpc : s.pc with
  | head | taken | nothing | returned | exited =>
    rw [hpc] at hok
    cases hok
  | exec ptr role =>
    rw [hpc] at hok hat hactive
    cases hat with
    | exec _ _ hrole =>
      dsimp only at hok
      split at hok
      · cases hok
      · next hidles =>
        cases hupdate : s.update ptr (Fiber.slice · outcome) with
        | error fault =>
          rw [hupdate] at hok
          cases hok
        | ok next =>
          rw [hupdate] at hok
          cases hok
          obtain ⟨old, fiber, hold, hf, rfl⟩ := update_eq s next ptr _ hupdate
          cases slice_eq old fiber outcome hf
          have hreturned := fun labels =>
            h.returned ptr role outcome old (old.leave outcome) labels hpc hrole hold
          have hbusy : role = .idle → ¬ (outcome = .ready ∨ outcome = .except) :=
            fun heq houtcome => hidles ⟨hrole.mp heq, houtcome⟩
          cases outcome with
          | hold =>
            have hstep := step_worker a _ (.yieldToHold 0) _ hworkers rfl rfl
            exact hreturned _ (leave_run _ role _ .hold .hold _ hworkers hstep)
          | ready =>
            have hne : role ≠ .idle := fun heq => hbusy heq (.inl rfl)
            have hstep := step_worker a _ (.slice 0 .ready) _ hworkers rfl (if_neg hne)
            exact hreturned _ (leave_run _ role _ .ready .ready _ hworkers hstep)
          | except =>
            have hne : role ≠ .idle := fun heq => hbusy heq (.inr rfl)
            have hstep := step_worker a _ (.slice 0 .except) _ hworkers rfl (if_neg hne)
            exact hreturned _ (leave_run _ role _ .except .except _ hworkers hstep)
          | term =>
            by_cases hidle : role = .idle
            · cases hidle
              cases hrole.mp rfl
              have hempty : a.fibers = [] := by
                have hqueue := h.queue
                rw [hshared hpc rfl] at hqueue
                exact List.forall₂_nil_left_iff.mp hqueue
              exact hreturned _ (quit_run _ _ hworkers hempty hactive)
            · have hstep := step_worker a _ (.slice 0 .term) _ hworkers rfl (if_neg hidle)
              exact hreturned _ (leave_run _ role _ .term .term _ hworkers hstep)
          | swapOut =>
            have hstep := step_worker a _ (.slice 0 .swapOut) _ hworkers rfl rfl
            refine ⟨_, _, Lib.run_single _ a _ hstep, ⟨h.queue, ?_, ?_, h.cb⟩, ?_, ?_⟩
            · exact h.states.keep ptr old (old.leave .swapOut) hold rfl
            · simpa using h.idle
            · exact ⟨_, setWorker_workers _ _ _ hworkers, .returned ptr role .swapOut hrole⟩
            · refine Eq.trans hactive ?_
              cases role <;> rfl

theorem test_run (ptr : Nat) (role : Role) (outcome : Outcome) (cb : Option FiberId)
    (id : FiberId) (hworkers : a.workers = [⟨.returned id role outcome, cb⟩])
    (hactive : a.activeThreadCount = busy (.returned ptr role : Pc κ)) :
    ∃ a', Lib.run Sylar.Scheduler.step a [.count 0, .test 0] = some a' ∧
      a'.fibers = a.fibers ∧ a'.state = a.state ∧ a'.activeThreadCount = 0 ∧
      (a.state id = some .ready ∧ role ≠ .idle →
        a'.workers = [⟨.requeue id role outcome, cb⟩]) ∧
      (¬ (a.state id = some .ready ∧ role ≠ .idle) →
        (a.state id = some .term ∨ a.state id = some .except →
          a'.workers = [⟨if role = .cb then .recycle id outcome else .scan, cb⟩]) ∧
        (¬ (a.state id = some .term ∨ a.state id = some .except) →
          a'.workers = [⟨.park id role outcome, cb⟩])) := by
  obtain ⟨a₁, hcount, hworkers₁, hfibers₁, hstate₁, hactive₁⟩ : ∃ a₁, a.step (.count 0) = some a₁ ∧
      a₁.workers = [⟨.counted id role outcome, cb⟩] ∧ a₁.fibers = a.fibers ∧ a₁.state = a.state ∧
      a₁.activeThreadCount = 0 := by
    by_cases hidle : role = .idle
    · refine ⟨_, step_worker a _ (.count 0) _ hworkers rfl (if_pos hidle),
        setWorker_workers _ _ _ hworkers, rfl, rfl, ?_⟩
      rw [hidle] at hactive
      exact hactive
    · refine ⟨_, step_worker a _ (.count 0) _ hworkers rfl (if_neg hidle),
        setWorker_workers _ _ _ hworkers, rfl, rfl, ?_⟩
      refine (congrArg (· - 1) hactive).trans ?_
      cases role with
      | fiber | cb => rfl
      | idle => exact absurd rfl hidle
  have htest := step_worker a₁ _ (.test 0) _ hworkers₁ rfl rfl
  refine ⟨_, Lib.run_cons _ _ a a₁ _ hcount (Lib.run_single _ a₁ _ htest), hfibers₁, hstate₁,
    hactive₁, ?_, ?_⟩
  · intro hready
    rw [setWorker_workers _ _ _ hworkers₁, hstate₁, if_pos hready]
  · intro hready
    constructor
    · intro hended
      rw [setWorker_workers _ _ _ hworkers₁, hstate₁, if_neg hready, if_pos hended]
    · intro hended
      rw [setWorker_workers _ _ _ hworkers₁, hstate₁, if_neg hready, if_neg hended]

theorem requeue_abstracts (h : Agrees tid s a) (ptr : Nat) (role : Role) (outcome : Outcome)
    (cb : Option FiberId)
    (hworkers : a.workers = [⟨.requeue (fiberId s.idleFiber ptr) role outcome, cb⟩])
    (hactive : a.activeThreadCount = 0) (hne : ptr ≠ s.idleFiber) (hpc : s.pc = .head)
    (hkept : s.cbFiber.map FiberId.user = if role = .cb then none else cb) :
    ∃ a', a.step (.finish 0) = some a' ∧
      Abstracts tid (s.scheduleNoLock ⟨some ptr, none, -1⟩) a' := by
  rw [fiberId_of_ne _ ptr hne] at hworkers
  refine ⟨_, step_worker a _ (.finish 0) _ hworkers rfl rfl, ?_⟩
  have hscheduled : (a.schedule ⟨.fiber ptr, none⟩).workers =
      [⟨.requeue (.user ptr) role outcome, cb⟩] := by
    rw [Sylar.Scheduler.schedule_workers]
    exact hworkers
  rw [Scheduler.scheduleNoLock, if_pos (.inl rfl)]
  refine ⟨⟨?_, ?_, h.idle, h.cb⟩, ⟨.scan, ?_, ?_⟩, ?_⟩
  · change List.Forall₂ _ _ (a.schedule ⟨.fiber ptr, none⟩).fibers
    rw [Sylar.Scheduler.schedule_fibers]
    exact List.rel_append h.queue (.cons (.fiber ptr (-1) hne) .nil)
  · change States _ _ (a.schedule ⟨.fiber ptr, none⟩).state
    rw [Sylar.Scheduler.schedule_state]
    exact h.states
  · rw [setWorker_workers _ _ _ hscheduled, hkept]
  · rw [hpc]
    exact .head
  · change (a.schedule ⟨.fiber ptr, none⟩).activeThreadCount = busy s.pc
    rw [Sylar.Scheduler.schedule_activeThreadCount, hactive, hpc]
    rfl

theorem park_abstracts (s' : Scheduler κ) (h : Agrees tid s a) (ptr : Nat) (role : Role)
    (outcome : Outcome) (cb : Option FiberId)
    (hworkers : a.workers = [⟨.park (fiberId s.idleFiber ptr) role outcome, cb⟩])
    (hactive : a.activeThreadCount = 0) (hpc : s.pc = .head)
    (hkept : s.cbFiber.map FiberId.user = if role = .cb then none else cb)
    (hok : s.hold ptr = .ok s') :
    ∃ a', a.step (.finish 0) = some a' ∧ Abstracts tid s' a' := by
  obtain ⟨old, fiber, hold, hf, rfl⟩ := update_eq s s' ptr _ hok
  cases hf
  refine ⟨_, step_worker a _ (.finish 0) _ hworkers rfl rfl, ?_⟩
  refine ⟨⟨h.queue, h.states.set ptr old { old with state := .hold } hold, ?_, h.cb⟩,
    ⟨.scan, ?_, ?_⟩, ?_⟩
  · simpa using h.idle
  · rw [setWorker_workers (a.setState (fiberId s.idleFiber ptr) .hold) _ _ hworkers, hkept]
  · rw [hpc]
    exact .head
  · rw [hpc]
    exact hactive

theorem recycle_abstracts (s' : Scheduler κ) (h : Agrees tid s a) (ptr : Nat) (outcome : Outcome)
    (hworkers : a.workers =
      [⟨.recycle (fiberId s.idleFiber ptr) outcome, s.cbFiber.map .user⟩])
    (hactive : a.activeThreadCount = 0) (hpc : s.pc = .head)
    (hok : s.update ptr (Fiber.reset · none) = .ok s') :
    ∃ a', Lib.run Sylar.Scheduler.step a [.finish 0, .reset 0] = some a' ∧ Abstracts tid s' a' := by
  obtain ⟨old, fiber, hold, hf, rfl⟩ := update_eq s s' ptr _ hok
  obtain ⟨hstate, rfl⟩ := reset_eq old fiber none hf
  have hresettable : Sylar.Scheduler.Resettable (a.state (fiberId s.idleFiber ptr)) := by
    rw [h.states ptr, hold]
    exact hstate.imp (congrArg some) (Or.imp (congrArg some) (congrArg some))
  have hfinish := step_worker a _ (.finish 0) _ hworkers rfl (if_pos hresettable)
  have hrecycling := setWorker_workers a _
    ⟨.recycling (fiberId s.idleFiber ptr), s.cbFiber.map .user⟩ hworkers
  have hreset := step_worker _ _ (.reset 0) _ hrecycling rfl rfl
  refine ⟨_, Lib.run_cons _ _ a _ _ hfinish (Lib.run_single _ _ _ hreset),
    ⟨h.queue, h.states.set ptr old (old.renewed none) hold, ?_, h.cb⟩, ⟨.scan, ?_, ?_⟩, ?_⟩
  · simpa using h.idle
  · exact setWorker_workers _ _ _ hrecycling
  · rw [hpc]
    exact .head
  · rw [hpc]
    exact hactive

/-- `cb_fiber` is let go by a callback that lives on. -/
def keep (s : Scheduler κ) (role : Role) : Scheduler κ :=
  { s with cbFiber := if role = .cb then none else s.cbFiber, pc := .head }

theorem finish_cases (s s' : Scheduler κ) (ptr : Nat) (role : Role)
    (hpc : s.pc = .returned ptr role) (hok : s.finish = .ok s') :
    ((s.getState ptr = some .ready ∧ role ≠ .idle) ∧
      s' = (keep s role).scheduleNoLock ⟨some ptr, none, -1⟩) ∨
    ¬ (s.getState ptr = some .ready ∧ role ≠ .idle) ∧
      (s.Ended ptr ∧ (role = .cb ∧ { s with pc := .head }.update ptr (Fiber.reset · none) = .ok s' ∨
        role ≠ .cb ∧ s' = { s with pc := .head }) ∨
      ¬ s.Ended ptr ∧ (keep s role).hold ptr = .ok s') := by
  unfold Scheduler.finish at hok
  rw [hpc] at hok
  cases role with
  | fiber =>
    dsimp only at hok
    split at hok
    · next hready =>
      cases hok
      exact .inl ⟨⟨hready, nofun⟩, rfl⟩
    · next hready =>
      refine .inr ⟨fun hnow => hready hnow.1, ?_⟩
      split at hok
      · next hended =>
        cases hok
        exact .inl ⟨hended, .inr ⟨nofun, rfl⟩⟩
      · next hended => exact .inr ⟨hended, hok⟩
  | cb =>
    dsimp only at hok
    split at hok
    · next hready =>
      cases hok
      exact .inl ⟨⟨hready, nofun⟩, rfl⟩
    · next hready =>
      refine .inr ⟨fun hnow => hready hnow.1, ?_⟩
      split at hok
      · next hended => exact .inl ⟨hended, .inl ⟨rfl, hok⟩⟩
      · next hended => exact .inr ⟨hended, hok⟩
  | idle =>
    refine .inr ⟨fun hnow => hnow.2 rfl, ?_⟩
    dsimp only at hok
    split at hok
    · next hended =>
      cases hok
      exact .inl ⟨hended, .inr ⟨nofun, rfl⟩⟩
    · next hended => exact .inr ⟨hended, hok⟩

theorem finish_abstracts (s' : Scheduler κ) (h : Abstracts tid s a) (hok : s.finish = .ok s') :
    Matched tid s' a := by
  obtain ⟨pc, hworkers, hat⟩ := h.worker
  have hactive := h.active
  cases hpc : s.pc with
  | head | taken | nothing | exec | exited =>
    rw [Scheduler.finish, hpc] at hok
    cases hok
  | returned ptr role =>
    rw [hpc] at hat hactive
    cases hat with
    | returned _ _ outcome hrole =>
      obtain ⟨a₁, hrun, hfibers₁, hstate₁, hactive₁, hrequeue, hother⟩ :=
        test_run ptr role outcome _ _ hworkers hactive
      have hqueue : List.Forall₂ (Entry tid s.idleFiber) s.fibers a₁.fibers := hfibers₁ ▸ h.queue
      have hstates : States s.idleFiber s.heap a₁.state := hstate₁ ▸ h.states
      have hhead : Agrees tid { s with pc := .head } a₁ := ⟨hqueue, hstates, h.idle, h.cb⟩
      have hkeep : Agrees tid (keep s role) a₁ := by
        refine ⟨hqueue, hstates, h.idle, ?_⟩
        unfold keep
        split
        · nofun
        · exact h.cb
      have hkept : (keep s role).cbFiber.map FiberId.user =
          if role = .cb then none else s.cbFiber.map .user := by
        unfold keep
        split <;> rfl
      have hstate : a.state (fiberId s.idleFiber ptr) = s.getState ptr := h.states ptr
      have hended := ended_iff_states h.toAgrees ptr
      rw [hstate] at hrequeue hother
      rw [hstate] at hended
      rcases finish_cases s s' ptr role hpc hok with ⟨hready, rfl⟩ | ⟨hready, hcases⟩
      · have hne : ptr ≠ s.idleFiber := fun heq => hready.2 (hrole.mpr heq)
        exact .after a₁ _ hrun (.of_step _ (requeue_abstracts hkeep ptr role outcome _
          (hrequeue hready) hactive₁ hne rfl hkept))
      · rcases hcases with ⟨hptr, ⟨rfl, hreset⟩ | ⟨hcb, rfl⟩⟩ | ⟨hptr, hhold⟩
        · exact .after a₁ _ hrun ⟨_, recycle_abstracts s' hhead ptr outcome
            ((hother hready).1 (hended.mpr hptr)) hactive₁ rfl hreset⟩
        · have hworkers₁ := (hother hready).1 (hended.mpr hptr)
          rw [if_neg hcb] at hworkers₁
          exact ⟨_, a₁, hrun, hhead, ⟨_, hworkers₁, .head⟩, hactive₁⟩
        · have hworkers₁ := (hother hready).2 fun hnow => hptr (hended.mp hnow)
          exact .after a₁ _ hrun (.of_step _ (park_abstracts s' hkeep ptr role outcome _ hworkers₁
            hactive₁ rfl hkept hhold))

/-- A step of the fibers' lives is a run of the workers. -/
theorem step_abstracts (s' : Scheduler κ) (label : Label κ) (h : Abstracts tid s a)
    (hshared : Shared s label) (hok : s.step tid label = .ok s') :
    Matched tid s' a := by
  cases label with
  | main => exact hshared.elim
  | create cb =>
    cases hok
    exact .of_step _ (create_abstracts h cb)
  | scheduleFiber fiber thread =>
    rw [Scheduler.step] at hok
    split at hok
    · next hthere =>
      cases hok
      cases fiber with
      | none => exact ⟨[], a, rfl, h⟩
      | some ptr =>
        exact .of_step _ (scheduleFiber_abstracts h ptr thread (hthere ptr rfl)
          fun heq => hshared (congrArg some heq))
    · cases hok
  | scheduleCb cb thread =>
    cases hok
    cases cb with
    | none => exact ⟨[], a, rfl, h⟩
    | some cb =>
      refine ⟨[.schedule ⟨.cb cb, threadOf tid thread⟩], _, rfl, ?_⟩
      exact h.schedule ⟨none, some cb, thread⟩ _ (.cb cb thread)
  | pick =>
    cases hpc : s.pc with
    | head =>
      rw [Scheduler.step, hpc] at hok
      exact .of_step _ (pick_abstracts s' h hpc hok)
    | taken | nothing | exec | returned | exited =>
      rw [Scheduler.step, hpc] at hok
      cases hok
  | dispatch => exact dispatch_abstracts s' h hok
  | slice outcome => exact slice_abstracts s' outcome h hshared hok
  | finish => exact finish_abstracts s' h hok

theorem start_abstracts (idle : κ) :
    Abstracts tid (Scheduler.start idle) (Sylar.Scheduler.start 1) := by
  refine ⟨⟨.nil, ?_, Nat.zero_lt_one, nofun⟩, ⟨.scan, rfl, .head⟩, rfl⟩
  intro ptr
  cases ptr with
  | zero => rfl
  | succ ptr => rfl

/-- Every run of one thread with the lives of its fibers is a run of the workers with a single
worker, up to the callbacks and contexts of the fibers. -/
theorem run_abstracts (idle : κ) (labels : List (Label κ))
    (hshared : Lib.Meets (fun s label => (s.step tid label).toOption) Shared
      (Scheduler.start idle) labels)
    (hrun : Scheduler.run tid (Scheduler.start idle) labels = some s) :
    ∃ labels' a, Lib.run Sylar.Scheduler.step (Sylar.Scheduler.start 1) labels' = some a ∧
      Abstracts tid s a :=
  Lib.run_simulates (Abstracts tid) Shared
    (fun _ label s' _ h hshared hstep =>
      step_abstracts s' label h hshared (Lib.ok_of_toOption _ _ hstep))
    labels _ _ _ (start_abstracts idle) hshared hrun

end

end Sylar.Lifecycle
