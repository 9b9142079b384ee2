import Sylar.Scheduler.Counters

/-! When `stopping()` may be believed. `run` decrements `m_activeThreadCount`
before it puts a `READY` fiber back, and before it marks a fiber that has swapped
itself out as `HOLD`; between the two the task is nowhere. -/
namespace Sylar

variable {κ : Type}

/-- The slice left the task for `run` to put back or to park. -/
def Outcome.pending : Outcome → Bool
  | .ready | .swapOut => true
  | .hold | .term | .except => false

/-- The worker holds a task from the queue that has neither finished, nor been
parked, nor been put back. -/
def Pc.unfinished : Pc κ → Bool
  | .taken _ | .renewing _ => true
  | .entering _ role | .checked _ role | .switching _ role | .exec _ role
  | .leaving _ role _ => decide (role ≠ .idle)
  | .returned _ role outcome | .counted _ role outcome | .requeue _ role outcome
  | .park _ role outcome => decide (role ≠ .idle) && outcome.pending
  | _ => false

/-- The worker is between the decrement and the end of its round, with a task
that is still to be put back or parked. -/
def Pc.stranded : Pc κ → Bool
  | .counted _ role outcome | .requeue _ role outcome | .park _ role outcome =>
    decide (role ≠ .idle) && outcome.pending
  | _ => false

/-- The worker holds a slice that left its task pending. -/
def Pc.owing : Pc κ → Bool
  | .leaving _ role outcome | .returned _ role outcome | .counted _ role outcome
  | .requeue _ role outcome | .park _ role outcome => decide (role ≠ .idle) && outcome.pending
  | _ => false

theorem Pc.unfinished_iff (pc : Pc κ) (hinactive : pc.active = false) :
    pc.unfinished = pc.stranded := by
  cases pc <;> simp_all [Pc.active, Pc.unfinished, Pc.stranded]

namespace Scheduler

/-- No task ends its slice with `YieldToReady` or with a bare `swapOut`. -/
def settles (s : Scheduler κ) : SchedulerLabel κ → Bool
  | .slice w outcome =>
    match (s.workers[w]?).map Worker.pc with
    | some (.exec _ role) => decide (role = .idle) || !outcome.pending
    | _ => true
  | _ => true

def Settles (s : Scheduler κ) (label : SchedulerLabel κ) : Prop :=
  s.settles label = true

instance Settles.decidable (s : Scheduler κ) (label : SchedulerLabel κ) :
    Decidable (s.Settles label) :=
  inferInstanceAs (Decidable (s.settles label = true))

theorem Move.owing (s : Scheduler κ) (w : Nat) (label : SchedulerLabel κ)
    (worker worker' : Worker κ) (write : Option (FiberId × FiberState)) (active idle : Int)
    (fibers : List (FiberAndThread κ))
    (hrow : Move s w label worker worker' write active idle fibers)
    (hworker : s.workers[w]? = some worker) (hsettles : s.Settles label)
    (hnot : worker.pc.owing = false) : worker'.pc.owing = false := by
  cases hrow <;> simp_all [Pc.owing, Settles, settles, Outcome.pending]

theorem step_owing (s : Scheduler κ) (label : SchedulerLabel κ) (s' : Scheduler κ)
    (hs : ∀ worker ∈ s.workers, worker.pc.owing = false) (hsettles : s.Settles label)
    (hstep : s.step label = some s') : ∀ worker ∈ s'.workers, worker.pc.owing = false := by
  rcases step_cases s s' label hstep with
    hout | ⟨w, worker, hworker, worker', write, active, idle, fibers, hmoved⟩
  · rw [hout.workers]
    exact hs
  · rw [hmoved.workers]
    intro other hother
    rcases List.mem_or_eq_of_mem_set hother with hold | rfl
    · exact hs other hold
    · exact hmoved.row.owing _ _ _ _ _ _ _ _ _ hworker hsettles
        (hs worker (List.mem_of_getElem? hworker))

theorem stopping_sound (threads : Nat) (labels : List (SchedulerLabel κ)) (s : Scheduler κ)
    (hrun : Lib.run step (start threads) labels = some s) (hstopping : s.isStopping = true) :
    s.fibers = [] ∧
      ((∀ worker ∈ s.workers, worker.pc.unfinished = false) ↔
        ∀ worker ∈ s.workers, worker.pc.stranded = false) ∧
      (Lib.Meets step Settles (start threads) labels →
        ∀ worker ∈ s.workers, worker.pc.unfinished = false) := by
  have hcounts := run_counts threads labels s hrun
  unfold isStopping at hstopping
  simp only [Bool.and_eq_true, List.isEmpty_iff, decide_eq_true_eq] at hstopping
  obtain ⟨⟨_, hempty⟩, hzero⟩ := hstopping
  have hsame : ∀ worker ∈ s.workers, worker.pc.unfinished = worker.pc.stranded := by
    intro worker hmem
    exact Pc.unfinished_iff worker.pc (hcounts.not_active s hzero worker hmem)
  have hiff : (∀ worker ∈ s.workers, worker.pc.unfinished = false) ↔
      ∀ worker ∈ s.workers, worker.pc.stranded = false := by
    constructor
    · intro hall worker hmem
      rw [← hsame worker hmem]
      exact hall worker hmem
    · intro hall worker hmem
      rw [hsame worker hmem]
      exact hall worker hmem
  refine ⟨hempty, hiff, ?_⟩
  intro hmeets
  apply hiff.mpr
  have howing := Lib.run_invariant_of_meets Settles
    (fun s => ∀ worker ∈ s.workers, worker.pc.owing = false) step_owing labels (start threads) s
    (by
      intro worker hmem
      rw [(List.mem_replicate.mp hmem).2]
      rfl)
    hmeets hrun
  intro worker hmem
  have hnot := howing worker hmem
  revert hnot
  cases worker.pc <;> simp [Pc.owing, Pc.stranded]

/-- One callback is parked by `YieldToHold`, the next one throws while the other worker is idle,
and then `stop()` is called. -/
def settledRun : List (SchedulerLabel Nat) :=
  [.schedule ⟨.cb 7, none⟩, .pick 0, .dispatch 0 1, .check 0, .swapIn 0, .switch 0,
   .yieldToHold 0, .switch 0,
   .count 0, .test 0, .finish 0, .pick 1, .dispatch 1 0, .check 1, .swapIn 1, .switch 1,
   .schedule ⟨.cb 8, none⟩, .pick 0, .dispatch 0 2, .check 0, .swapIn 0, .switch 0,
   .slice 0 .except, .switch 0,
   .count 0, .test 0, .finish 0, .reset 0, .stop]

theorem stopping_sound_after_callbacks :
    ∃ s : Scheduler Nat, Lib.run step (start 2) settledRun = some s ∧ s.isStopping = true ∧
      s.fibers = [] ∧
      ((∀ worker ∈ s.workers, worker.pc.unfinished = false) ↔
        ∀ worker ∈ s.workers, worker.pc.stranded = false) ∧
      ∀ worker ∈ s.workers, worker.pc.unfinished = false := by
  have hflag : (Lib.run step (start 2) settledRun).map isStopping = some true := by decide
  obtain ⟨s, hrun, hstopping⟩ := Option.map_eq_some_iff.mp hflag
  obtain ⟨hempty, hiff, hsettled⟩ := stopping_sound 2 settledRun s hrun hstopping
  exact ⟨s, hrun, hstopping, hempty, hiff, hsettled (by decide)⟩

/-- The idle fiber of worker 1 sees `stopping()` while the `READY` fiber of
worker 0 is counted out and not yet back in the queue. -/
theorem stopping_before_requeue :
    (Lib.run step (start 2 : Scheduler Nat) [.stop, .schedule ⟨.cb 7, none⟩, .pick 0, .pick 1,
        .dispatch 0 1, .dispatch 1 0, .check 0, .swapIn 0, .switch 0, .check 1, .swapIn 1,
        .switch 1, .slice 0 .ready,
        .switch 0, .count 0]).map
        (fun s => (s.isStopping, s.state (.user 1), s.workers.map fun worker =>
          worker.pc.unfinished)) = some (true, some .ready, [true, false]) ∧
      (Lib.run step (start 2 : Scheduler Nat) [.stop, .schedule ⟨.cb 7, none⟩, .pick 0, .pick 1,
        .dispatch 0 1, .dispatch 1 0, .check 0, .swapIn 0, .switch 0, .check 1, .swapIn 1,
        .switch 1, .slice 0 .ready,
        .switch 0, .count 0, .quit 1, .switch 1]).isSome = true := by
  decide

end Scheduler
end Sylar
