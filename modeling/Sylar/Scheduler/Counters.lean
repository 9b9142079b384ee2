import Sylar.Lib.Slots
import Sylar.Scheduler.Moves

/-! `m_activeThreadCount` and `m_idleThreadCount` count workers by where they
are in `run`, in every reachable state. -/
namespace Sylar

variable {κ : Type}

/-- The worker has taken a task and has not counted it out again. -/
def Pc.active : Pc κ → Bool
  | .taken _ | .renewing _ => true
  | .entering _ role | .checked _ role | .switching _ role | .exec _ role | .leaving _ role _
  | .returned _ role _ =>
    decide (role ≠ .idle)
  | _ => false

def Pc.idling : Pc κ → Bool
  | .entering _ role | .checked _ role | .switching _ role | .exec _ role | .leaving _ role _
  | .returned _ role _ =>
    decide (role = .idle)
  | .polling _ => true
  | _ => false

namespace Scheduler

structure Counts (s : Scheduler κ) : Prop where
  active : s.activeThreadCount = ((s.workers.map fun worker => worker.pc.active.toNat).sum : Nat)
  idling : s.idleThreadCount = ((s.workers.map fun worker => worker.pc.idling.toNat).sum : Nat)

theorem Move.counts (s : Scheduler κ) (w : Nat) (label : SchedulerLabel κ)
    (worker worker' : Worker κ) (write : Option (FiberId × FiberState)) (active idle : Int)
    (fibers : List (FiberAndThread κ))
    (hrow : Move s w label worker worker' write active idle fibers) :
    active + worker.pc.active.toNat = worker'.pc.active.toNat ∧
      idle + worker.pc.idling.toNat = worker'.pc.idling.toNat := by
  cases hrow <;> simp_all [Pc.active, Pc.idling]

theorem step_counts (s : Scheduler κ) (label : SchedulerLabel κ) (s' : Scheduler κ)
    (hs : Counts s) (hstep : s.step label = some s') : Counts s' := by
  have hactive := hs.active
  have hidling := hs.idling
  rcases step_cases s s' label hstep with
    hout | ⟨w, worker, hworker, worker', write, active, idle, fibers, hmoved⟩
  · constructor
    · rw [hout.activeThreadCount, hout.workers]
      exact hactive
    · rw [hout.idleThreadCount, hout.workers]
      exact hidling
  · have hcounts := hmoved.row.counts
    have hsumActive := Lib.sum_map_set (fun worker => worker.pc.active.toNat) s.workers w worker
      worker' hworker
    have hsumIdling := Lib.sum_map_set (fun worker => worker.pc.idling.toNat) s.workers w worker
      worker' hworker
    constructor
    · rw [hmoved.activeThreadCount, hmoved.workers]
      omega
    · rw [hmoved.idleThreadCount, hmoved.workers]
      omega

theorem start_counts (threads : Nat) : Counts (start threads : Scheduler κ) := by
  constructor <;> simp [start, Pc.active, Pc.idling]

theorem run_counts (threads : Nat) (labels : List (SchedulerLabel κ)) (s : Scheduler κ)
    (hrun : Lib.run step (start threads) labels = some s) : Counts s :=
  Lib.run_invariant Counts step_counts labels (start threads) s (start_counts threads) hrun

theorem one_le_sum (flag : Worker κ → Bool) (workers : List (Worker κ)) (worker : Worker κ)
    (hmem : worker ∈ workers) (hflag : flag worker = true) :
    1 ≤ (workers.map fun worker => (flag worker).toNat).sum := by
  apply Nat.one_le_iff_ne_zero.mpr
  intro hzero
  have hnone := List.sum_eq_zero_iff_forall_eq_nat.mp hzero (flag worker).toNat
    (List.mem_map_of_mem hmem)
  rw [hflag] at hnone
  contradiction

theorem Counts.not_active (s : Scheduler κ) (hs : Counts s) (hzero : s.activeThreadCount = 0)
    (worker : Worker κ) (hmem : worker ∈ s.workers) : worker.pc.active = false := by
  cases hpc : worker.pc.active with
  | false => rfl
  | true =>
    have hsum := hs.active
    have hone := one_le_sum (fun worker => worker.pc.active) s.workers worker hmem hpc
    omega

theorem Counts.hasIdleThreads (s : Scheduler κ) (hs : Counts s) (worker : Worker κ)
    (hmem : worker ∈ s.workers) (hidling : worker.pc.idling = true) : s.hasIdleThreads = true := by
  have hsum := hs.idling
  have hone := one_le_sum (fun worker => worker.pc.idling) s.workers worker hmem hidling
  unfold Scheduler.hasIdleThreads
  rw [decide_eq_true_eq]
  omega

/-- In every reachable state the counters are the numbers of workers on a task and of workers in
the idle fiber, so a decrement never finds 0. -/
theorem thread_counts (threads : Nat) (labels : List (SchedulerLabel κ)) (s : Scheduler κ)
    (hrun : Lib.run step (start threads) labels = some s) :
    s.activeThreadCount = s.workers.countP (fun worker => worker.pc.active) ∧
      s.idleThreadCount = s.workers.countP (fun worker => worker.pc.idling) ∧
      0 ≤ s.activeThreadCount ∧ 0 ≤ s.idleThreadCount ∧
      (s.activeThreadCount = 0 ↔ ∀ worker ∈ s.workers, worker.pc.active = false) := by
  obtain ⟨hactive, hidling⟩ := run_counts threads labels s hrun
  rw [Lib.sum_map_toNat] at hactive hidling
  have hnone : s.workers.countP (fun worker => worker.pc.active) = 0 ↔
      ∀ worker ∈ s.workers, worker.pc.active = false := by
    simp only [List.countP_eq_zero, Bool.not_eq_true]
  refine ⟨hactive, hidling, by omega, by omega, ?_⟩
  rw [← hnone]
  omega

/-- A fiber that is in the queue twice: the second worker takes it when it has finished, and is
counted, next to a third one that is idle. -/
theorem thread_counts_finished :
    ∃ s : Scheduler Nat,
      Lib.run step (start 3) [.create 1, .schedule ⟨.fiber 1, none⟩, .schedule ⟨.fiber 1, none⟩,
        .pick 0, .dispatch 0 0, .check 0, .swapIn 0, .switch 0, .slice 0 .term, .switch 0,
        .count 0, .pick 1,
        .pick 2, .dispatch 2 0] = some s ∧
        s.state (.user 1) = some .term ∧
        s.workers.map (fun worker => (worker.pc.active, worker.pc.idling)) =
          [(false, false), (true, false), (false, true)] ∧
        s.activeThreadCount = 1 ∧ s.idleThreadCount = 1 := by
  obtain ⟨s, hrun⟩ : ∃ s : Scheduler Nat,
      Lib.run step (start 3) [.create 1, .schedule ⟨.fiber 1, none⟩, .schedule ⟨.fiber 1, none⟩,
        .pick 0, .dispatch 0 0, .check 0, .swapIn 0, .switch 0, .slice 0 .term, .switch 0,
        .count 0, .pick 1,
        .pick 2, .dispatch 2 0] = some s :=
    Option.isSome_iff_exists.mp (by decide)
  have hend : (Lib.run step (start 3 : Scheduler Nat) [.create 1, .schedule ⟨.fiber 1, none⟩,
      .schedule ⟨.fiber 1, none⟩, .pick 0, .dispatch 0 0, .check 0, .swapIn 0, .switch 0,
      .slice 0 .term,
      .switch 0, .count 0, .pick 1, .pick 2,
      .dispatch 2 0]).map (fun s => (s.state (.user 1), s.workers.map
        fun worker => (worker.pc.active, worker.pc.idling))) =
      some (some .term, [(false, false), (true, false), (false, true)]) := by
    decide
  rw [hrun] at hend
  obtain ⟨hstate, hflags⟩ := Prod.mk.inj (Option.some.inj hend)
  have hactive (flag : Bool × Bool → Bool) : s.workers.countP (fun worker =>
      flag (worker.pc.active, worker.pc.idling)) =
        [(false, false), (true, false), (false, true)].countP flag := by
    rw [← hflags, List.countP_map]
    rfl
  obtain ⟨hcount, hidle, -⟩ := thread_counts 3 _ s hrun
  refine ⟨s, hrun, hstate, hflags, ?_, ?_⟩
  · rw [hcount, hactive Prod.fst]
    rfl
  · rw [hidle, hactive Prod.snd]
    rfl

end Scheduler
end Sylar
