import Sylar.Scheduler.Counters
import Sylar.Timer.Invariant

/-! `IOManager` as the scheduler and the timer manager that it is, joined at
`tickle()`. A worker that is blocked in `epoll_wait` waits for a byte in the
pipe, and `tickle()` writes one only when no worker is idle. -/
namespace Sylar

structure Loop (κ : Type) where
  scheduler : Scheduler κ
  timers : TimerManager κ

namespace Loop
variable {κ : Type}

inductive Label (κ : Type) where
  | scheduler (label : SchedulerLabel κ)
  | timers (call : TimerManager.Call κ)

def start (threads : Nat) (now : UInt64) : Loop κ where
  scheduler := .start threads
  timers := .new now

/-- `onTimerInsertedAtFront()`, when `addTimer` or `reset` asks for it. -/
def inserted (s : Loop κ) (atFront : Bool) (timers : TimerManager κ) : Loop κ where
  scheduler := if atFront then s.scheduler.tickle else s.scheduler
  timers := timers

def addTimer (s : Loop κ) (ptr : Nat) (ms : UInt64) (cb : κ) (recurring : Bool) (now : UInt64) :
    Except TimerFault (Bool × Loop κ) :=
  match s.timers.addTimer ptr ms cb recurring now with
  | .error fault => .error fault
  | .ok (atFront, timers) => .ok (atFront, s.inserted atFront timers)

def reset (s : Loop κ) (ptr : Nat) (ms : UInt64) (fromNow : Bool) (now : UInt64) :
    Except TimerFault (Bool × Loop κ) :=
  match s.timers.reset ptr ms fromNow now with
  | .error fault => .error fault
  | .ok ((_, atFront), timers) => .ok (atFront, s.inserted atFront timers)

def step (s : Loop κ) : Label κ → Option (Loop κ)
  | .scheduler label => (s.scheduler.step label).map fun scheduler => { s with scheduler := scheduler }
  | .timers (.addTimer ptr ms cb recurring now) =>
    (s.addTimer ptr ms cb recurring now).toOption.map Prod.snd
  | .timers (.reset ptr ms fromNow now) => (s.reset ptr ms fromNow now).toOption.map Prod.snd
  | .timers call => (s.timers.step call).map fun timers => { s with timers := timers }

theorem inserted_counts (s : Loop κ) (atFront : Bool) (timers : TimerManager κ)
    (hs : s.scheduler.Counts) : (s.inserted atFront timers).scheduler.Counts := by
  unfold inserted
  cases atFront with
  | false => exact hs
  | true => exact ⟨by simpa using hs.active, by simpa using hs.idling⟩

theorem step_counts (s : Loop κ) (label : Label κ) (s' : Loop κ) (hs : s.scheduler.Counts)
    (hstep : s.step label = some s') : s'.scheduler.Counts := by
  cases label with
  | scheduler label =>
    obtain ⟨scheduler, hscheduler, rfl⟩ := Option.map_eq_some_iff.mp hstep
    exact Scheduler.step_counts s.scheduler label scheduler hs hscheduler
  | timers call =>
    cases call with
    | addTimer ptr ms cb recurring now =>
      simp only [step, addTimer] at hstep
      split at hstep
      · cases hstep
      · cases hstep
        exact inserted_counts s _ _ hs
    | reset ptr ms fromNow now =>
      simp only [step, reset] at hstep
      split at hstep
      · cases hstep
      · cases hstep
        exact inserted_counts s _ _ hs
    | _ =>
      simp only [step, Option.map_eq_some_iff] at hstep
      obtain ⟨timers, _, rfl⟩ := hstep
      exact hs

theorem run_counts (threads : Nat) (now : UInt64) (labels : List (Label κ)) (s : Loop κ)
    (hrun : Lib.run step (start threads now) labels = some s) : s.scheduler.Counts :=
  Lib.run_invariant (fun s => s.scheduler.Counts) step_counts labels (start threads now) s
    (Scheduler.start_counts threads) hrun

theorem tickle_of_idling (s : Scheduler κ) (hs : s.Counts) (worker : Worker κ)
    (hmem : worker ∈ s.workers) (hidling : worker.pc.idling = true) : s.tickle = s := by
  unfold Scheduler.tickle
  rw [hs.hasIdleThreads s worker hmem hidling]
  rfl

theorem addTimer_atFront (m m' : TimerManager κ) (ptr : Nat) (ms : UInt64) (cb : κ)
    (recurring : Bool) (now : UInt64) (atFront : Bool) (htickled : m.tickled = false)
    (hok : m.addTimer ptr ms cb recurring now = .ok (atFront, m'))
    (hhead : m'.timers.head? = some ptr) : atFront = true := by
  simp only [TimerManager.addTimer] at hok
  split at hok
  · cases hok
  · simp only [TimerManager.addTimerLocked, Except.ok.injEq, Prod.mk.injEq] at hok
    obtain ⟨rfl, rfl⟩ := hok
    split at hhead
    · assumption
    · simpa [TimerManager.insert, TimerManager.setObject, htickled] using hhead

/-- While a worker is blocked in `epoll_wait`, neither call leaves a byte in the
pipe that was not there before. -/
theorem wakes_iff_byte_already_there (threads : Nat) (start' : UInt64) (labels : List (Label κ))
    (s : Loop κ) (hrun : Lib.run step (start threads start') labels = some s)
    (worker : Worker κ) (hmem : worker ∈ s.scheduler.workers) (fiber : FiberId)
    (hblocked : worker.pc = .polling fiber) :
    (∀ entry, s.scheduler.fibers = [] →
      (0 < (s.scheduler.schedule entry).pipe ↔ 0 < s.scheduler.pipe)) ∧
    ∀ ptr ms cb recurring now atFront s', s.timers.tickled = false →
      s.addTimer ptr ms cb recurring now = .ok (atFront, s') →
      s'.timers.timers.head? = some ptr →
      atFront = true ∧ (0 < s'.scheduler.pipe ↔ 0 < s.scheduler.pipe) := by
  have hcounts := run_counts threads start' labels s hrun
  have hidling : worker.pc.idling = true := by
    rw [hblocked]
    rfl
  have htickle := tickle_of_idling s.scheduler hcounts worker hmem hidling
  constructor
  · intro entry hempty
    have hidle := hcounts.hasIdleThreads s.scheduler worker hmem hidling
    have hpipe : (s.scheduler.schedule entry).pipe = s.scheduler.pipe := by
      simp only [Scheduler.schedule, hempty, List.isEmpty_nil, if_true]
      unfold Scheduler.tickle
      rw [if_pos]
      exact hidle
    rw [hpipe]
  · intro ptr ms cb recurring now atFront s' htickled hadd hhead
    simp only [addTimer] at hadd
    split at hadd
    · cases hadd
    · rename_i atFront' timers htimers
      cases hadd
      have hfront : atFront = true := addTimer_atFront s.timers timers ptr ms cb recurring now atFront
        htickled htimers hhead
      refine ⟨hfront, ?_⟩
      simp only [inserted, hfront, if_true]
      rw [htickle]

/-- A worker is blocked while the pipe still holds the byte of an earlier call. -/
theorem wakes_iff_byte_already_there_unread :
    ∃ s : Loop Nat,
      Lib.run step (start 1 1000) [.scheduler (.schedule ⟨.cb 7, none⟩), .scheduler (.pick 0),
        .scheduler (.dispatch 0 1), .scheduler (.check 0), .scheduler (.swapIn 0),
        .scheduler (.switch 0),
        .scheduler (.slice 0 .term), .scheduler (.switch 0), .scheduler (.count 0),
        .scheduler (.test 0), .scheduler (.finish 0), .scheduler (.reset 0), .scheduler (.pick 0),
        .scheduler (.dispatch 0 1), .scheduler (.check 0), .scheduler (.swapIn 0),
        .scheduler (.switch 0),
        .scheduler (.poll 0)] = some s ∧
        0 < (s.scheduler.schedule ⟨.cb 8, none⟩).pipe := by
  have hview : (Lib.run step (start 1 1000 : Loop Nat) [.scheduler (.schedule ⟨.cb 7, none⟩),
      .scheduler (.pick 0), .scheduler (.dispatch 0 1), .scheduler (.check 0),
      .scheduler (.swapIn 0), .scheduler (.switch 0), .scheduler (.slice 0 .term),
      .scheduler (.switch 0),
      .scheduler (.count 0), .scheduler (.test 0), .scheduler (.finish 0), .scheduler (.reset 0),
      .scheduler (.pick 0),
      .scheduler (.dispatch 0 1), .scheduler (.check 0), .scheduler (.swapIn 0),
      .scheduler (.switch 0),
      .scheduler (.poll 0)]).map
      (fun s => (s.scheduler.workers, s.scheduler.fibers, s.scheduler.pipe)) =
        some ([⟨.polling (.idle 0), some (.user 1)⟩], [], 1) := by decide
  obtain ⟨s, hrun, hfields⟩ := Option.map_eq_some_iff.mp hview
  simp only [Prod.mk.injEq] at hfields
  obtain ⟨hworkers, hfibers, hpipe⟩ := hfields
  refine ⟨s, hrun, ?_⟩
  have hmem : ⟨.polling (.idle 0), some (.user 1)⟩ ∈ s.scheduler.workers := by
    rw [hworkers]
    exact List.mem_singleton.mpr rfl
  apply ((wakes_iff_byte_already_there 1 1000 _ s hrun _ hmem (.idle 0) rfl).1 ⟨.cb 8, none⟩
    hfibers).mpr
  rw [hpipe]
  decide

/-- One worker blocked in `epoll_wait`; neither a task nor a timer wakes it. -/
theorem schedule_writes_no_byte :
    (Lib.run step (start 1 1000 : Loop Nat) [.scheduler (.pick 0), .scheduler (.dispatch 0 1),
        .scheduler (.check 0), .scheduler (.swapIn 0), .scheduler (.switch 0),
        .scheduler (.poll 0)]).map
        (fun s => (s.scheduler.workers.map Worker.pc, (s.scheduler.schedule ⟨.cb 7, none⟩).pipe,
          ((s.addTimer 8 5 9 false 1000).toOption.map fun added =>
            (added.1, added.2.scheduler.pipe)))) =
      some ([.polling (.idle 0)], 0, some (true, 0)) := by
  decide

end Loop
end Sylar
