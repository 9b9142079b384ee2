import Sylar.Lib.Run
import Sylar.Scheduler.Workers

/-! The transition table of a worker, and that every step of `perform` is one of
its rows. Properties of the scheduler are proved row by row. -/
namespace Sylar.Scheduler

variable {κ : Type}

section
variable (s : Scheduler κ)

@[simp] theorem tickle_workers : s.tickle.workers = s.workers := by
  unfold tickle
  split <;> rfl

@[simp] theorem tickle_fibers : s.tickle.fibers = s.fibers := by
  unfold tickle
  split <;> rfl

@[simp] theorem tickle_state : s.tickle.state = s.state := by
  unfold tickle
  split <;> rfl

@[simp] theorem tickle_activeThreadCount : s.tickle.activeThreadCount = s.activeThreadCount := by
  unfold tickle
  split <;> rfl

@[simp] theorem tickle_idleThreadCount : s.tickle.idleThreadCount = s.idleThreadCount := by
  unfold tickle
  split <;> rfl

@[simp] theorem tickle_stopping : s.tickle.stopping = s.stopping := by
  unfold tickle
  split <;> rfl

@[simp] theorem tickle_autostop : s.tickle.autostop = s.autostop := by
  unfold tickle
  split <;> rfl

variable (entry : FiberAndThread κ)

@[simp] theorem schedule_stopping : (s.schedule entry).stopping = s.stopping := by
  simp only [schedule]
  split <;> simp

@[simp] theorem schedule_workers : (s.schedule entry).workers = s.workers := by
  simp only [schedule]
  split <;> simp

@[simp] theorem schedule_fibers : (s.schedule entry).fibers = s.fibers ++ [entry] := by
  simp only [schedule]
  split <;> simp

@[simp] theorem schedule_state : (s.schedule entry).state = s.state := by
  simp only [schedule]
  split <;> simp

@[simp] theorem schedule_activeThreadCount :
    (s.schedule entry).activeThreadCount = s.activeThreadCount := by
  simp only [schedule]
  split <;> simp

@[simp] theorem schedule_idleThreadCount :
    (s.schedule entry).idleThreadCount = s.idleThreadCount := by
  simp only [schedule]
  split <;> simp

end

/-- `stop()` sets its flags and tickles; it moves no worker. -/
theorem repeat_tickle (n : Nat) (s : Scheduler κ) :
    (Nat.repeat tickle n s).workers = s.workers ∧ (Nat.repeat tickle n s).state = s.state ∧
      (Nat.repeat tickle n s).fibers = s.fibers ∧
      (Nat.repeat tickle n s).activeThreadCount = s.activeThreadCount ∧
      (Nat.repeat tickle n s).idleThreadCount = s.idleThreadCount := by
  induction n with
  | zero => exact ⟨rfl, rfl, rfl, rfl, rfl⟩
  | succ n ih => simpa [Nat.repeat] using ih

/-- What a fiber that leaves writes into `m_state`; `YieldToHold` has a label of
its own, and a bare `swapOut` writes nothing. -/
def written : Outcome → Option FiberState
  | .ready => some .ready
  | .term => some .term
  | .except => some .except
  | .hold | .swapOut => none

def Finished (state : Option FiberState) : Prop :=
  state = some .term ∨ state = some .except

def keptFiber (role : Role) (cbFiber : Option FiberId) : Option FiberId :=
  if role = .cb then none else cbFiber

/-- `Move s w label worker worker' write active idle fibers`: worker `w` goes from
`worker` to `worker'`, writes one fiber state, adds to the two counters, and
leaves the queue `fibers`. -/
inductive Move (s : Scheduler κ) (w : Nat) : SchedulerLabel κ → Worker κ → Worker κ →
    Option (FiberId × FiberState) → Int → Int → List (FiberAndThread κ) → Prop where
  | pickNothing (cb : Option FiberId) : (scanFibers s.state w s.fibers).2 = none →
    Move s w (.pick w) ⟨.scan, cb⟩ ⟨.nothing, cb⟩ none 0 0 s.fibers
  | pickTask (cb : Option FiberId) (entry : FiberAndThread κ) (left : List (FiberAndThread κ)) :
    (scanFibers s.state w s.fibers).2 = some (entry, left) →
    Move s w (.pick w) ⟨.scan, cb⟩ ⟨.taken entry, cb⟩ none 1 0 left
  | dropFinished (fresh ptr : Nat) (thread : Option Nat) (cb : Option FiberId) :
    Finished (s.state (.user ptr)) →
    Move s w (.dispatch w fresh) ⟨.taken ⟨.fiber ptr, thread⟩, cb⟩ ⟨.scan, cb⟩ none (-1) 0 s.fibers
  | enterFiber (fresh ptr : Nat) (thread : Option Nat) (cb : Option FiberId) :
    ¬ Finished (s.state (.user ptr)) →
    Move s w (.dispatch w fresh) ⟨.taken ⟨.fiber ptr, thread⟩, cb⟩
      ⟨.entering (.user ptr) .fiber, cb⟩ none 0 0 s.fibers
  | reuseCb (fresh : Nat) (cb : κ) (thread : Option Nat) (fiber : FiberId) :
    Resettable (s.state fiber) →
    Move s w (.dispatch w fresh) ⟨.taken ⟨.cb cb, thread⟩, some fiber⟩ ⟨.renewing fiber, some fiber⟩
      none 0 0 s.fibers
  | renew (fiber : FiberId) (cb : Option FiberId) :
    Move s w (.reset w) ⟨.renewing fiber, cb⟩ ⟨.entering fiber .cb, cb⟩ (some (fiber, .init)) 0 0
      s.fibers
  | newCb (fresh : Nat) (cb : κ) (thread : Option Nat) : s.state (.user fresh) = none →
    Move s w (.dispatch w fresh) ⟨.taken ⟨.cb cb, thread⟩, none⟩
      ⟨.entering (.user fresh) .cb, some (.user fresh)⟩ (some (.user fresh, .init)) 0 0 s.fibers
  | exit (fresh : Nat) (cb : Option FiberId) : s.state (.idle w) = some .term →
    Move s w (.dispatch w fresh) ⟨.nothing, cb⟩ ⟨.exited, cb⟩ none 0 0 s.fibers
  | enterIdle (fresh : Nat) (cb : Option FiberId) : s.state (.idle w) ≠ some .term →
    Move s w (.dispatch w fresh) ⟨.nothing, cb⟩ ⟨.entering (.idle w) .idle, cb⟩ none 0 1 s.fibers
  | check (fiber : FiberId) (role : Role) (cb : Option FiberId) : s.state fiber ≠ none →
    s.state fiber ≠ some .exec →
    Move s w (.check w) ⟨.entering fiber role, cb⟩ ⟨.checked fiber role, cb⟩ none 0 0 s.fibers
  | swapIn (fiber : FiberId) (role : Role) (cb : Option FiberId) :
    Move s w (.swapIn w) ⟨.checked fiber role, cb⟩ ⟨.switching fiber role, cb⟩ (some (fiber, .exec))
      0 0 s.fibers
  | yieldToHold (fiber : FiberId) (role : Role) (cb : Option FiberId) :
    Move s w (.yieldToHold w) ⟨.exec fiber role, cb⟩ ⟨.leaving fiber role .hold, cb⟩
      (some (fiber, .hold)) 0 0 s.fibers
  | enter (fiber : FiberId) (role : Role) (cb : Option FiberId) :
    Move s w (.switch w) ⟨.switching fiber role, cb⟩ ⟨.exec fiber role, cb⟩ none 0 0 s.fibers
  | switch (fiber : FiberId) (role : Role) (outcome : Outcome) (cb : Option FiberId) :
    Move s w (.switch w) ⟨.leaving fiber role outcome, cb⟩ ⟨.returned fiber role outcome, cb⟩ none
      0 0 s.fibers
  | swapOut (fiber : FiberId) (role : Role) (cb : Option FiberId) :
    Move s w (.slice w .swapOut) ⟨.exec fiber role, cb⟩ ⟨.returned fiber role .swapOut, cb⟩ none
      0 0 s.fibers
  | slice (fiber : FiberId) (role : Role) (cb : Option FiberId) (outcome : Outcome)
    (state : FiberState) : role ≠ .idle → written outcome = some state →
    Move s w (.slice w outcome) ⟨.exec fiber role, cb⟩ ⟨.leaving fiber role outcome, cb⟩
      (some (fiber, state)) 0 0 s.fibers
  | poll (fiber : FiberId) (cb : Option FiberId) :
    Move s w (.poll w) ⟨.exec fiber .idle, cb⟩ ⟨.polling fiber, cb⟩ none 0 0 s.fibers
  | wake (fiber : FiberId) (cb : Option FiberId) (drained : Bool) :
    Move s w (.wake w drained) ⟨.polling fiber, cb⟩ ⟨.exec fiber .idle, cb⟩ none 0 0 s.fibers
  | quit (fiber : FiberId) (cb : Option FiberId) : s.isStopping = true →
    Move s w (.quit w) ⟨.exec fiber .idle, cb⟩ ⟨.leaving fiber .idle .term, cb⟩
      (some (fiber, .term)) 0 0 s.fibers
  | countTask (fiber : FiberId) (role : Role) (outcome : Outcome) (cb : Option FiberId) :
    role ≠ .idle →
    Move s w (.count w) ⟨.returned fiber role outcome, cb⟩ ⟨.counted fiber role outcome, cb⟩ none
      (-1) 0 s.fibers
  | countIdle (fiber : FiberId) (outcome : Outcome) (cb : Option FiberId) :
    Move s w (.count w) ⟨.returned fiber .idle outcome, cb⟩ ⟨.counted fiber .idle outcome, cb⟩
      none 0 (-1) s.fibers
  | testReady (fiber : FiberId) (role : Role) (outcome : Outcome) (cb : Option FiberId) :
    s.state fiber = some .ready → role ≠ .idle →
    Move s w (.test w) ⟨.counted fiber role outcome, cb⟩ ⟨.requeue fiber role outcome, cb⟩ none 0 0
      s.fibers
  | testDone (fiber : FiberId) (role : Role) (outcome : Outcome) (cb : Option FiberId) :
    Finished (s.state fiber) → role ≠ .cb →
    Move s w (.test w) ⟨.counted fiber role outcome, cb⟩ ⟨.scan, cb⟩ none 0 0 s.fibers
  | testRecycle (fiber : FiberId) (outcome : Outcome) (cb : Option FiberId) :
    Finished (s.state fiber) →
    Move s w (.test w) ⟨.counted fiber .cb outcome, cb⟩ ⟨.recycle fiber outcome, cb⟩ none 0 0
      s.fibers
  | testPark (fiber : FiberId) (role : Role) (outcome : Outcome) (cb : Option FiberId) :
    ¬ (s.state fiber = some .ready ∧ role ≠ .idle) → ¬ Finished (s.state fiber) →
    Move s w (.test w) ⟨.counted fiber role outcome, cb⟩ ⟨.park fiber role outcome, cb⟩ none 0 0
      s.fibers
  | requeue (ptr : Nat) (role : Role) (outcome : Outcome) (cb : Option FiberId) :
    Move s w (.finish w) ⟨.requeue (.user ptr) role outcome, cb⟩ ⟨.scan, keptFiber role cb⟩ none
      0 0 (s.fibers ++ [⟨.fiber ptr, none⟩])
  | park (fiber : FiberId) (role : Role) (outcome : Outcome) (cb : Option FiberId) :
    Move s w (.finish w) ⟨.park fiber role outcome, cb⟩ ⟨.scan, keptFiber role cb⟩
      (some (fiber, .hold)) 0 0 s.fibers
  | recycle (fiber : FiberId) (outcome : Outcome) (cb : Option FiberId) :
    Resettable (s.state fiber) →
    Move s w (.finish w) ⟨.recycle fiber outcome, cb⟩ ⟨.recycling fiber, cb⟩ none 0 0 s.fibers
  | recycled (fiber : FiberId) (cb : Option FiberId) :
    Move s w (.reset w) ⟨.recycling fiber, cb⟩ ⟨.scan, cb⟩ (some (fiber, .init)) 0 0 s.fibers

def stateAfter (state : FiberId → Option FiberState) :
    Option (FiberId × FiberState) → FiberId → Option FiberState
  | none => state
  | some (fiber, value) => fun f => if f = fiber then some value else state f

theorem stateAfter_eq_some (state : FiberId → Option FiberState)
    (write : Option (FiberId × FiberState)) (fiber : FiberId) (value : FiberState)
    (hafter : stateAfter state write fiber = some value) :
    write = some (fiber, value) ∨ state fiber = some value := by
  cases write with
  | none => exact .inr hafter
  | some written =>
    by_cases heq : fiber = written.1
    · left
      simp only [stateAfter, if_pos heq, Option.some.injEq] at hafter
      rw [heq, ← hafter]
    · right
      simpa [stateAfter, heq] using hafter

structure Moved (s : Scheduler κ) (w : Nat) (label : SchedulerLabel κ) (worker worker' : Worker κ)
    (write : Option (FiberId × FiberState)) (active idle : Int)
    (fibers : List (FiberAndThread κ)) (s' : Scheduler κ) : Prop where
  row : Move s w label worker worker' write active idle fibers
  workers : s'.workers = s.workers.set w worker'
  state : s'.state = stateAfter s.state write
  activeThreadCount : s'.activeThreadCount = s.activeThreadCount + active
  idleThreadCount : s'.idleThreadCount = s.idleThreadCount + idle
  fibers : s'.fibers = fibers

def Moves (s : Scheduler κ) (w : Nat) (label : SchedulerLabel κ) (worker : Worker κ)
    (s' : Scheduler κ) : Prop :=
  ∃ worker' write active idle fibers, Moved s w label worker worker' write active idle fibers s'

theorem Moves.still {s s' : Scheduler κ} {w : Nat} {label : SchedulerLabel κ}
    {worker worker' : Worker κ} {write : Option (FiberId × FiberState)}
    (hrow : Move s w label worker worker' write 0 0 s.fibers)
    (hworkers : s'.workers = s.workers.set w worker')
    (hstate : s'.state = stateAfter s.state write)
    (hactive : s'.activeThreadCount = s.activeThreadCount)
    (hidle : s'.idleThreadCount = s.idleThreadCount) (hfibers : s'.fibers = s.fibers) :
    Moves s w label worker s' := by
  refine ⟨worker', write, 0, 0, s.fibers, hrow, hworkers, hstate, ?_, ?_, hfibers⟩
  · rw [hactive, Int.add_zero]
  · rw [hidle, Int.add_zero]

theorem pick_moves (s s' : Scheduler κ) (w : Nat) (worker : Worker κ)
    (hok : s.act w worker (.pick w) = .ok s') : Moves s w (.pick w) worker s' := by
  obtain ⟨pc, cb⟩ := worker
  simp only [act] at hok
  split at hok
  · cases hok
    unfold pick
    cases hscan : scanFibers s.state w s.fibers with
    | mk tickleMe found =>
      cases found with
      | none =>
        refine ⟨⟨.nothing, cb⟩, none, 0, 0, s.fibers, .pickNothing cb (by rw [hscan]), ?_, ?_, ?_,
          ?_, ?_⟩ <;>
          cases tickleMe <;> simp [setWorker, stateAfter]
      | some found =>
        obtain ⟨entry, left⟩ := found
        refine ⟨⟨.taken entry, cb⟩, none, 1, 0, left, .pickTask cb entry left (by rw [hscan]), ?_,
          ?_, ?_, ?_, ?_⟩ <;>
          cases tickleMe <;> simp [setWorker, stateAfter]
  · cases hok

theorem dispatch_moves (s s' : Scheduler κ) (w : Nat) (worker : Worker κ) (fresh : Nat)
    (hok : s.dispatch w worker fresh = .ok s') : Moves s w (.dispatch w fresh) worker s' := by
  obtain ⟨pc, cbFiber⟩ := worker
  unfold dispatch at hok
  split at hok
  · rename_i ptr thread hpc
    cases hpc
    split at hok
    · rename_i hfinished
      cases hok
      exact ⟨_, _, _, _, _, .dropFinished fresh ptr thread cbFiber hfinished, rfl, rfl, rfl,
        (Int.add_zero _).symm, rfl⟩
    · rename_i hlive
      cases hok
      exact .still (.enterFiber fresh ptr thread cbFiber hlive) rfl rfl rfl rfl rfl
  · rename_i cb thread hpc
    cases hpc
    split at hok
    · rename_i fiber hcb
      cases hcb
      split at hok
      · rename_i hreset
        cases hok
        exact .still (.reuseCb fresh cb thread fiber hreset) rfl rfl rfl rfl rfl
      · cases hok
    · rename_i hcb
      cases hcb
      split at hok
      · rename_i hnew
        cases hok
        exact .still (.newCb fresh cb thread hnew) rfl rfl rfl rfl rfl
      · cases hok
  · rename_i hpc
    cases hpc
    split at hok
    · rename_i hterm
      cases hok
      exact .still (.exit fresh cbFiber hterm) rfl rfl rfl rfl rfl
    · rename_i hlive
      cases hok
      exact ⟨_, _, _, _, _, .enterIdle fresh cbFiber hlive, rfl, rfl, (Int.add_zero _).symm, rfl,
        rfl⟩
  · cases hok

theorem reset_moves (s s' : Scheduler κ) (w : Nat) (worker : Worker κ)
    (hok : s.reset w worker = .ok s') : Moves s w (.reset w) worker s' := by
  obtain ⟨pc, cbFiber⟩ := worker
  unfold reset at hok
  split at hok
  · rename_i fiber hpc
    cases hpc
    cases hok
    exact .still (.renew fiber cbFiber) rfl rfl rfl rfl rfl
  · rename_i fiber hpc
    cases hpc
    cases hok
    exact .still (.recycled fiber cbFiber) rfl rfl rfl rfl rfl
  · cases hok

theorem check_moves (s s' : Scheduler κ) (w : Nat) (worker : Worker κ)
    (hok : s.check w worker = .ok s') : Moves s w (.check w) worker s' := by
  obtain ⟨pc, cbFiber⟩ := worker
  unfold check at hok
  split at hok
  · rename_i fiber role hpc
    cases hpc
    split at hok
    · cases hok
    · rename_i state hstate
      split at hok
      · cases hok
      · rename_i hnot
        cases hok
        refine .still (.check fiber role cbFiber ?_ ?_) rfl rfl rfl rfl rfl
        · simp [hstate]
        · simpa [hstate] using hnot
  · cases hok

theorem swapIn_moves (s s' : Scheduler κ) (w : Nat) (worker : Worker κ)
    (hok : s.swapIn w worker = .ok s') : Moves s w (.swapIn w) worker s' := by
  obtain ⟨pc, cbFiber⟩ := worker
  unfold swapIn at hok
  split at hok
  · rename_i fiber role hpc
    cases hpc
    cases hok
    exact .still (.swapIn fiber role cbFiber) rfl rfl rfl rfl rfl
  · cases hok

theorem slice_moves (s s' : Scheduler κ) (w : Nat) (worker : Worker κ) (outcome : Outcome)
    (hok : s.slice w worker outcome = .ok s') : Moves s w (.slice w outcome) worker s' := by
  obtain ⟨pc, cbFiber⟩ := worker
  unfold slice at hok
  split at hok
  · rename_i fiber role hpc
    cases hpc
    have hwrite : ∀ state, written outcome = some state →
        (if role = .idle then .error .disabled
          else .ok (s.leave w ⟨.exec fiber role, cbFiber⟩ fiber role outcome state) :
            Except SchedulerFault (Scheduler κ)) = .ok s' →
        Moves s w (.slice w outcome) ⟨.exec fiber role, cbFiber⟩ s' := by
      intro state hwritten hwrote
      split at hwrote
      · cases hwrote
      · rename_i hrole
        cases hwrote
        exact .still (.slice fiber role cbFiber outcome state hrole hwritten) rfl rfl rfl rfl rfl
    cases outcome with
    | hold => cases hok
    | swapOut =>
      cases hok
      exact .still (.swapOut fiber role cbFiber) rfl rfl rfl rfl rfl
    | ready => exact hwrite .ready rfl hok
    | term => exact hwrite .term rfl hok
    | except => exact hwrite .except rfl hok
  · cases hok

theorem count_moves (s s' : Scheduler κ) (w : Nat) (worker : Worker κ)
    (hok : s.count w worker = .ok s') : Moves s w (.count w) worker s' := by
  obtain ⟨pc, cbFiber⟩ := worker
  unfold count at hok
  split at hok
  · rename_i fiber role outcome hpc
    cases hpc
    by_cases hrole : role = .idle
    · subst hrole
      cases hok
      exact ⟨_, _, _, _, _, .countIdle fiber outcome cbFiber, rfl, rfl, (Int.add_zero _).symm, rfl,
        rfl⟩
    · simp only [if_neg hrole] at hok
      cases hok
      exact ⟨_, _, _, _, _, .countTask fiber role outcome cbFiber hrole, rfl, rfl, rfl,
        (Int.add_zero _).symm, rfl⟩
  · cases hok

theorem test_moves (s s' : Scheduler κ) (w : Nat) (worker : Worker κ)
    (hok : s.test w worker = .ok s') : Moves s w (.test w) worker s' := by
  obtain ⟨pc, cbFiber⟩ := worker
  unfold test at hok
  split at hok
  · rename_i fiber role outcome hpc
    cases hpc
    simp only [Except.ok.injEq] at hok
    subst hok
    by_cases hready : s.state fiber = some .ready ∧ role ≠ .idle
    · rw [if_pos hready]
      exact .still (.testReady fiber role outcome cbFiber hready.1 hready.2) rfl rfl rfl rfl rfl
    · rw [if_neg hready]
      by_cases hdone : s.state fiber = some .term ∨ s.state fiber = some .except
      · rw [if_pos hdone]
        by_cases hcb : role = .cb
        · subst hcb
          exact .still (.testRecycle fiber outcome cbFiber hdone) rfl rfl rfl rfl rfl
        · rw [if_neg hcb]
          exact .still (.testDone fiber role outcome cbFiber hdone hcb) rfl rfl rfl rfl rfl
      · rw [if_neg hdone]
        exact .still (.testPark fiber role outcome cbFiber hready hdone) rfl rfl rfl rfl rfl
  · cases hok

theorem finish_moves (s s' : Scheduler κ) (w : Nat) (worker : Worker κ)
    (hok : s.finish w worker = .ok s') : Moves s w (.finish w) worker s' := by
  obtain ⟨pc, cbFiber⟩ := worker
  unfold finish at hok
  simp only at hok
  split at hok
  · rename_i ptr role outcome
    cases hok
    refine ⟨_, _, _, _, _, .requeue ptr role outcome cbFiber, ?_, ?_, ?_, ?_, ?_⟩ <;>
      simp [setWorker, stateAfter, keptFiber]
  · rename_i fiber role outcome
    cases hok
    exact .still (.park fiber role outcome cbFiber) rfl rfl rfl rfl rfl
  · rename_i fiber outcome
    split at hok
    · rename_i hreset
      cases hok
      exact .still (.recycle fiber outcome cbFiber hreset) rfl rfl rfl rfl rfl
    · cases hok
  · cases hok

/-- What a step from outside changes: the queue, the flags, the pipe, and the
states of fibers that did not exist. -/
structure Outside (s s' : Scheduler κ) : Prop where
  workers : s'.workers = s.workers
  activeThreadCount : s'.activeThreadCount = s.activeThreadCount
  idleThreadCount : s'.idleThreadCount = s.idleThreadCount
  state : ∀ fiber state, s.state fiber = some state → s'.state fiber = some state

theorem create_outside (s : Scheduler κ) (ptr : Nat) (hfresh : s.state (.user ptr) = none) :
    Outside s (s.setState (.user ptr) .init) := by
  refine ⟨rfl, rfl, rfl, ?_⟩
  intro fiber state hstate
  have hne : fiber ≠ .user ptr := by
    rintro rfl
    rw [hfresh] at hstate
    cases hstate
  simpa [setState, hne] using hstate

theorem schedule_outside (s : Scheduler κ) (entry : FiberAndThread κ) :
    Outside s (s.schedule entry) :=
  ⟨by simp, by simp, by simp, by simp⟩

theorem stop_outside (s : Scheduler κ) : Outside s
    (Nat.repeat tickle s.workers.length { s with autostop := true, stopping := true }) := by
  have htickled := repeat_tickle s.workers.length { s with autostop := true, stopping := true }
  refine ⟨htickled.1, htickled.2.2.2.1, htickled.2.2.2.2, ?_⟩
  intro fiber state hstate
  rw [htickled.2.1]
  exact hstate

theorem yieldToHold_moves (s s' : Scheduler κ) (w : Nat) (worker : Worker κ)
    (hok : s.act w worker (.yieldToHold w) = .ok s') : Moves s w (.yieldToHold w) worker s' := by
  obtain ⟨pc, cbFiber⟩ := worker
  simp only [act] at hok
  split at hok
  · rename_i fiber role
    cases hok
    exact .still (.yieldToHold fiber role cbFiber) rfl rfl rfl rfl rfl
  · cases hok

theorem switch_moves (s s' : Scheduler κ) (w : Nat) (worker : Worker κ)
    (hok : s.act w worker (.switch w) = .ok s') : Moves s w (.switch w) worker s' := by
  obtain ⟨pc, cbFiber⟩ := worker
  simp only [act] at hok
  split at hok
  · rename_i fiber role
    cases hok
    exact .still (.enter fiber role cbFiber) rfl rfl rfl rfl rfl
  · rename_i fiber role outcome
    cases hok
    exact .still (.switch fiber role outcome cbFiber) rfl rfl rfl rfl rfl
  · cases hok

theorem idle_moves (s s' : Scheduler κ) (w : Nat) (worker : Worker κ) :
    (s.act w worker (.poll w) = .ok s' → Moves s w (.poll w) worker s') ∧
      (∀ drained, s.act w worker (.wake w drained) = .ok s' →
        Moves s w (.wake w drained) worker s') ∧
      (s.act w worker (.quit w) = .ok s' → Moves s w (.quit w) worker s') := by
  obtain ⟨pc, cbFiber⟩ := worker
  refine ⟨?_, ?_, ?_⟩
  · intro hok
    simp only [act] at hok
    split at hok
    · rename_i fiber
      cases hok
      exact .still (.poll fiber cbFiber) rfl rfl rfl rfl rfl
    · cases hok
  · intro drained hok
    simp only [act] at hok
    split at hok
    · rename_i fiber
      cases hok
      exact .still (.wake fiber cbFiber drained) rfl rfl rfl rfl rfl
    · cases hok
  · intro hok
    simp only [act] at hok
    split at hok
    · rename_i fiber
      split at hok
      · rename_i hstopping
        cases hok
        exact .still (.quit fiber cbFiber hstopping) rfl rfl rfl rfl rfl
      · cases hok
    · cases hok

theorem act_stopping (s s' : Scheduler κ) (w : Nat) (worker : Worker κ)
    (label : SchedulerLabel κ) (hok : s.act w worker label = .ok s') :
    s'.stopping = s.stopping := by
  cases label with
  | pick v =>
    simp only [act] at hok
    split at hok
    · cases hok
      unfold pick
      cases scanFibers s.state w s.fibers with
      | mk tickleMe found => cases tickleMe <;> cases found <;> simp [setWorker]
    · cases hok
  | dispatch v fresh =>
    simp only [act, dispatch] at hok
    repeat' split at hok
    all_goals cases hok
    all_goals rfl
  | reset v =>
    simp only [act, reset] at hok
    repeat' split at hok
    all_goals cases hok
    all_goals rfl
  | check v =>
    simp only [act, check] at hok
    repeat' split at hok
    all_goals cases hok
    all_goals rfl
  | swapIn v =>
    simp only [act, swapIn] at hok
    repeat' split at hok
    all_goals cases hok
    all_goals rfl
  | slice v outcome =>
    simp only [act, slice] at hok
    repeat' split at hok
    all_goals cases hok
    all_goals rfl
  | count v =>
    simp only [act, count] at hok
    repeat' split at hok
    all_goals cases hok
    all_goals rfl
  | test v =>
    simp only [act, test] at hok
    split at hok
    · cases hok
      rfl
    · cases hok
  | finish v =>
    simp only [act, finish] at hok
    repeat' split at hok
    all_goals cases hok
    all_goals simp [setWorker, setState]
  | _ =>
    simp only [act] at hok
    repeat' split at hok
    all_goals cases hok
    all_goals rfl

inductive Change (s : Scheduler κ) : SchedulerLabel κ → Scheduler κ → Prop where
  | create (ptr : Nat) : s.state (.user ptr) = none →
    Change s (.create ptr) (s.setState (.user ptr) .init)
  | schedule (entry : FiberAndThread κ) : Change s (.schedule entry) (s.schedule entry)
  | stop : Change s .stop
      (Nat.repeat tickle s.workers.length { s with autostop := true, stopping := true })
  | move (w : Nat) (label : SchedulerLabel κ) (worker worker' : Worker κ)
    (write : Option (FiberId × FiberState)) (active idle : Int)
    (fibers : List (FiberAndThread κ)) (s' : Scheduler κ) : s.workers[w]? = some worker →
    Moved s w label worker worker' write active idle fibers s' → s'.stopping = s.stopping →
    Change s label s'

theorem step_change (s s' : Scheduler κ) (label : SchedulerLabel κ)
    (hstep : s.step label = some s') : Change s label s' := by
  have hok := Lib.ok_of_toOption _ _ hstep
  have hby : ∀ w, (∀ worker, s.act w worker label = .ok s' → Moves s w label worker s') →
      s.actBy w label = .ok s' → Change s label s' := by
    intro w hact hby
    unfold actBy at hby
    split at hby
    · cases hby
    · rename_i worker hworker
      obtain ⟨worker', write, active, idle, fibers, hmoved⟩ := hact worker hby
      exact .move w label worker worker' write active idle fibers s' hworker hmoved
        (act_stopping s s' w worker label hby)
  cases label with
  | create ptr =>
    simp only [perform] at hok
    split at hok
    · rename_i hfresh
      cases hok
      exact .create ptr hfresh
    · cases hok
  | schedule entry =>
    simp only [perform] at hok
    split at hok
    · cases hok
      exact .schedule entry
    · split at hok
      · cases hok
      · cases hok
        exact .schedule entry
  | stop =>
    cases hok
    exact .stop
  | pick w => exact hby w (pick_moves s s' w) hok
  | dispatch w fresh => exact hby w (fun worker => dispatch_moves s s' w worker fresh) hok
  | reset w => exact hby w (reset_moves s s' w) hok
  | check w => exact hby w (check_moves s s' w) hok
  | swapIn w => exact hby w (swapIn_moves s s' w) hok
  | yieldToHold w => exact hby w (yieldToHold_moves s s' w) hok
  | switch w => exact hby w (switch_moves s s' w) hok
  | slice w outcome => exact hby w (fun worker => slice_moves s s' w worker outcome) hok
  | poll w => exact hby w (fun worker => (idle_moves s s' w worker).1) hok
  | wake w drained => exact hby w (fun worker => (idle_moves s s' w worker).2.1 drained) hok
  | quit w => exact hby w (fun worker => (idle_moves s s' w worker).2.2) hok
  | count w => exact hby w (count_moves s s' w) hok
  | test w => exact hby w (test_moves s s' w) hok
  | finish w => exact hby w (finish_moves s s' w) hok

theorem step_cases (s s' : Scheduler κ) (label : SchedulerLabel κ)
    (hstep : s.step label = some s') :
    Outside s s' ∨ ∃ w worker, s.workers[w]? = some worker ∧ Moves s w label worker s' := by
  cases step_change s s' label hstep with
  | create ptr hfresh => exact .inl (create_outside s ptr hfresh)
  | schedule entry => exact .inl (schedule_outside s entry)
  | stop => exact .inl (stop_outside s)
  | move w _ worker worker' write active idle fibers _ hworker hmoved hstopping =>
    exact .inr ⟨w, worker, hworker, worker', write, active, idle, fibers, hmoved⟩

end Sylar.Scheduler
