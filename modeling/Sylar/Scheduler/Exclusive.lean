import Sylar.Scheduler.Moves

/-! Whether a fiber can run in two workers at once. The only guard is the state
`EXEC`, and nothing holds it between a test and the write behind it. A fiber that
leaves through a write of its own gives it up before the switch; `swapIn` switches
to a fiber, and `reset` and `run` write the state of one, that another worker may
meanwhile run. -/
namespace Sylar

variable {κ : Type}

def Pc.executing : Pc κ → Option FiberId
  | .exec fiber _ | .leaving fiber _ _ | .polling fiber => some fiber
  | _ => none

namespace Scheduler

structure Exclusive (s : Scheduler κ) : Prop where
  single : ∀ (w₁ w₂ : Nat) (worker₁ worker₂ : Worker κ) (fiber : FiberId),
    s.workers[w₁]? = some worker₁ → s.workers[w₂]? = some worker₂ →
    worker₁.pc.executing = some fiber → worker₂.pc.executing = some fiber → w₁ = w₂
  exec : ∀ (w : Nat) (worker : Worker κ) (fiber : FiberId), s.workers[w]? = some worker →
    worker.pc.executing = some fiber → s.state fiber = some .exec

def Elsewhere (s : Scheduler κ) (w : Nat) (fiber : FiberId) : Prop :=
  ∃ (w' : Nat) (worker' : Worker κ), w' ≠ w ∧ s.workers[w']? = some worker' ∧
    worker'.pc.executing = some fiber

/-- No running fiber writes its own state; `swapIn` switches to a fiber that is still
in `EXEC` and runs nowhere else; and behind the assertion of `reset` and the test of
`run` no fiber is written that runs in another worker by then. -/
def KeepsExec (s : Scheduler κ) (label : SchedulerLabel κ) : Prop :=
  match label with
  | .yieldToHold w | .quit w =>
    match (s.workers[w]?).map Worker.pc with
    | some (.exec _ _) => False
    | _ => True
  | .slice w outcome =>
    match (s.workers[w]?).map Worker.pc with
    | some (.exec _ _) => written outcome = none
    | _ => True
  | .switch w =>
    match (s.workers[w]?).map Worker.pc with
    | some (.switching fiber _) => s.state fiber = some .exec ∧ ¬ s.Elsewhere w fiber
    | _ => True
  | .reset w =>
    match (s.workers[w]?).map Worker.pc with
    | some (.renewing fiber) | some (.recycling fiber) => ¬ s.Elsewhere w fiber
    | _ => True
  | .finish w =>
    match (s.workers[w]?).map Worker.pc with
    | some (.park fiber _ _) => ¬ s.Elsewhere w fiber
    | _ => True
  | _ => True

theorem Move.write_free (s : Scheduler κ) (hs : Exclusive s) (w : Nat) (label : SchedulerLabel κ)
    (worker worker' : Worker κ) (write : Option (FiberId × FiberState)) (active idle : Int)
    (fibers : List (FiberAndThread κ))
    (hrow : Move s w label worker worker' write active idle fibers)
    (hworker : s.workers[w]? = some worker) (hkeeps : s.KeepsExec label) (fiber : FiberId)
    (state : FiberState) (hwrite : write = some (fiber, state)) :
    state = .exec ∨ ¬ s.Elsewhere w fiber := by
  have hexec : s.Elsewhere w fiber → s.state fiber = some .exec := by
    intro ⟨other, otherWorker, _, hother, hexecuting⟩
    exact hs.exec other otherWorker fiber hother hexecuting
  cases hrow with
  | swapIn f role cb =>
    cases hwrite
    exact .inl rfl
  | renew f cb | recycled f cb | park f role outcome cb =>
    cases hwrite
    simp only [KeepsExec, hworker] at hkeeps
    exact .inr hkeeps
  | newCb fresh cb thread hnew =>
    cases hwrite
    refine .inr fun helsewhere => ?_
    rw [hexec helsewhere] at hnew
    cases hnew
  | yieldToHold f role cb | quit f cb hstopping =>
    simp only [KeepsExec, hworker] at hkeeps
    exact hkeeps.elim
  | slice f role cb outcome st hrole hwritten =>
    simp only [KeepsExec, hworker] at hkeeps
    exact absurd (hwritten.symm.trans hkeeps) (Option.some_ne_none st)
  | _ => cases hwrite

theorem Move.enters (s : Scheduler κ) (w : Nat) (label : SchedulerLabel κ)
    (worker worker' : Worker κ) (write : Option (FiberId × FiberState)) (active idle : Int)
    (fibers : List (FiberAndThread κ))
    (hrow : Move s w label worker worker' write active idle fibers)
    (hworker : s.workers[w]? = some worker) (hkeeps : s.KeepsExec label) (fiber : FiberId)
    (hexecuting : worker'.pc.executing = some fiber) :
    write = none ∧ (worker.pc.executing = some fiber ∨
      s.state fiber = some .exec ∧ ¬ s.Elsewhere w fiber) := by
  cases hrow with
  | enter f role cb =>
    cases hexecuting
    simp only [KeepsExec, hworker] at hkeeps
    exact ⟨rfl, .inr hkeeps⟩
  | yieldToHold f role cb | quit f cb hstopping =>
    simp only [KeepsExec, hworker] at hkeeps
    exact hkeeps.elim
  | slice f role cb outcome st hrole hwritten =>
    simp only [KeepsExec, hworker] at hkeeps
    exact absurd (hwritten.symm.trans hkeeps) (Option.some_ne_none st)
  | poll f cb => exact ⟨rfl, .inl hexecuting⟩
  | wake f cb drained => exact ⟨rfl, .inl hexecuting⟩
  | _ => cases hexecuting

theorem stateAfter_of_ne (state : FiberId → Option FiberState) (write : Option (FiberId × FiberState))
    (fiber : FiberId) (hfree : ∀ value, write ≠ some (fiber, value)) :
    stateAfter state write fiber = state fiber := by
  cases write with
  | none => rfl
  | some pair =>
    obtain ⟨written, value⟩ := pair
    have hne : fiber ≠ written := by
      rintro rfl
      exact hfree value rfl
    exact if_neg hne

theorem step_exclusive (s : Scheduler κ) (label : SchedulerLabel κ) (s' : Scheduler κ)
    (hs : Exclusive s) (hkeeps : s.KeepsExec label) (hstep : s.step label = some s') :
    Exclusive s' := by
  rcases step_cases s s' label hstep with
    hout | ⟨w, worker, hworker, worker', write, active, idle, fibers, hmoved⟩
  · constructor
    · rw [hout.workers]
      exact hs.single
    · rw [hout.workers]
      intro w worker fiber hworker hexecuting
      exact hout.state fiber .exec (hs.exec w worker fiber hworker hexecuting)
  · have hfree := hmoved.row.write_free s hs w label worker worker' write active idle fibers hworker
      hkeeps
    have henters := hmoved.row.enters s w label worker worker' write active idle fibers hworker
      hkeeps
    have hlt : w < s.workers.length := (List.getElem?_eq_some_iff.mp hworker).1
    -- the worker that moved is alone on its fiber
    have halone : ∀ (other : Nat) (otherWorker : Worker κ) (fiber : FiberId), other ≠ w →
        s.workers[other]? = some otherWorker → otherWorker.pc.executing = some fiber →
        worker'.pc.executing ≠ some fiber := by
      intro other otherWorker fiber hne hother hexecuting hmine
      rcases (henters fiber hmine).2 with hbefore | ⟨_, hnot⟩
      · exact hne (hs.single other w otherWorker worker fiber hother hworker hexecuting hbefore)
      · exact hnot ⟨other, otherWorker, hne, hother, hexecuting⟩
    have hcases : ∀ (other : Nat) (otherWorker : Worker κ), s'.workers[other]? = some otherWorker →
        (other = w ∧ otherWorker = worker') ∨
          (other ≠ w ∧ s.workers[other]? = some otherWorker) := by
      intro other otherWorker hother
      rw [hmoved.workers] at hother
      by_cases heq : w = other
      · subst heq
        rw [List.getElem?_set_self hlt] at hother
        cases hother
        exact .inl ⟨rfl, rfl⟩
      · rw [List.getElem?_set_ne heq] at hother
        exact .inr ⟨fun h => heq h.symm, hother⟩
    constructor
    · intro w₁ w₂ worker₁ worker₂ fiber h₁ h₂ hexecuting₁ hexecuting₂
      rcases hcases w₁ worker₁ h₁ with ⟨rfl, rfl⟩ | ⟨hne₁, hold₁⟩ <;>
        rcases hcases w₂ worker₂ h₂ with ⟨rfl, rfl⟩ | ⟨hne₂, hold₂⟩
      · rfl
      · exact absurd hexecuting₁ (halone w₂ worker₂ fiber hne₂ hold₂ hexecuting₂)
      · exact absurd hexecuting₂ (halone w₁ worker₁ fiber hne₁ hold₁ hexecuting₁)
      · exact hs.single w₁ w₂ worker₁ worker₂ fiber hold₁ hold₂ hexecuting₁ hexecuting₂
    · intro other otherWorker fiber hother hexecuting
      rw [hmoved.state]
      rcases hcases other otherWorker hother with ⟨rfl, rfl⟩ | ⟨hne, hold⟩
      · obtain ⟨hnone, hbefore⟩ := henters fiber hexecuting
        rw [hnone]
        rcases hbefore with hbefore | ⟨hexec, _⟩
        · exact hs.exec other worker fiber hworker hbefore
        · exact hexec
      · have hbefore := hs.exec other otherWorker fiber hold hexecuting
        by_cases hwritten : ∃ value, write = some (fiber, value)
        · obtain ⟨value, hwrite⟩ := hwritten
          rcases hfree fiber value hwrite with rfl | hnot
          · rw [hwrite]
            exact if_pos rfl
          · exact absurd ⟨other, otherWorker, hne, hold, hexecuting⟩ hnot
        · rw [stateAfter_of_ne]
          · exact hbefore
          · exact fun value hwrite => hwritten ⟨value, hwrite⟩

section
variable (s s' : Scheduler κ) (w : Nat) (label : SchedulerLabel κ) (worker worker' : Worker κ)
  (write : Option (FiberId × FiberState)) (active idle : Int) (fibers : List (FiberAndThread κ))
  (hworker : s.workers[w]? = some worker)
  (hmoved : Moved s w label worker worker' write active idle fibers s') (hs : Exclusive s')
  (fiber : FiberId) (state : FiberState) (hwrite : write = some (fiber, state))
include hworker hmoved hs hwrite

theorem Exclusive.exec_of_write (hexecuting : worker'.pc.executing = some fiber) :
    state = .exec := by
  have hlt := (List.getElem?_eq_some_iff.mp hworker).1
  have hexec := hs.exec w worker' fiber (by rw [hmoved.workers, List.getElem?_set_self hlt])
    hexecuting
  rw [hmoved.state, hwrite] at hexec
  simpa [stateAfter] using hexec

omit hworker in
theorem Exclusive.free_of_write (hstate : state ≠ .exec) : ¬ s.Elsewhere w fiber := by
  rintro ⟨other, otherWorker, hne, hother, hexecuting⟩
  have hafter : s'.workers[other]? = some otherWorker := by
    rw [hmoved.workers, List.getElem?_set_ne hne.symm]
    exact hother
  have hexec := hs.exec other otherWorker fiber hafter hexecuting
  rw [hmoved.state, hwrite] at hexec
  exact hstate (by simpa [stateAfter] using hexec)

end

/-- A fiber that is switched to is in `EXEC` and runs nowhere else. -/
theorem Exclusive.of_enter (s s' : Scheduler κ) (w : Nat) (fiber : FiberId) (role : Role)
    (cb : Option FiberId) (hworker : s.workers[w]? = some ⟨.switching fiber role, cb⟩)
    (hworkers : s'.workers = s.workers.set w ⟨.exec fiber role, cb⟩) (hstate : s'.state = s.state)
    (hs : Exclusive s') : s.state fiber = some .exec ∧ ¬ s.Elsewhere w fiber := by
  have hlt := (List.getElem?_eq_some_iff.mp hworker).1
  have hentered : s'.workers[w]? = some ⟨.exec fiber role, cb⟩ := by
    rw [hworkers, List.getElem?_set_self hlt]
  constructor
  · rw [← hstate]
    exact hs.exec w _ fiber hentered rfl
  · rintro ⟨other, otherWorker, hne, hother, hexecuting⟩
    have hafter : s'.workers[other]? = some otherWorker := by
      rw [hworkers, List.getElem?_set_ne hne.symm]
      exact hother
    exact hne (hs.single other w otherWorker _ fiber hafter hentered hexecuting rfl)

/-- Conversely, each of the excluded steps takes `EXEC` from a running fiber, or makes two
workers run on one. -/
theorem keepsExec_of_exclusive (s : Scheduler κ) (label : SchedulerLabel κ) (s' : Scheduler κ)
    (hs : Exclusive s') (hstep : s.step label = some s') : s.KeepsExec label := by
  cases step_change s s' label hstep with
  | create ptr hfresh => trivial
  | schedule entry => trivial
  | stop => trivial
  | move w _ worker worker' write active idle fibers _ hworker hmoved hstopping =>
    have hexec := hs.exec_of_write s s' w label worker worker' write active idle fibers hworker
      hmoved
    have hfree := hs.free_of_write s s' w label worker worker' write active idle fibers hmoved
    cases hmoved.row with
    | yieldToHold f role cb => nomatch hexec f .hold rfl rfl
    | quit f cb hquit => nomatch hexec f .term rfl rfl
    | slice f role cb outcome st hrole hwritten =>
      obtain rfl := hexec f st rfl rfl
      cases outcome <;> cases hwritten
    | swapOut f role cb =>
      simp only [KeepsExec, hworker, Option.map_some]
      rfl
    | enter f role cb =>
      simp only [KeepsExec, hworker, Option.map_some]
      exact hs.of_enter s s' w f role cb hworker hmoved.workers hmoved.state
    | switch f role outcome cb =>
      simp only [KeepsExec, hworker, Option.map_some]
    | renew f cb | recycled f cb =>
      simp only [KeepsExec, hworker, Option.map_some]
      exact hfree f .init rfl (by decide)
    | park f role outcome cb =>
      simp only [KeepsExec, hworker, Option.map_some]
      exact hfree f .hold rfl (by decide)
    | requeue ptr role outcome cb | recycle f outcome cb hreset =>
      simp only [KeepsExec, hworker, Option.map_some]
    | _ => trivial

theorem start_exclusive (threads : Nat) : Exclusive (start threads : Scheduler κ) := by
  have hidle : ∀ (w : Nat) (worker : Worker κ),
      (start threads : Scheduler κ).workers[w]? = some worker → worker.pc.executing = none := by
    intro w worker hworker
    rw [(List.mem_replicate.mp (List.mem_of_getElem? hworker)).2]
    rfl
  constructor
  · intro w₁ w₂ worker₁ worker₂ fiber h₁ h₂ hexecuting
    rw [hidle w₁ worker₁ h₁] at hexecuting
    cases hexecuting
  · intro w worker fiber hworker hexecuting
    rw [hidle w worker hworker] at hexecuting
    cases hexecuting

theorem not_elsewhere (s : Scheduler κ) (w : Nat) (fiber : FiberId)
    (hothers : ∀ worker ∈ s.workers.eraseIdx w, worker.pc.executing ≠ some fiber) :
    ¬ s.Elsewhere w fiber := by
  rintro ⟨other, worker, hne, hother, hexecuting⟩
  exact hothers worker (List.mem_eraseIdx_iff_getElem?.mpr ⟨other, hne, hother⟩) hexecuting

/-- A fiber swaps itself out, is woken before `run` has parked it, and runs on in
the other worker, while the first one goes into its idle fiber. -/
def handoverRun : List (SchedulerLabel Nat) :=
  [.schedule ⟨.cb 7, none⟩, .pick 0, .dispatch 0 1, .check 0, .swapIn 0, .switch 0,
   .slice 0 .swapOut, .schedule ⟨.fiber 1, none⟩, .count 0, .test 0, .finish 0,
   .pick 1, .dispatch 1 0, .check 1, .swapIn 1, .switch 1,
   .pick 0, .dispatch 0 2, .check 0, .swapIn 0, .switch 0]

end Scheduler
end Sylar
