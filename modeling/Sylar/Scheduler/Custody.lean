import Mathlib.Data.List.Nodup
import Sylar.Scheduler.Tickets

/-! Who has a fiber. When only callbacks are scheduled, every fiber is in the queue once, or
with one worker, or with nobody, and nobody writes the state of a fiber that it does not
have. -/
namespace Sylar

variable {κ : Type}

/-- The fiber of the round that the worker is in, and the branch that it came from. -/
def Pc.current : Pc κ → Option (FiberId × Role)
  | .entering fiber role | .checked fiber role | .switching fiber role | .exec fiber role
  | .leaving fiber role _
  | .returned fiber role _ | .counted fiber role _ | .requeue fiber role _ | .park fiber role _ =>
    some (fiber, role)
  | .polling fiber => some (fiber, .idle)
  | .renewing fiber | .recycle fiber _ | .recycling fiber => some (fiber, .cb)
  | _ => none

def FiberAndThread.own (entry : FiberAndThread κ) : List FiberId :=
  match entry.task with
  | .fiber ptr => [.user ptr]
  | .cb _ => []

def FiberAndThread.isCb (entry : FiberAndThread κ) : Bool :=
  match entry.task with
  | .fiber _ => false
  | .cb _ => true

theorem FiberAndThread.own_of_isCb (entry : FiberAndThread κ) (hcb : entry.isCb = true) :
    entry.own = [] := by
  obtain ⟨task, thread⟩ := entry
  cases task with
  | fiber ptr => cases hcb
  | cb cb => rfl

/-- The entry that a step puts into the queue from outside `run`. -/
def SchedulerLabel.scheduled : SchedulerLabel κ → Option (FiberAndThread κ)
  | .schedule entry => some entry
  | _ => none

/-- The fiber from the queue that the worker has; a callback's fiber is its `cb_fiber`. -/
def Pc.own : Pc κ → List FiberId
  | .taken entry => entry.own
  | .entering fiber role | .checked fiber role | .switching fiber role | .exec fiber role
  | .leaving fiber role _
  | .returned fiber role _ | .counted fiber role _ | .requeue fiber role _ | .park fiber role _ =>
    if role = .fiber then [fiber] else []
  | _ => []

def Worker.own (worker : Worker κ) : List FiberId :=
  worker.pc.own ++ worker.cbFiber.toList

/-- An idle fiber is the worker's own, a callback runs in the `cb_fiber`, and all other fibers
are the user's. -/
structure Worker.Shaped (worker : Worker κ) (w : Nat) : Prop where
  idle : ∀ fiber, worker.pc.current = some (fiber, .idle) → fiber = .idle w
  cb : ∀ fiber, worker.pc.current = some (fiber, .cb) → worker.cbFiber = some fiber
  user : ∀ fiber ∈ worker.own, ∃ ptr, fiber = .user ptr

theorem Worker.Shaped.mem_own (worker : Worker κ) (w : Nat) (hshaped : worker.Shaped w)
    (fiber : FiberId) (role : Role) (hcurrent : worker.pc.current = some (fiber, role))
    (hrole : role ≠ .idle) : fiber ∈ worker.own := by
  cases role with
  | idle => exact absurd rfl hrole
  | cb =>
    apply List.mem_append_right
    rw [hshaped.cb fiber hcurrent]
    exact List.mem_singleton_self fiber
  | fiber =>
    apply List.mem_append_left
    revert hcurrent
    cases worker.pc <;> simp_all [Pc.current, Pc.own]

namespace Scheduler

theorem Move.shaped (s : Scheduler κ) (w : Nat) (label : SchedulerLabel κ)
    (worker worker' : Worker κ) (write : Option (FiberId × FiberState)) (active idle : Int)
    (fibers : List (FiberAndThread κ))
    (hrow : Move s w label worker worker' write active idle fibers)
    (hshaped : worker.Shaped w) : worker'.Shaped w := by
  obtain ⟨hidle, hcb, huser⟩ := hshaped
  cases hrow with
  | pickTask cb entry left hscan =>
    refine ⟨by simp [Pc.current], by simp [Pc.current], ?_⟩
    intro fiber hfiber
    simp only [Worker.own, Pc.own, FiberAndThread.own, List.mem_append] at hfiber
    rcases hfiber with htask | hkept
    · split at htask
      · rename_i ptr _
        exact ⟨ptr, List.mem_singleton.mp htask⟩
      · cases htask
    · exact huser fiber (List.mem_append_right _ hkept)
  | _ =>
    constructor <;>
      simp_all [Pc.current, Worker.own, Pc.own, FiberAndThread.own, keptFiber]

theorem scan_perm (s : Scheduler κ) (w : Nat) (entry : FiberAndThread κ)
    (left : List (FiberAndThread κ))
    (hscan : (scanFibers s.state w s.fibers).2 = some (entry, left)) :
    (entry :: left).Perm s.fibers := by
  rw [scanFibers_eq] at hscan
  obtain ⟨index, -, hfound⟩ := Option.bind_eq_some_iff.mp hscan
  obtain ⟨found, hentry, heq⟩ := Option.map_eq_some_iff.mp hfound
  cases heq
  obtain ⟨hlt, rfl⟩ := List.getElem?_eq_some_iff.mp hentry
  exact List.getElem_cons_eraseIdx_perm hlt

theorem Move.transfers (s : Scheduler κ) (w : Nat) (label : SchedulerLabel κ)
    (worker worker' : Worker κ) (write : Option (FiberId × FiberState)) (active idle : Int)
    (fibers : List (FiberAndThread κ))
    (hrow : Move s w label worker worker' write active idle fibers)
    (hshaped : worker.Shaped w) :
    ∃ fresh : List FiberId, fresh.Nodup ∧
      (∀ fiber ∈ fresh, s.state fiber = none ∧ ∃ state, write = some (fiber, state)) ∧
      (fibers.flatMap FiberAndThread.own ++ worker'.own).Subperm
        (fresh ++ (s.fibers.flatMap FiberAndThread.own ++ worker.own)) := by
  have hkeep : ∀ kept : List FiberId, kept.Sublist worker.own →
      ∃ fresh : List FiberId, fresh.Nodup ∧
        (∀ fiber ∈ fresh, s.state fiber = none ∧ ∃ state, write = some (fiber, state)) ∧
        (s.fibers.flatMap FiberAndThread.own ++ kept).Subperm
          (fresh ++ (s.fibers.flatMap FiberAndThread.own ++ worker.own)) := by
    intro kept hkept
    exact ⟨[], .nil, by simp, (hkept.append_left _).subperm⟩
  cases hrow with
  | pickTask cb entry left hscan =>
    refine ⟨[], .nil, by simp, List.Perm.subperm ?_⟩
    have hperm := (scan_perm s w entry _ hscan).flatMap_right FiberAndThread.own
    rw [List.flatMap_cons] at hperm
    simp only [Worker.own, Pc.own, List.nil_append]
    rw [← List.append_assoc]
    exact (List.perm_append_comm.trans hperm).append_right _
  | newCb fresh cb thread hnew =>
    refine ⟨[.user fresh], List.nodup_singleton _, by simpa using hnew, List.Perm.subperm ?_⟩
    simp only [Worker.own, Pc.own, FiberAndThread.own, Option.toList, List.append_nil,
      reduceCtorEq, if_false, List.nil_append]
    exact List.perm_append_comm
  | requeue ptr role outcome cb =>
    refine ⟨[], .nil, by simp, List.Perm.subperm ?_⟩
    cases role with
    | idle => exact absurd (hshaped.idle (.user ptr) rfl) (by simp)
    | cb =>
      have hcb := hshaped.cb (.user ptr) rfl
      dsimp only at hcb
      subst hcb
      simp [Worker.own, Pc.own, FiberAndThread.own, keptFiber]
    | fiber => simp [Worker.own, Pc.own, FiberAndThread.own, keptFiber]
  | park fiber role outcome cb =>
    apply hkeep
    cases role <;> simp [Worker.own, Pc.own, keptFiber]
  | testDone fiber role outcome cb hdone hrole =>
    apply hkeep
    cases role <;> simp [Worker.own, Pc.own]
  | _ =>
    apply hkeep
    simp [Worker.own, Pc.own, FiberAndThread.own]

theorem Move.writes (s : Scheduler κ) (w : Nat) (label : SchedulerLabel κ)
    (worker worker' : Worker κ) (write : Option (FiberId × FiberState)) (active idle : Int)
    (fibers : List (FiberAndThread κ))
    (hrow : Move s w label worker worker' write active idle fibers)
    (hshaped : worker.Shaped w) (fiber : FiberId) (state : FiberState)
    (hwrite : write = some (fiber, state)) :
    fiber ∈ worker.own ∨ fiber = .idle w ∨
      (∃ ptr, fiber = .user ptr) ∧ s.state fiber = none := by
  have hcurrent : ∀ role, worker.pc.current = some (fiber, role) →
      fiber ∈ worker.own ∨ fiber = .idle w := by
    intro role hpc
    by_cases hrole : role = .idle
    · subst hrole
      exact .inr (hshaped.idle fiber hpc)
    · exact .inl (hshaped.mem_own worker w fiber role hpc hrole)
  rw [← or_assoc]
  cases hrow with
  | newCb fresh cb thread hnew =>
    cases hwrite
    exact .inr ⟨⟨fresh, rfl⟩, hnew⟩
  | renew f cb =>
    cases hwrite
    exact .inl (hcurrent .cb rfl)
  | swapIn f role cb =>
    cases hwrite
    exact .inl (hcurrent role rfl)
  | yieldToHold f role cb =>
    cases hwrite
    exact .inl (hcurrent role rfl)
  | slice f role cb outcome st hrole hwritten =>
    cases hwrite
    exact .inl (hcurrent role rfl)
  | quit f cb hstopping =>
    cases hwrite
    exact .inl (hcurrent .idle rfl)
  | park f role outcome cb =>
    cases hwrite
    exact .inl (hcurrent role rfl)
  | recycled f cb =>
    cases hwrite
    exact .inl (hcurrent .cb rfl)
  | _ => cases hwrite

theorem Move.enqueues (s : Scheduler κ) (w : Nat) (label : SchedulerLabel κ)
    (worker worker' : Worker κ) (write : Option (FiberId × FiberState)) (active idle : Int)
    (fibers : List (FiberAndThread κ))
    (hrow : Move s w label worker worker' write active idle fibers) (fiber : FiberId)
    (hfiber : fiber ∈ fibers.flatMap FiberAndThread.own) :
    fiber ∈ s.fibers.flatMap FiberAndThread.own ∨
      (∃ role outcome, worker.pc = .requeue fiber role outcome) ∧ write = none := by
  cases hrow with
  | pickTask cb entry left hscan =>
    left
    have hperm := (scan_perm s w entry _ hscan).flatMap_right FiberAndThread.own
    apply hperm.subset
    rw [List.flatMap_cons]
    exact List.mem_append_right _ hfiber
  | requeue ptr role outcome cb =>
    rw [List.flatMap_append, List.mem_append] at hfiber
    apply hfiber.imp_right
    intro hnew
    rw [List.mem_singleton.mp hnew]
    exact ⟨⟨role, outcome, rfl⟩, rfl⟩
  | _ => exact .inl hfiber

structure Custody (s : Scheduler κ) : Prop where
  shaped : ∀ (w : Nat) (worker : Worker κ), s.workers[w]? = some worker → worker.Shaped w
  single : (s.fibers.flatMap FiberAndThread.own ++ s.workers.flatMap Worker.own).Nodup
  known : ∀ fiber ∈ s.fibers.flatMap FiberAndThread.own ++ s.workers.flatMap Worker.own,
    s.state fiber ≠ none
  rests : ∀ fiber ∈ s.fibers.flatMap FiberAndThread.own, s.state fiber ≠ some .exec
  ready : ∀ (w : Nat) (worker : Worker κ) (fiber : FiberId) (role : Role) (outcome : Outcome),
    s.workers[w]? = some worker → worker.pc = .requeue fiber role outcome →
    s.state fiber = some .ready

theorem start_custody (threads : Nat) : Custody (start threads : Scheduler κ) := by
  have hfresh : ∀ (w : Nat) (worker : Worker κ),
      (start threads : Scheduler κ).workers[w]? = some worker → worker = ⟨.scan, none⟩ :=
    fun w worker hworker => (List.mem_replicate.mp (List.mem_of_getElem? hworker)).2
  have hnone : (start threads : Scheduler κ).workers.flatMap Worker.own = [] := by
    rw [List.flatMap_eq_nil_iff]
    intro worker hworker
    rw [(List.mem_replicate.mp hworker).2]
    rfl
  refine ⟨?_, ?_, ?_, ?_, ?_⟩
  · intro w worker hworker
    rw [hfresh w worker hworker]
    exact ⟨by simp [Pc.current], by simp [Pc.current], by simp [Worker.own, Pc.own]⟩
  · rw [hnone]
    exact List.nodup_nil
  · rw [hnone]
    intro fiber hfiber
    cases hfiber
  · intro fiber hfiber
    cases hfiber
  · intro w worker fiber role outcome hworker hpc
    rw [hfresh w worker hworker] at hpc
    cases hpc

theorem own_perm (s : Scheduler κ) (w : Nat) (worker : Worker κ)
    (hworker : s.workers[w]? = some worker) :
    (s.workers.flatMap Worker.own).Perm
      (worker.own ++ (s.workers.eraseIdx w).flatMap Worker.own) := by
  obtain ⟨hlt, rfl⟩ := List.getElem?_eq_some_iff.mp hworker
  exact ((List.getElem_cons_eraseIdx_perm hlt).flatMap_right Worker.own).symm

theorem own_set_perm (s : Scheduler κ) (w : Nat) (worker worker' : Worker κ)
    (hworker : s.workers[w]? = some worker) :
    ((s.workers.set w worker').flatMap Worker.own).Perm
      (worker'.own ++ (s.workers.eraseIdx w).flatMap Worker.own) :=
  (List.set_perm_cons_eraseIdx (List.getElem?_eq_some_iff.mp hworker).1 worker').flatMap_right
    Worker.own

theorem Custody.user (s : Scheduler κ) (hs : Custody s) (fiber : FiberId)
    (hfiber : fiber ∈ s.fibers.flatMap FiberAndThread.own ++ s.workers.flatMap Worker.own) :
    ∃ ptr, fiber = .user ptr := by
  rcases List.mem_append.mp hfiber with hqueue | hheld
  · obtain ⟨entry, -, hown⟩ := List.mem_flatMap.mp hqueue
    unfold FiberAndThread.own at hown
    split at hown
    · rename_i ptr _
      exact ⟨ptr, List.mem_singleton.mp hown⟩
    · cases hown
  · obtain ⟨worker, hworker, hown⟩ := List.mem_flatMap.mp hheld
    obtain ⟨w, hw⟩ := List.mem_iff_getElem?.mp hworker
    exact (hs.shaped w worker hw).user fiber hown

theorem stateAfter_ne_none (state : FiberId → Option FiberState)
    (write : Option (FiberId × FiberState)) (fiber : FiberId) (hfiber : state fiber ≠ none) :
    stateAfter state write fiber ≠ none := by
  cases write with
  | none => exact hfiber
  | some written =>
    unfold stateAfter
    dsimp only
    split
    · exact Option.some_ne_none _
    · exact hfiber

section
variable (s : Scheduler κ) (w : Nat) (label : SchedulerLabel κ) (worker worker' : Worker κ)
  (write : Option (FiberId × FiberState)) (active idle : Int) (fibers : List (FiberAndThread κ))
  (hs : Custody s) (hworker : s.workers[w]? = some worker)
  (hrow : Move s w label worker worker' write active idle fibers)
include hs hworker hrow

theorem Custody.move_subperm :
    ∃ fresh : List FiberId, fresh.Nodup ∧
      (∀ fiber ∈ fresh, s.state fiber = none ∧ ∃ state, write = some (fiber, state)) ∧
      (fibers.flatMap FiberAndThread.own ++ (s.workers.set w worker').flatMap Worker.own).Subperm
        (fresh ++ (s.fibers.flatMap FiberAndThread.own ++ s.workers.flatMap Worker.own)) := by
  obtain ⟨fresh, hnodup, hfresh, hsub⟩ := hrow.transfers s w label worker worker' write active idle
    fibers (hs.shaped w worker hworker)
  refine ⟨fresh, hnodup, hfresh, ?_⟩
  have hafter := (own_set_perm s w worker worker' hworker).append_left
    (fibers.flatMap FiberAndThread.own)
  have hbefore := (own_perm s w worker hworker).append_left
    (s.fibers.flatMap FiberAndThread.own)
  rw [← List.append_assoc] at hafter hbefore
  have hboth := (List.subperm_append_right ((s.workers.eraseIdx w).flatMap Worker.own)).mpr hsub
  rw [List.append_assoc fresh] at hboth
  exact hafter.subperm.trans (hboth.trans (hbefore.symm.append_left fresh).subperm)

theorem Custody.state_kept (fiber : FiberId)
    (hfiber : fiber ∈ s.fibers.flatMap FiberAndThread.own ++
      (s.workers.eraseIdx w).flatMap Worker.own ∨ ∃ other, other ≠ w ∧ fiber = .idle other) :
    stateAfter s.state write fiber = s.state fiber := by
  cases hwrite : write with
  | none => rfl
  | some written =>
    obtain ⟨target, state⟩ := written
    apply if_neg
    intro heq
    subst heq
    have hshaped := hs.shaped w worker hworker
    have hwrites := hrow.writes s w label worker worker' write active idle fibers hshaped fiber
      state hwrite
    rcases hfiber with hmem | ⟨other, hne, rfl⟩
    · have hperm := (own_perm s w worker hworker).append_left
        (s.fibers.flatMap FiberAndThread.own)
      have hsplit := hperm.trans (List.perm_append_comm_assoc _ _ _)
      have hdisjoint := List.disjoint_of_nodup_append (hsplit.nodup_iff.mp hs.single)
      have htotal : fiber ∈ s.fibers.flatMap FiberAndThread.own ++
          s.workers.flatMap Worker.own :=
        hsplit.symm.subset (List.mem_append_right _ hmem)
      rcases hwrites with hown | hidle | ⟨-, hnone⟩
      · exact hdisjoint hown hmem
      · obtain ⟨ptr, huser⟩ := hs.user s fiber htotal
        rw [hidle] at huser
        cases huser
      · exact hs.known fiber htotal hnone
    · rcases hwrites with hown | hidle | ⟨⟨ptr, huser⟩, -⟩
      · obtain ⟨ptr, huser⟩ := hshaped.user _ hown
        cases huser
      · cases hidle
        exact hne rfl
      · cases huser

theorem Custody.requeued (other : Nat) (otherWorker : Worker κ) (hne : other ≠ w)
    (hother : s.workers[other]? = some otherWorker) (fiber : FiberId) (role : Role)
    (outcome : Outcome) (hpc : otherWorker.pc = .requeue fiber role outcome) :
    stateAfter s.state write fiber = s.state fiber := by
  apply hs.state_kept s w label worker worker' write active idle fibers hworker hrow
  have hshaped := hs.shaped other otherWorker hother
  have hmem : otherWorker ∈ s.workers.eraseIdx w :=
    List.mem_eraseIdx_iff_getElem?.mpr ⟨other, hne, hother⟩
  have hcurrent : otherWorker.pc.current = some (fiber, role) := by
    rw [hpc]
    rfl
  by_cases hrole : role = .idle
  · subst hrole
    exact .inr ⟨other, hne, hshaped.idle fiber hcurrent⟩
  · left
    apply List.mem_append_right
    exact List.mem_flatMap.mpr
      ⟨otherWorker, hmem, hshaped.mem_own otherWorker other fiber role hcurrent hrole⟩

theorem Custody.move (s' : Scheduler κ) (hworkers : s'.workers = s.workers.set w worker')
    (hstate : s'.state = stateAfter s.state write) (hfibers : s'.fibers = fibers) : Custody s' := by
  obtain ⟨fresh, hnodup, hfresh, hsub⟩ := hs.move_subperm s w label worker worker' write active
    idle fibers hworker hrow
  have hw := (List.getElem?_eq_some_iff.mp hworker).1
  have hkept := hs.state_kept s w label worker worker' write active idle fibers hworker hrow
  refine ⟨?_, ?_, ?_, ?_, ?_⟩
  · intro other otherWorker hother
    rw [hworkers] at hother
    by_cases heq : other = w
    · subst heq
      rw [List.getElem?_set_self hw] at hother
      cases hother
      exact hrow.shaped s other label worker _ write active idle fibers (hs.shaped other worker hworker)
    · rw [List.getElem?_set_ne (Ne.symm heq)] at hother
      exact hs.shaped other otherWorker hother
  · rw [hworkers, hfibers]
    have htotal : (fresh ++ (s.fibers.flatMap FiberAndThread.own ++
        s.workers.flatMap Worker.own)).Nodup := by
      apply List.Nodup.append hnodup hs.single
      intro fiber hnew hold
      exact hs.known fiber hold (hfresh fiber hnew).1
    obtain ⟨part, hperm, hsublist⟩ := hsub
    exact hperm.nodup (htotal.sublist hsublist)
  · rw [hworkers, hfibers, hstate]
    intro fiber hfiber
    rcases List.mem_append.mp (hsub.subset hfiber) with hnew | hold
    · obtain ⟨-, state, hwrite⟩ := hfresh fiber hnew
      simp [hwrite, stateAfter]
    · exact stateAfter_ne_none s.state write fiber (hs.known fiber hold)
  · rw [hfibers, hstate]
    intro fiber hfiber
    rcases hrow.enqueues s w label worker worker' write active idle fibers fiber hfiber with
      hqueue | ⟨⟨role, outcome, hpc⟩, hnone⟩
    · rw [hkept fiber (.inl (List.mem_append_left _ hqueue))]
      exact hs.rests fiber hqueue
    · rw [hnone, stateAfter, hs.ready w worker fiber role outcome hworker hpc]
      simp
  · rw [hworkers, hstate]
    intro other otherWorker fiber role outcome hother hpc
    by_cases heq : other = w
    · subst heq
      rw [List.getElem?_set_self hw] at hother
      cases hother
      cases hrow with
      | testReady f r o cb hready hrole =>
        cases hpc
        exact hready
      | _ => cases hpc
    · rw [List.getElem?_set_ne (Ne.symm heq)] at hother
      rw [hs.requeued s w label worker worker' write active idle fibers hworker hrow other
        otherWorker heq hother fiber role outcome hpc]
      exact hs.ready other otherWorker fiber role outcome hother hpc

end

theorem Custody.outside (s s' : Scheduler κ) (hs : Custody s) (hout : Outside s s')
    (hqueue : s'.fibers.flatMap FiberAndThread.own = s.fibers.flatMap FiberAndThread.own) :
    Custody s' := by
  have hkept : ∀ fiber, s.state fiber ≠ none → s'.state fiber = s.state fiber := by
    intro fiber hknown
    obtain ⟨state, hstate⟩ := Option.ne_none_iff_exists'.mp hknown
    rw [hstate]
    exact hout.state fiber state hstate
  refine ⟨?_, ?_, ?_, ?_, ?_⟩
  · rw [hout.workers]
    exact hs.shaped
  · rw [hout.workers, hqueue]
    exact hs.single
  · rw [hout.workers, hqueue]
    intro fiber hfiber
    rw [hkept fiber (hs.known fiber hfiber)]
    exact hs.known fiber hfiber
  · rw [hqueue]
    intro fiber hfiber
    rw [hkept fiber (hs.known fiber (List.mem_append_left _ hfiber))]
    exact hs.rests fiber hfiber
  · rw [hout.workers]
    intro w worker fiber role outcome hworker hpc
    exact hout.state fiber .ready (hs.ready w worker fiber role outcome hworker hpc)

def Callbacks (label : SchedulerLabel κ) : Prop :=
  ∀ entry ∈ label.scheduled, entry.isCb = true

theorem step_custody (s s' : Scheduler κ) (label : SchedulerLabel κ) (hs : Custody s)
    (hcallbacks : Callbacks label) (hstep : s.step label = some s') : Custody s' := by
  cases step_change s s' label hstep with
  | create ptr hnone =>
    exact hs.outside s _ (create_outside s ptr hnone) rfl
  | schedule entry =>
    apply hs.outside s _ (schedule_outside s entry)
    simp [entry.own_of_isCb (hcallbacks entry rfl)]
  | stop =>
    apply hs.outside s _ (stop_outside s)
    rw [(repeat_tickle s.workers.length { s with autostop := true, stopping := true }).2.2.1]
  | move w _ worker worker' write active idle fibers _ hworker hmoved hstopping =>
    exact hs.move s w label worker worker' write active idle fibers hworker hmoved.row s'
      hmoved.workers hmoved.state hmoved.fibers

end Scheduler
end Sylar
