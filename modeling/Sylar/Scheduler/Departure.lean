import Sylar.Scheduler.Custody

/-! That the last worker to leave `run` leaves no task behind that it could have taken. A
worker leaves on its second look at an empty queue: its idle fiber has seen `stopping()`, and
the scan after that has found nothing. Between its last scan and its exit another worker may
put a task into the queue, and that one looks again. -/
namespace Sylar

variable {κ : Type}

def Pc.inTask : Pc κ → Bool
  | .exec _ role => decide (role ≠ .idle)
  | _ => false

namespace Scheduler

/-- Tasks are callbacks, and after `stop()` only running tasks schedule them. -/
def FromTasks (s : Scheduler κ) (label : SchedulerLabel κ) : Prop :=
  ∀ entry ∈ label.scheduled, entry.isCb = true ∧
    (s.stopping = true → ∃ worker ∈ s.workers, worker.pc.inTask = true)

instance FromTasks.decidable (s : Scheduler κ) (label : SchedulerLabel κ) :
    Decidable (s.FromTasks label) :=
  inferInstanceAs (Decidable (∀ entry ∈ label.scheduled, entry.isCb = true ∧
    (s.stopping = true → ∃ worker ∈ s.workers, worker.pc.inTask = true)))

/-- The worker is out of `run`, or past its last scan. -/
def Left (s : Scheduler κ) (w : Nat) (worker : Worker κ) : Prop :=
  worker.pc = .exited ∨ (worker.pc = .nothing ∧ s.state (.idle w) = some .term)

def Manned (s : Scheduler κ) : Prop :=
  ∃ (w : Nat) (worker : Worker κ), s.workers[w]? = some worker ∧ ¬ s.Left w worker

structure Departing (s : Scheduler κ) : Prop where
  custody : Custody s
  crew : 0 < s.workers.length
  stopped : ∀ w, s.state (.idle w) = some .term → s.stopping = true
  gone : ∀ (w : Nat) (worker : Worker κ), s.workers[w]? = some worker → worker.pc = .exited →
    s.state (.idle w) = some .term
  manned : ∀ entry ∈ s.fibers, entry.thread = none → s.Manned

theorem start_departing (threads : Nat) (hthreads : 0 < threads) :
    Departing (start threads : Scheduler κ) where
  custody := start_custody threads
  crew := by simpa [start] using hthreads
  stopped := by
    intro w hterm
    cases hterm
  gone := by
    intro w worker hworker hpc
    rw [(List.mem_replicate.mp (List.mem_of_getElem? hworker)).2] at hpc
    cases hpc
  manned := by
    intro entry hentry
    cases hentry

theorem Departing.manned_before_stop (s : Scheduler κ) (hs : Departing s)
    (hstopping : s.stopping = false) : s.Manned := by
  have hworker := List.getElem?_eq_getElem hs.crew
  refine ⟨0, _, hworker, ?_⟩
  have hnever : s.state (.idle 0) ≠ some .term := by
    intro hterm
    rw [hs.stopped 0 hterm] at hstopping
    cases hstopping
  rintro (hexited | ⟨-, hterm⟩)
  · exact hnever (hs.gone 0 _ hworker hexited)
  · exact hnever hterm

theorem Move.idle_term (s : Scheduler κ) (w : Nat) (label : SchedulerLabel κ)
    (worker worker' : Worker κ) (write : Option (FiberId × FiberState)) (active idle : Int)
    (fibers : List (FiberAndThread κ))
    (hrow : Move s w label worker worker' write active idle fibers) (hshaped : worker.Shaped w)
    (v : Nat) (hwrite : write = some (.idle v, .term)) : s.stopping = true := by
  cases hrow with
  | quit fiber cb hstopping =>
    simp only [isStopping, Bool.and_eq_true] at hstopping
    exact hstopping.1.1.2
  | slice fiber role cb outcome state hrole hwritten =>
    cases hwrite
    obtain ⟨ptr, huser⟩ := hshaped.user _ (hshaped.mem_own _ w (.idle v) role rfl hrole)
    cases huser
  | _ => cases hwrite

theorem Custody.nothing_left (s : Scheduler κ) (hs : Custody s) (w : Nat)
    (hscan : (scanFibers s.state w s.fibers).2 = none) :
    ∀ entry ∈ s.fibers, entry.thread ≠ none := by
  intro entry hentry hthread
  have hindex : scanIndex s.state w s.fibers = none := scanIndex_of_nothing s.state w s.fibers hscan
  apply scanIndex_none s.state w s.fibers hindex entry hentry
  refine ⟨.inl hthread, ?_⟩
  intro ptr htask
  apply hs.rests
  apply List.mem_flatMap.mpr
  refine ⟨entry, hentry, ?_⟩
  rw [FiberAndThread.own, htask]
  exact List.mem_singleton_self _

section
variable (s s' : Scheduler κ) (w : Nat) (label : SchedulerLabel κ) (worker worker' : Worker κ)
  (write : Option (FiberId × FiberState)) (active idle : Int) (fibers : List (FiberAndThread κ))
  (hs : Departing s) (hworker : s.workers[w]? = some worker)
  (hmoved : Moved s w label worker worker' write active idle fibers s')
include hs hworker hmoved

theorem Departing.idle_kept (other : Nat) (hne : other ≠ w) :
    s'.state (.idle other) = s.state (.idle other) := by
  rw [hmoved.state]
  exact hs.custody.state_kept s w label worker worker' write active idle fibers hworker hmoved.row
    _ (.inr ⟨other, hne, rfl⟩)

theorem Departing.manned_other (other : Nat) (otherWorker : Worker κ) (hne : other ≠ w)
    (hother : s.workers[other]? = some otherWorker) (hstays : ¬ s.Left other otherWorker) :
    s'.Manned := by
  refine ⟨other, otherWorker, ?_, ?_⟩
  · rw [hmoved.workers, List.getElem?_set_ne (Ne.symm hne)]
    exact hother
  · rw [Left, hs.idle_kept s s' w label worker worker' write active idle fibers hworker hmoved
      other hne]
    exact hstays

theorem Departing.manned_move (entry : FiberAndThread κ) (hentry : entry ∈ s'.fibers)
    (hthread : entry.thread = none) : s'.Manned := by
  have hw := (List.getElem?_eq_some_iff.mp hworker).1
  have hself : s'.workers[w]? = some worker' := by
    rw [hmoved.workers]
    exact List.getElem?_set_self hw
  by_cases hleft : s'.Left w worker'
  · rw [hmoved.fibers] at hentry
    have hmove := hs.manned_other s s' w label worker worker' write active idle fibers hworker hmoved
    cases hmoved.row with
    | pickNothing cb hscan =>
      exact absurd hthread (hs.custody.nothing_left s w hscan entry hentry)
    | exit fresh cb hterm =>
      obtain ⟨other, otherWorker, hother, hstays⟩ := hs.manned entry hentry hthread
      have hne : other ≠ w := by
        intro heq
        subst heq
        rw [hworker] at hother
        cases hother
        exact hstays (.inr ⟨rfl, hterm⟩)
      exact hmove other otherWorker hne hother hstays
    | _ =>
      rcases hleft with hexited | ⟨hnothing, -⟩
      · cases hexited
      · cases hnothing
  · exact ⟨w, worker', hself, hleft⟩

theorem Departing.move (hstopping : s'.stopping = s.stopping) : Departing s' where
  custody := hs.custody.move s w label worker worker' write active idle fibers hworker hmoved.row s'
    hmoved.workers hmoved.state hmoved.fibers
  crew := by
    rw [hmoved.workers, List.length_set]
    exact hs.crew
  stopped := by
    intro v hterm
    rw [hstopping]
    rw [hmoved.state] at hterm
    rcases stateAfter_eq_some s.state write _ _ hterm with hwrite | hbefore
    · exact hmoved.row.idle_term s w label worker worker' write active idle fibers
        (hs.custody.shaped w worker hworker) v hwrite
    · exact hs.stopped v hbefore
  gone := by
    intro v vWorker hv hexited
    by_cases hne : v = w
    · subst hne
      have hw := (List.getElem?_eq_some_iff.mp hworker).1
      rw [hmoved.workers, List.getElem?_set_self hw] at hv
      cases hv
      rw [hmoved.state]
      cases hmoved.row with
      | exit fresh cb hterm => exact hterm
      | _ => cases hexited
    · rw [hs.idle_kept s s' w label worker worker' write active idle fibers hworker hmoved v hne]
      rw [hmoved.workers, List.getElem?_set_ne (Ne.symm hne)] at hv
      exact hs.gone v vWorker hv hexited
  manned := hs.manned_move s s' w label worker worker' write active idle fibers hworker hmoved

end

theorem repeat_tickle_stopping (n : Nat) (s : Scheduler κ) :
    (Nat.repeat tickle n s).stopping = s.stopping := by
  induction n with
  | zero => rfl
  | succ n ih => simpa [Nat.repeat] using ih

theorem Departing.outside (s s' : Scheduler κ) (hs : Departing s) (hcustody : Custody s')
    (hworkers : s'.workers = s.workers) (hidle : ∀ w, s'.state (.idle w) = s.state (.idle w))
    (hstopping : s.stopping = true → s'.stopping = true)
    (hmanned : ∀ entry ∈ s'.fibers, entry.thread = none → s.Manned) : Departing s' where
  custody := hcustody
  crew := by
    rw [hworkers]
    exact hs.crew
  stopped := by
    intro w hterm
    rw [hidle w] at hterm
    exact hstopping (hs.stopped w hterm)
  gone := by
    intro w worker hworker hexited
    rw [hworkers] at hworker
    rw [hidle w]
    exact hs.gone w worker hworker hexited
  manned := by
    intro entry hentry hthread
    obtain ⟨w, worker, hworker, hstays⟩ := hmanned entry hentry hthread
    refine ⟨w, worker, by rw [hworkers]; exact hworker, ?_⟩
    rw [Left, hidle w]
    exact hstays

theorem manned_of_inTask (s : Scheduler κ) (worker : Worker κ) (hworker : worker ∈ s.workers)
    (htask : worker.pc.inTask = true) : s.Manned := by
  obtain ⟨w, hw⟩ := List.mem_iff_getElem?.mp hworker
  refine ⟨w, worker, hw, ?_⟩
  rintro (hexited | ⟨hnothing, -⟩)
  · rw [hexited] at htask
    cases htask
  · rw [hnothing] at htask
    cases htask

theorem step_departing (s : Scheduler κ) (label : SchedulerLabel κ) (s' : Scheduler κ)
    (hs : Departing s) (hfrom : s.FromTasks label) (hstep : s.step label = some s') :
    Departing s' := by
  have hcustody := step_custody s s' label hs.custody (fun entry hentry => (hfrom entry hentry).1)
    hstep
  cases step_change s s' label hstep with
  | create ptr hnone => exact hs.outside s _ hcustody rfl (fun _ => rfl) id hs.manned
  | schedule entry =>
    apply hs.outside s _ hcustody (by simp) (by simp) (by simp)
    intro _ _ _
    cases hstopping : s.stopping with
    | false => exact hs.manned_before_stop s hstopping
    | true =>
      obtain ⟨worker, hworker, htask⟩ := (hfrom entry rfl).2 hstopping
      exact manned_of_inTask s worker hworker htask
  | stop =>
    obtain ⟨hworkers, hstate, hfibers, -⟩ := repeat_tickle s.workers.length
      { s with autostop := true, stopping := true }
    apply hs.outside s _ hcustody hworkers (by simp [hstate])
    · intro _
      exact repeat_tickle_stopping s.workers.length { s with autostop := true, stopping := true }
    · rw [hfibers]
      exact hs.manned
  | move w _ worker worker' write active idle fibers _ hworker hmoved hstopping =>
    exact hs.move s s' w label worker worker' write active idle fibers hworker hmoved hstopping

theorem Departing.nothing_unpinned (s : Scheduler κ) (hs : Departing s)
    (hleft : ∀ worker ∈ s.workers, worker.pc = .exited) :
    ∀ entry ∈ s.fibers, entry.thread ≠ none := by
  intro entry hentry hthread
  obtain ⟨w, worker, hworker, hstays⟩ := hs.manned entry hentry hthread
  exact hstays (.inl (hleft worker (List.mem_of_getElem? hworker)))

end Scheduler
end Sylar
