import Sylar.Scheduler.Tickets

/-! Whether a task stays on the thread that it was scheduled for. The thread id is in the
queue entry, and `run` puts a task back with `schedule(fiber)`, which has none. -/
namespace Sylar.Tracked

variable {κ : Type}

/-- Every worker in a slice of a task has the ticket of the task, and is the thread that the
task was scheduled for, if there is one. -/
def Affine (t : Tracked κ) : Prop :=
  ∀ (w : Nat) (worker : Worker κ) (fiber : FiberId) (role : Role),
    t.sched.workers[w]? = some worker → worker.pc = .exec fiber role → role ≠ .idle →
    ∃ ticket, t.ticket w = some ticket ∧
      ∀ thread, ticket.job.entry.thread = some thread → thread = w

def putsBack (t : Tracked κ) : SchedulerLabel κ → Option Nat
  | .finish w =>
    match (t.sched.workers[w]?).map Worker.pc with
    | some (.requeue _ _ _) => some w
    | _ => none
  | _ => none

/-- `run` does not put back a task that was scheduled for a thread. -/
def KeepsPins (t : Tracked κ) (label : SchedulerLabel κ) : Prop :=
  ∀ w ∈ t.putsBack label, ∀ ticket ∈ t.ticket w, ticket.job.entry.thread = none

instance KeepsPins.decidable (t : Tracked κ) (label : SchedulerLabel κ) :
    Decidable (t.KeepsPins label) :=
  inferInstanceAs (Decidable (∀ w ∈ t.putsBack label, ∀ ticket ∈ t.ticket w,
    ticket.job.entry.thread = none))

/-- The tickets carry the threads of the entries, and a worker only has tasks that it may
have. -/
structure Pinned (t : Tracked κ) : Prop where
  length : t.held.length = t.sched.workers.length
  queue : List.Forall₂ (fun ticket entry => ticket.job.entry.thread = entry.thread) t.queue
    t.sched.fibers
  held : ∀ (w : Nat) (worker : Worker κ), t.sched.workers[w]? = some worker →
    worker.pc.working = true →
    ∃ ticket, t.ticket w = some ticket ∧
      (ticket.job.entry.thread = none ∨ ticket.job.entry.thread = some w)

theorem Pinned.affine (t : Tracked κ) (hpinned : Pinned t) : Affine t := by
  intro w worker fiber role hworker hpc hrole
  obtain ⟨ticket, hticket, hthread⟩ := hpinned.held w worker hworker (by simp [hpc, Pc.working, hrole])
  refine ⟨ticket, hticket, ?_⟩
  intro thread hsome
  rcases hthread with hnone | hself
  · rw [hnone] at hsome
    cases hsome
  · rw [hself] at hsome
    cases hsome
    rfl

theorem start_pinned (threads : Nat) : Pinned (start threads : Tracked κ) where
  length := by simp [start, Scheduler.start]
  queue := .nil
  held := by
    intro w worker hworker hworking
    rw [(List.mem_replicate.mp (List.mem_of_getElem? hworker)).2] at hworking
    cases hworking

theorem Pinned.held_set (t : Tracked κ) (hpinned : Pinned t) (w : Nat) (worker worker' : Worker κ)
    (hworker : t.sched.workers[w]? = some worker) (ticket : Option (Ticket κ))
    (hticket : worker'.pc.working = true → ∃ found, ticket = some found ∧
      (found.job.entry.thread = none ∨ found.job.entry.thread = some w)) :
    ∀ (other : Nat) (otherWorker : Worker κ),
      (t.sched.workers.set w worker')[other]? = some otherWorker →
      otherWorker.pc.working = true →
      ∃ found, ((t.held.set w ticket)[other]?).join = some found ∧
        (found.job.entry.thread = none ∨ found.job.entry.thread = some other) :=
  forall_ticket_set (fun v worker ticket => worker.pc.working = true →
    ∃ found, ticket = some found ∧
      (found.job.entry.thread = none ∨ found.job.entry.thread = some v))
    t w worker worker' ticket hpinned.length hpinned.held hworker hticket

theorem noted_pinned (t t' : Tracked κ) (w : Nat) (worker worker' : Worker κ)
    (fibers : List (FiberAndThread κ)) (sched : Scheduler κ) (hpinned : Pinned t)
    (hworker : t.sched.workers[w]? = some worker)
    (hkeeps : (∃ fiber role outcome, worker.pc = .requeue fiber role outcome) →
      ∀ ticket ∈ t.ticket w, ticket.job.entry.thread = none)
    (hnoted : Noted t w worker worker' fibers t')
    (hworkers : sched.workers = t.sched.workers.set w worker') (hfibers : sched.fibers = fibers) :
    Pinned { t' with sched := sched } := by
  cases hnoted with
  | taken index entry hscan htaken hentry htake hleft =>
    obtain ⟨ticket, hticket, hthread⟩ :=
      Lib.forall₂_getElem? t.queue t.sched.fibers index entry hpinned.queue hentry
    refine ⟨?_, ?_, ?_⟩
    · simp [hworkers, hpinned.length]
    · rw [hfibers, hleft]
      exact Lib.forall₂_eraseIdx _ _ index hpinned.queue
    · rw [hworkers]
      apply hpinned.held_set t w worker worker' hworker
      intro _
      refine ⟨ticket, hticket, ?_⟩
      rw [hthread]
      exact htake.1
  | putBack ptr role outcome hpc hscan hback =>
    obtain ⟨ticket, hticket, -⟩ := hpinned.held w worker hworker (by
      simp [hpc, Pc.working])
    have hnone := hkeeps ⟨_, role, outcome, hpc⟩ ticket hticket
    refine ⟨?_, ?_, ?_⟩
    · simp [hworkers, hpinned.length]
    · rw [hfibers, hback, hticket]
      exact List.rel_append hpinned.queue (.cons hnone .nil)
    · rw [hworkers]
      apply hpinned.held_set t w worker worker' hworker
      intro hworking
      rw [hscan] at hworking
      cases hworking
  | started fiber role ticket hpc hexec hrole hleft hticket hfresh =>
    refine ⟨?_, ?_, ?_⟩
    · simp [hworkers, hpinned.length]
    · rw [hfibers, hleft]
      exact hpinned.queue
    · rw [hworkers]
      apply hpinned.held_set t w worker worker' hworker
      intro _
      obtain ⟨found, hfound, hthread⟩ := hpinned.held w worker hworker (by
        simp [hpc, Pc.working, hrole])
      rw [hticket] at hfound
      cases hfound
      exact ⟨_, rfl, hthread⟩
  | nothing hleft hworking hbegins hwaiting =>
    refine ⟨?_, ?_, ?_⟩
    · simp [hworkers, hpinned.length]
    · rw [hfibers, hleft]
      exact hpinned.queue
    · rw [hworkers]
      have hset := hpinned.held_set t w worker worker' hworker (t.ticket w)
        (fun hafter => hpinned.held w worker hworker (hworking hafter))
      rw [held_set_ticket] at hset
      exact hset

theorem step_pinned (t : Tracked κ) (label : SchedulerLabel κ) (t' : Tracked κ)
    (hpinned : Pinned t) (hkeeps : t.KeepsPins label) (hstep : t.step label = some t') :
    Pinned t' := by
  obtain ⟨hsched, heq⟩ := step_sched t t' label hstep
  have hchange := Scheduler.step_change t.sched t'.sched label hsched
  rw [heq]
  generalize t'.sched = sched at hchange
  cases hchange with
  | create ptr hnone => exact ⟨hpinned.length, hpinned.queue, hpinned.held⟩
  | schedule entry =>
    refine ⟨?_, ?_, ?_⟩
    · rw [Scheduler.schedule_workers]
      exact hpinned.length
    · rw [Scheduler.schedule_fibers]
      exact List.rel_append hpinned.queue (.cons rfl .nil)
    · rw [Scheduler.schedule_workers]
      exact hpinned.held
  | stop =>
    obtain ⟨hworkers, -, hfibers, -⟩ := Scheduler.repeat_tickle t.sched.workers.length
      { t.sched with autostop := true, stopping := true }
    refine ⟨?_, ?_, ?_⟩
    · rw [hworkers]
      exact hpinned.length
    · rw [hfibers]
      exact hpinned.queue
    · rw [hworkers]
      exact hpinned.held
  | move w _ worker worker' write active idle fibers _ hworker hmoved hstopping =>
    apply noted_pinned t _ w worker worker' fibers _ hpinned hworker _
      (move_noted t w label worker worker' write active idle fibers hworker hmoved.row)
      hmoved.workers hmoved.fibers
    rintro ⟨fiber, role, outcome, hpc⟩
    obtain ⟨pc, cb⟩ := worker
    dsimp only at hpc
    subst hpc
    have hback : t.putsBack label = some w := by
      cases hmoved.row
      simp only [putsBack, hworker, Option.map_some]
    exact hkeeps w hback

/-- In every run in which `run` puts no task back that was scheduled for a thread, every slice
of a task is performed by the thread that the task was scheduled for. -/
theorem affine_of_keepsPins (threads : Nat) (labels : List (SchedulerLabel κ)) (t : Tracked κ)
    (hmeets : Lib.Meets step KeepsPins (start threads) labels)
    (hrun : Lib.run step (start threads) labels = some t) : Affine t :=
  (Lib.run_invariant_of_meets KeepsPins Pinned step_pinned labels (start threads) t
    (start_pinned threads) hmeets hrun).affine

/-- A callback for thread 1 runs there to its end while another one yields and moves from
thread 0 to thread 1. -/
theorem affine_of_keepsPins_two_tasks :
    ∃ t : Tracked Nat, Lib.run step (start 2)
        [.schedule ⟨.cb 7, some 1⟩, .schedule ⟨.cb 8, none⟩, .pick 0, .dispatch 0 5, .check 0,
         .swapIn 0, .switch 0, .pick 1, .dispatch 1 6, .check 1, .swapIn 1, .switch 1,
         .slice 0 .ready, .switch 0,
         .count 0, .test 0, .finish 0, .slice 1 .term, .switch 1, .count 1, .test 1, .finish 1,
         .reset 1,
         .pick 1, .dispatch 1 9, .check 1, .swapIn 1, .switch 1] = some t ∧
      Affine t := by
  refine ⟨_, rfl, ?_⟩
  apply affine_of_keepsPins 2
    [.schedule ⟨.cb 7, some 1⟩, .schedule ⟨.cb 8, none⟩, .pick 0, .dispatch 0 5, .check 0,
     .swapIn 0, .switch 0, .pick 1, .dispatch 1 6, .check 1, .swapIn 1, .switch 1,
     .slice 0 .ready, .switch 0, .count 0,
     .test 0, .finish 0, .slice 1 .term, .switch 1, .count 1, .test 1, .finish 1, .reset 1, .pick 1,
     .dispatch 1 9, .check 1, .swapIn 1, .switch 1]
  · decide
  · rfl

/-- A callback for thread 0 yields once, and thread 1 goes on with it. -/
theorem pinned_task_moves_after_yield :
    ∃ t : Tracked Nat, Lib.run step (start 2)
        [.schedule ⟨.cb 7, some 0⟩, .pick 0, .dispatch 0 5, .check 0, .swapIn 0, .switch 0,
         .slice 0 .ready,
         .switch 0, .count 0, .test 0, .finish 0, .pick 1, .dispatch 1 6, .check 1,
         .swapIn 1, .switch 1] = some t ∧
      t.ticket 1 = some ⟨⟨0, ⟨.cb 7, some 0⟩⟩, true⟩ ∧ ¬ Affine t := by
  refine ⟨_, rfl, rfl, ?_⟩
  intro haffine
  obtain ⟨ticket, hticket, hthread⟩ := haffine 1 _ (.user 5) .fiber rfl rfl (by decide)
  cases hticket
  exact absurd (hthread 0 rfl) (by decide)

end Sylar.Tracked
