import Sylar.Scheduler.Departure

/-! Every callback is started once. A job that is issued is started, or its ticket is with a
worker that is about to start it, or in the queue. -/
namespace Sylar

variable {κ : Type}

def Ticket.fresh (ticket : Ticket κ) : List (Job κ) :=
  if ticket.started then [] else [ticket.job]

namespace Tracked

def heldFresh (held : List (Option (Ticket κ))) : List (Job κ) :=
  held.flatMap fun ticket => ticket.elim [] Ticket.fresh

/-- A worker with a task has its ticket, which is not started exactly as long as the worker is
about to call a callback. -/
structure Kept (pc : Pc κ) (ticket : Option (Ticket κ)) : Prop where
  working : pc.working = true → ∃ found, ticket = some found
  waiting : ∀ found, ticket = some found → (found.started = false ↔ pc.waiting = true)

structure Ledger (t : Tracked κ) : Prop where
  length : t.held.length = t.sched.workers.length
  queue : List.Forall₂ (fun ticket entry => (ticket.started = false → ticket.job.entry = entry) ∧
    (ticket.started = false ↔ entry.isCb = true)) t.queue t.sched.fibers
  kept : ∀ (w : Nat) (worker : Worker κ), t.sched.workers[w]? = some worker →
    Kept worker.pc (t.ticket w)
  ids : t.issued.map Job.id = List.range t.issued.length
  balance : (t.started ++ (heldFresh t.held ++ t.queue.flatMap Ticket.fresh)).Perm t.issued

theorem start_ledger (threads : Nat) : Ledger (start threads : Tracked κ) where
  length := by simp [start, Scheduler.start]
  queue := .nil
  kept := by
    intro w worker hworker
    have hnone : (start threads : Tracked κ).ticket w = none := by
      show ((List.replicate threads (none : Option (Ticket κ)))[w]?).join = none
      rw [List.getElem?_replicate]
      split <;> rfl
    rw [hnone, (List.mem_replicate.mp (List.mem_of_getElem? hworker)).2]
    constructor
    · intro hworking
      cases hworking
    · intro ticket hfound
      cases hfound
  ids := rfl
  balance := by
    have hnone : heldFresh (List.replicate threads (none : Option (Ticket κ))) = [] := by
      rw [heldFresh, List.flatMap_eq_nil_iff]
      intro ticket hticket
      rw [(List.mem_replicate.mp hticket).2]
      rfl
    simp [start, hnone]

theorem heldFresh_set (held : List (Option (Ticket κ))) (w : Nat) (old new : Option (Ticket κ))
    (hold : held[w]? = some old) :
    (old.elim [] Ticket.fresh ++ heldFresh (held.set w new)).Perm
      (new.elim [] Ticket.fresh ++ heldFresh held) :=
  Lib.flatMap_set_perm (fun ticket => ticket.elim [] Ticket.fresh) held w old new hold

section
variable (t : Tracked κ) (w : Nat) (worker worker' : Worker κ)
  (fibers : List (FiberAndThread κ)) (sched : Scheduler κ) (ht : Ledger t)
  (hworker : t.sched.workers[w]? = some worker)
include ht hworker

theorem Ledger.held_some : ∃ ticket, t.held[w]? = some ticket ∧ t.ticket w = ticket := by
  have hw := (List.getElem?_eq_some_iff.mp hworker).1
  rw [← ht.length] at hw
  refine ⟨_, List.getElem?_eq_getElem hw, ?_⟩
  rw [ticket, List.getElem?_eq_getElem hw]
  rfl

theorem Ledger.no_fresh (hpc : worker.pc.waiting = false) (ticket : Ticket κ)
    (hticket : t.ticket w = some ticket) : ticket.started = true := by
  cases hstarted : ticket.started with
  | true => rfl
  | false =>
    rw [((ht.kept w worker hworker).waiting ticket hticket).mp hstarted] at hpc
    cases hpc

theorem Ledger.fresh_nil (hpc : worker.pc.waiting = false) (ticket : Option (Ticket κ))
    (hticket : t.ticket w = ticket) : ticket.elim [] Ticket.fresh = [] := by
  cases ticket with
  | none => rfl
  | some ticket => exact if_pos (ht.no_fresh t w worker hworker hpc ticket hticket)

theorem Ledger.kept_set (new : Option (Ticket κ)) (hnew : Kept worker'.pc new) :
    ∀ (other : Nat) (otherWorker : Worker κ),
      (t.sched.workers.set w worker')[other]? = some otherWorker →
      Kept otherWorker.pc ((t.held.set w new)[other]?).join :=
  forall_ticket_set (fun _ worker ticket => Kept worker.pc ticket) t w worker worker' new ht.length
    ht.kept hworker hnew

theorem Ledger.taken (index : Nat) (entry : FiberAndThread κ) (hscan : worker.pc = .scan)
    (htaken : worker'.pc = .taken entry) (hentry : t.sched.fibers[index]? = some entry)
    (hworkers : sched.workers = t.sched.workers.set w worker')
    (hfibers : sched.fibers = t.sched.fibers.eraseIdx index) :
    Ledger { t with
      sched := sched
      queue := t.queue.eraseIdx index
      held := t.held.set w t.queue[index]? } := by
  obtain ⟨ticket, hticket, hexact⟩ :=
    Lib.forall₂_getElem? t.queue t.sched.fibers index entry ht.queue hentry
  refine ⟨by simp [hworkers, ht.length], ?_, ?_, ht.ids, ?_⟩
  · rw [hfibers]
    exact Lib.forall₂_eraseIdx _ _ index ht.queue
  · rw [hworkers]
    apply ht.kept_set t w worker worker' hworker
    refine ⟨fun _ => ⟨ticket, hticket⟩, ?_⟩
    intro found hfound
    rw [hticket] at hfound
    cases hfound
    rw [hexact.2, htaken]
    obtain ⟨task, thread⟩ := entry
    cases task with
    | fiber ptr => exact ⟨fun hcb => (nomatch hcb), fun hcb => nomatch hcb⟩
    | cb cb => exact ⟨fun _ => rfl, fun _ => rfl⟩
  · obtain ⟨old, hold, hjoin⟩ := ht.held_some t w worker hworker
    have hnone := ht.fresh_nil t w worker hworker (by rw [hscan]; rfl) old hjoin
    have hset := heldFresh_set t.held w old t.queue[index]? hold
    rw [hnone, List.nil_append, hticket] at hset
    have hqueue : (ticket :: t.queue.eraseIdx index).Perm t.queue := by
      obtain ⟨hlt, rfl⟩ := List.getElem?_eq_some_iff.mp hticket
      exact List.getElem_cons_eraseIdx_perm hlt
    have hmoved := hqueue.flatMap_right Ticket.fresh
    rw [List.flatMap_cons] at hmoved
    have hboth : (heldFresh (t.held.set w t.queue[index]?) ++
        (t.queue.eraseIdx index).flatMap Ticket.fresh).Perm
          (heldFresh t.held ++ t.queue.flatMap Ticket.fresh) := by
      rw [hticket]
      apply (hset.append_right _).trans
      rw [List.append_assoc]
      apply (List.perm_append_comm_assoc _ _ _).trans
      exact hmoved.append_left _
    exact (hboth.append_left _).trans ht.balance

theorem Ledger.putBack (ptr : Nat) (role : Role) (outcome : Outcome)
    (hpc : worker.pc = .requeue (.user ptr) role outcome) (hscan : worker'.pc = .scan)
    (hworkers : sched.workers = t.sched.workers.set w worker')
    (hfibers : sched.fibers = t.sched.fibers ++ [⟨.fiber ptr, none⟩]) :
    Ledger { t with
      sched := sched
      queue := t.queue ++ (t.ticket w).toList
      held := t.held.set w none } := by
  obtain ⟨ticket, hticket⟩ := (ht.kept w worker hworker).working (by rw [hpc]; rfl)
  have hstarted := ht.no_fresh t w worker hworker (by rw [hpc]; rfl) ticket hticket
  have hnone : ticket.fresh = [] := if_pos hstarted
  refine ⟨by simp [hworkers, ht.length], ?_, ?_, ht.ids, ?_⟩
  · rw [hfibers, hticket]
    apply List.rel_append ht.queue
    refine .cons ?_ .nil
    rw [hstarted]
    exact ⟨fun hfresh => (nomatch hfresh), fun hfresh => (nomatch hfresh), fun hcb => nomatch hcb⟩
  · rw [hworkers]
    apply ht.kept_set t w worker worker' hworker
    refine ⟨?_, fun _ hfound => nomatch hfound⟩
    intro hworking
    rw [hscan] at hworking
    cases hworking
  · obtain ⟨old, hold, hjoin⟩ := ht.held_some t w worker hworker
    rw [hticket] at hjoin
    subst hjoin
    have hset := heldFresh_set t.held w (some ticket) none hold
    simp only [Option.elim_some, hnone, Option.elim_none, List.nil_append] at hset
    have hboth := (hset.append_right (t.queue.flatMap Ticket.fresh)).append_left t.started
    rw [hticket]
    simp only [Option.toList_some, List.flatMap_append, List.flatMap_cons, List.flatMap_nil, hnone,
      List.append_nil]
    exact hboth.trans ht.balance

theorem Ledger.begin (fiber : FiberId) (role : Role) (ticket : Ticket κ)
    (hpc : worker.pc = .switching fiber role) (hexec : worker'.pc = .exec fiber role)
    (hticket : t.ticket w = some ticket) (hbegins : role = .cb ∨ ticket.started = false)
    (hworkers : sched.workers = t.sched.workers.set w worker')
    (hfibers : sched.fibers = t.sched.fibers) :
    Ledger { t with
      sched := sched
      held := t.held.set w (some { ticket with started := true })
      started := t.started ++ [ticket.job] } := by
  have hfresh : ticket.started = false := by
    rcases hbegins with hcb | hfresh
    · rw [(ht.kept w worker hworker).waiting ticket hticket, hpc, hcb]
      rfl
    · exact hfresh
  refine ⟨by simp [hworkers, ht.length], ?_, ?_, ht.ids, ?_⟩
  · rw [hfibers]
    exact ht.queue
  · rw [hworkers]
    apply ht.kept_set t w worker worker' hworker
    refine ⟨fun _ => ⟨_, rfl⟩, ?_⟩
    intro found hfound
    cases hfound
    rw [hexec]
    exact ⟨fun hnot => (nomatch hnot), fun hwaiting => nomatch hwaiting⟩
  · obtain ⟨old, hold, hjoin⟩ := ht.held_some t w worker hworker
    rw [hticket] at hjoin
    subst hjoin
    have hset := heldFresh_set t.held w (some ticket) (some { ticket with started := true }) hold
    have hone : ticket.fresh = [ticket.job] := if_neg (by simp [hfresh])
    simp only [Option.elim_some, hone] at hset
    have hboth := (hset.append_right (t.queue.flatMap Ticket.fresh)).append_left t.started
    rw [List.append_assoc] at hboth ⊢
    exact hboth.trans ht.balance

theorem Ledger.nothing (hworking : worker'.pc.working = true → worker.pc.working = true)
    (hbegins : worker'.pc.waiting = true → worker.pc.waiting = true)
    (hwaiting : worker.pc.waiting = true → worker'.pc.waiting = true ∨ t.ticket w = none)
    (hworkers : sched.workers = t.sched.workers.set w worker')
    (hfibers : sched.fibers = t.sched.fibers) : Ledger { t with sched := sched } := by
  have hkept := ht.kept w worker hworker
  refine ⟨by simp [hworkers, ht.length], ?_, ?_, ht.ids, ht.balance⟩
  · rw [hfibers]
    exact ht.queue
  · have hafter : Kept worker'.pc (t.ticket w) := by
      refine ⟨fun hstill => hkept.working (hworking hstill), ?_⟩
      intro found hfound
      rw [hkept.waiting found hfound]
      refine ⟨?_, hbegins⟩
      intro hbefore
      rcases hwaiting hbefore with hyes | hnone
      · exact hyes
      · rw [hfound] at hnone
        cases hnone
    have hset := ht.kept_set t w worker worker' hworker (t.ticket w) hafter
    rw [hworkers]
    rw [held_set_ticket] at hset
    exact hset

theorem noted_ledger (t' : Tracked κ) (hnoted : Noted t w worker worker' fibers t')
    (hworkers : sched.workers = t.sched.workers.set w worker') (hfibers : sched.fibers = fibers) :
    Ledger { t' with sched := sched } := by
  cases hnoted with
  | taken index entry hscan htaken hentry htake hleft =>
    exact ht.taken t w worker worker' sched hworker index entry hscan htaken hentry hworkers
      (hfibers.trans hleft)
  | putBack ptr role outcome hpc hscan hback =>
    exact ht.putBack t w worker worker' sched hworker ptr role outcome hpc hscan hworkers
      (hfibers.trans hback)
  | started fiber role ticket hpc hexec hrole hleft hticket hfresh =>
    exact ht.begin t w worker worker' sched hworker fiber role ticket hpc hexec hticket hfresh
      hworkers (hfibers.trans hleft)
  | nothing hleft hworking hbegins hwaiting =>
    exact ht.nothing t w worker worker' sched hworker hworking hbegins hwaiting hworkers
      (hfibers.trans hleft)

end

theorem Ledger.scheduled (t : Tracked κ) (ht : Ledger t) (entry : FiberAndThread κ)
    (hcb : entry.isCb = true) :
    Ledger { t.note (.schedule entry) with sched := t.sched.schedule entry } where
  length := by
    rw [Scheduler.schedule_workers]
    exact ht.length
  queue := by
    rw [Scheduler.schedule_fibers]
    exact List.rel_append ht.queue (.cons ⟨fun _ => rfl, fun _ => hcb, fun _ => rfl⟩ .nil)
  kept := by
    rw [Scheduler.schedule_workers]
    exact ht.kept
  ids := by
    simp only [note, List.map_append, List.map_cons, List.map_nil, List.length_append,
      List.length_cons, List.length_nil, List.range_succ, Nat.zero_add, ht.ids]
  balance := by
    simp only [note, List.flatMap_append, ← List.append_assoc]
    apply List.Perm.append_right
    rw [List.append_assoc]
    exact ht.balance

theorem step_ledger (t : Tracked κ) (label : SchedulerLabel κ) (t' : Tracked κ) (ht : Ledger t)
    (hcallbacks : Scheduler.Callbacks label) (hstep : t.step label = some t') : Ledger t' := by
  obtain ⟨hsched, heq⟩ := step_sched t t' label hstep
  have hchange := Scheduler.step_change t.sched t'.sched label hsched
  rw [heq]
  generalize t'.sched = sched at hchange
  cases hchange with
  | create ptr hnone => exact ⟨ht.length, ht.queue, ht.kept, ht.ids, ht.balance⟩
  | schedule entry => exact ht.scheduled t entry (hcallbacks entry rfl)
  | stop =>
    obtain ⟨hworkers, -, hfibers, -⟩ := Scheduler.repeat_tickle t.sched.workers.length
      { t.sched with autostop := true, stopping := true }
    refine ⟨?_, ?_, ?_, ht.ids, ht.balance⟩
    · rw [hworkers]
      exact ht.length
    · rw [hfibers]
      exact ht.queue
    · rw [hworkers]
      exact ht.kept
  | move w _ worker worker' write active idle fibers _ hworker hmoved hstopping =>
    exact noted_ledger t w worker worker' fibers sched ht hworker _
      (move_noted t w label worker worker' write active idle fibers hworker hmoved.row)
      hmoved.workers hmoved.fibers

theorem Ledger.nodup (t : Tracked κ) (ht : Ledger t) : t.issued.Nodup := by
  apply List.Nodup.of_map Job.id
  rw [ht.ids]
  exact List.nodup_range

theorem Ledger.heldFresh_of_left (t : Tracked κ) (ht : Ledger t)
    (hleft : ∀ worker ∈ t.sched.workers, worker.pc = .exited) : heldFresh t.held = [] := by
  rw [heldFresh, List.flatMap_eq_nil_iff]
  intro ticket hmem
  obtain ⟨w, hw, rfl⟩ := List.mem_iff_getElem.mp hmem
  have hworker := List.getElem?_eq_getElem (ht.length ▸ hw)
  apply ht.fresh_nil t w _ hworker
  · rw [hleft _ (List.mem_of_getElem? hworker)]
    rfl
  · rw [ticket, List.getElem?_eq_getElem hw]
    rfl

theorem Ledger.entry_of_fresh (t : Tracked κ) (ht : Ledger t) (job : Job κ)
    (hjob : job ∈ t.queue.flatMap Ticket.fresh) : job.entry ∈ t.sched.fibers := by
  obtain ⟨ticket, hticket, hfresh⟩ := List.mem_flatMap.mp hjob
  unfold Ticket.fresh at hfresh
  split at hfresh
  · cases hfresh
  · rename_i hnot
    obtain ⟨index, hindex⟩ := List.mem_iff_getElem?.mp hticket
    obtain ⟨entry, hentry, hexact⟩ :=
      Lib.forall₂_getElem? _ _ index ticket ht.queue.flip hindex
    rw [List.mem_singleton.mp hfresh, hexact.1 (Bool.eq_false_iff.mpr hnot)]
    exact List.mem_of_getElem? hentry

/-- In every run in which tasks are callbacks, and after `stop()` only tasks schedule, when all
workers are out of `run` the queue has nothing for just any thread, and every callback that
was scheduled for just any thread has been started once. -/
theorem no_unpinned_task_lost [DecidableEq κ] (threads : Nat) (hthreads : 0 < threads)
    (labels : List (SchedulerLabel κ)) (t : Tracked κ)
    (hmeets : Lib.Meets step (fun t label => t.sched.FromTasks label) (start threads) labels)
    (hrun : Lib.run step (start threads) labels = some t)
    (hleft : ∀ worker ∈ t.sched.workers, worker.pc = .exited) :
    (∀ entry ∈ t.sched.fibers, entry.thread ≠ none) ∧
      ∀ job ∈ t.issued, job.entry.thread = none → t.started.count job = 1 := by
  have hboth : Ledger t ∧ t.sched.Departing := by
    apply Lib.run_invariant_of_meets _ (fun t => Ledger t ∧ t.sched.Departing) _ labels
      (start threads) t ⟨start_ledger threads, Scheduler.start_departing threads hthreads⟩ hmeets
      hrun
    rintro t label t' ⟨ht, hs⟩ hfrom hstep
    exact ⟨step_ledger t label t' ht (fun entry hentry => (hfrom entry hentry).1) hstep,
      Scheduler.step_departing t.sched label t'.sched hs hfrom (step_sched t t' label hstep).1⟩
  obtain ⟨ht, hs⟩ := hboth
  have hnothing := hs.nothing_unpinned t.sched hleft
  refine ⟨hnothing, ?_⟩
  intro job hjob hthread
  have hqueue : (t.queue.flatMap Ticket.fresh).count job = 0 := by
    rw [List.count_eq_zero]
    intro hfresh
    exact hnothing job.entry (ht.entry_of_fresh t job hfresh) hthread
  have hbalance := ht.balance.count_eq job
  rw [List.count_eq_one_of_mem (ht.nodup t) hjob, ht.heldFresh_of_left t hleft, List.nil_append,
    List.count_append, hqueue] at hbalance
  exact hbalance

/-- A callback yields once, `stop()` comes, another worker goes on with it and schedules a second
callback, and the workers leave one after the other. -/
def drainRun : List (SchedulerLabel Nat) :=
  [.schedule ⟨.cb 7, none⟩, .pick 0, .dispatch 0 5, .check 0, .swapIn 0, .switch 0, .stop,
   .slice 0 .ready,
   .switch 0, .count 0, .test 0, .finish 0, .pick 1, .dispatch 1 6, .check 1, .swapIn 1, .switch 1,
   .schedule ⟨.cb 8, none⟩, .slice 1 .term, .switch 1, .count 1, .test 1, .pick 1, .dispatch 1 6,
   .check 1, .swapIn 1, .switch 1, .slice 1 .term, .switch 1, .count 1, .test 1, .finish 1,
   .reset 1, .pick 1,
   .dispatch 1 0, .check 1, .swapIn 1, .switch 1, .quit 1, .switch 1, .count 1, .test 1, .pick 1,
   .dispatch 1 0, .pick 0, .dispatch 0 0, .check 0, .swapIn 0, .switch 0, .quit 0, .switch 0,
   .count 0,
   .test 0, .pick 0, .dispatch 0 0]

theorem no_unpinned_task_lost_drain :
    ∃ t : Tracked Nat, Lib.run step (start 2) drainRun = some t ∧ t.issued.length = 2 ∧
      (∀ entry ∈ t.sched.fibers, entry.thread ≠ none) ∧
      ∀ job ∈ t.issued, job.entry.thread = none → t.started.count job = 1 := by
  refine ⟨_, rfl, rfl, ?_⟩
  apply no_unpinned_task_lost 2 (by decide) drainRun
  · decide
  · rfl
  · decide

end Tracked
end Sylar
