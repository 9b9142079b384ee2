import Sylar.Lib.Slots
import Sylar.Scheduler.Moves

/-! Which call of `schedule()` a slice of execution belongs to.

The queue entry is reset when its task is taken, so the scheduler does not know. Beside it
runs a book that does: every call of `schedule()` issues a job, its ticket goes with the
entry into the queue, with the task to the worker, and back into the queue when `run` puts
the task back. -/
namespace Sylar

structure Job (κ : Type) where
  id : Nat
  entry : FiberAndThread κ
deriving DecidableEq

/-- `started` says that the task has run a slice. -/
structure Ticket (κ : Type) where
  job : Job κ
  started : Bool
deriving DecidableEq

structure Tracked (κ : Type) where
  sched : Scheduler κ
  queue : List (Ticket κ)
  held : List (Option (Ticket κ))
  issued : List (Job κ)
  started : List (Job κ)

def Pc.working {κ : Type} : Pc κ → Bool
  | .taken _ | .renewing _ | .requeue _ _ _ => true
  | .entering _ role | .checked _ role | .switching _ role | .exec _ role | .leaving _ role _
  | .returned _ role _
  | .counted _ role _ | .park _ role _ => decide (role ≠ .idle)
  | _ => false

def Pc.waiting {κ : Type} : Pc κ → Bool
  | .taken ⟨.cb _, _⟩ | .renewing _ => true
  | .entering _ role | .checked _ role | .switching _ role => decide (role = .cb)
  | _ => false

namespace Scheduler
variable {κ : Type}

/-- Where in `m_fibers` the loop of `run` stops. -/
def scanIndex (state : FiberId → Option FiberState) (thread : Nat) :
    List (FiberAndThread κ) → Option Nat
  | [] => none
  | it :: rest =>
    if it.thread.isSome ∧ it.thread ≠ some thread then
      (scanIndex state thread rest).map (· + 1)
    else
      match it.task with
      | .cb _ => some 0
      | .fiber ptr =>
        if state (.user ptr) = some .exec then (scanIndex state thread rest).map (· + 1)
        else some 0

theorem scanFibers_eq (state : FiberId → Option FiberState) (thread : Nat)
    (fibers : List (FiberAndThread κ)) :
    (scanFibers state thread fibers).2 =
      (scanIndex state thread fibers).bind fun index =>
        (fibers[index]?).map fun entry => (entry, fibers.eraseIdx index) := by
  induction fibers with
  | nil => rfl
  | cons it rest ih =>
    have hskip : ((scanFibers state thread rest).2.map fun found => (found.1, it :: found.2)) =
        ((scanIndex state thread rest).map (· + 1)).bind fun index =>
          ((it :: rest)[index]?).map fun entry => (entry, (it :: rest).eraseIdx index) := by
      rw [ih]
      cases scanIndex state thread rest with
      | none => rfl
      | some index =>
        simp only [Option.map_some, Option.bind_some, List.getElem?_cons_succ,
          List.eraseIdx_cons_succ, Option.map_map]
        rfl
    simp only [scanFibers, scanIndex]
    by_cases hother : it.thread.isSome ∧ it.thread ≠ some thread
    · rw [if_pos hother, if_pos hother]
      exact hskip
    · rw [if_neg hother, if_neg hother]
      cases it.task with
      | cb _ => rfl
      | fiber ptr =>
        by_cases hexec : state (.user ptr) = some .exec
        · simp only [if_pos hexec]
          exact hskip
        · simp only [if_neg hexec]
          rfl

/-- The loop may take the entry: it is not meant for another thread, and not a fiber that
runs. -/
def Takeable (state : FiberId → Option FiberState) (thread : Nat) (entry : FiberAndThread κ) :
    Prop :=
  (entry.thread = none ∨ entry.thread = some thread) ∧
    ∀ ptr, entry.task = .fiber ptr → state (.user ptr) ≠ some .exec

theorem scanIndex_takeable (state : FiberId → Option FiberState) (thread index : Nat)
    (fibers : List (FiberAndThread κ)) (hscan : scanIndex state thread fibers = some index) :
    ∃ entry, fibers[index]? = some entry ∧ Takeable state thread entry := by
  induction fibers generalizing index with
  | nil => cases hscan
  | cons it rest ih =>
    have hskip : (scanIndex state thread rest).map (· + 1) = some index →
        ∃ entry, (it :: rest)[index]? = some entry ∧ Takeable state thread entry := by
      intro hmap
      obtain ⟨before, hbefore, rfl⟩ := Option.map_eq_some_iff.mp hmap
      exact ih before hbefore
    simp only [scanIndex] at hscan
    by_cases hother : it.thread.isSome ∧ it.thread ≠ some thread
    · rw [if_pos hother] at hscan
      exact hskip hscan
    · rw [if_neg hother] at hscan
      have hthread : it.thread = none ∨ it.thread = some thread := by
        rw [not_and_or, not_not] at hother
        exact hother.imp_left Option.not_isSome_iff_eq_none.mp
      cases htask : it.task with
      | cb cb =>
        simp only [htask] at hscan
        cases hscan
        refine ⟨it, rfl, hthread, ?_⟩
        intro ptr hptr
        rw [htask] at hptr
        cases hptr
      | fiber ptr =>
        simp only [htask] at hscan
        by_cases hexec : state (.user ptr) = some .exec
        · rw [if_pos hexec] at hscan
          exact hskip hscan
        · rw [if_neg hexec] at hscan
          cases hscan
          refine ⟨it, rfl, hthread, ?_⟩
          intro other hptr
          rw [htask] at hptr
          cases hptr
          exact hexec

theorem scanIndex_none (state : FiberId → Option FiberState) (thread : Nat)
    (fibers : List (FiberAndThread κ)) (hscan : scanIndex state thread fibers = none) :
    ∀ entry ∈ fibers, ¬ Takeable state thread entry := by
  induction fibers with
  | nil =>
    intro entry hentry
    cases hentry
  | cons it rest ih =>
    have hrest : (scanIndex state thread rest).map (· + 1) = none →
        ∀ entry ∈ rest, ¬ Takeable state thread entry := by
      intro hmap
      exact ih (Option.map_eq_none_iff.mp hmap)
    simp only [scanIndex] at hscan
    intro entry hentry htake
    by_cases hother : it.thread.isSome ∧ it.thread ≠ some thread
    · rw [if_pos hother] at hscan
      rcases List.mem_cons.mp hentry with rfl | hmem
      · rcases htake.1 with hnone | hsome
        · rw [hnone] at hother
          exact absurd hother.1 (by simp)
        · exact hother.2 hsome
      · exact hrest hscan entry hmem htake
    · rw [if_neg hother] at hscan
      cases htask : it.task with
      | cb cb =>
        simp only [htask] at hscan
        cases hscan
      | fiber ptr =>
        simp only [htask] at hscan
        by_cases hexec : state (.user ptr) = some .exec
        · rw [if_pos hexec] at hscan
          rcases List.mem_cons.mp hentry with rfl | hmem
          · exact htake.2 ptr htask hexec
          · exact hrest hscan entry hmem htake
        · rw [if_neg hexec] at hscan
          cases hscan

theorem scanIndex_of_nothing (state : FiberId → Option FiberState) (thread : Nat)
    (fibers : List (FiberAndThread κ)) (hscan : (scanFibers state thread fibers).2 = none) :
    scanIndex state thread fibers = none := by
  rw [scanFibers_eq] at hscan
  cases hindex : scanIndex state thread fibers with
  | none => rfl
  | some index =>
    obtain ⟨entry, hentry, -⟩ := scanIndex_takeable _ _ _ _ hindex
    rw [hindex, Option.bind_some, hentry] at hscan
    cases hscan

end Scheduler

namespace Tracked
variable {κ : Type}

def start (threads : Nat) : Tracked κ where
  sched := .start threads
  queue := []
  held := List.replicate threads none
  issued := []
  started := []

def ticket (t : Tracked κ) (w : Nat) : Option (Ticket κ) :=
  (t.held[w]?).join

def note (t : Tracked κ) : SchedulerLabel κ → Tracked κ
  | .schedule entry =>
    let job : Job κ := { id := t.issued.length, entry := entry }
    { t with queue := t.queue ++ [⟨job, false⟩], issued := t.issued ++ [job] }
  | .pick w =>
    match Scheduler.scanIndex t.sched.state w t.sched.fibers with
    | none => t
    | some index =>
      { t with queue := t.queue.eraseIdx index, held := t.held.set w t.queue[index]? }
  | .switch w =>
    match (t.sched.workers[w]?).map Worker.pc, t.ticket w with
    | some (.switching _ role), some ticket =>
      -- A callback is called whenever its fiber is entered from the branch for callbacks.
      if role = .idle ∨ (role = .fiber ∧ ticket.started) then t
      else
        { t with
          held := t.held.set w (some { ticket with started := true })
          started := t.started ++ [ticket.job] }
    | _, _ => t
  | .finish w =>
    match (t.sched.workers[w]?).map Worker.pc with
    | some (.requeue _ _ _) =>
      { t with queue := t.queue ++ (t.ticket w).toList, held := t.held.set w none }
    | _ => t
  | _ => t

def step (t : Tracked κ) (label : SchedulerLabel κ) : Option (Tracked κ) :=
  (t.sched.step label).map fun sched => { t.note label with sched := sched }

theorem step_sched (t t' : Tracked κ) (label : SchedulerLabel κ) (hstep : t.step label = some t') :
    t.sched.step label = some t'.sched ∧ t' = { t.note label with sched := t'.sched } := by
  obtain ⟨sched, hsched, rfl⟩ := Option.map_eq_some_iff.mp hstep
  exact ⟨hsched, rfl⟩

theorem held_set_ticket (t : Tracked κ) (w : Nat) : t.held.set w (t.ticket w) = t.held := by
  by_cases hw : w < t.held.length
  · have hticket : t.ticket w = t.held[w] := by
      rw [ticket, List.getElem?_eq_getElem hw]
      rfl
    rw [hticket, List.set_getElem_self]
  · exact List.set_eq_of_length_le (Nat.le_of_not_lt hw)

/-- What holds of every worker and its ticket still does when one worker has moved, if it
holds of that worker and its new ticket. -/
theorem forall_ticket_set (P : Nat → Worker κ → Option (Ticket κ) → Prop) (t : Tracked κ)
    (w : Nat) (worker worker' : Worker κ) (new : Option (Ticket κ))
    (hlength : t.held.length = t.sched.workers.length)
    (heach : ∀ other otherWorker, t.sched.workers[other]? = some otherWorker →
      P other otherWorker (t.ticket other))
    (hworker : t.sched.workers[w]? = some worker) (hnew : P w worker' new)
    (other : Nat) (otherWorker : Worker κ)
    (hother : (t.sched.workers.set w worker')[other]? = some otherWorker) :
    P other otherWorker ((t.held.set w new)[other]?).join := by
  have hw := (List.getElem?_eq_some_iff.mp hworker).1
  by_cases heq : other = w
  · subst heq
    rw [List.getElem?_set_self hw] at hother
    cases hother
    rw [List.getElem?_set_self (by rw [hlength]; exact hw)]
    exact hnew
  · rw [List.getElem?_set_ne (Ne.symm heq)] at hother
    rw [List.getElem?_set_ne (Ne.symm heq)]
    exact heach other otherWorker hother

/-- The three steps that the book notes of a worker: a task is taken, put back, or started. -/
inductive Noted (t : Tracked κ) (w : Nat) (worker worker' : Worker κ)
    (fibers : List (FiberAndThread κ)) : Tracked κ → Prop where
  | taken (index : Nat) (entry : FiberAndThread κ) : worker.pc = .scan →
    worker'.pc = .taken entry → t.sched.fibers[index]? = some entry →
    Scheduler.Takeable t.sched.state w entry → fibers = t.sched.fibers.eraseIdx index →
    Noted t w worker worker' fibers
      { t with queue := t.queue.eraseIdx index, held := t.held.set w t.queue[index]? }
  | putBack (ptr : Nat) (role : Role) (outcome : Outcome) :
    worker.pc = .requeue (.user ptr) role outcome → worker'.pc = .scan →
    fibers = t.sched.fibers ++ [⟨.fiber ptr, none⟩] →
    Noted t w worker worker' fibers
      { t with queue := t.queue ++ (t.ticket w).toList, held := t.held.set w none }
  | started (fiber : FiberId) (role : Role) (ticket : Ticket κ) :
    worker.pc = .switching fiber role → worker'.pc = .exec fiber role → role ≠ .idle →
    fibers = t.sched.fibers → t.ticket w = some ticket → (role = .cb ∨ ticket.started = false) →
    Noted t w worker worker' fibers
      { t with
        held := t.held.set w (some { ticket with started := true })
        started := t.started ++ [ticket.job] }
  | nothing : fibers = t.sched.fibers →
    (worker'.pc.working = true → worker.pc.working = true) →
    (worker'.pc.waiting = true → worker.pc.waiting = true) →
    (worker.pc.waiting = true → worker'.pc.waiting = true ∨ t.ticket w = none) →
    Noted t w worker worker' fibers t

theorem pick_noted (t : Tracked κ) (w : Nat) (cb : Option FiberId) (entry : FiberAndThread κ)
    (left : List (FiberAndThread κ))
    (hscan : (Scheduler.scanFibers t.sched.state w t.sched.fibers).2 = some (entry, left)) :
    Noted t w ⟨.scan, cb⟩ ⟨.taken entry, cb⟩ left (t.note (.pick w)) := by
  rw [Scheduler.scanFibers_eq] at hscan
  obtain ⟨index, hindex, hfound⟩ := Option.bind_eq_some_iff.mp hscan
  obtain ⟨found, hentry, heq⟩ := Option.map_eq_some_iff.mp hfound
  cases heq
  obtain ⟨other, hother, htake⟩ := Scheduler.scanIndex_takeable _ _ _ _ hindex
  rw [hentry] at hother
  cases hother
  simp only [note, hindex]
  exact .taken index entry rfl rfl hentry htake rfl

theorem enter_noted (t : Tracked κ) (w : Nat) (fiber : FiberId) (role : Role)
    (cb : Option FiberId) (hworker : t.sched.workers[w]? = some ⟨.switching fiber role, cb⟩) :
    Noted t w ⟨.switching fiber role, cb⟩ ⟨.exec fiber role, cb⟩ t.sched.fibers
      (t.note (.switch w)) := by
  simp only [note, hworker, Option.map_some]
  cases hticket : t.ticket w with
  | none => exact .nothing rfl id (fun hwaiting => nomatch hwaiting) fun _ => .inr hticket
  | some ticket =>
    dsimp only
    by_cases hquiet : role = .idle ∨ (role = .fiber ∧ ticket.started = true)
    · rw [if_pos hquiet]
      refine .nothing rfl id (fun hwaiting => nomatch hwaiting) ?_
      intro hwaiting
      rcases hquiet with hidle | ⟨hfiber, -⟩
      · rw [hidle] at hwaiting
        cases hwaiting
      · rw [hfiber] at hwaiting
        cases hwaiting
    · rw [if_neg hquiet]
      refine .started fiber role ticket rfl rfl (fun hidle => hquiet (.inl hidle)) rfl hticket ?_
      cases role with
      | fiber => exact .inr (Bool.eq_false_iff.mpr fun hstarted => hquiet (.inr ⟨rfl, hstarted⟩))
      | cb => exact .inl rfl
      | idle => exact absurd (.inl rfl) hquiet

theorem move_noted (t : Tracked κ) (w : Nat) (label : SchedulerLabel κ) (worker worker' : Worker κ)
    (write : Option (FiberId × FiberState)) (active idle : Int)
    (fibers : List (FiberAndThread κ)) (hworker : t.sched.workers[w]? = some worker)
    (hrow : Scheduler.Move t.sched w label worker worker' write active idle fibers) :
    Noted t w worker worker' fibers (t.note label) := by
  cases hrow with
  | pickTask cb entry _ hscan => exact pick_noted t w cb entry _ hscan
  | pickNothing cb hscan =>
    simp only [note, Scheduler.scanIndex_of_nothing _ _ _ hscan]
    exact .nothing rfl id id fun hwaiting => .inl hwaiting
  | enter fiber role cb => exact enter_noted t w fiber role cb hworker
  | switch fiber role outcome cb =>
    simp only [note, hworker, Option.map_some]
    exact .nothing rfl id (fun hwaiting => nomatch hwaiting) (fun hwaiting => nomatch hwaiting)
  | requeue ptr role outcome cb =>
    simp only [note, hworker, Option.map_some]
    exact .putBack ptr role outcome rfl rfl rfl
  | park fiber role outcome cb =>
    simp only [note, hworker, Option.map_some]
    exact .nothing rfl (fun hworking => nomatch hworking) (fun hwaiting => nomatch hwaiting)
      (fun hwaiting => nomatch hwaiting)
  | recycle fiber outcome cb hreset =>
    simp only [note, hworker, Option.map_some]
    exact .nothing rfl (fun hworking => nomatch hworking) (fun hwaiting => nomatch hwaiting)
      (fun hwaiting => nomatch hwaiting)
  | _ =>
    exact .nothing rfl (by simp_all [Pc.working]) (by simp_all [Pc.waiting])
      (by simp_all [Pc.waiting])

end Tracked
end Sylar
