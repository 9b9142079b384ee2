import Mathlib.Data.List.TakeWhile
import Sylar.Timer.Frame

/-! `listExpiredCb` in several threads. The emptiness test holds the read lock
and the body holds the write lock, so every other critical section may run
between the two. -/
namespace Sylar

/-- `tested thread` is the clock reading of a thread that has seen a non-empty
set and has not entered its body yet. -/
structure Expiry (κ : Type) where
  manager : TimerManager κ
  tested : Nat → Option UInt64
  derefEnd : Bool

namespace Expiry
variable {κ : Type}

inductive Label (κ : Type) where
  | call (label : TimerManager.Call κ)
  | test (thread : Nat) (now : UInt64)
  | body (thread : Nat) (probe : Nat)

def init (now : UInt64) : Expiry κ where
  manager := .new now
  tested := fun _ => none
  derefEnd := false

def setTested (s : Expiry κ) (thread : Nat) (reading : Option UInt64) : Expiry κ :=
  { s with tested := fun t => if t = thread then reading else s.tested t }

/-- Nothing runs on after the undefined dereference. -/
def step (s : Expiry κ) : Label κ → Option (Expiry κ)
  | .call (.listExpiredCb _ _) => none
  | .call label =>
    if s.derefEnd then none
    else (s.manager.step label).map fun manager => { s with manager := manager }
  | .test thread now =>
    if s.derefEnd then none
    else
      match s.tested thread with
      | some _ => none
      | none => if s.manager.timers.isEmpty then some s else some (s.setTested thread (some now))
  | .body thread probe =>
    if s.derefEnd then none
    else
      match s.tested thread with
      | none => none
      | some now =>
        match s.manager.listExpiredLocked now probe with
        | .error _ => some { s.setTested thread none with derefEnd := true }
        | .ok (_, manager) => some { s.setTested thread none with manager := manager }

/-- The body is entered with a timer in the set, or with a rolled over clock. -/
def Entered (s : Expiry κ) : Label κ → Prop
  | .body thread _ =>
    match s.tested thread with
    | none => True
    | some now => s.manager.timers ≠ [] ∨ (s.manager.detectClockRollover now).1 = true
  | _ => True

/-- The step takes the last timer out of the set: it cancels it, or expires
everything there is and re-arms nothing. -/
def Drains (s : Expiry κ) : Label κ → Prop
  | .call (.cancel ptr) => s.manager.timers = [ptr]
  | .body thread _ =>
    match s.tested thread with
    | none => False
    | some now => ∀ ptr ∈ s.manager.timers, ∀ timer, s.manager.object ptr = some timer →
        timer.recurring = false ∧
          ((s.manager.detectClockRollover now).1 = true ∨ timer.next ≤ now)
  | _ => False

/-- No other thread is between its test and its body when the set runs empty. -/
def Unwatched (s : Expiry κ) (label : Label κ) : Prop :=
  s.Drains label → ∀ other,
    (match label with
      | .body thread _ => other ≠ thread
      | _ => True) → s.tested other = none

theorem step_stuck (s : Expiry κ) (label : Label κ) (hfault : s.derefEnd = true) :
    s.step label = none := by
  cases label with
  | call label => cases label <;> simp [step, hfault]
  | test thread now => simp [step, hfault]
  | body thread probe => simp [step, hfault]

theorem step_call (s s' : Expiry κ) (label : TimerManager.Call κ)
    (hstep : s.step (.call label) = some s') :
    (∀ now probe, label ≠ .listExpiredCb now probe) ∧ s.manager.call label = .ok s'.manager ∧
      s' = { s with manager := s'.manager } := by
  have hnot : ∀ now probe, label ≠ .listExpiredCb now probe := by
    rintro now probe rfl
    simp [step] at hstep
  have hshape : s.step (.call label) = if s.derefEnd then none
      else (s.manager.step label).map fun manager => { s with manager := manager } := by
    cases label with
    | listExpiredCb now probe => exact absurd rfl (hnot now probe)
    | _ => rfl
  rw [hshape] at hstep
  split at hstep
  · cases hstep
  · obtain ⟨manager, hmanager, rfl⟩ := Option.map_eq_some_iff.mp hstep
    exact ⟨hnot, Lib.ok_of_toOption _ _ hmanager, rfl⟩

theorem step_test (s s' : Expiry κ) (thread : Nat) (now : UInt64)
    (hstep : s.step (.test thread now) = some s') :
    s' = s ∨ s.manager.timers ≠ [] ∧ s' = s.setTested thread (some now) := by
  simp only [step] at hstep
  split at hstep
  · cases hstep
  · split at hstep
    · cases hstep
    · split at hstep
      · cases hstep
        exact .inl rfl
      · rename_i hnonempty
        cases hstep
        rw [List.isEmpty_iff] at hnonempty
        exact .inr ⟨hnonempty, rfl⟩

theorem step_body (s s' : Expiry κ) (thread probe : Nat)
    (hstep : s.step (.body thread probe) = some s') :
    ∃ now, s.tested thread = some now ∧
      ((∃ fault, s.manager.listExpiredLocked now probe = .error fault ∧
          s' = { s.setTested thread none with derefEnd := true }) ∨
        ∃ cbs manager, s.manager.listExpiredLocked now probe = .ok (cbs, manager) ∧
          s' = { s.setTested thread none with manager := manager }) := by
  simp only [step] at hstep
  split at hstep
  · cases hstep
  · split at hstep
    · cases hstep
    · rename_i now htested
      refine ⟨now, htested, ?_⟩
      cases hbody : s.manager.listExpiredLocked now probe with
      | error fault =>
        simp only [hbody] at hstep
        exact .inl ⟨fault, rfl, (Option.some.inj hstep).symm⟩
      | ok pair =>
        simp only [hbody] at hstep
        exact .inr ⟨pair.1, pair.2, rfl, (Option.some.inj hstep).symm⟩

theorem step_derefEnd (s s' : Expiry κ) (label : Label κ) (hclean : s.derefEnd = false)
    (hstep : s.step label = some s') : s'.derefEnd = false ↔ s.Entered label := by
  cases label with
  | call label =>
    have hframe := (step_call s s' label hstep).2.2
    rw [hframe]
    simp [Entered, hclean]
  | test thread now =>
    rcases step_test s s' thread now hstep with rfl | ⟨_, rfl⟩
    · simp [Entered, hclean]
    · simp [Entered, setTested, hclean]
  | body thread probe =>
    obtain ⟨now, htested, hcases⟩ := step_body s s' thread probe hstep
    have herror := TimerManager.listExpiredLocked_error_iff s.manager now probe .derefEnd
    simp only [Entered, htested]
    rcases hcases with ⟨fault, hfault, rfl⟩ | ⟨cbs, manager, hok, rfl⟩
    · have hempty := (TimerManager.listExpiredLocked_error_iff s.manager now probe fault).mp hfault
      simp [hempty.2.1, hempty.2.2]
    · simp only [setTested, hclean, true_iff]
      by_contra hnot
      rw [not_or, not_not, Bool.not_eq_true] at hnot
      rw [hok] at herror
      have hfault := herror.mpr ⟨rfl, hnot⟩
      cases hfault

theorem run_derefEnd (labels : List (Label κ)) (s s' : Expiry κ) (hclean : s.derefEnd = false)
    (hrun : Lib.run step s labels = some s') :
    s'.derefEnd = false ↔ Lib.Meets step Entered s labels := by
  induction labels generalizing s with
  | nil =>
    cases hrun
    simp [Lib.Meets, hclean]
  | cons label labels ih =>
    cases hstep : s.step label with
    | none =>
      simp only [Lib.run, hstep] at hrun
      cases hrun
    | some next =>
      have hnext := step_derefEnd s next label hclean hstep
      simp only [Lib.run, Lib.Meets, hstep] at hrun ⊢
      by_cases hentered : s.Entered label
      · rw [ih next (hnext.mpr hentered) hrun]
        simp [hentered]
      · have hfault : next.derefEnd = true := by
          rw [← Bool.not_eq_false]
          exact fun hfalse => hentered (hnext.mp hfalse)
        cases labels with
        | nil =>
          cases hrun
          simp [hentered, hfault]
        | cons _ _ =>
          simp only [Lib.run, step_stuck next _ hfault] at hrun
          cases hrun

end Expiry

namespace TimerManager
variable {κ : Type}

theorem call_nonempty (m m' : TimerManager κ) (label : Call κ) (hq : Queued m [])
    (hok : m.call label = .ok m') (hnonempty : m.timers ≠ [])
    (hnot : ∀ now probe, label ≠ .listExpiredCb now probe)
    (hlast : ∀ ptr, label = .cancel ptr → m.timers ≠ [ptr]) : m'.timers ≠ [] := by
  have hends := call_ends m label hq
  rw [hok] at hends
  cases hends with
  | same _ _ htimers _ _ =>
    rw [htimers]
    exact hnonempty
  | added ptr ms cb recurring now hfresh =>
    exact List.ne_nil_of_mem ((mem_addTimerLocked _ ptr ptr).mpr (.inl rfl))
  | cancelled ptr timer hobject hin =>
    intro hempty
    change m.timers.erase ptr = [] at hempty
    rcases List.erase_eq_nil_iff.mp hempty with hnil | hone
    · exact hnonempty hnil
    · exact hlast ptr rfl hone
  | refreshed ptr now timer hin hsome =>
    exact List.ne_nil_of_mem ((mem_insert _ ptr ptr).mpr (.inl rfl))
  | moved ptr ms fromNow now next timer hin hsome =>
    exact List.ne_nil_of_mem ((mem_addTimerLocked _ ptr ptr).mpr (.inl rfl))
  | fired now probe due htake => exact absurd rfl (hnot now probe)
  | released ptr habsent => exact hnonempty

theorem next_le_of_mem_expired (m : TimerManager κ) (now : UInt64) (probe ptr : Nat)
    (hin : ptr ∈ m.expired false now probe) : m.next ptr ≤ now := by
  simp only [expired, Bool.false_eq_true, if_false] at hin
  rcases List.mem_append.mp hin with hbefore | hequal
  · have hless := List.mem_takeWhile_imp hbefore
    rw [less_iff] at hless
    by_cases heq : ptr = probe
    · simp [heq] at hless
    · simp only [if_neg heq, if_true] at hless
      rcases hless with hlt | ⟨he, _⟩
      · exact UInt64.le_of_lt hlt
      · exact UInt64.le_of_eq he
  · have he := List.mem_takeWhile_imp hequal
    exact UInt64.le_of_eq (of_decide_eq_true he)

theorem listExpiredLocked_nonempty (m m' : TimerManager κ) (now : UInt64) (probe : Nat)
    (cbs : List (Option κ)) (hq : Queued m [])
    (hok : m.listExpiredLocked now probe = .ok (cbs, m')) (ptr : Nat) (timer : Timer κ)
    (hptr : ptr ∈ m.timers) (hobject : m.object ptr = some timer)
    (hstays : timer.recurring = true ∨
      (m.detectClockRollover now).1 = false ∧ ¬ timer.next ≤ now) : m'.timers ≠ [] := by
  rcases listExpiredLocked_cases m m' now probe cbs hok with ⟨_, rfl⟩ | ⟨due, hdue, htake, hfire⟩
  · exact List.ne_nil_of_mem hptr
  · have hfired := mem_fireAll { m with timers := m.timers.drop due.length, previouseTime := now }
      now due [] ptr (by rw [htake]; exact hq.nodup.sublist (List.take_sublist _ _))
    rw [hfire] at hfired
    apply List.ne_nil_of_mem (hfired.mpr _)
    by_cases hin : ptr ∈ due
    · refine .inr ⟨hin, timer, hobject, ?_⟩
      rcases hstays with hrec | ⟨hroll, hlate⟩
      · exact hrec
      · rw [hdue, hroll] at hin
        have hle := next_le_of_mem_expired m now probe ptr hin
        simp only [next, hobject] at hle
        contradiction
    · exact .inl ((mem_take_or_drop m due ptr htake hptr).resolve_left hin)

end TimerManager

namespace Expiry
variable {κ : Type}

/-- A thread between its test and its body still has a timer to look at. -/
structure Watched (s : Expiry κ) : Prop where
  queued : TimerManager.Queued s.manager []
  clean : s.derefEnd = false
  nonempty : ∀ thread, s.tested thread ≠ none → s.manager.timers ≠ []

theorem step_watched (s : Expiry κ) (label : Label κ) (s' : Expiry κ) (hw : Watched s)
    (hcond : s.Unwatched label) (hstep : s.step label = some s') : Watched s' := by
  cases label with
  | call label =>
    obtain ⟨hnot, hcall, hframe⟩ := step_call s s' label hstep
    constructor
    · exact TimerManager.call_queued s.manager label s'.manager hw.queued hcall
    · rw [hframe]
      exact hw.clean
    · intro thread htested
      rw [hframe] at htested
      apply TimerManager.call_nonempty s.manager s'.manager label hw.queued hcall
        (hw.nonempty thread htested) hnot
      intro ptr hlabel hlast
      subst hlabel
      exact htested (hcond hlast thread trivial)
  | test thread now =>
    rcases step_test s s' thread now hstep with rfl | ⟨hnonempty, rfl⟩
    · exact hw
    · exact ⟨hw.queued, hw.clean, fun _ _ => hnonempty⟩
  | body thread probe =>
    obtain ⟨now, htested, hcases⟩ := step_body s s' thread probe hstep
    have hthere : s.manager.timers ≠ [] := by
      apply hw.nonempty thread
      rw [htested]
      exact Option.some_ne_none now
    rcases hcases with ⟨fault, hfault, rfl⟩ | ⟨cbs, manager, hok, rfl⟩
    · have hempty := (TimerManager.listExpiredLocked_error_iff s.manager now probe fault).mp hfault
      exact absurd hempty.2.1 hthere
    · constructor
      · exact TimerManager.listExpiredLocked_queued s.manager now probe cbs manager hw.queued hok
      · exact hw.clean
      · intro other hother
        have hne : other ≠ thread := by
          intro heq
          simp [setTested, heq] at hother
        have hwaiting : s.tested other ≠ none := by simpa [setTested, hne] using hother
        -- `other` waits, so the body of `thread` leaves a timer behind
        have hkept : ¬ s.Drains (.body thread probe) :=
          fun hdrains => hwaiting (hcond hdrains other hne)
        simp only [Drains, htested] at hkept
        push Not at hkept
        obtain ⟨ptr, hptr, timer, hobject, hstays⟩ := hkept
        apply TimerManager.listExpiredLocked_nonempty s.manager manager now probe cbs hw.queued hok
          ptr timer hptr hobject
        cases hrec : timer.recurring with
        | true => exact .inl rfl
        | false =>
          have hlate := hstays hrec
          exact .inr ⟨Bool.eq_false_iff.mpr hlate.1, hlate.2⟩

/-- `begin()` is dereferenced only when the set is not empty if and only if every
body is entered with a timer in the set or a rolled over clock, and for that it
is enough that the last timer never leaves the set while a thread waits between
its test and its body. -/
theorem listExpiredCb_never_derefs_empty (now : UInt64) (labels : List (Label κ)) (s : Expiry κ)
    (hrun : Lib.run step (init now) labels = some s) :
    (s.derefEnd = false ↔ Lib.Meets step Entered (init now) labels) ∧
      (Lib.Meets step Unwatched (init now) labels → s.derefEnd = false) := by
  constructor
  · exact run_derefEnd labels (init now) s rfl hrun
  · intro hmeets
    have hinit : Watched (init now : Expiry κ) :=
      ⟨TimerManager.new_queued now, rfl, fun thread htested => absurd rfl htested⟩
    have hwatched := Lib.run_invariant_of_meets Unwatched Watched step_watched labels
      (init now) s hinit hmeets hrun
    exact hwatched.clean

/-- Two threads see the same recurring timer; each re-arms it for the other. -/
theorem listExpiredCb_never_derefs_empty_recurring :
    ∃ s : Expiry Nat,
      Lib.run step (init 1000) [.call (.addTimer 8 5 0 true 1000), .test 0 1005, .test 1 1010,
        .body 1 12, .body 0 16] = some s ∧ s.derefEnd = false := by
  obtain ⟨s, hrun⟩ : ∃ s : Expiry Nat,
      Lib.run step (init 1000) [.call (.addTimer 8 5 0 true 1000), .test 0 1005, .test 1 1010,
        .body 1 12, .body 0 16] = some s :=
    Option.isSome_iff_exists.mp (by decide)
  refine ⟨s, hrun, (listExpiredCb_never_derefs_empty 1000 _ s hrun).1.mpr ?_⟩
  refine ⟨trivial, trivial, trivial, ?_, ?_, trivial⟩
  · exact .inl (by decide)
  · exact .inl (by decide)

/-- One timer, cancelled between the test and the body of thread 0. -/
theorem listExpiredCb_derefs_empty_after_cancel :
    (Lib.run step (init 1000 : Expiry Nat) [.call (.addTimer 8 5 0 false 1000), .test 0 1001,
      .call (.cancel 8), .body 0 12]).map derefEnd = some true := by
  decide

end Expiry
end Sylar
