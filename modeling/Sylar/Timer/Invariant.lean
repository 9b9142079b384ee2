import Mathlib.Data.List.Nodup
import Sylar.Lib.Run
import Sylar.Timer.Manager

/-! The ordered set of timers stays ordered although its key is a mutable field.

`Queued m pending` is the invariant inside a critical section: `pending` are the
timers that have left the set but still carry their callback. Between critical
sections nothing is pending, and a timer has a callback exactly when the set
holds it. -/
namespace Sylar.TimerManager

variable {κ : Type}

theorem less_comparator (next : Nat → UInt64) : Lib.Comparator (less next) where
  irrefl := by
    intro x
    simp [less]
  trans := by
    intro x y z hxy hyz
    simp only [less, UInt64.lt_iff_toNat_lt] at *
    grind
  total := by
    intro x y hne
    simp only [less, UInt64.lt_iff_toNat_lt]
    grind

theorem less_iff (next : Nat → UInt64) (lhs rhs : Nat) :
    less next lhs rhs = true ↔ next lhs < next rhs ∨ next lhs = next rhs ∧ lhs < rhs := by
  simp only [less, UInt64.lt_iff_toNat_lt, ← UInt64.toNat_inj]
  grind

def Carries (m : TimerManager κ) (ptr : Nat) : Prop :=
  ∃ timer, m.object ptr = some timer ∧ timer.cb.isSome = true

structure Queued (m : TimerManager κ) (pending : List Nat) : Prop where
  sorted : Lib.Sorted (less m.next) m.timers
  live : ∀ ptr, m.Carries ptr ↔ ptr ∈ m.timers ∨ ptr ∈ pending
  apart : ∀ ptr ∈ pending, ptr ∉ m.timers
  distinct : pending.Nodup
  writes : ∀ write ∈ m.writes, write.2 = false

theorem Queued.nodup {m : TimerManager κ} {pending : List Nat} (hq : Queued m pending) :
    m.timers.Nodup :=
  Lib.Sorted.nodup (less_comparator m.next) hq.sorted

@[simp] theorem setObject_timers (m : TimerManager κ) (ptr : Nat) (timer : Timer κ) :
    (m.setObject ptr timer).timers = m.timers := rfl

theorem next_setObject_ne (m : TimerManager κ) (ptr other : Nat) (timer : Timer κ)
    (hne : other ≠ ptr) : (m.setObject ptr timer).next other = m.next other := by
  simp [next, setObject, hne]

theorem carries_setObject (m : TimerManager κ) (ptr other : Nat) (timer : Timer κ) :
    (m.setObject ptr timer).Carries other ↔
      if other = ptr then timer.cb.isSome = true else m.Carries other := by
  unfold Carries setObject
  by_cases heq : other = ptr
  · simp [heq]
  · simp [heq]

theorem sorted_of_next_eq (m m' : TimerManager κ) (hsorted : Lib.Sorted (less m.next) m.timers)
    (hnext : ∀ ptr ∈ m.timers, m'.next ptr = m.next ptr) :
    Lib.Sorted (less m'.next) m.timers := by
  apply Lib.Sorted.congr _ hsorted
  intro x hx y hy
  unfold less
  rw [hnext x hx, hnext y hy]

theorem sorted_setObject (m : TimerManager κ) (ptr : Nat) (timer : Timer κ)
    (hsorted : Lib.Sorted (less m.next) m.timers) (habsent : ptr ∉ m.timers) :
    Lib.Sorted (less (m.setObject ptr timer).next) m.timers := by
  apply sorted_of_next_eq m _ hsorted
  intro other hother
  apply next_setObject_ne
  intro heq
  exact habsent (heq ▸ hother)

namespace Queued
variable {m : TimerManager κ} {pending : List Nat}

theorem fresh (hq : Queued m pending) (ptr : Nat) (timer : Timer κ)
    (hfresh : m.object ptr = none) (hcb : timer.cb.isSome = true) :
    Queued (m.setObject ptr timer) (ptr :: pending) := by
  have hidle : ¬ m.Carries ptr := by
    intro hcarries
    obtain ⟨old, hold, _⟩ := hcarries
    rw [hfresh] at hold
    contradiction
  have hout : ptr ∉ m.timers ∧ ptr ∉ pending := by
    rw [hq.live] at hidle
    exact not_or.mp hidle
  constructor
  · exact sorted_setObject m ptr timer hq.sorted hout.1
  · intro other
    rw [carries_setObject, setObject_timers, List.mem_cons]
    by_cases heq : other = ptr
    · simp [heq, hcb]
    · simp [heq, hq.live other]
  · intro other hother
    rcases List.mem_cons.mp hother with rfl | hmem
    · exact hout.1
    · exact hq.apart other hmem
  · exact List.nodup_cons.mpr ⟨hout.2, hq.distinct⟩
  · exact hq.writes

theorem rewrite (ptr : Nat) (hq : Queued m (ptr :: pending)) (timer : Timer κ) (v : UInt64)
    (hcb : timer.cb.isSome = true) : Queued (m.setNext ptr timer v) (ptr :: pending) := by
  have habsent : ptr ∉ m.timers := hq.apart ptr List.mem_cons_self
  constructor
  · exact sorted_setObject m ptr _ hq.sorted habsent
  · intro other
    change (m.setObject ptr { timer with next := v }).Carries other ↔
      other ∈ m.timers ∨ other ∈ ptr :: pending
    rw [carries_setObject]
    by_cases heq : other = ptr
    · simp [heq, hcb]
    · simp [heq, hq.live other]
  · exact hq.apart
  · exact hq.distinct
  · intro write hwrite
    rcases List.mem_cons.mp hwrite with rfl | hmem
    · exact decide_eq_false habsent
    · exact hq.writes write hmem

theorem insert (ptr : Nat) (hq : Queued m (ptr :: pending)) : Queued (m.insert ptr) pending := by
  have hmem : ∀ other, other ∈ (m.insert ptr).timers ↔ other = ptr ∨ other ∈ m.timers :=
    fun other => Lib.mem_setInsert (less_comparator m.next) ptr other m.timers
  have hdistinct := List.nodup_cons.mp hq.distinct
  constructor
  · exact Lib.sorted_setInsert (less_comparator m.next) ptr m.timers hq.sorted
  · intro other
    rw [hmem]
    change m.Carries other ↔ _
    rw [hq.live, List.mem_cons]
    grind
  · intro other hother hin
    rcases (hmem other).mp hin with rfl | hin'
    · exact hdistinct.1 hother
    · exact hq.apart other (List.mem_cons_of_mem ptr hother) hin'
  · exact hdistinct.2
  · exact hq.writes

theorem clear (ptr : Nat) (hq : Queued m (ptr :: pending)) (timer : Timer κ) :
    Queued (m.setObject ptr { timer with cb := none }) pending := by
  have habsent : ptr ∉ m.timers := hq.apart ptr List.mem_cons_self
  have hdistinct := List.nodup_cons.mp hq.distinct
  constructor
  · exact sorted_setObject m ptr _ hq.sorted habsent
  · intro other
    rw [carries_setObject, setObject_timers]
    by_cases heq : other = ptr
    · simp [heq, habsent, hdistinct.1]
    · simp [heq, hq.live other]
  · intro other hother
    exact hq.apart other (List.mem_cons_of_mem ptr hother)
  · exact hdistinct.2
  · exact hq.writes

theorem erase (hq : Queued m []) (ptr : Nat) (hin : ptr ∈ m.timers) :
    Queued (m.erase ptr) [ptr] := by
  have hmem : ∀ other, other ∈ (m.erase ptr).timers ↔ other ≠ ptr ∧ other ∈ m.timers :=
    fun other => List.Nodup.mem_erase_iff hq.nodup
  constructor
  · exact List.Pairwise.sublist List.erase_sublist hq.sorted
  · intro other
    rw [hmem]
    change m.Carries other ↔ _
    rw [hq.live]
    grind
  · intro other hother
    rw [hmem]
    grind
  · exact List.nodup_singleton ptr
  · exact hq.writes

theorem dropFront (hq : Queued m []) (n : Nat) :
    Queued { m with timers := m.timers.drop n } (m.timers.take n) := by
  have happ : m.timers.take n ++ m.timers.drop n = m.timers := List.take_append_drop n m.timers
  have hnodup : (m.timers.take n ++ m.timers.drop n).Nodup := by
    rw [happ]
    exact hq.nodup
  constructor
  · exact List.Pairwise.sublist (List.drop_sublist n m.timers) hq.sorted
  · intro ptr
    change m.Carries ptr ↔ ptr ∈ m.timers.drop n ∨ ptr ∈ m.timers.take n
    rw [or_comm, ← List.mem_append, happ, hq.live]
    simp
  · intro ptr hptr
    exact (List.disjoint_of_nodup_append hnodup) hptr
  · exact (List.nodup_append.mp hnodup).1
  · exact hq.writes

theorem tickle (hq : Queued m pending) (tickled : Bool) :
    Queued { m with tickled := tickled } pending :=
  ⟨hq.sorted, hq.live, hq.apart, hq.distinct, hq.writes⟩

theorem find_of_carries (hq : Queued m []) (ptr : Nat) (hcarries : m.Carries ptr) :
    ptr ∈ m.timers ∧ m.find ptr = some ptr := by
  have hin : ptr ∈ m.timers := by
    rcases (hq.live ptr).mp hcarries with hin | hpend
    · exact hin
    · cases hpend
  exact ⟨hin, Lib.setFind_of_mem (less_comparator m.next) ptr m.timers hq.sorted hin⟩

end Queued

theorem addTimerLocked_queued (m : TimerManager κ) (ptr : Nat) (pending : List Nat)
    (hq : Queued m (ptr :: pending)) : Queued (m.addTimerLocked ptr).2 pending := by
  have hinsert := hq.insert ptr
  unfold addTimerLocked
  simp only
  split
  · exact hinsert.tickle true
  · exact hinsert

/-- Clearing the callback moves no key, so the set is searched as before. -/
theorem find_clear (m : TimerManager κ) (ptr : Nat) (timer : Timer κ)
    (hobject : m.object ptr = some timer) :
    (m.setObject ptr { timer with cb := none }).find ptr = m.find ptr := by
  have hnext : (m.setObject ptr { timer with cb := none }).next = m.next := by
    funext other
    by_cases heq : other = ptr
    · simp [heq, next, setObject, hobject]
    · exact next_setObject_ne m ptr other _ heq
  unfold find
  rw [hnext, setObject_timers]

theorem fireAll_queued (m : TimerManager κ) (now : UInt64) (pending : List Nat)
    (cbs : List (Option κ)) (hq : Queued m pending) :
    Queued (fireAll m now pending cbs).2 [] := by
  induction pending generalizing m cbs with
  | nil => exact hq
  | cons ptr pending ih =>
    obtain ⟨timer, hobject, hcb⟩ := (hq.live ptr).mpr (.inr List.mem_cons_self)
    simp only [fireAll, hobject]
    apply ih
    split
    · exact (hq.rewrite ptr timer (now + timer.ms) hcb).insert ptr
    · exact hq.clear ptr timer

theorem expired_eq_take (m : TimerManager κ) (rollover : Bool) (now : UInt64) (probe : Nat) :
    m.expired rollover now probe = m.timers.take (m.expired rollover now probe).length := by
  suffices hextends : m.expired rollover now probe <+: m.timers from
    List.prefix_iff_eq_take.mp hextends
  unfold expired
  cases rollover with
  | true => exact List.prefix_rfl
  | false =>
    simp only [Bool.false_eq_true, if_false]
    generalize hbefore : m.timers.takeWhile (fun ptr =>
      less (fun p => if p = probe then now else m.next p) ptr probe) = before
    have hsplit : before ++ m.timers.drop before.length = m.timers := by
      have htake : before = m.timers.take before.length := by
        rw [← hbefore]
        exact List.prefix_iff_eq_take.mp (List.takeWhile_prefix _)
      conv => lhs; arg 1; rw [htake]
      exact List.take_append_drop before.length m.timers
    conv => rhs; rw [← hsplit]
    exact (List.prefix_append_right_inj before).mpr (List.takeWhile_prefix _)

theorem detectClockRollover_queued (m : TimerManager κ) (now : UInt64) (hq : Queued m []) :
    Queued (m.detectClockRollover now).2 [] :=
  ⟨hq.sorted, hq.live, hq.apart, hq.distinct, hq.writes⟩

theorem listExpiredLocked_cases (m m' : TimerManager κ) (now : UInt64) (probe : Nat)
    (cbs : List (Option κ)) (hok : m.listExpiredLocked now probe = .ok (cbs, m')) :
    (cbs = [] ∧ m' = { m with previouseTime := now }) ∨
      ∃ due, due = m.expired (m.detectClockRollover now).1 now probe ∧
        due = m.timers.take due.length ∧
        fireAll { m with timers := m.timers.drop due.length, previouseTime := now } now due [] =
          (cbs, m') := by
  have htake := expired_eq_take m (m.detectClockRollover now).1 now probe
  unfold listExpiredLocked at hok
  simp only at hok
  split at hok
  · exact .inr ⟨_, rfl, htake, Except.ok.inj hok⟩
  · split at hok
    · cases hok
    · split at hok
      · cases hok
        exact .inl ⟨rfl, rfl⟩
      · exact .inr ⟨_, rfl, htake, Except.ok.inj hok⟩

theorem fireAll_due_queued (m : TimerManager κ) (now : UInt64) (due : List Nat)
    (hq : Queued m []) (htake : due = m.timers.take due.length) :
    Queued (fireAll { m with timers := m.timers.drop due.length, previouseTime := now } now due
      []).2 [] := by
  have htaken := (detectClockRollover_queued m now hq).dropFront due.length
  change Queued { m with timers := m.timers.drop due.length, previouseTime := now }
    (m.timers.take due.length) at htaken
  rw [← htake] at htaken
  exact fireAll_queued _ now due [] htaken

theorem listExpiredLocked_queued (m : TimerManager κ) (now : UInt64) (probe : Nat)
    (cbs : List (Option κ)) (m' : TimerManager κ) (hq : Queued m [])
    (hok : m.listExpiredLocked now probe = .ok (cbs, m')) : Queued m' [] := by
  rcases listExpiredLocked_cases m m' now probe cbs hok with ⟨_, rfl⟩ | ⟨due, _, htake, hfire⟩
  · exact detectClockRollover_queued m now hq
  · have hfired := fireAll_due_queued m now due hq htake
    rw [hfire] at hfired
    exact hfired

theorem listExpiredLocked_error_iff (m : TimerManager κ) (now : UInt64) (probe : Nat)
    (fault : TimerFault) :
    m.listExpiredLocked now probe = .error fault ↔
      fault = .derefEnd ∧ m.timers = [] ∧ (m.detectClockRollover now).1 = false := by
  have htimers : (m.detectClockRollover now).2.timers = m.timers := rfl
  unfold listExpiredLocked
  generalize m.detectClockRollover now = detected at htimers ⊢
  obtain ⟨rollover, current⟩ := detected
  simp only at htimers ⊢
  cases rollover with
  | true => simp
  | false =>
    rw [← htimers]
    cases current.timers with
    | nil => simp [eq_comm]
    | cons ptr rest =>
      simp only [Bool.false_eq_true, if_false]
      split <;> simp

/-- One call on a manager, with the clock readings and addresses it meets.
`release` drops the last reference to a timer that the set does not hold. -/
inductive Call (κ : Type) where
  | addTimer (ptr : Nat) (ms : UInt64) (cb : κ) (recurring : Bool) (now : UInt64)
  | cancel (ptr : Nat)
  | refresh (ptr : Nat) (now : UInt64)
  | reset (ptr : Nat) (ms : UInt64) (fromNow : Bool) (now : UInt64)
  | getNextTimer (now : UInt64)
  | listExpiredCb (now : UInt64) (probe : Nat)
  | release (ptr : Nat)

def release (m : TimerManager κ) (ptr : Nat) : Except TimerFault (TimerManager κ) :=
  if ptr ∈ m.timers then .error .badPointer
  else .ok { m with object := fun p => if p = ptr then none else m.object p }

def call (m : TimerManager κ) : Call κ → Except TimerFault (TimerManager κ)
  | .addTimer ptr ms cb recurring now => (m.addTimer ptr ms cb recurring now).map Prod.snd
  | .cancel ptr => (m.cancel ptr).map Prod.snd
  | .refresh ptr now => (m.refresh ptr now).map Prod.snd
  | .reset ptr ms fromNow now => (m.reset ptr ms fromNow now).map Prod.snd
  | .getNextTimer now => .ok (m.getNextTimer now).2
  | .listExpiredCb now probe => (m.listExpiredCb now probe).map Prod.snd
  | .release ptr => m.release ptr

def step (m : TimerManager κ) (label : Call κ) : Option (TimerManager κ) :=
  (m.call label).toOption

inductive Ends (m : TimerManager κ) : Call κ → Except TimerFault (TimerManager κ) → Prop where
  | badPointer (label : Call κ) : Ends m label (.error .badPointer)
  | same (label : Call κ) (m' : TimerManager κ) : m'.timers = m.timers → m'.object = m.object →
    m'.writes = m.writes → Ends m label (.ok m')
  | added (ptr : Nat) (ms : UInt64) (cb : κ) (recurring : Bool) (now : UInt64) :
    m.object ptr = none →
    Ends m (.addTimer ptr ms cb recurring now)
      (.ok ((m.setObject ptr ⟨recurring, ms, now + ms, some cb⟩).addTimerLocked ptr).2)
  | cancelled (ptr : Nat) (timer : Timer κ) : m.object ptr = some timer → ptr ∈ m.timers →
    Ends m (.cancel ptr) (.ok ((m.erase ptr).setObject ptr { timer with cb := none }))
  | refreshed (ptr : Nat) (now : UInt64) (timer : Timer κ) : ptr ∈ m.timers →
    timer.cb.isSome = true →
    Ends m (.refresh ptr now) (.ok (((m.erase ptr).setNext ptr timer (now + timer.ms)).insert ptr))
  | moved (ptr : Nat) (ms : UInt64) (fromNow : Bool) (now next : UInt64) (timer : Timer κ) :
    ptr ∈ m.timers → timer.cb.isSome = true →
    Ends m (.reset ptr ms fromNow now)
      (.ok (((m.erase ptr).setNext ptr timer next).addTimerLocked ptr).2)
  | fired (now : UInt64) (probe : Nat) (due : List Nat) : due = m.timers.take due.length →
    Ends m (.listExpiredCb now probe)
      (.ok (fireAll { m with timers := m.timers.drop due.length, previouseTime := now } now due
        []).2)
  | released (ptr : Nat) : ptr ∉ m.timers →
    Ends m (.release ptr) (.ok { m with object := fun p => if p = ptr then none else m.object p })

theorem Ends.unchanged (m : TimerManager κ) (label : Call κ) : Ends m label (.ok m) :=
  .same label m rfl rfl rfl

theorem cancel_ends (m : TimerManager κ) (ptr : Nat) (hq : Queued m []) :
    Ends m (.cancel ptr) (m.call (.cancel ptr)) := by
  simp only [call, cancel]
  cases hobject : m.object ptr with
  | none => exact .badPointer _
  | some timer =>
    cases hcb : timer.cb.isSome with
    | false =>
      simp only [hcb]
      exact .unchanged m _
    | true =>
      obtain ⟨hin, hfind⟩ := hq.find_of_carries ptr ⟨timer, hobject, hcb⟩
      simp only [hcb, if_true, find_clear m ptr timer hobject, hfind]
      exact .cancelled ptr timer hobject hin

theorem refresh_ends (m : TimerManager κ) (ptr : Nat) (now : UInt64) (hq : Queued m []) :
    Ends m (.refresh ptr now) (m.call (.refresh ptr now)) := by
  simp only [call, refresh]
  cases hobject : m.object ptr with
  | none => exact .badPointer _
  | some timer =>
    cases hcb : timer.cb with
    | none =>
      simp only [hcb]
      exact .unchanged m _
    | some cb =>
      have hsome : timer.cb.isSome = true := by rw [hcb]; rfl
      obtain ⟨hin, hfind⟩ := hq.find_of_carries ptr ⟨timer, hobject, hsome⟩
      simp only [hcb, Option.isNone_some, Bool.false_eq_true, if_false, hfind]
      exact .refreshed ptr now timer hin hsome

theorem reset_ends (m : TimerManager κ) (ptr : Nat) (ms : UInt64) (fromNow : Bool) (now : UInt64)
    (hq : Queued m []) :
    Ends m (.reset ptr ms fromNow now) (m.call (.reset ptr ms fromNow now)) := by
  simp only [call, reset]
  cases hobject : m.object ptr with
  | none => exact .badPointer _
  | some timer =>
    by_cases hsame : ms = timer.ms ∧ fromNow = false
    · simp only [if_pos hsame]
      exact .unchanged m _
    · simp only [if_neg hsame]
      cases hcb : timer.cb with
      | none => exact .unchanged m _
      | some cb =>
        have hsome : timer.cb.isSome = true := by rw [hcb]; rfl
        obtain ⟨hin, hfind⟩ := hq.find_of_carries ptr ⟨timer, hobject, hsome⟩
        simp only [Option.isNone_some, Bool.false_eq_true, if_false, hfind]
        rw [← hcb]
        exact .moved ptr ms fromNow now _ { timer with ms := ms } hin hsome

theorem listExpiredCb_ends (m : TimerManager κ) (now : UInt64) (probe : Nat) :
    Ends m (.listExpiredCb now probe) (m.call (.listExpiredCb now probe)) := by
  simp only [call, listExpiredCb]
  by_cases hempty : m.timers.isEmpty = true
  · rw [if_pos hempty]
    exact .unchanged m _
  · rw [if_neg hempty]
    cases hlocked : m.listExpiredLocked now probe with
    | error fault =>
      have hnil := ((listExpiredLocked_error_iff m now probe fault).mp hlocked).2.1
      simp [hnil] at hempty
    | ok result =>
      obtain ⟨cbs, m'⟩ := result
      rcases listExpiredLocked_cases m m' now probe cbs hlocked with
        ⟨_, rfl⟩ | ⟨due, _, htake, hfire⟩
      · exact .same _ _ rfl rfl rfl
      · have hend := Ends.fired (m := m) now probe due htake
        rw [hfire] at hend
        exact hend

theorem call_ends (m : TimerManager κ) (label : Call κ) (hq : Queued m []) :
    Ends m label (m.call label) := by
  cases label with
  | addTimer ptr ms cb recurring now =>
    simp only [call, addTimer]
    cases hobject : m.object ptr with
    | some timer => exact .badPointer _
    | none => exact .added ptr ms cb recurring now hobject
  | cancel ptr => exact cancel_ends m ptr hq
  | refresh ptr now => exact refresh_ends m ptr now hq
  | reset ptr ms fromNow now => exact reset_ends m ptr ms fromNow now hq
  | getNextTimer now =>
    simp only [call, getNextTimer]
    split <;> exact .same _ _ rfl rfl rfl
  | listExpiredCb now probe => exact listExpiredCb_ends m now probe
  | release ptr =>
    simp only [call, release]
    by_cases hin : ptr ∈ m.timers
    · rw [if_pos hin]
      exact .badPointer _
    · rw [if_neg hin]
      exact .released ptr hin

theorem release_queued (m : TimerManager κ) (ptr : Nat) (hq : Queued m [])
    (habsent : ptr ∉ m.timers) :
    Queued { m with object := fun p => if p = ptr then none else m.object p } [] := by
  constructor
  · apply sorted_of_next_eq m _ hq.sorted
    intro other hother
    have hne : other ≠ ptr := by
      intro heq
      exact habsent (heq ▸ hother)
    simp [next, hne]
  · intro other
    by_cases heq : other = ptr
    · simp [Carries, heq, habsent]
    · simpa [Carries, heq] using hq.live other
  · exact hq.apart
  · exact hq.distinct
  · exact hq.writes

theorem same_queued (m m' : TimerManager κ) (hq : Queued m []) (htimers : m'.timers = m.timers)
    (hobject : m'.object = m.object) (hwrites : m'.writes = m.writes) : Queued m' [] := by
  obtain ⟨object, timers, tickled, previouseTime, writes⟩ := m'
  cases htimers
  cases hobject
  cases hwrites
  exact ⟨hq.sorted, hq.live, hq.apart, hq.distinct, hq.writes⟩

theorem call_queued (m : TimerManager κ) (label : Call κ) (m' : TimerManager κ)
    (hq : Queued m []) (hok : m.call label = .ok m') : Queued m' [] := by
  have hends := call_ends m label hq
  rw [hok] at hends
  cases hends with
  | same _ _ htimers hobject hwrites => exact same_queued m m' hq htimers hobject hwrites
  | added ptr ms cb recurring now hfresh =>
    exact addTimerLocked_queued _ ptr [] (hq.fresh ptr _ hfresh rfl)
  | cancelled ptr timer hobject hin => exact (hq.erase ptr hin).clear ptr timer
  | refreshed ptr now timer hin hsome =>
    exact ((hq.erase ptr hin).rewrite ptr timer (now + timer.ms) hsome).insert ptr
  | moved ptr ms fromNow now next timer hin hsome =>
    exact addTimerLocked_queued _ ptr [] ((hq.erase ptr hin).rewrite ptr timer next hsome)
  | fired now probe due htake => exact fireAll_due_queued m now due hq htake
  | released ptr habsent => exact release_queued m ptr hq habsent

theorem call_fault (m : TimerManager κ) (label : Call κ) (fault : TimerFault)
    (hq : Queued m []) (herror : m.call label = .error fault) : fault = .badPointer := by
  have hends := call_ends m label hq
  rw [herror] at hends
  cases hends
  rfl

theorem new_queued (now : UInt64) : Queued (new now : TimerManager κ) [] := by
  constructor <;> simp [new, Lib.Sorted, Carries]

theorem run_queued (start : UInt64) (calls : List (Call κ)) (m : TimerManager κ)
    (hrun : Lib.run step (new start) calls = some m) : Queued m [] := by
  apply Lib.run_invariant (fun m => Queued m []) _ calls (new start) m (new_queued start) hrun
  intro before label after hq hstep
  exact call_queued before label after hq (Lib.ok_of_toOption _ _ hstep)

theorem timers_ordered_and_live_iff_queued (start : UInt64) (calls : List (Call κ))
    (m : TimerManager κ) (hrun : Lib.run step (new start) calls = some m) :
    (m.timers.Pairwise fun lhs rhs =>
        m.next lhs < m.next rhs ∨ m.next lhs = m.next rhs ∧ lhs < rhs) ∧
      m.timers.Nodup ∧
      (∀ ptr ∈ m.timers, (m.object ptr).isSome = true) ∧
      (∀ ptr timer, m.object ptr = some timer →
        (timer.cb.isSome = true ↔ ptr ∈ m.timers)) ∧
      (∀ ptr, m.cancel ptr ≠ .error .eraseEnd) ∧
      (∀ now probe, m.listExpiredCb now probe ≠ .error .derefEnd) ∧
      ∀ write ∈ m.writes, write.2 = false := by
  have hq := run_queued start calls m hrun
  refine ⟨?_, hq.nodup, ?_, ?_, ?_, ?_, hq.writes⟩
  · apply List.Pairwise.imp _ hq.sorted
    intro lhs rhs hless
    exact (less_iff m.next lhs rhs).mp hless
  · intro ptr hptr
    obtain ⟨timer, hobject, _⟩ := (hq.live ptr).mpr (.inl hptr)
    rw [hobject]
    rfl
  · intro ptr timer hobject
    have hlive := hq.live ptr
    simpa [Carries, hobject] using hlive
  · intro ptr hfault
    have hbad := call_fault m (.cancel ptr) .eraseEnd hq (by rw [call, hfault]; rfl)
    contradiction
  · intro now probe hfault
    have hbad := call_fault m (.listExpiredCb now probe) .derefEnd hq (by rw [call, hfault]; rfl)
    contradiction

/-- Two timers, one of them recurring, with the clock set back in between. -/
theorem timers_ordered_and_live_iff_queued_recurring :
    ∃ m : TimerManager Nat,
      Lib.run step (new 1000)
        [.addTimer 8 50 1 true 1000, .addTimer 4 50 2 false 1000, .reset 8 20 true 1010,
          .refresh 4 900, .listExpiredCb 960 12, .cancel 8, .release 4] = some m ∧
        m.timers.Nodup ∧ ∀ ptr, m.cancel ptr ≠ .error .eraseEnd := by
  obtain ⟨m, hrun⟩ : ∃ m : TimerManager Nat,
      Lib.run step (new 1000)
        [.addTimer 8 50 1 true 1000, .addTimer 4 50 2 false 1000, .reset 8 20 true 1010,
          .refresh 4 900, .listExpiredCb 960 12, .cancel 8, .release 4] = some m :=
    Option.isSome_iff_exists.mp (by decide)
  have hall := timers_ordered_and_live_iff_queued 1000 _ m hrun
  exact ⟨m, hrun, hall.2.1, hall.2.2.2.2.1⟩

end Sylar.TimerManager
