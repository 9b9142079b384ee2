import Sylar.Timer.Invariant

/-! What the calls of others do to one timer: nothing, as long as it is not due;
and once `listExpiredCb` takes it out, its callback is among those returned. -/
namespace Sylar.TimerManager

variable {κ : Type}

theorem mem_insert (m : TimerManager κ) (ptr other : Nat) :
    other ∈ (m.insert ptr).timers ↔ other = ptr ∨ other ∈ m.timers :=
  Lib.mem_setInsert (less_comparator m.next) ptr other m.timers

@[simp] theorem addTimerLocked_object (m : TimerManager κ) (ptr : Nat) :
    (m.addTimerLocked ptr).2.object = m.object := by
  unfold addTimerLocked
  simp only
  split <;> rfl

theorem mem_addTimerLocked (m : TimerManager κ) (ptr other : Nat) :
    other ∈ (m.addTimerLocked ptr).2.timers ↔ other = ptr ∨ other ∈ m.timers := by
  rw [← mem_insert m ptr other]
  unfold addTimerLocked
  simp only
  split <;> rfl

def Call.timer : Call κ → Option Nat
  | .addTimer ptr _ _ _ _ | .cancel ptr | .refresh ptr _ | .reset ptr _ _ _ | .release ptr =>
    some ptr
  | .getNextTimer _ | .listExpiredCb _ _ => none

structure Untouched (m m' : TimerManager κ) (ptr : Nat) : Prop where
  object : m'.object ptr = m.object ptr
  timers : ptr ∈ m'.timers ↔ ptr ∈ m.timers

theorem call_untouched (m m' : TimerManager κ) (label : Call κ) (ptr : Nat) (hq : Queued m [])
    (hne : label.timer ≠ some ptr) (hnot : ∀ now probe, label ≠ .listExpiredCb now probe)
    (hok : m.call label = .ok m') : Untouched m m' ptr := by
  have hends := call_ends m label hq
  rw [hok] at hends
  cases hends with
  | same _ _ htimers hobject _ => exact ⟨by rw [hobject], by rw [htimers]⟩
  | added other ms cb recurring now hfresh =>
    have hother : ptr ≠ other := fun h => hne (h ▸ rfl)
    constructor
    · rw [addTimerLocked_object]
      exact if_neg hother
    · rw [mem_addTimerLocked]
      exact or_iff_right hother
  | cancelled other timer hobject hin =>
    have hother : ptr ≠ other := fun h => hne (h ▸ rfl)
    constructor
    · exact if_neg hother
    · exact List.mem_erase_of_ne hother
  | refreshed other now timer hin hsome =>
    have hother : ptr ≠ other := fun h => hne (h ▸ rfl)
    constructor
    · exact if_neg hother
    · rw [mem_insert, or_iff_right hother]
      exact List.mem_erase_of_ne hother
  | moved other ms fromNow now next timer hin hsome =>
    have hother : ptr ≠ other := fun h => hne (h ▸ rfl)
    constructor
    · rw [addTimerLocked_object]
      exact if_neg hother
    · rw [mem_addTimerLocked, or_iff_right hother]
      exact List.mem_erase_of_ne hother
  | fired now probe due htake => exact absurd rfl (hnot now probe)
  | released other habsent =>
    have hother : ptr ≠ other := fun h => hne (h ▸ rfl)
    exact ⟨if_neg hother, Iff.rfl⟩

def rearm (now : UInt64) (timer : Timer κ) : Timer κ :=
  if timer.recurring then { timer with next := now + timer.ms } else { timer with cb := none }

def fire (m : TimerManager κ) (now : UInt64) (ptr : Nat) (timer : Timer κ) : TimerManager κ :=
  if timer.recurring then (m.setNext ptr timer (now + timer.ms)).insert ptr
  else m.setObject ptr { timer with cb := none }

theorem fire_object (m : TimerManager κ) (now : UInt64) (ptr other : Nat) (timer : Timer κ) :
    (m.fire now ptr timer).object other =
      if other = ptr then some (rearm now timer) else m.object other := by
  unfold fire rearm
  split <;> rfl

theorem mem_fire (m : TimerManager κ) (now : UInt64) (ptr other : Nat) (timer : Timer κ) :
    other ∈ (m.fire now ptr timer).timers ↔
      other ∈ m.timers ∨ other = ptr ∧ timer.recurring = true := by
  unfold fire
  split
  · rename_i hrecurring
    rw [mem_insert, or_comm]
    simp [hrecurring, setNext]
  · rename_i hrecurring
    simp [hrecurring]

/-- The timer is taken from the set before it is put back, so the set stays in order. -/
theorem sorted_fire (m : TimerManager κ) (now : UInt64) (ptr : Nat) (timer : Timer κ)
    (hsorted : Lib.Sorted (less m.next) m.timers) (habsent : ptr ∉ m.timers) :
    Lib.Sorted (less (m.fire now ptr timer).next) (m.fire now ptr timer).timers := by
  unfold fire
  split
  · exact Lib.sorted_setInsert (less_comparator _) ptr m.timers
      (sorted_setObject m ptr _ hsorted habsent)
  · exact sorted_setObject m ptr _ hsorted habsent

theorem fireAll_object (m : TimerManager κ) (now : UInt64) (pending : List Nat)
    (cbs : List (Option κ)) (ptr : Nat) (hdistinct : pending.Nodup) :
    (fireAll m now pending cbs).2.object ptr =
      if ptr ∈ pending then (m.object ptr).map (rearm now) else m.object ptr := by
  induction pending generalizing m cbs with
  | nil => rfl
  | cons head pending ih =>
    obtain ⟨hhead, hrest⟩ := List.nodup_cons.mp hdistinct
    rw [fireAll]
    split
    · rename_i hnone
      rw [ih m cbs hrest]
      by_cases heq : ptr = head
      · subst heq
        simp [hhead, hnone]
      · simp [heq]
    · rename_i timer hobject
      have hturn := ih (m.fire now head timer) (cbs ++ [timer.cb]) hrest
      rw [fire_object] at hturn
      refine hturn.trans ?_
      by_cases heq : ptr = head
      · subst heq
        simp [hhead, hobject]
      · simp [heq]

theorem fireAll_callbacks (m : TimerManager κ) (now : UInt64) (pending : List Nat)
    (cbs : List (Option κ)) (hdistinct : pending.Nodup) :
    (fireAll m now pending cbs).1 =
      cbs ++ pending.filterMap fun ptr => (m.object ptr).map Timer.cb := by
  induction pending generalizing m cbs with
  | nil => simp [fireAll]
  | cons head pending ih =>
    obtain ⟨hhead, hrest⟩ := List.nodup_cons.mp hdistinct
    rw [fireAll]
    split
    · rename_i hnone
      rw [ih m cbs hrest, List.filterMap_cons_none (by simp [hnone])]
    · rename_i timer hobject
      have hturn := ih (m.fire now head timer) (cbs ++ [timer.cb]) hrest
      refine hturn.trans ?_
      rw [List.filterMap_cons_some (b := timer.cb) (by simp [hobject]), List.append_assoc]
      refine congrArg (fun found => cbs ++ timer.cb :: found) (List.filterMap_congr ?_)
      intro ptr hptr
      rw [fire_object, if_neg (fun heq : ptr = head => hhead (heq ▸ hptr))]

/-- Firing never takes a timer out, and puts the recurring ones back. -/
theorem mem_fireAll (m : TimerManager κ) (now : UInt64) (pending : List Nat)
    (cbs : List (Option κ)) (ptr : Nat) (hdistinct : pending.Nodup) :
    ptr ∈ (fireAll m now pending cbs).2.timers ↔ ptr ∈ m.timers ∨
      ptr ∈ pending ∧ ∃ timer, m.object ptr = some timer ∧ timer.recurring = true := by
  induction pending generalizing m cbs with
  | nil => simp [fireAll]
  | cons head pending ih =>
    obtain ⟨hhead, hrest⟩ := List.nodup_cons.mp hdistinct
    rw [fireAll]
    split
    · rename_i hnone
      rw [ih m cbs hrest]
      by_cases heq : ptr = head
      · subst heq
        simp [hhead, hnone]
      · simp [heq]
    · rename_i timer hobject
      have hturn := ih (m.fire now head timer) (cbs ++ [timer.cb]) hrest
      rw [mem_fire, fire_object] at hturn
      refine hturn.trans ?_
      by_cases heq : ptr = head
      · subst heq
        simp [hhead, hobject]
      · simp [heq]

theorem sorted_fireAll (m : TimerManager κ) (now : UInt64) (pending : List Nat)
    (cbs : List (Option κ)) (hdistinct : pending.Nodup)
    (hsorted : Lib.Sorted (less m.next) m.timers) (hapart : ∀ ptr ∈ pending, ptr ∉ m.timers) :
    Lib.Sorted (less (fireAll m now pending cbs).2.next) (fireAll m now pending cbs).2.timers := by
  induction pending generalizing m cbs with
  | nil => exact hsorted
  | cons head pending ih =>
    obtain ⟨hhead, hrest⟩ := List.nodup_cons.mp hdistinct
    obtain ⟨habsent, hapart'⟩ := List.forall_mem_cons.mp hapart
    rw [fireAll]
    split
    · exact ih m cbs hrest hsorted hapart'
    · rename_i timer hobject
      apply ih (m.fire now head timer) _ hrest (sorted_fire m now head timer hsorted habsent)
      intro ptr hptr hin
      rcases (mem_fire m now head ptr timer).mp hin with hold | ⟨rfl, -⟩
      · exact hapart' ptr hptr hold
      · exact hhead hptr

theorem mem_take_or_drop (m : TimerManager κ) (due : List Nat) (ptr : Nat)
    (htake : due = m.timers.take due.length) (hin : ptr ∈ m.timers) :
    ptr ∈ due ∨ ptr ∈ m.timers.drop due.length := by
  rw [← List.take_append_drop due.length m.timers, List.mem_append, ← htake] at hin
  exact hin

theorem listExpiredCb_oneShot (m m' : TimerManager κ) (now : UInt64) (probe : Nat)
    (cbs : List (Option κ)) (ptr : Nat) (timer : Timer κ) (hq : Queued m [])
    (hok : m.listExpiredCb now probe = .ok (cbs, m')) (hobject : m.object ptr = some timer)
    (hrecurring : timer.recurring = false) :
    ∃ timer', m'.object ptr = some timer' ∧ timer'.recurring = false ∧
      (timer'.cb = timer.cb ∨ timer'.cb = none) ∧
      (ptr ∈ m.timers → ptr ∈ m'.timers ∨ timer.cb ∈ cbs) := by
  unfold listExpiredCb at hok
  split at hok
  · cases hok
    exact ⟨timer, hobject, hrecurring, .inl rfl, .inl⟩
  · rcases listExpiredLocked_cases m m' now probe cbs hok with ⟨_, rfl⟩ | ⟨due, _, htake, hfire⟩
    · exact ⟨timer, hobject, hrecurring, .inl rfl, .inl⟩
    · have hdistinct : due.Nodup := by
        rw [htake]
        exact hq.nodup.sublist (List.take_sublist _ _)
      let taken := { m with timers := m.timers.drop due.length, previouseTime := now }
      have hafter := fireAll_object taken now due [] ptr hdistinct
      have hcbs := fireAll_callbacks taken now due [] hdistinct
      have hmem := mem_fireAll taken now due [] ptr hdistinct
      rw [hfire] at hafter hcbs hmem
      have hstill : taken.object ptr = some timer := hobject
      by_cases hexpired : ptr ∈ due
      · rw [if_pos hexpired, hstill] at hafter
        refine ⟨rearm now timer, hafter, ?_, ?_, fun _ => .inr ?_⟩
        · simp [rearm, hrecurring]
        · simp [rearm, hrecurring]
        · dsimp only at hcbs
          rw [hcbs]
          exact List.mem_filterMap.mpr ⟨ptr, hexpired, congrArg _ hstill⟩
      · rw [if_neg hexpired] at hafter
        refine ⟨timer, hafter.trans hstill, hrecurring, .inl rfl, fun hin => .inl ?_⟩
        have hleft := (mem_take_or_drop m due ptr htake hin).resolve_left hexpired
        exact hmem.mpr (.inl hleft)

end Sylar.TimerManager
