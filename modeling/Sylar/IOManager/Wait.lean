import Mathlib.Tactic.Common
import Sylar.Timer.Manager

/-! How long `IOManager::idle` waits in `epoll_wait`.

The clamp looks at the low half of the time to the next timer, as an `int`, and then hands on the
whole of it: a time whose low half is negative is not clamped. -/
namespace Sylar.IOManager
variable {κ : Type}

def toInt (nextTimeout : UInt64) : Int32 := nextTimeout.toUInt32.toInt32

def maxTimeout : Int32 := 3000

/-- The assignments to `next_timeout` before the call. -/
def clamp (nextTimeout : UInt64) : UInt64 :=
  if nextTimeout ≠ ~~~0 then
    if toInt nextTimeout > maxTimeout then 3000 else nextTimeout
  else 3000

/-- The timeouts that `epoll_wait` is called with, when it is interrupted `interrupts` times. -/
def waits : Nat → UInt64 → List Int32
  | 0, nextTimeout => [toInt (clamp nextTimeout)]
  | interrupts + 1, nextTimeout =>
    toInt (clamp nextTimeout) :: waits interrupts (clamp nextTimeout)

/-- One pass of `idle` up to the end of the loop around `epoll_wait`: nothing is waited for when
`stopping(next_timeout)` says so. -/
def idleWaits (m : TimerManager κ) (now : UInt64) (pendingEventCount : Nat)
    (schedulerStopping : Bool) (interrupts : Nat) : List Int32 :=
  let nextTimeout := (m.getNextTimer now).1
  if nextTimeout = ~~~0 ∧ pendingEventCount = 0 ∧ schedulerStopping = true then []
  else waits interrupts nextTimeout

def Waitable (nextTimeout : UInt64) (timeout : Int32) : Prop :=
  0 ≤ timeout.toInt ∧ timeout.toInt ≤ 3000 ∧ timeout.toInt ≤ nextTimeout.toNat

def LowPositive (nextTimeout : UInt64) : Prop := nextTimeout.toNat % 2 ^ 32 < 2 ^ 31

instance (nextTimeout : UInt64) : Decidable (LowPositive nextTimeout) :=
  inferInstanceAs (Decidable (_ < _))

theorem toInt_toInt (nextTimeout : UInt64) : (toInt nextTimeout).toInt =
    if LowPositive nextTimeout then ((nextTimeout.toNat % 2 ^ 32 : Nat) : Int)
    else ((nextTimeout.toNat % 2 ^ 32 : Nat) : Int) - 2 ^ 32 := by
  have hcond := BitVec.toInt_eq_toNat_cond nextTimeout.toUInt32.toBitVec
  rw [UInt32.toNat_toBitVec, UInt64.toNat_toUInt32] at hcond
  rw [toInt, Int32.toInt, UInt32.toBitVec_toInt32, hcond]
  by_cases hlow : LowPositive nextTimeout
  · rw [if_pos hlow, if_pos]
    unfold LowPositive at hlow
    omega
  · rw [if_neg hlow, if_neg]
    · rfl
    · unfold LowPositive at hlow
      omega

theorem gt_maxTimeout_iff (nextTimeout : UInt64) :
    toInt nextTimeout > maxTimeout ↔ 3000 < (toInt nextTimeout).toInt := by
  have hmax : maxTimeout.toInt = 3000 := by decide
  rw [gt_iff_lt, Int32.lt_iff_toInt_lt, hmax]

theorem clamp_clamp (nextTimeout : UInt64) : clamp (clamp nextTimeout) = clamp nextTimeout := by
  have hmax : clamp 3000 = 3000 := by decide
  by_cases hnone : nextTimeout ≠ ~~~0
  · by_cases hlarge : toInt nextTimeout > maxTimeout
    · have hclamp : clamp nextTimeout = 3000 := by rw [clamp, if_pos hnone, if_pos hlarge]
      rw [hclamp, hmax]
    · have hclamp : clamp nextTimeout = nextTimeout := by rw [clamp, if_pos hnone, if_neg hlarge]
      rw [hclamp, hclamp]
  · have hclamp : clamp nextTimeout = 3000 := by rw [clamp, if_neg hnone]
    rw [hclamp, hmax]

theorem waits_eq (interrupts : Nat) (nextTimeout : UInt64) :
    waits interrupts nextTimeout = List.replicate (interrupts + 1) (toInt (clamp nextTimeout)) := by
  induction interrupts generalizing nextTimeout with
  | zero => rfl
  | succ interrupts ih => rw [waits, ih, clamp_clamp, List.replicate_succ (n := interrupts + 1)]

theorem waitable_max (nextTimeout : UInt64) (hle : 3000 ≤ nextTimeout.toNat) :
    Waitable nextTimeout (toInt 3000) := by
  have hvalue : (toInt 3000).toInt = 3000 := by decide
  rw [Waitable, hvalue]
  omega

theorem waitable_clamp_iff (nextTimeout : UInt64) :
    Waitable nextTimeout (toInt (clamp nextTimeout)) ↔
      nextTimeout = ~~~0 ∨ LowPositive nextTimeout := by
  have hvalue := toInt_toInt nextTimeout
  have hlt := nextTimeout.toNat_lt
  by_cases hnone : nextTimeout ≠ ~~~0
  · rw [or_iff_right hnone]
    by_cases hlarge : toInt nextTimeout > maxTimeout
    · have hclamp : clamp nextTimeout = 3000 := by rw [clamp, if_pos hnone, if_pos hlarge]
      rw [gt_maxTimeout_iff] at hlarge
      by_cases hlow : LowPositive nextTimeout
      · rw [if_pos hlow] at hvalue
        rw [hclamp]
        exact iff_of_true (waitable_max nextTimeout (by omega)) hlow
      · rw [if_neg hlow] at hvalue
        omega
    · have hclamp : clamp nextTimeout = nextTimeout := by rw [clamp, if_pos hnone, if_neg hlarge]
      rw [gt_maxTimeout_iff] at hlarge
      rw [hclamp, Waitable]
      by_cases hlow : LowPositive nextTimeout
      · rw [if_pos hlow] at hvalue
        refine iff_of_true ?_ hlow
        omega
      · rw [if_neg hlow] at hvalue
        refine iff_of_false ?_ hlow
        omega
  · have hclamp : clamp nextTimeout = 3000 := by rw [clamp, if_neg hnone]
    rw [not_not] at hnone
    rw [hclamp]
    refine iff_of_true (waitable_max nextTimeout ?_) (.inl hnone)
    rw [hnone]
    decide

theorem getNextTimer_any (nextTimeout : UInt64) (cb : κ) : ∃ flag m,
    (TimerManager.new 0).addTimer 1 nextTimeout cb false 0 = .ok (flag, m) ∧
    (m.getNextTimer 0).1 = nextTimeout := by
  refine ⟨_, _, rfl, ?_⟩
  change (if (0 : UInt64) ≥ 0 + nextTimeout then 0 else 0 + nextTimeout - 0) = nextTimeout
  rw [UInt64.zero_add, UInt64.sub_zero]
  split
  · next hzero => exact UInt64.le_antisymm UInt64.zero_le hzero
  · rfl

/-- With whatever timers, and however often it is interrupted, `idle` waits as it should exactly
when there is no timer to wait for or the low half of the time to the next one is not negative. -/
theorem idle_waits_iff (m : TimerManager κ) (now : UInt64) (pendingEventCount : Nat)
    (schedulerStopping : Bool) :
    ((∀ interrupts, ∀ timeout ∈ idleWaits m now pendingEventCount schedulerStopping interrupts,
      Waitable (m.getNextTimer now).1 timeout) ↔
      (m.getNextTimer now).1 = ~~~0 ∨ LowPositive (m.getNextTimer now).1) ∧
    ∀ (nextTimeout : UInt64) (cb : κ), ∃ flag m,
      (TimerManager.new 0).addTimer 1 nextTimeout cb false 0 = .ok (flag, m) ∧
      (m.getNextTimer 0).1 = nextTimeout := by
  refine ⟨?_, getNextTimer_any⟩
  rw [← waitable_clamp_iff]
  constructor
  · intro hall
    by_cases hstop : (m.getNextTimer now).1 = ~~~0
    · exact (waitable_clamp_iff _).mpr (.inl hstop)
    · apply hall 0
      rw [idleWaits, if_neg fun hboth => hstop hboth.1]
      exact List.mem_singleton_self _
  · intro hclamp interrupts timeout htimeout
    rw [idleWaits] at htimeout
    split at htimeout
    · cases htimeout
    · rw [waits_eq] at htimeout
      rw [List.eq_of_mem_replicate htimeout]
      exact hclamp

/-- A timer that is 2^31 ms ahead makes `epoll_wait` block until there is an event. -/
theorem far_timer_blocks : ∃ flag, ∃ m : TimerManager Unit,
    (TimerManager.new 0).addTimer 1 0x80000000 () false 0 = .ok (flag, m) ∧
    idleWaits m 0 0 false 0 = [-0x80000000] ∧
    ¬ ∀ interrupts, ∀ timeout ∈ idleWaits m 0 0 false interrupts,
      Waitable (m.getNextTimer 0).1 timeout := by
  refine ⟨_, _, rfl, by decide, ?_⟩
  intro hall
  have hwait := (hall 0 (-0x80000000) (by decide)).1
  revert hwait
  decide

end Sylar.IOManager
