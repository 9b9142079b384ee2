import Sylar.Timer.Frame

/-! The hooked `sleep`, `usleep` and `nanosleep`: each arms a timer that schedules the fiber again,
and parks the fiber. What the fiber asks for becomes the `uint64_t` of `addTimer` in three ways: by
a product in `unsigned int`, by a division, and through an `int`. -/
namespace Sylar.Hook
variable {κ : Type}

structure Timespec where
  tvSec : Int64
  tvNsec : Int64

/-- How a call gets to its `YieldToHold`, or does not: the function of libc is called instead, a
`long` overflows, or there is no timer. -/
inductive Sleep (κ : Type) where
  | original
  | overflow
  | fault (fault : TimerFault)
  | parked (timers : TimerManager κ)

def arm (m : TimerManager κ) (ptr : Nat) (ms : UInt64) (resume : κ) (now : UInt64) : Sleep κ :=
  match m.addTimer ptr ms resume false now with
  | .error fault => .fault fault
  | .ok (_, m) => .parked m

def sleep (hookEnable : Bool) (m : TimerManager κ) (ptr : Nat) (seconds : UInt32) (resume : κ)
    (now : UInt64) : Sleep κ :=
  if !hookEnable then .original else arm m ptr (seconds * 1000).toUInt64 resume now

def usleep (hookEnable : Bool) (m : TimerManager κ) (ptr : Nat) (usec : UInt32) (resume : κ)
    (now : UInt64) : Sleep κ :=
  if !hookEnable then .original else arm m ptr (usec / 1000).toUInt64 resume now

def long (value : Int) : Option Int64 :=
  if -2 ^ 63 ≤ value ∧ value < 2 ^ 63 then some (Int64.ofInt value) else none

/-- `req->tv_sec * 1000 + req->tv_nsec / 1000 / 1000`. -/
def timeoutMs (req : Timespec) : Option Int64 :=
  (long (req.tvSec.toInt * 1000)).bind fun product =>
    long (product.toInt + (req.tvNsec / 1000 / 1000).toInt)

def nanosleep (hookEnable : Bool) (m : TimerManager κ) (ptr : Nat) (req : Timespec) (resume : κ)
    (now : UInt64) : Sleep κ :=
  if !hookEnable then .original
  else
    match timeoutMs req with
    | none => .overflow
    | some value =>
      let timeout : Int32 := value.toInt32
      arm m ptr timeout.toInt64.toUInt64 resume now

/-- The fiber is parked with a timer at `ptr` that schedules it no sooner than after `requested`
milliseconds; its period is what the source computes, `exact`, and nothing has wrapped around. -/
def Keeps (call : Sleep κ) (ptr : Nat) (resume : κ) (now : UInt64) (exact requested : Nat) : Prop :=
  ∃ timers timer, call = .parked timers ∧ ptr ∈ timers.timers ∧ timers.object ptr = some timer ∧
    timer.cb = some resume ∧ timer.ms.toNat = exact ∧
    timer.next.toNat = now.toNat + timer.ms.toNat ∧ now.toNat + requested ≤ timer.next.toNat

theorem arm_eq (m : TimerManager κ) (ptr : Nat) (ms : UInt64) (resume : κ) (now : UInt64)
    (hfresh : m.object ptr = none) : ∃ timers, arm m ptr ms resume now = .parked timers ∧
      ptr ∈ timers.timers ∧ timers.object ptr = some ⟨false, ms, now + ms, some resume⟩ := by
  refine ⟨((m.setObject ptr ⟨false, ms, now + ms, some resume⟩).addTimerLocked ptr).2, ?_, ?_, ?_⟩
  · rw [arm, TimerManager.addTimer, hfresh]
  · rw [TimerManager.mem_addTimerLocked]
    exact .inl rfl
  · rw [TimerManager.addTimerLocked_object]
    exact if_pos rfl

theorem keeps_arm_iff (m : TimerManager κ) (ptr : Nat) (ms : UInt64) (resume : κ) (now : UInt64)
    (exact requested : Nat) (hfresh : m.object ptr = none) :
    Keeps (arm m ptr ms resume now) ptr resume now exact requested ↔
      ms.toNat = exact ∧ now.toNat + exact < 2 ^ 64 ∧ requested ≤ exact := by
  obtain ⟨timers, harm, hmem, hobject⟩ := arm_eq m ptr ms resume now hfresh
  have hsum := UInt64.toNat_add now ms
  have hnow := now.toNat_lt
  constructor
  · rintro ⟨found, timer, hfound, -, htimer, -, hms, hnext, hle⟩
    cases harm.symm.trans hfound
    cases hobject.symm.trans htimer
    simp only at hms hnext hle
    refine ⟨hms, ?_, ?_⟩
    all_goals omega
  · rintro ⟨hms, hlt, hle⟩
    refine ⟨timers, _, harm, hmem, hobject, rfl, hms, ?_, ?_⟩
    all_goals simp only
    all_goals omega

theorem sleep_keeps_iff (m : TimerManager κ) (ptr : Nat) (seconds : UInt32) (resume : κ)
    (now : UInt64) (hfresh : m.object ptr = none) :
    Keeps (sleep true m ptr seconds resume now) ptr resume now (seconds.toNat * 1000)
        (seconds.toNat * 1000) ↔
      seconds.toNat * 1000 < 2 ^ 32 ∧ now.toNat + seconds.toNat * 1000 < 2 ^ 64 := by
  have hproduct : (seconds * 1000).toUInt64.toNat = seconds.toNat * 1000 % 2 ^ 32 := by
    rw [UInt32.toNat_toUInt64, UInt32.toNat_mul]
    rfl
  rw [sleep, if_neg (by decide), keeps_arm_iff m ptr _ resume now _ _ hfresh, hproduct]
  omega

/-- Milliseconds, rounded up, of which each has `unit` of what there is `amount` of. -/
def ceilMs (amount unit : Nat) : Nat := (amount + unit - 1) / unit

theorem usleep_keeps_iff (m : TimerManager κ) (ptr : Nat) (usec : UInt32) (resume : κ)
    (now : UInt64) (hfresh : m.object ptr = none) :
    Keeps (usleep true m ptr usec resume now) ptr resume now (usec.toNat / 1000)
        (ceilMs usec.toNat 1000) ↔
      usec.toNat % 1000 = 0 ∧ now.toNat + usec.toNat / 1000 < 2 ^ 64 := by
  have hquotient : (usec / 1000).toUInt64.toNat = usec.toNat / 1000 := by
    rw [UInt32.toNat_toUInt64, UInt32.toNat_div]
    rfl
  rw [usleep, if_neg (by decide), keeps_arm_iff m ptr _ resume now _ _ hfresh, hquotient, ceilMs]
  omega

/-- The intervals that `nanosleep` takes. -/
def Timespec.Valid (req : Timespec) : Prop :=
  0 ≤ req.tvSec.toInt ∧ 0 ≤ req.tvNsec.toInt ∧ req.tvNsec.toInt < 10 ^ 9

def Timespec.ms (req : Timespec) : Nat :=
  req.tvSec.toInt.toNat * 1000 + req.tvNsec.toInt.toNat / 10 ^ 6

def Timespec.ns (req : Timespec) : Nat := req.tvSec.toInt.toNat * 10 ^ 9 + req.tvNsec.toInt.toNat

theorem toInt_div_thousand (value : Int64) (hnonneg : 0 ≤ value.toInt) :
    (value / 1000).toInt = value.toInt / 1000 := by
  have hthousand : (1000 : Int64).toInt = 1000 := by decide
  rw [Int64.toInt_div_of_ne_right value 1000 (by decide), hthousand,
    Int.tdiv_eq_ediv_of_nonneg hnonneg]

theorem long_eq (value : Int) (hnonneg : 0 ≤ value) (hlt : value < 2 ^ 63) :
    ∃ found, long value = some found ∧ found.toInt = value := by
  refine ⟨Int64.ofInt value, if_pos ⟨by omega, hlt⟩, ?_⟩
  exact Int64.toInt_ofInt_of_le (by omega) hlt

theorem timeoutMs_eq (req : Timespec) (hvalid : req.Valid) :
    (req.ms < 2 ^ 63 ∧ ∃ value, timeoutMs req = some value ∧ value.toInt = req.ms) ∨
      (2 ^ 63 ≤ req.ms ∧ timeoutMs req = none) := by
  obtain ⟨hsec, hnsec, hlt⟩ := hvalid
  have hmicro := toInt_div_thousand req.tvNsec hnsec
  have hmilli := toInt_div_thousand (req.tvNsec / 1000) (by omega)
  rw [hmicro] at hmilli
  have hms : (req.ms : Int) = req.tvSec.toInt * 1000 + req.tvNsec.toInt / 1000 / 1000 := by
    rw [Timespec.ms]
    omega
  rw [timeoutMs]
  by_cases hproduct : req.tvSec.toInt * 1000 < 2 ^ 63
  · obtain ⟨product, hlong, hvalue⟩ := long_eq _ (by omega) hproduct
    rw [hlong, Option.bind_some, hvalue, hmilli, ← hms]
    by_cases hsum : (req.ms : Int) < 2 ^ 63
    · obtain ⟨sum, hlong, hvalue⟩ := long_eq _ (by omega) hsum
      exact .inl ⟨by omega, sum, hlong, hvalue⟩
    · exact .inr ⟨by omega, if_neg (by omega)⟩
  · have hnone : long (req.tvSec.toInt * 1000) = none := if_neg (by omega)
    rw [hnone]
    exact .inr ⟨by omega, rfl⟩

theorem toNat_narrowed_iff (value : Int64) (ms : Nat) (hvalue : value.toInt = ms) :
    value.toInt32.toInt64.toUInt64.toNat = ms ↔ ms < 2 ^ 31 := by
  have hcond := BitVec.toInt_eq_toNat_cond value.toInt32.toInt64.toBitVec
  have hsigned : value.toInt32.toInt64.toBitVec.toInt = (ms : Int).bmod (2 ^ 32) := by
    rw [← hvalue, ← Int64.toInt_toInt32, ← Int32.toInt_toInt64]
    rfl
  have hlong := Int64.toInt_lt value
  rw [hsigned, Int64.toNat_toBitVec, Int.bmod_def] at hcond
  have hnat := value.toInt32.toInt64.toUInt64.toNat_lt
  split at hcond <;> split at hcond <;> omega

theorem nanosleep_keeps_iff (m : TimerManager κ) (ptr : Nat) (req : Timespec) (resume : κ)
    (now : UInt64) (hfresh : m.object ptr = none) (hvalid : req.Valid) :
    Keeps (nanosleep true m ptr req resume now) ptr resume now req.ms (ceilMs req.ns (10 ^ 6)) ↔
      req.tvNsec.toInt.toNat % 10 ^ 6 = 0 ∧ req.ms < 2 ^ 31 ∧ now.toNat + req.ms < 2 ^ 64 := by
  rw [nanosleep, if_neg (by decide)]
  rcases timeoutMs_eq req hvalid with ⟨-, value, htimeout, hvalue⟩ | ⟨hlarge, htimeout⟩
  · simp only [htimeout]
    rw [keeps_arm_iff m ptr _ resume now _ _ hfresh, toNat_narrowed_iff value req.ms hvalue, ceilMs]
    unfold Timespec.ms Timespec.ns
    omega
  · simp only [htimeout]
    constructor
    · rintro ⟨timers, timer, hparked, -⟩
      cases hparked
    · intro hsmall
      omega

/-- When the fiber sleeps for as long as it asks to: the number of milliseconds fits its type, and
nothing below a millisecond is asked for. -/
theorem hooked_sleep_iff (m : TimerManager κ) (ptr : Nat) (resume : κ) (now : UInt64)
    (hfresh : m.object ptr = none) :
    (∀ seconds : UInt32,
      Keeps (sleep true m ptr seconds resume now) ptr resume now (seconds.toNat * 1000)
        (seconds.toNat * 1000) ↔
      seconds.toNat * 1000 < 2 ^ 32 ∧ now.toNat + seconds.toNat * 1000 < 2 ^ 64) ∧
    (∀ usec : UInt32,
      Keeps (usleep true m ptr usec resume now) ptr resume now (usec.toNat / 1000)
        (ceilMs usec.toNat 1000) ↔
      usec.toNat % 1000 = 0 ∧ now.toNat + usec.toNat / 1000 < 2 ^ 64) ∧
    ∀ req : Timespec, req.Valid →
      (Keeps (nanosleep true m ptr req resume now) ptr resume now req.ms (ceilMs req.ns (10 ^ 6)) ↔
      req.tvNsec.toInt.toNat % 10 ^ 6 = 0 ∧ req.ms < 2 ^ 31 ∧ now.toNat + req.ms < 2 ^ 64) :=
  ⟨fun seconds => sleep_keeps_iff m ptr seconds resume now hfresh,
    fun usec => usleep_keeps_iff m ptr usec resume now hfresh,
    fun req hvalid => nanosleep_keeps_iff m ptr req resume now hfresh hvalid⟩

theorem hooked_sleep_iff_two :
    Keeps (sleep true (TimerManager.new 0) 1 2 () 1700000000000) 1 () 1700000000000 2000 2000 ∧
    Keeps (nanosleep true (TimerManager.new 0) 1 ⟨1, 5000000⟩ () 1700000000000) 1 () 1700000000000
      1005 1005 := by
  have hall := hooked_sleep_iff (TimerManager.new 0) 1 () 1700000000000 rfl
  have hvalid : Timespec.Valid ⟨1, 5000000⟩ := by
    unfold Timespec.Valid
    decide
  exact ⟨(hall.1 2).mpr (by decide), (hall.2.2 ⟨1, 5000000⟩ hvalid).mpr (by decide)⟩

/-- 4294968 s become 704 ms, half a millisecond becomes none, and 2^31 ms become a negative
`int`. -/
theorem hooked_sleep_too_short :
    ¬ Keeps (sleep true (TimerManager.new 0) 1 4294968 () 1700000000000) 1 () 1700000000000
      4294968000 4294968000 ∧
    ¬ Keeps (usleep true (TimerManager.new 0) 1 500 () 1700000000000) 1 () 1700000000000 0 1 ∧
    ¬ Keeps (nanosleep true (TimerManager.new 0) 1 ⟨2147483, 648000000⟩ () 1700000000000) 1 ()
      1700000000000 2147483648 2147483648 := by
  have hsleep := sleep_keeps_iff (TimerManager.new 0) 1 4294968 () 1700000000000 rfl
  have husleep := usleep_keeps_iff (TimerManager.new 0) 1 500 () 1700000000000 rfl
  have hnanosleep := nanosleep_keeps_iff (TimerManager.new 0) 1 ⟨2147483, 648000000⟩ ()
    1700000000000 rfl (by unfold Timespec.Valid; decide)
  exact ⟨fun hkeeps => absurd (hsleep.mp hkeeps) (by decide),
    fun hkeeps => absurd (husleep.mp hkeeps) (by decide),
    fun hkeeps => absurd (hnanosleep.mp hkeeps) (by decide)⟩

end Sylar.Hook
