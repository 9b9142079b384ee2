import Mathlib.Algebra.BigOperators.Group.List.Basic
import Mathlib.Algebra.Order.Ring.Int
import Mathlib.Tactic.Common

/-! `Stream::readFixSize` and `Stream::writeFixSize`, over whatever `read` and `write` answer.

The loops keep the `int` that `read` returns in a `size_t`. Only 0 ends them: an error is a very
large count, by which the region moves back and the number of missing bytes grows. -/
namespace Sylar
namespace Stream

def toSize (result : Int32) : UInt64 :=
  result.toInt64.toUInt64

def toResult (size : UInt64) : Int32 :=
  size.toInt64.toInt32

/-- What the virtual `read` or `write` returns at its calls, by the number of the call and the
amount that is asked for. -/
structure Channel where
  answer : Nat → Nat → Int32
  atMost : ∀ k left, (answer k left).toInt ≤ left

structure Call where
  offset : UInt64
  left : UInt64
  result : Int32
deriving DecidableEq

/-- The calls that were made, and the value when there is one. -/
structure Outcome where
  calls : List Call
  value : Option Int32
deriving DecidableEq

section
variable (next : UInt64 → Int32 → UInt64) (channel : Channel) (length : UInt64)

/-- The loop of the four functions, for as many calls as `fuel` says. `next` is where the region
of the call after this one begins. -/
def fixSize (fuel k : Nat) (offset left : UInt64) : Outcome :=
  if left = 0 then { calls := [], value := some (toResult length) }
  else
    match fuel with
    | 0 => { calls := [], value := none }
    | fuel + 1 =>
      let call := { offset, left, result := channel.answer k left.toNat : Call }
      let len := toSize call.result
      if len = 0 then { calls := [call], value := some (toResult len) }
      else
        let rest := fixSize fuel (k + 1) (next offset call.result) (left - len)
        { rest with calls := call :: rest.calls }

end

/-- `offset += len` -/
def nextOffset (offset : UInt64) (result : Int32) : UInt64 :=
  offset + toSize result

/-- `read(ba, left)` and `write(ba, left)` move the position of the byte array by what they have
transferred. -/
def nextPosition (position : UInt64) (result : Int32) : UInt64 :=
  if 0 < result.toInt then position + toSize result else position

section
variable (channel : Channel) (length : UInt64) (fuel : Nat)

def readFixSize : Outcome :=
  fixSize nextOffset channel length fuel 0 0 length

/-- The offsets are counted from the position that the byte array has at first. -/
def readFixSizeByteArray : Outcome :=
  fixSize nextPosition channel length fuel 0 0 length

def writeFixSize : Outcome :=
  fixSize nextOffset channel length fuel 0 0 length

def writeFixSizeByteArray : Outcome :=
  fixSize nextPosition channel length fuel 0 0 length

end

/-- The value is the first result that is not positive, with which the calls end, or `length` after
exactly `left` bytes. -/
def Ends (length left : Nat) (outcome : Outcome) : Prop :=
  ∃ value, outcome.value = some value ∧
    ((∀ call ∈ outcome.calls, 0 < call.result.toInt) ∧
        (outcome.calls.map fun call => call.result.toInt).sum = left ∧ value.toInt = length ∨
      ∃ before last, outcome.calls = before ++ [last] ∧
        (∀ call ∈ before, 0 < call.result.toInt) ∧ last.result.toInt ≤ 0 ∧ value = last.result)

/-- What a transfer of `length` bytes is to do. -/
structure Transfers (length : UInt64) (outcome : Outcome) : Prop where
  ends : Ends length.toNat length.toNat outcome
  calls : outcome.calls.length ≤ length.toNat + 1
  inside : ∀ call ∈ outcome.calls, call.offset.toNat + call.left.toNat ≤ length.toNat

/-- The first answer that is not positive before `left` bytes are through, and how many bytes are
missing then. -/
def Channel.stop (channel : Channel) (k left : Nat) : Option (Nat × Int32) :=
  if left = 0 then none
  else if 0 < (channel.answer k left).toInt then
    channel.stop (k + 1) (left - (channel.answer k left).toInt.toNat)
  else some (left, channel.answer k left)
termination_by left
decreasing_by omega

/-- No error, and a length that is an `int` when the transfer comes to its end. The last case is an
error that the length itself looks like. -/
def Reported (length : UInt64) : Option (Nat × Int32) → Prop
  | none => length.toNat < 2 ^ 31
  | some (left, result) =>
    result.toInt = 0 ∨ (left : Int) = 2 ^ 64 + result.toInt ∧ toResult length = result

theorem toInt_bounds (result : Int32) : -2 ^ 31 ≤ result.toInt ∧ result.toInt < 2 ^ 31 :=
  ⟨result.le_toInt, result.toInt_lt⟩

theorem toNat_toSize (result : Int32) :
    ((toSize result).toNat : Int) =
      if 0 ≤ result.toInt then result.toInt else 2 ^ 64 + result.toInt := by
  have hint : (toSize result).toBitVec.toInt = result.toInt := Int32.toInt_toInt64 result
  have hlt := (toSize result).toNat_lt
  obtain ⟨hlow, hhigh⟩ := toInt_bounds result
  rw [BitVec.toInt_eq_toNat_cond, UInt64.toNat_toBitVec] at hint
  split at hint <;> split <;> omega

theorem toSize_eq_zero_iff (result : Int32) : toSize result = 0 ↔ result.toInt = 0 := by
  have hsize := toNat_toSize result
  obtain ⟨hlow, hhigh⟩ := toInt_bounds result
  rw [← UInt64.toNat_inj, UInt64.toNat_zero]
  split at hsize <;> omega

theorem toNat_sub_toSize (left : UInt64) (result : Int32) (hpos : 0 < result.toInt)
    (hle : result.toInt ≤ left.toNat) :
    (left - toSize result).toNat = left.toNat - result.toInt.toNat := by
  have hsize := toNat_toSize result
  rw [if_pos (Int.le_of_lt hpos)] at hsize
  rw [UInt64.toNat_sub_of_le _ _ (UInt64.le_iff_toNat_le.mpr (by omega))]
  omega

theorem toInt_toResult_iff (size : UInt64) :
    (toResult size).toInt = size.toNat ↔ size.toNat < 2 ^ 31 := by
  have hint : (toResult size).toInt = (size.toNat : Int).bmod (2 ^ 32) := by
    rw [toResult, Int64.toInt_toInt32]
    show (size.toBitVec.toInt).bmod (2 ^ 32) = _
    rw [BitVec.toInt_eq_toNat_bmod, UInt64.toNat_toBitVec]
    exact Int.bmod_bmod_of_dvd (by decide)
  rw [hint, Int.bmod_def]
  split <;> omega

theorem ends_positive (length left : Nat) (call : Call) (rest : Outcome)
    (hpos : 0 < call.result.toInt) (hle : call.result.toInt ≤ left) :
    Ends length left { rest with calls := call :: rest.calls } ↔
      Ends length (left - call.result.toInt.toNat) rest := by
  obtain ⟨calls, result⟩ := rest
  constructor
  · rintro ⟨value, hvalue, ⟨hall, hsum, hlength⟩ | ⟨before, last, hcalls, hbefore, hlast⟩⟩
    · refine ⟨value, hvalue, .inl ⟨?_, ?_, hlength⟩⟩
      · exact fun other hother => hall other (List.mem_cons_of_mem call hother)
      · rw [List.map_cons, List.sum_cons] at hsum
        omega
    · cases before with
      | nil =>
        cases hcalls
        omega
      | cons first before =>
        cases hcalls
        refine ⟨value, hvalue, .inr ⟨before, last, rfl, ?_, hlast⟩⟩
        exact fun other hother => hbefore other (List.mem_cons_of_mem call hother)
  · rintro ⟨value, hvalue, ⟨hall, hsum, hlength⟩ | ⟨before, last, hcalls, hbefore, hlast⟩⟩
    · refine ⟨value, hvalue, .inl ⟨?_, ?_, hlength⟩⟩
      · exact List.forall_mem_cons.mpr ⟨hpos, hall⟩
      · rw [List.map_cons, List.sum_cons, hsum]
        omega
    · refine ⟨value, hvalue, .inr ⟨call :: before, last, ?_, ?_, hlast⟩⟩
      · exact congrArg (call :: ·) hcalls
      · exact List.forall_mem_cons.mpr ⟨hpos, hbefore⟩

theorem ends_stopped (length left : Nat) (call : Call) (rest : Outcome)
    (hstop : call.result.toInt ≤ 0) :
    Ends length left { rest with calls := call :: rest.calls } ↔
      rest.calls = [] ∧ rest.value = some call.result := by
  obtain ⟨calls, result⟩ := rest
  constructor
  · rintro ⟨value, hvalue, ⟨hall, -, -⟩ | ⟨before, last, hcalls, hbefore, -, hlast⟩⟩
    · have hpos := hall call List.mem_cons_self
      omega
    · cases before with
      | nil =>
        obtain ⟨rfl, hnil⟩ := List.cons.inj hcalls
        exact ⟨hnil, hvalue.trans (congrArg some hlast)⟩
      | cons first before =>
        cases hcalls
        have hpos := hbefore call List.mem_cons_self
        omega
  · rintro ⟨hnil, hvalue⟩
    refine ⟨call.result, hvalue, .inr ⟨[], call, ?_, ?_, hstop, rfl⟩⟩
    · exact congrArg (call :: ·) hnil
    · exact fun other hother => nomatch hother

theorem ends_done (length : UInt64) :
    Ends length.toNat 0 { calls := [], value := some (toResult length) } ↔ Reported length none := by
  rw [Reported, ← toInt_toResult_iff]
  constructor
  · rintro ⟨value, hvalue, ⟨-, -, hlength⟩ | ⟨before, last, hcalls, -⟩⟩
    · cases hvalue
      exact hlength
    · exact absurd hcalls.symm (by simp)
  · intro hlength
    exact ⟨_, rfl, .inl ⟨(fun call hcall => nomatch hcall), rfl, hlength⟩⟩

section
variable (next : UInt64 → Int32 → UInt64) (channel : Channel) (length : UInt64)

theorem fixSize_done (fuel k : Nat) (offset : UInt64) :
    fixSize next channel length fuel k offset 0 =
      { calls := [], value := some (toResult length) } := by
  rw [fixSize.eq_def, if_pos rfl]

theorem fixSize_succ (fuel k : Nat) (offset left : UInt64) (hleft : left ≠ 0) :
    fixSize next channel length (fuel + 1) k offset left =
      let call := { offset, left, result := channel.answer k left.toNat : Call }
      if call.result.toInt = 0 then { calls := [call], value := some 0 }
      else
        let rest := fixSize next channel length fuel (k + 1) (next offset call.result)
          (left - toSize call.result)
        { rest with calls := call :: rest.calls } := by
  rw [fixSize, if_neg hleft]
  dsimp only
  by_cases hzero : (channel.answer k left.toNat).toInt = 0
  · have hsize := (toSize_eq_zero_iff _).mpr hzero
    rw [if_pos hsize, if_pos hzero, hsize]
    rfl
  · rw [if_neg (mt (toSize_eq_zero_iff _).mp hzero), if_neg hzero]

theorem fixSize_no_calls (fuel k : Nat) (offset left : UInt64) (value : Int32) :
    (fixSize next channel length fuel k offset left).calls = [] ∧
        (fixSize next channel length fuel k offset left).value = some value ↔
      left = 0 ∧ toResult length = value := by
  by_cases hleft : left = 0
  · subst hleft
    rw [fixSize_done]
    simp
  · cases fuel with
    | zero =>
      rw [fixSize, if_neg hleft]
      simp [hleft]
    | succ fuel =>
      rw [fixSize_succ next channel length fuel k offset left hleft]
      dsimp only
      split <;> simp [hleft]

theorem exists_ends_succ (k : Nat) (offset left : UInt64) (hleft : left ≠ 0) :
    (∃ fuel, Ends length.toNat left.toNat (fixSize next channel length fuel k offset left)) ↔
      ∃ fuel, Ends length.toNat left.toNat
        (fixSize next channel length (fuel + 1) k offset left) := by
  constructor
  · rintro ⟨fuel, hends⟩
    cases fuel with
    | zero =>
      rw [fixSize, if_neg hleft] at hends
      obtain ⟨value, hvalue, -⟩ := hends
      cases hvalue
    | succ fuel => exact ⟨fuel, hends⟩
  · rintro ⟨fuel, hends⟩
    exact ⟨fuel + 1, hends⟩

theorem exists_ends_iff (k : Nat) (offset left : UInt64) :
    (∃ fuel, Ends length.toNat left.toNat (fixSize next channel length fuel k offset left)) ↔
      Reported length (channel.stop k left.toNat) := by
  induction hn : left.toNat using Nat.strongRecOn generalizing k offset left with
  | _ n ih =>
    subst hn
    by_cases hleft : left = 0
    · subst hleft
      rw [UInt64.toNat_zero, Channel.stop, if_pos rfl]
      simp only [fixSize_done, exists_const]
      exact ends_done length
    · have hpos : left.toNat ≠ 0 := fun hzero => hleft (UInt64.toNat_inj.mp hzero)
      rw [exists_ends_succ next channel length k offset left hleft, Channel.stop, if_neg hpos]
      simp only [fixSize_succ next channel length _ k offset left hleft]
      have hle := channel.atMost k left.toNat
      have hsize := toNat_toSize (channel.answer k left.toNat)
      generalize channel.answer k left.toNat = result at hle hsize ⊢
      rcases Int.lt_trichotomy result.toInt 0 with hneg | hzero | hmore
      · rw [if_neg (by omega)]
        simp only [if_neg (Int.ne_of_lt hneg)]
        have hcalls := fun fuel => (ends_stopped length.toNat left.toNat ⟨offset, left, result⟩
          (fixSize next channel length fuel (k + 1) (next offset result) (left - toSize result))
          (Int.le_of_lt hneg)).trans (fixSize_no_calls next channel length fuel _ _ _ result)
        have hempty : left - toSize result = 0 ↔ (left.toNat : Int) = 2 ^ 64 + result.toInt := by
          rw [← UInt64.toNat_inj, UInt64.toNat_sub, UInt64.toNat_zero]
          have hlt := left.toNat_lt
          rw [if_neg (by omega)] at hsize
          omega
        simp only [hcalls, exists_const, Reported, hempty]
        exact ⟨.inr, fun hcase => hcase.resolve_left (Int.ne_of_lt hneg)⟩
      · have hresult : result = 0 := Int32.toInt_inj.mp hzero
        simp only [if_pos hzero, exists_const, if_neg (Int.not_lt.mpr (Int.le_of_eq hzero))]
        refine ⟨fun _ => .inl hzero, fun _ => ⟨0, rfl, .inr ?_⟩⟩
        exact ⟨[], _, rfl, (fun call hcall => nomatch hcall), Int.le_of_eq hzero, hresult.symm⟩
      · have hnext := toNat_sub_toSize left result hmore hle
        rw [if_pos hmore]
        simp only [if_neg (Int.ne_of_gt hmore)]
        have hcalls := fun fuel => ends_positive length.toNat left.toNat ⟨offset, left, result⟩
          (fixSize next channel length fuel (k + 1) (next offset result) (left - toSize result))
          hmore hle
        simp only [hcalls, ← hnext]
        exact ih _ (by omega) (k + 1) (next offset result) (left - toSize result) rfl

section
variable (hnext : ∀ offset (result : Int32), 0 < result.toInt →
  next offset result = offset + toSize result)
include hnext

theorem fixSize_inside (fuel k : Nat) (offset left : UInt64)
    (hroom : offset.toNat + left.toNat = length.toNat)
    (hpositive : ∀ call ∈ (fixSize next channel length fuel k offset left).calls.dropLast,
      0 < call.result.toInt) :
    (fixSize next channel length fuel k offset left).calls.length ≤ left.toNat + 1 ∧
      ∀ call ∈ (fixSize next channel length fuel k offset left).calls,
        call.offset.toNat + call.left.toNat ≤ length.toNat := by
  induction fuel generalizing k offset left with
  | zero =>
    by_cases hleft : left = 0
    · subst hleft
      simp [fixSize_done]
    · simp [fixSize, hleft]
  | succ fuel ih =>
    by_cases hleft : left = 0
    · subst hleft
      simp [fixSize_done]
    · rw [fixSize_succ next channel length fuel k offset left hleft] at hpositive ⊢
      have hle := channel.atMost k left.toNat
      have hsize := toNat_toSize (channel.answer k left.toNat)
      generalize channel.answer k left.toNat = result at hle hsize hpositive ⊢
      dsimp only at hpositive ⊢
      split
      · simp [hroom]
      · rename_i hother
        rw [if_neg hother] at hpositive
        generalize hrest : fixSize next channel length fuel (k + 1) (next offset result)
          (left - toSize result) = rest at hpositive ⊢
        by_cases hnone : rest.calls = []
        · simp [hnone, hroom]
        · rw [List.dropLast_cons_of_ne_nil hnone] at hpositive
          have hmore : 0 < result.toInt := hpositive _ List.mem_cons_self
          rw [if_pos (Int.le_of_lt hmore)] at hsize
          have hlength := length.toNat_lt
          have hsub := toNat_sub_toSize left result hmore hle
          have hadd : (next offset result).toNat = offset.toNat + result.toInt.toNat := by
            rw [hnext offset result hmore, UInt64.toNat_add]
            omega
          have hinside := ih (k + 1) (next offset result) (left - toSize result) (by omega)
            (by rw [hrest]; exact fun call hcall => hpositive call (List.mem_cons_of_mem _ hcall))
          rw [hrest, hsub] at hinside
          refine ⟨?_, List.forall_mem_cons.mpr ⟨Nat.le_of_eq hroom, hinside.2⟩⟩
          rw [List.length_cons]
          omega

theorem exists_transfers_iff :
    (∃ fuel, Transfers length (fixSize next channel length fuel 0 0 length)) ↔
      Reported length (channel.stop 0 length.toNat) := by
  rw [← exists_ends_iff next channel length 0 0 length]
  constructor
  · rintro ⟨fuel, htransfers⟩
    exact ⟨fuel, htransfers.ends⟩
  · rintro ⟨fuel, hends⟩
    have hpositive : ∀ call ∈ (fixSize next channel length fuel 0 0 length).calls.dropLast,
        0 < call.result.toInt := by
      obtain ⟨-, -, ⟨hall, -⟩ | ⟨before, last, hcalls, hbefore, -⟩⟩ := hends
      · exact fun call hcall => hall call (List.dropLast_subset _ hcall)
      · rw [hcalls, List.dropLast_concat]
        exact hbefore
    obtain ⟨hcalls, hinside⟩ := fixSize_inside next channel length hnext fuel 0 0 length
      (Nat.zero_add _) hpositive
    exact ⟨fuel, hends, hcalls, hinside⟩

end
end

theorem nextPosition_positive (offset : UInt64) (result : Int32) (hpos : 0 < result.toInt) :
    nextPosition offset result = offset + toSize result :=
  if_pos hpos

/-- The four functions stop at the first result that is not positive and return it, or return
`length` after that many bytes, with at most `length + 1` calls and inside the buffer, exactly
when the result is no error and the length an `int`. -/
theorem transfers_iff_reported (channel : Channel) (length : UInt64) :
    ((∃ fuel, Transfers length (readFixSize channel length fuel)) ↔
        Reported length (channel.stop 0 length.toNat)) ∧
      ((∃ fuel, Transfers length (readFixSizeByteArray channel length fuel)) ↔
        Reported length (channel.stop 0 length.toNat)) ∧
      ((∃ fuel, Transfers length (writeFixSize channel length fuel)) ↔
        Reported length (channel.stop 0 length.toNat)) ∧
      ((∃ fuel, Transfers length (writeFixSizeByteArray channel length fuel)) ↔
        Reported length (channel.stop 0 length.toNat)) := by
  have hraw := exists_transfers_iff nextOffset channel length (fun _ _ _ => rfl)
  have hbytes := exists_transfers_iff nextPosition channel length nextPosition_positive
  exact ⟨hraw, hbytes, hraw, hbytes⟩

def failing : Channel where
  answer k _ := if k = 0 then -1 else 0
  atMost := by
    intro k left
    have hlow : (-1 : Int32).toInt ≤ 0 := by decide
    split
    · omega
    · exact Int.natCast_nonneg left

/-- The error is not returned, and the call after it is for two bytes, the first of them before
the buffer. With a byte array they are the byte that was asked for and one more. -/
theorem error_not_returned :
    readFixSize failing 1 2 =
        { calls := [⟨0, 1, -1⟩, ⟨0xffffffffffffffff, 2, 0⟩], value := some 0 } ∧
      readFixSizeByteArray failing 1 2 =
        { calls := [⟨0, 1, -1⟩, ⟨0, 2, 0⟩], value := some 0 } ∧
      (¬ ∃ fuel, Transfers 1 (readFixSize failing 1 fuel)) ∧
      (¬ ∃ fuel, Transfers 1 (readFixSizeByteArray failing 1 fuel)) ∧
      (¬ ∃ fuel, Transfers 1 (writeFixSize failing 1 fuel)) ∧
      ¬ ∃ fuel, Transfers 1 (writeFixSizeByteArray failing 1 fuel) := by
  have hstop : failing.stop 0 1 = some (1, -1) := by
    rw [Channel.stop]
    rfl
  have hnot : ¬ Reported 1 (failing.stop 0 (1 : UInt64).toNat) := by
    show ¬ Reported 1 (failing.stop 0 1)
    rw [hstop, Reported]
    decide
  have hraw := mt (exists_transfers_iff nextOffset failing 1 (fun _ _ _ => rfl)).mp hnot
  have hbytes := mt (exists_transfers_iff nextPosition failing 1 nextPosition_positive).mp hnot
  exact ⟨by decide, by decide, hraw, hbytes, hraw, hbytes⟩

end Stream
end Sylar
