import Mathlib.Data.Int.ModEq
import Mathlib.Tactic.Ring

/-! Integers as a fixed number of bytes, least significant byte first. The
encoder takes an `Int`, so that the bytes of a negative number are those of its
two's complement; the decoder returns the residue. -/
namespace Sylar.Lib

/-- The `n` low bytes of `x` in two's complement. -/
def leBytes : Nat → Int → List UInt8
  | 0, _ => []
  | n + 1, x => UInt8.ofNat (x % 256).toNat :: leBytes n (x / 256)

def leNat : List UInt8 → Nat
  | [] => 0
  | byte :: rest => byte.toNat + 256 * leNat rest

@[simp] theorem length_leBytes (n : Nat) (x : Int) : (leBytes n x).length = n := by
  induction n generalizing x with
  | zero => rfl
  | succ n ih => rw [leBytes, List.length_cons, ih]

theorem leNat_lt (bytes : List UInt8) : leNat bytes < 256 ^ bytes.length := by
  induction bytes with
  | nil => exact Nat.one_pos
  | cons byte rest ih =>
    have hbyte := byte.toNat_lt
    rw [leNat, List.length_cons, Nat.pow_succ]
    omega

private theorem emod_base_mul (x m : Int) :
    x % (256 * m) = x % 256 + 256 * (x / 256 % m) := by
  rw [Int.emod_def, Int.emod_def x 256, Int.emod_def (x / 256) m,
    ← Int.ediv_ediv_of_nonneg (by decide : (0 : Int) ≤ 256)]
  ring

theorem leNat_leBytes (n : Nat) (x : Int) : (leNat (leBytes n x) : Int) = x % 256 ^ n := by
  induction n generalizing x with
  | zero => simp [leBytes, leNat]
  | succ n ih =>
    have hlow : (UInt8.ofNat (x % 256).toNat).toNat = (x % 256).toNat := by
      rw [UInt8.toNat_ofNat']
      omega
    rw [leBytes, leNat, Nat.cast_add, Nat.cast_mul, ih, hlow, pow_succ']
    push_cast
    rw [Int.toNat_of_nonneg (by omega), emod_base_mul]

theorem leBytes_leNat (bytes : List UInt8) : leBytes bytes.length (leNat bytes) = bytes := by
  induction bytes with
  | nil => rfl
  | cons byte rest ih =>
    have hbyte := byte.toNat_lt
    rw [List.length_cons, leBytes, leNat]
    congr 1
    · have hlow : (((byte.toNat + 256 * leNat rest : Nat) : Int) % 256).toNat = byte.toNat := by
        omega
      rw [hlow, UInt8.ofNat_toNat]
    · have hhigh : ((byte.toNat + 256 * leNat rest : Nat) : Int) / 256 = (leNat rest : Int) := by
        omega
      rw [hhigh, ih]

theorem leBytes_emod (n : Nat) (x : Int) : leBytes n (x % 256 ^ n) = leBytes n x := by
  have hround := leBytes_leNat (leBytes n x)
  rw [length_leBytes, leNat_leBytes] at hround
  exact hround

theorem testBit_leNat (bytes : List UInt8) (i : Nat) :
    (leNat bytes).testBit i = (bytes.getD (i / 8) 0).toNat.testBit (i % 8) := by
  induction bytes generalizing i with
  | nil => simp [leNat]
  | cons byte rest ih =>
    have hbyte : byte.toNat < 2 ^ 8 := byte.toNat_lt
    rw [leNat, Nat.add_comm, show 256 * leNat rest = 2 ^ 8 * leNat rest from rfl,
      Nat.testBit_two_pow_mul_add _ hbyte]
    by_cases hlow : i < 8
    · rw [if_pos hlow, Nat.div_eq_of_lt hlow, Nat.mod_eq_of_lt hlow]
      rfl
    · have hdiv : i / 8 = (i - 8) / 8 + 1 := by omega
      have hmod : i % 8 = (i - 8) % 8 := by omega
      rw [if_neg hlow, ih, hdiv, hmod, List.getD_cons_succ]

theorem testBit_leBytes (n x j b : Nat) (hj : j < n) (hb : b < 8) :
    ((leBytes n x).getD j 0).toNat.testBit b = x.testBit (8 * j + b) := by
  have hdiv : (8 * j + b) / 8 = j := by omega
  have hmod : (8 * j + b) % 8 = b := by omega
  have hnat : leNat (leBytes n x) = x % 2 ^ (8 * n) := by
    have hint := leNat_leBytes n x
    rw [Nat.pow_mul]
    exact_mod_cast hint
  have hbit := testBit_leNat (leBytes n x) (8 * j + b)
  rw [hdiv, hmod, hnat, Nat.testBit_mod_two_pow, decide_eq_true (by omega), Bool.true_and] at hbit
  exact hbit.symm

end Sylar.Lib
