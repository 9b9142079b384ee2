import Mathlib.Algebra.Order.Ring.Int
import Mathlib.Data.List.Basic

/-! Hexadecimal digits: what `Nat.toDigits 16` writes is read back, in lower case and without
leading zeros. -/
namespace Sylar.Lib

def hexDigit (c : Char) : Option Nat :=
  if '0' ≤ c ∧ c ≤ '9' then some (c.toNat - '0'.toNat)
  else if 'a' ≤ c ∧ c ≤ 'f' then some (c.toNat - 'a'.toNat + 10)
  else if 'A' ≤ c ∧ c ≤ 'F' then some (c.toNat - 'A'.toNat + 10)
  else none

def hexValue (digits : List Char) : Option Nat :=
  digits.foldlM (fun value c => (hexDigit c).map fun digit => 16 * value + digit) 0

def lowerHex : List Char := "0123456789abcdef".toList

theorem hexDigit_digitChar (digit : Nat) (hdigit : digit < 16) :
    hexDigit digit.digitChar = some digit ∧ digit.digitChar ∈ lowerHex := by
  have hall : ∀ d : Fin 16, hexDigit d.val.digitChar = some d.val ∧ d.val.digitChar ∈ lowerHex := by
    decide
  exact hall ⟨digit, hdigit⟩

theorem hexValue_toDigits (n : Nat) : hexValue (Nat.toDigits 16 n) = some n := by
  induction n using Nat.base_induction 16 (by decide) with
  | single digit hdigit =>
    rw [Nat.toDigits_of_lt_base hdigit]
    simp [hexValue, (hexDigit_digitChar digit hdigit).1]
  | digit high low hlow hhigh ih =>
    rw [hexValue] at ih
    rw [← Nat.toDigits_append_toDigits (by decide) hhigh hlow, Nat.toDigits_of_lt_base hlow, hexValue,
      List.foldlM_append, ih]
    simp [(hexDigit_digitChar low hlow).1]

theorem mem_lowerHex_of_mem_toDigits (n : Nat) : ∀ c ∈ Nat.toDigits 16 n, c ∈ lowerHex := by
  induction n using Nat.base_induction 16 (by decide) with
  | single digit hdigit =>
    rw [Nat.toDigits_of_lt_base hdigit]
    intro c hc
    rw [List.mem_singleton.mp hc]
    exact (hexDigit_digitChar digit hdigit).2
  | digit high low hlow hhigh ih =>
    rw [← Nat.toDigits_append_toDigits (by decide) hhigh hlow, Nat.toDigits_of_lt_base hlow]
    intro c hc
    rcases List.mem_append.mp hc with hleft | hright
    · exact ih c hleft
    · rw [List.mem_singleton.mp hright]
      exact (hexDigit_digitChar low hlow).2

theorem head_toDigits (n : Nat) (hzero : (Nat.toDigits 16 n).head? = some '0') : n = 0 := by
  induction n using Nat.base_induction 16 (by decide) with
  | single digit hdigit =>
    rw [Nat.toDigits_of_lt_base hdigit] at hzero
    exact Nat.digitChar_eq_zero.mp (Option.some.inj hzero)
  | digit high low hlow hhigh ih =>
    rw [← Nat.toDigits_append_toDigits (by decide) hhigh hlow,
      List.head?_append_of_ne_nil _ Nat.toDigits_ne_nil] at hzero
    have hnone := ih hzero
    omega

end Sylar.Lib
