import Mathlib.Algebra.BigOperators.Group.List.Basic
import Mathlib.Algebra.Order.Ring.Int
import Mathlib.Data.List.Forall2
import Mathlib.Data.List.Perm.Basic

/-! Totals over a list of slots when one slot is rewritten: what the old slot
gives up is what the new one and the rest of the world take. Two lists of slots
that run in parallel keep doing so when both lose the same slot. -/
namespace Sylar.Lib

variable {α β : Type*}

theorem sum_map_set (f : α → Nat) (slots : List α) (index : Nat) (old new : α)
    (hold : slots[index]? = some old) :
    ((slots.set index new).map f).sum + f old = (slots.map f).sum + f new := by
  induction slots generalizing index with
  | nil => cases hold
  | cons head tail ih =>
    cases index with
    | zero =>
      cases hold
      simp only [List.set_cons_zero, List.map_cons, List.sum_cons]
      omega
    | succ index =>
      have hrest := ih index hold
      simp only [List.set_cons_succ, List.map_cons, List.sum_cons]
      omega

theorem sum_map_toNat (flag : α → Bool) (slots : List α) :
    (slots.map fun slot => (flag slot).toNat).sum = slots.countP flag := by
  induction slots with
  | nil => rfl
  | cons head tail ih =>
    rw [List.map_cons, List.sum_cons, ih, List.countP_cons, Nat.add_comm]
    cases flag head <;> rfl

theorem flatMap_set_perm (f : α → List β) (slots : List α) (index : Nat) (old new : α)
    (hold : slots[index]? = some old) :
    (f old ++ (slots.set index new).flatMap f).Perm (f new ++ slots.flatMap f) := by
  induction slots generalizing index with
  | nil => cases hold
  | cons head tail ih =>
    cases index with
    | zero =>
      cases hold
      simp only [List.set_cons_zero, List.flatMap_cons]
      rw [← List.append_assoc, ← List.append_assoc]
      exact List.Perm.append_right _ List.perm_append_comm
    | succ index =>
      have hrest := (ih index hold).append_left (f head)
      simp only [List.set_cons_succ, List.flatMap_cons]
      apply (List.perm_append_comm_assoc _ _ _).trans
      apply hrest.trans
      exact List.perm_append_comm_assoc _ _ _

theorem forall₂_getElem? {R : α → β → Prop} (xs : List α) (ys : List β) (index : Nat) (y : β)
    (hxy : List.Forall₂ R xs ys) (hy : ys[index]? = some y) :
    ∃ x, xs[index]? = some x ∧ R x y := by
  induction hxy generalizing index with
  | nil => cases hy
  | cons hhead htail ih =>
    cases index with
    | zero =>
      cases hy
      exact ⟨_, rfl, hhead⟩
    | succ index => exact ih index hy

theorem forall₂_eraseIdx {R : α → β → Prop} (xs : List α) (ys : List β) (index : Nat)
    (hxy : List.Forall₂ R xs ys) : List.Forall₂ R (xs.eraseIdx index) (ys.eraseIdx index) := by
  induction hxy generalizing index with
  | nil => exact .nil
  | cons hhead htail ih =>
    cases index with
    | zero => exact htail
    | succ index => exact .cons hhead (ih index)

end Sylar.Lib
