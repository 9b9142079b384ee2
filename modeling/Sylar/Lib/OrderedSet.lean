import Mathlib.Algebra.Order.Ring.Int
import Mathlib.Data.List.Basic
import Mathlib.Order.Basic
import Mathlib.Tactic.Common

/-! `std::set` with a comparator, as the list of its elements in iteration
order. An iterator is the part of the list that starts at its element, and
`end()` is the empty list. On a list that the comparator really sorts, the
linear scans below stop where the tree search does. -/
namespace Sylar.Lib

variable {α : Type*}

/-- A strict weak order under which only equal elements are equivalent. -/
structure Comparator (lt : α → α → Bool) : Prop where
  irrefl : ∀ x, lt x x = false
  trans : ∀ x y z, lt x y = true → lt y z = true → lt x z = true
  total : ∀ x y, x ≠ y → lt x y = true ∨ lt y x = true

def Sorted (lt : α → α → Bool) (xs : List α) : Prop :=
  xs.Pairwise fun x y => lt x y = true

instance Sorted.decidable (lt : α → α → Bool) (xs : List α) : Decidable (Sorted lt xs) :=
  inferInstanceAs (Decidable (xs.Pairwise fun x y => lt x y = true))

/-- `insert`: an equivalent element that is already there stays. -/
def setInsert (lt : α → α → Bool) (x : α) : List α → List α
  | [] => [x]
  | y :: ys =>
    if lt y x then y :: setInsert lt x ys
    else if lt x y then x :: y :: ys
    else y :: ys

def lowerBound (lt : α → α → Bool) (x : α) (xs : List α) : List α :=
  xs.dropWhile fun y => lt y x

/-- `find`: the element equivalent to `x`, or `end()`. -/
def setFind (lt : α → α → Bool) (x : α) (xs : List α) : Option α :=
  match lowerBound lt x xs with
  | [] => none
  | y :: _ => if lt x y then none else some y

theorem setInsert_last (lt : α → α → Bool) (x : α) (xs : List α) (hlast : ∀ y ∈ xs, lt y x = true) :
    setInsert lt x xs = xs ++ [x] := by
  induction xs with
  | nil => rfl
  | cons y ys ih =>
    rw [setInsert, if_pos (hlast y List.mem_cons_self),
      ih fun z hz => hlast z (List.mem_cons_of_mem y hz)]
    rfl

section
variable {lt : α → α → Bool} (hlt : Comparator lt)
include hlt

theorem Sorted.nodup {xs : List α} (hsorted : Sorted lt xs) : xs.Nodup := by
  apply List.Pairwise.imp _ hsorted
  intro x y hxy heq
  rw [heq, hlt.irrefl] at hxy
  contradiction

theorem mem_setInsert (x y : α) (xs : List α) : y ∈ setInsert lt x xs ↔ y = x ∨ y ∈ xs := by
  induction xs with
  | nil => simp [setInsert]
  | cons head tail ih =>
    unfold setInsert
    split
    · rw [List.mem_cons, ih, List.mem_cons]
      exact or_left_comm
    · split
      · rw [List.mem_cons]
      · rename_i hbefore hafter
        have heq : head = x := by
          by_contra hne
          rcases hlt.total head x hne with h | h
          · exact hbefore h
          · exact hafter h
        subst heq
        rw [List.mem_cons]
        simp

theorem sorted_setInsert (x : α) (xs : List α) (hsorted : Sorted lt xs) :
    Sorted lt (setInsert lt x xs) := by
  induction xs with
  | nil => exact List.pairwise_singleton _ _
  | cons head tail ih =>
    have hhead := (List.pairwise_cons.mp hsorted).1
    unfold setInsert
    split
    · rename_i hbefore
      apply List.Pairwise.cons
      · intro y hy
        rcases (mem_setInsert hlt x y tail).mp hy with rfl | hmem
        · exact hbefore
        · exact hhead y hmem
      · exact ih (List.Pairwise.of_cons hsorted)
    · split
      · rename_i hafter
        apply List.Pairwise.cons
        · intro y hy
          rcases List.mem_cons.mp hy with rfl | hmem
          · exact hafter
          · exact hlt.trans x head y hafter (hhead y hmem)
        · exact hsorted
      · exact hsorted

theorem setFind_of_mem (x : α) (xs : List α) (hsorted : Sorted lt xs) (hmem : x ∈ xs) :
    setFind lt x xs = some x := by
  induction xs with
  | nil => cases hmem
  | cons head tail ih =>
    have hhead := (List.pairwise_cons.mp hsorted).1
    rcases List.mem_cons.mp hmem with rfl | htail
    · simp [setFind, lowerBound, hlt.irrefl]
    · have hrest := ih (List.Pairwise.of_cons hsorted) htail
      simpa [setFind, lowerBound, List.dropWhile_cons, hhead x htail] using hrest

end

section
variable {κ : Type*} [LinearOrder κ] (key : α → κ)

/-- A set that is ordered by a key of its elements: `find` goes by the key. -/
theorem setFind_eq_some_iff (x y : α) (xs : List α)
    (hsorted : Sorted (fun a b => decide (key a < key b)) xs) :
    setFind (fun a b => decide (key a < key b)) x xs = some y ↔ y ∈ xs ∧ key y = key x := by
  induction xs with
  | nil => simp [setFind, lowerBound]
  | cons head tail ih =>
    obtain ⟨hhead, htail⟩ := List.pairwise_cons.mp hsorted
    have hlater : ∀ z ∈ tail, key head < key z := fun z hz => of_decide_eq_true (hhead z hz)
    rcases lt_trichotomy (key head) (key x) with hlt | heq | hgt
    · have hskip : setFind (fun a b => decide (key a < key b)) x (head :: tail) =
          setFind (fun a b => decide (key a < key b)) x tail := by
        simp [setFind, lowerBound, hlt]
      rw [hskip, ih htail, List.mem_cons]
      constructor
      · rintro ⟨hmem, hkey⟩
        exact ⟨.inr hmem, hkey⟩
      · rintro ⟨rfl | hmem, hkey⟩
        · exact absurd hkey hlt.ne
        · exact ⟨hmem, hkey⟩
    · have hfound : setFind (fun a b => decide (key a < key b)) x (head :: tail) = some head := by
        simp [setFind, lowerBound, heq]
      rw [hfound, List.mem_cons, Option.some.injEq]
      constructor
      · rintro rfl
        exact ⟨.inl rfl, heq⟩
      · rintro ⟨rfl | hmem, hkey⟩
        · rfl
        · exact absurd (heq.trans hkey.symm) (hlater y hmem).ne
    · have hpast : setFind (fun a b => decide (key a < key b)) x (head :: tail) = none := by
        simp [setFind, lowerBound, hgt.not_gt, hgt]
      rw [hpast, List.mem_cons]
      constructor
      · intro hnone
        cases hnone
      · rintro ⟨rfl | hmem, hkey⟩
        · exact absurd hkey hgt.ne'
        · exact absurd hkey (hgt.trans (hlater y hmem)).ne'

theorem Sorted.nodup_key (xs : List α) (hsorted : Sorted (fun a b => decide (key a < key b)) xs) :
    (xs.map key).Nodup := by
  rw [List.Nodup, List.pairwise_map]
  apply List.Pairwise.imp _ hsorted
  intro x y hlt
  exact (of_decide_eq_true hlt).ne

end

/-- A test that holds of everything before an element of which it holds finds a front part. -/
theorem takeWhile_eq_filter (p : α → Bool) (xs : List α)
    (hdown : xs.Pairwise fun x y => p y = true → p x = true) : xs.takeWhile p = xs.filter p := by
  induction xs with
  | nil => rfl
  | cons x xs ih =>
    obtain ⟨hfirst, hrest⟩ := List.pairwise_cons.mp hdown
    by_cases hx : p x = true
    · rw [List.takeWhile_cons_of_pos hx, List.filter_cons_of_pos hx, ih hrest]
    · rw [List.takeWhile_cons_of_neg hx, List.filter_cons_of_neg hx, List.filter_eq_nil_iff.mpr]
      exact fun y hy hpy => hx (hfirst y hy hpy)

theorem dropWhile_eq_filter_not (p : α → Bool) (xs : List α)
    (hdown : xs.Pairwise fun x y => p y = true → p x = true) :
    xs.dropWhile p = xs.filter fun x => !p x := by
  induction xs with
  | nil => rfl
  | cons x xs ih =>
    obtain ⟨hfirst, hrest⟩ := List.pairwise_cons.mp hdown
    by_cases hx : p x = true
    · rw [List.dropWhile_cons_of_pos hx, List.filter_cons_of_neg (by simp [hx]), ih hrest]
    · rw [List.dropWhile_cons_of_neg hx, eq_comm, List.filter_eq_self]
      intro y hy
      rcases List.mem_cons.mp hy with rfl | hmem
      · simpa using hx
      · simpa using fun hpy => hx (hfirst y hmem hpy)

/-- A front part and what is level with its end: `lower_bound`, and from there on a loop. -/
theorem lowerBound_then_level (below level within : α → Bool) (xs : List α)
    (hdown : xs.Pairwise fun x y => below y = true → below x = true)
    (hlevel : (xs.dropWhile below).Pairwise fun x y => level y = true → level x = true)
    (hwithin : ∀ x ∈ xs, within x = (below x || level x)) :
    xs.takeWhile below ++ (xs.drop (xs.takeWhile below).length).takeWhile level =
      xs.filter within := by
  have hsplit : xs.takeWhile below ++ xs.dropWhile below = xs := List.takeWhile_append_dropWhile
  have hdrop : xs.drop (xs.takeWhile below).length = xs.dropWhile below :=
    (congrArg (List.drop _) hsplit).symm.trans List.drop_left
  have hfront : (xs.takeWhile below).filter within = xs.takeWhile below := by
    rw [List.filter_eq_self]
    intro x hx
    rw [takeWhile_eq_filter below xs hdown, List.mem_filter] at hx
    rw [hwithin x hx.1, hx.2]
    rfl
  have hback : (xs.dropWhile below).filter within = (xs.dropWhile below).filter level := by
    apply List.filter_congr
    intro x hx
    rw [dropWhile_eq_filter_not below xs hdown, List.mem_filter, Bool.not_eq_true'] at hx
    rw [hwithin x hx.1, hx.2]
    rfl
  calc xs.takeWhile below ++ (xs.drop (xs.takeWhile below).length).takeWhile level
      = xs.takeWhile below ++ (xs.dropWhile below).filter level := by
        rw [hdrop, takeWhile_eq_filter level _ hlevel]
    _ = (xs.takeWhile below ++ xs.dropWhile below).filter within := by
        rw [List.filter_append, hfront, hback]
    _ = xs.filter within := by rw [hsplit]

/-- The order of a list depends on the comparator only at its own elements. -/
theorem Sorted.congr {lt lt' : α → α → Bool} {xs : List α}
    (hagree : ∀ x ∈ xs, ∀ y ∈ xs, lt x y = lt' x y) (hsorted : Sorted lt xs) : Sorted lt' xs := by
  apply List.Pairwise.imp_of_mem _ hsorted
  intro x y hx hy hxy
  rw [← hagree x hx y hy]
  exact hxy

end Sylar.Lib
