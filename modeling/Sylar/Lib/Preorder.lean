import Mathlib.Algebra.Order.Ring.Int
import Mathlib.Data.List.Basic
import Mathlib.Data.List.Lex

/-! Trees that are given by the list of children of each node, walked in pre-order with the
subtrees of refused nodes cut off. A position is the list of child indices on the way down,
and pre-order is the lexicographic order of positions. -/
namespace Sylar.Lib

variable {α : Type*} (children : α → List α) (keep : α → Bool)

/-- The node at a position below `a`, when it exists and every node on the way is kept. -/
def reach (a : α) : List Nat → Option α
  | [] => if keep a then some a else none
  | i :: position =>
    if keep a then (children a)[i]?.bind fun child => reach child position else none

def reachIn (siblings : List α) : List Nat → Option α
  | [] => none
  | i :: position => siblings[i]?.bind fun child => reach children keep child position

/-- The nodes that `find` knows, in the lexicographic order of their positions. -/
def Lists (find : List Nat → Option α) (nodes : List α) : Prop :=
  ∃ positions : List (List Nat), positions.Pairwise (· < ·) ∧
    (∀ position, position ∈ positions ↔ (find position).isSome) ∧
    nodes.map some = positions.map find

/-- `nodes` is the pre-order traversal of what can be reached from `root`. -/
def Traverses (root : α) (nodes : List α) : Prop :=
  Lists (reach children keep root) nodes

def nextSibling : List Nat → List Nat
  | [] => []
  | i :: position => (i + 1) :: position

theorem reachIn_cons_zero (child : α) (siblings : List α) (position : List Nat) :
    reachIn children keep (child :: siblings) (0 :: position) =
      reach children keep child position :=
  rfl

theorem reachIn_nextSibling (child : α) (siblings : List α) (position : List Nat) :
    reachIn children keep (child :: siblings) (nextSibling position) =
      reachIn children keep siblings position := by
  cases position with
  | nil => rfl
  | cons i position => rfl

theorem nextSibling_lt (position other : List Nat) (hlt : position < other) :
    nextSibling position < nextSibling other := by
  cases position with
  | nil =>
    cases other with
    | nil => exact absurd hlt (List.lt_irrefl [])
    | cons j other => exact List.nil_lt_cons _ _
  | cons i position =>
    cases other with
    | nil => exact absurd hlt (List.not_lt_nil _)
    | cons j other =>
      rw [List.cons_lt_cons_iff] at hlt
      rw [nextSibling, nextSibling, List.cons_lt_cons_iff]
      exact hlt.imp Nat.succ_lt_succ (And.imp_left (congrArg Nat.succ))

theorem reachIn_position (siblings : List α) (position : List Nat)
    (hsome : (reachIn children keep siblings position).isSome) :
    ∃ i rest, position = i :: rest := by
  cases position with
  | nil => cases hsome
  | cons i rest => exact ⟨i, rest, rfl⟩

theorem Lists.cons (child : α) (siblings : List α) (first rest : List α)
    (hfirst : Traverses children keep child first)
    (hrest : Lists (reachIn children keep siblings) rest) :
    Lists (reachIn children keep (child :: siblings)) (first ++ rest) := by
  obtain ⟨here, hhere, hmemHere, hnodesHere⟩ := hfirst
  obtain ⟨later, hlater, hmemLater, hnodesLater⟩ := hrest
  refine ⟨here.map (0 :: ·) ++ later.map nextSibling, ?_, ?_, ?_⟩
  · rw [List.pairwise_append, List.pairwise_map, List.pairwise_map]
    refine ⟨hhere.imp ?_, hlater.imp fun hlt => nextSibling_lt _ _ hlt, ?_⟩
    · intro position other hlt
      rw [List.cons_lt_cons_iff]
      exact .inr ⟨rfl, hlt⟩
    · intro position hposition other hother
      obtain ⟨below, -, rfl⟩ := List.mem_map.mp hposition
      obtain ⟨beside, hbeside, rfl⟩ := List.mem_map.mp hother
      obtain ⟨i, rest, rfl⟩ := reachIn_position children keep siblings beside
        ((hmemLater beside).mp hbeside)
      rw [nextSibling, List.cons_lt_cons_iff]
      exact .inl (Nat.succ_pos i)
  · intro position
    rw [List.mem_append, List.mem_map, List.mem_map]
    constructor
    · rintro (⟨below, hbelow, rfl⟩ | ⟨beside, hbeside, rfl⟩)
      · exact (hmemHere below).mp hbelow
      · rw [reachIn_nextSibling]
        exact (hmemLater beside).mp hbeside
    · intro hsome
      cases position with
      | nil => cases hsome
      | cons i position =>
        cases i with
        | zero => exact .inl ⟨position, (hmemHere position).mpr hsome, rfl⟩
        | succ i => exact .inr ⟨i :: position, (hmemLater (i :: position)).mpr hsome, rfl⟩
  · have hbeside : (reachIn children keep (child :: siblings)) ∘ nextSibling =
        reachIn children keep siblings := by
      funext position
      exact reachIn_nextSibling children keep child siblings position
    have hbelow : (reachIn children keep (child :: siblings)) ∘ (0 :: ·) =
        reach children keep child := by
      funext position
      exact reachIn_cons_zero children keep child siblings position
    rw [List.map_append, List.map_append, List.map_map, List.map_map, hbeside, hbelow, hnodesHere,
      hnodesLater]

theorem Lists.siblings (walk : α → List α) (siblings : List α)
    (hwalk : ∀ child ∈ siblings, Traverses children keep child (walk child)) :
    Lists (reachIn children keep siblings) (siblings.flatMap walk) := by
  induction siblings with
  | nil =>
    refine ⟨[], .nil, ?_, rfl⟩
    intro position
    cases position with
    | nil => simp [reachIn]
    | cons i position => simp [reachIn]
  | cons child siblings ih =>
    rw [List.flatMap_cons]
    apply Lists.cons children keep child siblings _ _ (hwalk child List.mem_cons_self)
    exact ih fun other hother => hwalk other (List.mem_cons_of_mem child hother)

theorem Traverses.kept (walk : α → List α) (a : α) (hkeep : keep a = true)
    (hwalk : ∀ child ∈ children a, Traverses children keep child (walk child)) :
    Traverses children keep a (a :: (children a).flatMap walk) := by
  obtain ⟨below, hbelow, hmem, hnodes⟩ := Lists.siblings children keep walk (children a) hwalk
  have hreach : ∀ position, (reachIn children keep (children a) position).isSome →
      reach children keep a position = reachIn children keep (children a) position := by
    intro position hsome
    obtain ⟨i, rest, rfl⟩ := reachIn_position children keep (children a) position hsome
    rw [reach, if_pos hkeep, reachIn]
  refine ⟨[] :: below, ?_, ?_, ?_⟩
  · refine List.pairwise_cons.mpr ⟨?_, hbelow⟩
    intro position hposition
    obtain ⟨i, rest, rfl⟩ := reachIn_position children keep (children a) position
      ((hmem position).mp hposition)
    exact List.nil_lt_cons i rest
  · intro position
    cases position with
    | nil => simp [reach, hkeep]
    | cons i rest => simp [hmem, reach, reachIn, hkeep]
  · rw [List.map_cons, List.map_cons, hnodes, reach, if_pos hkeep]
    congr 1
    apply List.map_congr_left
    intro position hposition
    exact (hreach position ((hmem position).mp hposition)).symm

theorem Traverses.refused (a : α) (hkeep : keep a = false) : Traverses children keep a [] := by
  refine ⟨[], .nil, ?_, rfl⟩
  intro position
  cases position with
  | nil => simp [reach, hkeep]
  | cons i position => simp [reach, hkeep]

/-- A recursion that stops at refused nodes and otherwise visits the node and then its
children from left to right is the pre-order traversal. -/
theorem traverses_of_recursion (size : α → Nat)
    (hsize : ∀ a, ∀ child ∈ children a, size child < size a) (walk : α → List α)
    (hwalk : ∀ a, walk a = if keep a then a :: (children a).flatMap walk else []) (a : α) :
    Traverses children keep a (walk a) := by
  generalize hbound : size a = bound
  induction bound using Nat.strong_induction_on generalizing a with
  | _ bound ih =>
    rw [hwalk a]
    split
    · rename_i hkeep
      apply Traverses.kept children keep walk a hkeep
      intro child hchild
      exact ih (size child) (hbound ▸ hsize a child hchild) child rfl
    · rename_i hkeep
      exact Traverses.refused children keep a (Bool.eq_false_iff.mpr hkeep)

theorem keep_of_reach (a b : α) (position : List Nat)
    (hreach : reach children keep a position = some b) : keep b = true := by
  induction position generalizing a with
  | nil =>
    rw [reach] at hreach
    split at hreach
    · rename_i hkeep
      exact Option.some.inj hreach ▸ hkeep
    · cases hreach
  | cons i position ih =>
    rw [reach] at hreach
    split at hreach
    · obtain ⟨child, -, hbelow⟩ := Option.bind_eq_some_iff.mp hreach
      exact ih child hbelow
    · cases hreach

theorem Traverses.keep_of_mem (root : α) (nodes : List α)
    (htraverses : Traverses children keep root nodes) (b : α) (hb : b ∈ nodes) :
    keep b = true := by
  obtain ⟨positions, -, -, hnodes⟩ := htraverses
  have hmem : some b ∈ nodes.map some := List.mem_map_of_mem hb
  rw [hnodes] at hmem
  obtain ⟨position, -, hreach⟩ := List.mem_map.mp hmem
  exact keep_of_reach children keep root b position hreach

end Sylar.Lib
