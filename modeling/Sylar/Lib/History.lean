import Mathlib.Algebra.Order.Ring.Int
import Mathlib.Data.List.Nodup
import Mathlib.Tactic.Common

/-! Histories of a keyed store. The effect of an operation is the key it writes and what it
leaves there, which is nothing when it deletes; an operation on something else has none.
A chronological table keeps one entry for each key that is there, in the order of the last
writes. -/
namespace Sylar.Lib

variable {ο κ ν : Type*}

/-- The operation at `time` wrote `value` under `key`, and no later one touched the key. -/
def LastWrite (effect : ο → Option (κ × Option ν)) (history : List ο) (key : κ) (value : ν)
    (time : Nat) : Prop :=
  (∃ op, history[time]? = some op ∧ effect op = some (key, some value)) ∧
    ∀ later op left, time < later → history[later]? = some op → effect op ≠ some (key, left)

def Chronological (effect : ο → Option (κ × Option ν)) (history : List ο)
    (entries : List (κ × ν)) : Prop :=
  ∃ timed : List ((κ × ν) × Nat), timed.map Prod.fst = entries ∧
    timed.Pairwise (fun x y => x.2 < y.2) ∧
    ∀ key value time, ((key, value), time) ∈ timed ↔ LastWrite effect history key value time

section
variable {effect : ο → Option (κ × Option ν)} {history : List ο} {entries : List (κ × ν)}

theorem LastWrite.time_lt (key : κ) (value : ν) (time : Nat)
    (hlast : LastWrite effect history key value time) : time < history.length := by
  obtain ⟨op, hop, -⟩ := hlast.1
  exact (List.getElem?_eq_some_iff.mp hop).1

theorem lastWrite_nil (key : κ) (value : ν) (time : Nat) :
    ¬ LastWrite effect [] key value time := by
  intro hlast
  exact Nat.not_lt_zero time (hlast.time_lt key value time)

theorem lastWrite_append (op : ο) (key : κ) (value : ν) (time : Nat) :
    LastWrite effect (history ++ [op]) key value time ↔
      (time = history.length ∧ effect op = some (key, some value)) ∨
      (LastWrite effect history key value time ∧ ∀ left, effect op ≠ some (key, left)) := by
  constructor
  · rintro ⟨⟨written, hwritten, heffect⟩, hlater⟩
    rcases Nat.lt_trichotomy time history.length with hlt | heq | hgt
    · right
      rw [List.getElem?_append_left hlt] at hwritten
      refine ⟨⟨⟨written, hwritten, heffect⟩, ?_⟩, ?_⟩
      · intro later other left hafter hother
        apply hlater later other left hafter
        rw [List.getElem?_append_left (List.getElem?_eq_some_iff.mp hother).1]
        exact hother
      · intro left
        exact hlater history.length op left hlt (by simp)
    · left
      subst heq
      simp at hwritten
      subst hwritten
      exact ⟨rfl, heffect⟩
    · rw [List.getElem?_eq_none (by simp; omega)] at hwritten
      contradiction
  · rintro (⟨rfl, heffect⟩ | ⟨hlast, hop⟩)
    · refine ⟨⟨op, by simp, heffect⟩, ?_⟩
      intro later other left hafter hother
      rw [List.getElem?_eq_none (by simp; omega)] at hother
      contradiction
    · obtain ⟨⟨written, hwritten, heffect⟩, hlater⟩ := hlast
      refine ⟨⟨written, ?_, heffect⟩, ?_⟩
      · rw [List.getElem?_append_left (List.getElem?_eq_some_iff.mp hwritten).1]
        exact hwritten
      · intro later other left hafter hother
        by_cases hlt : later < history.length
        · rw [List.getElem?_append_left hlt] at hother
          exact hlater later other left hafter hother
        · have heq : later = history.length := by
            have hbound := (List.getElem?_eq_some_iff.mp hother).1
            simp at hbound
            omega
          subst heq
          simp at hother
          subst hother
          exact hop left

theorem LastWrite.unique (key : κ) (value value' : ν) (time time' : Nat)
    (hlast : LastWrite effect history key value time)
    (hlast' : LastWrite effect history key value' time') : time = time' ∧ value = value' := by
  obtain ⟨⟨op, hop, heffect⟩, hlater⟩ := hlast
  obtain ⟨⟨op', hop', heffect'⟩, hlater'⟩ := hlast'
  rcases Nat.lt_trichotomy time time' with hlt | heq | hgt
  · exact absurd heffect' (hlater time' op' _ hlt hop')
  · subst heq
    rw [hop] at hop'
    cases hop'
    rw [heffect] at heffect'
    cases heffect'
    exact ⟨rfl, rfl⟩
  · exact absurd heffect (hlater' time op _ hgt hop)

theorem chronological_nil : Chronological effect [] ([] : List (κ × ν)) := by
  refine ⟨[], rfl, .nil, ?_⟩
  intro key value time
  simp [lastWrite_nil]

theorem Chronological.skip (op : ο) (hop : effect op = none)
    (hchron : Chronological effect history entries) :
    Chronological effect (history ++ [op]) entries := by
  obtain ⟨timed, hentries, hsorted, hmem⟩ := hchron
  refine ⟨timed, hentries, hsorted, ?_⟩
  intro key value time
  rw [lastWrite_append, hmem, hop]
  simp

section
variable [DecidableEq κ]

theorem Chronological.erase (op : ο) (key : κ) (hop : effect op = some (key, none))
    (hchron : Chronological effect history entries) :
    Chronological effect (history ++ [op]) (entries.filter fun entry => entry.1 ≠ key) := by
  obtain ⟨timed, rfl, hsorted, hmem⟩ := hchron
  refine ⟨timed.filter fun entry => entry.1.1 ≠ key, ?_, hsorted.filter _, ?_⟩
  · rw [List.filter_map]
    rfl
  · intro other value time
    rw [lastWrite_append, List.mem_filter, hmem, hop]
    simp only [decide_eq_true_eq]
    constructor
    · rintro ⟨hlast, hne⟩
      right
      refine ⟨hlast, ?_⟩
      intro left heq
      cases heq
      exact hne rfl
    · rintro (⟨-, heq⟩ | ⟨hlast, hne⟩)
      · cases heq
      · refine ⟨hlast, ?_⟩
        intro heq
        exact hne none (by rw [heq])

theorem Chronological.write (op : ο) (key : κ) (value : ν)
    (hop : effect op = some (key, some value))
    (hchron : Chronological effect history entries) :
    Chronological effect (history ++ [op])
      ((entries.filter fun entry => entry.1 ≠ key) ++ [(key, value)]) := by
  obtain ⟨timed, rfl, hsorted, hmem⟩ := hchron
  refine ⟨(timed.filter fun entry => entry.1.1 ≠ key) ++ [((key, value), history.length)],
    ?_, ?_, ?_⟩
  · rw [List.map_append, List.filter_map]
    rfl
  · rw [List.pairwise_append]
    refine ⟨hsorted.filter _, List.pairwise_singleton _ _, ?_⟩
    intro entry hentry last hlast
    rw [List.mem_singleton] at hlast
    subst hlast
    exact LastWrite.time_lt entry.1.1 entry.1.2 entry.2
      ((hmem _ _ _).mp (List.mem_filter.mp hentry).1)
  · intro other written time
    rw [lastWrite_append, List.mem_append, List.mem_filter, hmem, hop, List.mem_singleton]
    simp only [decide_eq_true_eq]
    constructor
    · rintro (⟨hlast, hne⟩ | heq)
      · right
        refine ⟨hlast, ?_⟩
        intro left heq
        cases heq
        exact hne rfl
      · cases heq
        exact .inl ⟨rfl, rfl⟩
    · rintro (⟨rfl, heq⟩ | ⟨hlast, hne⟩)
      · cases heq
        exact .inr rfl
      · left
        refine ⟨hlast, ?_⟩
        intro heq
        exact hne (some value) (by rw [heq])

end

theorem Chronological.nodup (hchron : Chronological effect history entries) :
    (entries.map Prod.fst).Nodup := by
  obtain ⟨timed, rfl, hsorted, hmem⟩ := hchron
  rw [List.map_map, List.Nodup, List.pairwise_map]
  apply List.Pairwise.imp_of_mem _ hsorted
  intro x y hx hy hlt heq
  have hlastX := (hmem x.1.1 x.1.2 x.2).mp hx
  have hlastY := (hmem y.1.1 y.1.2 y.2).mp hy
  have hkey : x.1.1 = y.1.1 := heq
  rw [hkey] at hlastX
  have htime := (hlastX.unique _ _ _ _ _ hlastY).1
  omega

/-- The first entry that passes a test on keys is the one written earliest. -/
theorem Chronological.find?_eq (test : κ → Bool) (key : κ) (value : ν) (time : Nat)
    (hchron : Chronological effect history entries)
    (hlast : LastWrite effect history key value time) (htest : test key = true)
    (hfirst : ∀ other value' time', LastWrite effect history other value' time' →
      test other = true → time ≤ time') :
    entries.find? (fun entry => test entry.1) = some (key, value) := by
  obtain ⟨timed, rfl, hsorted, hmem⟩ := hchron
  obtain ⟨before, after, rfl⟩ := List.append_of_mem ((hmem key value time).mpr hlast)
  rw [List.map_append, List.find?_append, List.find?_eq_none.mpr, Option.none_or]
  · simp [htest]
  · intro entry hentry htrue
    obtain ⟨⟨⟨other, value'⟩, time'⟩, hother, rfl⟩ := List.mem_map.mp hentry
    have hle := hfirst other value' time'
      ((hmem other value' time').mp (List.mem_append_left _ hother)) htrue
    have hlt := (List.pairwise_append.mp hsorted).2.2 _ hother _ List.mem_cons_self
    exact Nat.not_le_of_lt hlt hle

theorem Chronological.find?_none (test : κ → Bool)
    (hchron : Chronological effect history entries)
    (hnone : ∀ key value time, LastWrite effect history key value time → test key = false) :
    entries.find? (fun entry => test entry.1) = none := by
  obtain ⟨timed, rfl, -, hmem⟩ := hchron
  rw [List.find?_eq_none]
  intro entry hentry htrue
  obtain ⟨⟨⟨key, value⟩, time⟩, hkey, rfl⟩ := List.mem_map.mp hentry
  have hfalse := hnone key value time ((hmem key value time).mp hkey)
  rw [hfalse] at htrue
  contradiction

end

/-- Erasing the first entry of a key erases the key when no key occurs twice. -/
theorem eraseP_key [DecidableEq κ] (key : κ) (entries : List (κ × ν))
    (hnodup : (entries.map Prod.fst).Nodup) :
    entries.eraseP (fun entry => entry.1 = key) = entries.filter fun entry => entry.1 ≠ key := by
  induction entries with
  | nil => rfl
  | cons entry entries ih =>
    obtain ⟨hhead, htail⟩ := List.nodup_cons.mp hnodup
    by_cases heq : entry.1 = key
    · subst heq
      rw [List.eraseP_cons_of_pos (by simp), List.filter_cons_of_neg (by simp)]
      symm
      apply List.filter_eq_self.mpr
      intro other hother
      simp only [decide_eq_true_eq]
      intro hsame
      exact hhead (hsame ▸ List.mem_map_of_mem hother)
    · rw [List.eraseP_cons_of_neg (by simpa using heq), List.filter_cons_of_pos (by simpa using heq),
        ih htail]

end Sylar.Lib
