import Mathlib.Data.List.Induction
import Mathlib.Data.List.Lex
import Mathlib.Logic.Function.Basic
import Sylar.Lib.History

/-! `std::map` with a comparator that compares the images of its arguments under some function,
as the list of its entries in iteration order. Keys with the same image are one key, and a map
stands for the partial function from images to values. -/
namespace Sylar.Lib

variable {κ K ν ο : Type*}

/-- `m[key] = val`: the key of an equivalent entry stays. -/
def mapAssign (lt : κ → κ → Bool) (key : κ) (val : ν) : List (κ × ν) → List (κ × ν)
  | [] => [(key, val)]
  | entry :: rest =>
    if lt entry.1 key then entry :: mapAssign lt key val rest
    else if lt key entry.1 then (key, val) :: entry :: rest
    else (entry.1, val) :: rest

def equivalent (lt : κ → κ → Bool) (key : κ) (entry : κ × ν) : Bool :=
  !lt entry.1 key && !lt key entry.1

def mapFind (lt : κ → κ → Bool) (entries : List (κ × ν)) (key : κ) : Option ν :=
  (entries.find? (equivalent lt key)).map Prod.snd

def mapErase (lt : κ → κ → Bool) (entries : List (κ × ν)) (key : κ) : List (κ × ν) :=
  entries.eraseP (equivalent lt key)

/-- An entry of an assignment is an old one, or it has the new value and the new key or an old
one. -/
theorem mem_mapAssign (lt : κ → κ → Bool) (key : κ) (val : ν) (entries : List (κ × ν))
    (entry : κ × ν) (hmem : entry ∈ mapAssign lt key val entries) :
    entry ∈ entries ∨ entry.2 = val ∧ (entry.1 = key ∨ ∃ old ∈ entries, old.1 = entry.1) := by
  induction entries with
  | nil =>
    rw [mapAssign, List.mem_singleton] at hmem
    rw [hmem]
    exact .inr ⟨rfl, .inl rfl⟩
  | cons head tail ih =>
    rw [mapAssign] at hmem
    split at hmem
    · rcases List.mem_cons.mp hmem with rfl | hlater
      · exact .inl List.mem_cons_self
      · rcases ih hlater with hold | ⟨hval, hkey | ⟨old, hold, hkey⟩⟩
        · exact .inl (List.mem_cons_of_mem head hold)
        · exact .inr ⟨hval, .inl hkey⟩
        · exact .inr ⟨hval, .inr ⟨old, List.mem_cons_of_mem head hold, hkey⟩⟩
    · split at hmem
      · rcases List.mem_cons.mp hmem with rfl | hold
        · exact .inr ⟨rfl, .inl rfl⟩
        · exact .inl hold
      · rcases List.mem_cons.mp hmem with rfl | hold
        · exact .inr ⟨rfl, .inr ⟨head, List.mem_cons_self, rfl⟩⟩
        · exact .inl (List.mem_cons_of_mem head hold)

theorem image_mem_mapAssign (lt : κ → κ → Bool) (fold : κ → K) (key : κ) (val : ν)
    (entries : List (κ × ν)) (entry : κ × ν) (hmem : entry ∈ mapAssign lt key val entries) :
    fold entry.1 = fold key ∨ ∃ old ∈ entries, fold old.1 = fold entry.1 := by
  rcases mem_mapAssign lt key val entries entry hmem with hold | ⟨-, hkey | ⟨old, hold, hkey⟩⟩
  · exact .inr ⟨entry, hold, rfl⟩
  · exact .inl (congrArg fold hkey)
  · exact .inr ⟨old, hold, congrArg fold hkey⟩

theorem lookup_cons_if [DecidableEq κ] (entry : κ × ν) (rest : List (κ × ν)) (key : κ) :
    (entry :: rest).lookup key = if key = entry.1 then some entry.2 else rest.lookup key := by
  by_cases heq : key = entry.1
  · rw [if_pos heq, List.lookup_cons, beq_iff_eq.mpr heq]
  · rw [if_neg heq, List.lookup_cons, beq_false_of_ne heq]

theorem lookup_mapAssign [DecidableEq κ] (lt : κ → κ → Bool) (key : κ) (val : ν)
    (entries : List (κ × ν)) (other : κ) (hirrefl : ∀ x, lt x x = false)
    (heq : ∀ x y, lt x y = false → lt y x = false → x = y) :
    (mapAssign lt key val entries).lookup other =
      if other = key then some val else entries.lookup other := by
  induction entries with
  | nil => rw [mapAssign, lookup_cons_if]
  | cons entry rest ih =>
    rw [mapAssign]
    by_cases hbefore : lt entry.1 key = true
    · rw [if_pos hbefore, lookup_cons_if, lookup_cons_if, ih]
      by_cases hother : other = key
      · have hne : other ≠ entry.1 := by
          rintro rfl
          rw [hother, hirrefl] at hbefore
          cases hbefore
        rw [if_pos hother, if_pos hother, if_neg hne]
      · rw [if_neg hother, if_neg hother]
    · rw [if_neg hbefore]
      by_cases hafter : lt key entry.1 = true
      · rw [if_pos hafter, lookup_cons_if]
      · have hsame : entry.1 = key := heq _ _ (by simpa using hbefore) (by simpa using hafter)
        rw [if_neg hafter, lookup_cons_if, lookup_cons_if, hsame]
        split <;> rfl

/-- Different keys have different numbers, below a bound. -/
structure Distinct (find : κ → Option Nat) (bound : Nat) : Prop where
  injective : ∀ key key' n, find key = some n → find key' = some n → key = key'
  bounded : ∀ key n, find key = some n → n < bound

theorem distinct_empty : Distinct (fun _ : κ => none) 0 where
  injective := by
    intro key key' n hn
    cases hn
  bounded := by
    intro key n hn
    cases hn

theorem Distinct.insert [DecidableEq κ] (find find' : κ → Option Nat) (bound : Nat) (key : κ)
    (hdistinct : Distinct find bound)
    (hfind : ∀ other, find' other = if other = key then some bound else find other) :
    Distinct find' (bound + 1) := by
  constructor
  · intro k k' n hk hk'
    rw [hfind] at hk hk'
    by_cases heq : k = key
    · rw [if_pos heq] at hk
      by_cases heq' : k' = key
      · rw [heq, heq']
      · rw [if_neg heq'] at hk'
        exact absurd (Option.some.inj hk).symm (hdistinct.bounded k' n hk').ne
    · rw [if_neg heq] at hk
      by_cases heq' : k' = key
      · rw [if_pos heq'] at hk'
        exact absurd (Option.some.inj hk').symm (hdistinct.bounded k n hk).ne
      · rw [if_neg heq'] at hk'
        exact hdistinct.injective k k' n hk hk'
  · intro k n hk
    rw [hfind] at hk
    split at hk
    · cases hk
      exact Nat.lt_succ_self bound
    · exact Nat.lt_succ_of_lt (hdistinct.bounded k n hk)

section
variable [LinearOrder K]

def Folds (lt : κ → κ → Bool) (fold : κ → K) : Prop :=
  ∀ x y, lt x y = true ↔ fold x < fold y

def Ordered (fold : κ → K) (entries : List (κ × ν)) : Prop :=
  entries.Pairwise fun x y => fold x.1 < fold y.1

def contents (fold : κ → K) (entries : List (κ × ν)) (key : K) : Option ν :=
  (entries.find? fun entry => fold entry.1 = key).map Prod.snd

theorem contents_eq_none (fold : κ → K) (entries : List (κ × ν)) (key : K)
    (hnone : ∀ entry ∈ entries, fold entry.1 ≠ key) : contents fold entries key = none := by
  rw [contents, List.find?_eq_none.mpr]
  · rfl
  · intro entry hentry
    simpa using hnone entry hentry

theorem contents_cons (fold : κ → K) (entry : κ × ν) (entries : List (κ × ν)) :
    contents fold (entry :: entries) =
      Function.update (contents fold entries) (fold entry.1) (some entry.2) := by
  funext key
  by_cases heq : fold entry.1 = key
  · subst heq
    simp [contents]
  · rw [Function.update_of_ne (Ne.symm heq)]
    simp [contents, heq]

theorem Ordered.contents_of_lt (fold : κ → K) (entries : List (κ × ν)) (key : K)
    (hlt : ∀ entry ∈ entries, key < fold entry.1) : contents fold entries key = none :=
  contents_eq_none fold entries key fun entry hentry => (hlt entry hentry).ne'

theorem contents_filter (fold : κ → K) (entries : List (κ × ν)) (keep : κ × ν → Bool) (key : K)
    (hkeep : ∀ entry ∈ entries, fold entry.1 = key → keep entry = true) :
    contents fold (entries.filter keep) key = contents fold entries key := by
  induction entries with
  | nil => rfl
  | cons head tail ih =>
    have htail := ih fun entry hentry => hkeep entry (List.mem_cons_of_mem head hentry)
    rw [contents_cons, List.filter_cons]
    by_cases hsame : fold head.1 = key
    · rw [if_pos (hkeep head List.mem_cons_self hsame), contents_cons, hsame, Function.update_self,
        Function.update_self]
    · rw [Function.update_of_ne (Ne.symm hsame), ← htail]
      split
      · rw [contents_cons, Function.update_of_ne (Ne.symm hsame)]
      · rfl

section
variable {lt : κ → κ → Bool} {fold : κ → K} (hfolds : Folds lt fold)
include hfolds

theorem Folds.equivalent_iff (key : κ) (entry : κ × ν) :
    equivalent lt key entry = true ↔ fold entry.1 = fold key := by
  rw [equivalent, Bool.and_eq_true, Bool.not_eq_true', Bool.not_eq_true', ← Bool.not_eq_true,
    ← Bool.not_eq_true, hfolds, hfolds, not_lt, not_lt]
  exact ⟨fun hle => le_antisymm hle.2 hle.1, fun heq => ⟨heq.ge, heq.le⟩⟩

theorem Folds.mapFind_eq (entries : List (κ × ν)) (key : κ) :
    mapFind lt entries key = contents fold entries (fold key) := by
  have htest : equivalent (ν := ν) lt key = fun entry => decide (fold entry.1 = fold key) := by
    funext entry
    rw [Bool.eq_iff_iff, hfolds.equivalent_iff, decide_eq_true_iff]
  rw [mapFind, contents, htest]

theorem Folds.ordered_mapAssign (key : κ) (val : ν) (entries : List (κ × ν))
    (hordered : Ordered fold entries) : Ordered fold (mapAssign lt key val entries) := by
  induction entries with
  | nil => exact List.pairwise_singleton _ _
  | cons head tail ih =>
    obtain ⟨hhead, htail⟩ := List.pairwise_cons.mp hordered
    rw [mapAssign]
    split
    · rename_i hbefore
      refine List.pairwise_cons.mpr ⟨?_, ih htail⟩
      intro entry hentry
      rcases image_mem_mapAssign lt fold key val tail entry hentry with hsame | ⟨old, hold, hsame⟩
      · rw [hsame]
        exact (hfolds _ _).mp hbefore
      · rw [← hsame]
        exact hhead old hold
    · split
      · rename_i hafter
        refine List.pairwise_cons.mpr ⟨?_, hordered⟩
        intro entry hentry
        have hlt : fold key < fold head.1 := (hfolds _ _).mp hafter
        rcases List.mem_cons.mp hentry with rfl | hlater
        · exact hlt
        · exact hlt.trans (hhead entry hlater)
      · exact List.pairwise_cons.mpr ⟨hhead, htail⟩

theorem Folds.contents_mapAssign (key : κ) (val : ν) (entries : List (κ × ν)) :
    contents fold (mapAssign lt key val entries) =
      Function.update (contents fold entries) (fold key) (some val) := by
  induction entries with
  | nil =>
    rw [mapAssign, contents_cons]
  | cons head tail ih =>
    rw [mapAssign, contents_cons]
    split
    · rename_i hbefore
      rw [contents_cons, ih, Function.update_comm ((hfolds _ _).mp hbefore).ne]
    · rename_i hbefore
      split
      · rw [contents_cons, contents_cons]
      · rename_i hafter
        have hsame : fold head.1 = fold key := by
          rw [hfolds, not_lt] at hbefore hafter
          exact le_antisymm hafter hbefore
        rw [contents_cons, hsame, Function.update_idem]

theorem Folds.contents_mapAssign_same (key : κ) (val : ν) (entries : List (κ × ν)) :
    contents fold (mapAssign lt key val entries) (fold key) = some val := by
  rw [hfolds.contents_mapAssign, Function.update_self]

theorem Folds.contents_mapAssign_other (key : κ) (val : ν) (entries : List (κ × ν)) (other : K)
    (hother : other ≠ fold key) :
    contents fold (mapAssign lt key val entries) other = contents fold entries other := by
  rw [hfolds.contents_mapAssign, Function.update_of_ne hother]

theorem Folds.contents_mapErase (key : κ) (entries : List (κ × ν))
    (hordered : Ordered fold entries) :
    contents fold (mapErase lt entries key) =
      Function.update (contents fold entries) (fold key) none := by
  induction entries with
  | nil =>
    funext other
    rw [Function.update_apply]
    split <;> rfl
  | cons head tail ih =>
    obtain ⟨hhead, htail⟩ := List.pairwise_cons.mp hordered
    rw [contents_cons]
    by_cases hsame : fold head.1 = fold key
    · have htest := (hfolds.equivalent_iff key head).mpr hsame
      rw [mapErase, List.eraseP_cons_of_pos htest, hsame, Function.update_idem]
      have hnone := Ordered.contents_of_lt fold tail (fold key) fun entry hentry =>
        hsame ▸ hhead entry hentry
      rw [← hnone, Function.update_eq_self]
    · have htest : ¬ equivalent lt key head = true := fun htest =>
        hsame ((hfolds.equivalent_iff key head).mp htest)
      rw [mapErase, List.eraseP_cons_of_neg htest, contents_cons, ← mapErase, ih htail,
        Function.update_comm hsame]

theorem Folds.contents_foldl (entries others : List (κ × ν)) (hordered : Ordered fold entries)
    (key : K) :
    contents fold (entries.foldl (fun found entry => mapAssign lt entry.1 entry.2 found) others) key =
      (contents fold entries key).or (contents fold others key) := by
  induction entries generalizing others with
  | nil => rfl
  | cons head tail ih =>
    obtain ⟨hhead, htail⟩ := List.pairwise_cons.mp hordered
    rw [List.foldl_cons, ih _ htail, hfolds.contents_mapAssign, contents_cons]
    by_cases hsame : key = fold head.1
    · subst hsame
      rw [Function.update_self, Function.update_self,
        Ordered.contents_of_lt fold tail _ fun entry hentry => hhead entry hentry]
      rfl
    · rw [Function.update_of_ne hsame, Function.update_of_ne hsame]

omit hfolds in
theorem ordered_mapErase (key : κ) (entries : List (κ × ν)) (hordered : Ordered fold entries) :
    Ordered fold (mapErase lt entries key) :=
  List.Pairwise.sublist List.eraseP_sublist hordered

end

end

section
variable {effect : ο → Option (K × Option ν)} {history : List ο} {found : K → Option ν}

/-- The partial function knows the last write of every key and nothing else. -/
def Reflects (effect : ο → Option (K × Option ν)) (history : List ο) (found : K → Option ν) : Prop :=
  ∀ key value, found key = some value ↔ ∃ time, LastWrite effect history key value time

theorem reflects_nil : Reflects effect [] (fun _ => (none : Option ν)) := by
  intro key value
  simp [lastWrite_nil]

theorem Reflects.skip (op : ο) (hop : effect op = none) (hreflects : Reflects effect history found) :
    Reflects effect (history ++ [op]) found := by
  intro key value
  rw [hreflects key value]
  simp [lastWrite_append, hop]

theorem Reflects.update [DecidableEq K] (op : ο) (key : K) (left : Option ν)
    (hop : effect op = some (key, left)) (hreflects : Reflects effect history found) :
    Reflects effect (history ++ [op]) (Function.update found key left) := by
  intro other value
  simp only [lastWrite_append, hop]
  by_cases hsame : other = key
  · subst hsame
    rw [Function.update_self]
    constructor
    · rintro rfl
      exact ⟨history.length, .inl ⟨rfl, rfl⟩⟩
    · rintro ⟨time, ⟨-, hleft⟩ | ⟨-, hkept⟩⟩
      · cases hleft
        rfl
      · exact absurd rfl (hkept left)
  · rw [Function.update_of_ne hsame, hreflects other value]
    constructor
    · rintro ⟨time, hlast⟩
      refine ⟨time, .inr ⟨hlast, ?_⟩⟩
      rintro left' heq
      cases heq
      exact hsame rfl
    · rintro ⟨time, ⟨-, hleft⟩ | ⟨hlast, -⟩⟩
      · cases hleft
        exact absurd rfl hsame
      · exact ⟨time, hlast⟩

end

section
variable {σ : Type*} [LinearOrder K] {lt : κ → κ → Bool} {fold : κ → K}

def mapWrite (lt : κ → κ → Bool) (write : Option (κ × Option ν)) (entries : List (κ × ν)) :
    List (κ × ν) :=
  match write with
  | none => entries
  | some (key, some val) => mapAssign lt key val entries
  | some (key, none) => mapErase lt entries key

/-- A map that every call of a history writes in one place at most knows the last writes. -/
theorem Folds.reflects_foldl (hfolds : Folds lt fold) (call : σ → ο → σ)
    (map : σ → List (κ × ν)) (write : ο → Option (κ × Option ν))
    (hcall : ∀ s op, map (call s op) = mapWrite lt (write op) (map s)) (s : σ)
    (hempty : map s = []) (history : List ο) :
    Ordered fold (map (history.foldl call s)) ∧
      Reflects (fun op => (write op).map (Prod.map fold id)) history
        (contents fold (map (history.foldl call s))) := by
  induction history using List.reverseRecOn with
  | nil =>
    rw [List.foldl_nil, hempty]
    exact ⟨.nil, reflects_nil⟩
  | append_singleton history op ih =>
    obtain ⟨hordered, hreflects⟩ := ih
    rw [List.foldl_append, List.foldl_cons, List.foldl_nil, hcall]
    match hwrite : write op with
    | none => exact ⟨hordered, hreflects.skip op (by rw [hwrite]; rfl)⟩
    | some (key, some val) =>
      refine ⟨hfolds.ordered_mapAssign key val _ hordered, ?_⟩
      rw [mapWrite, hfolds.contents_mapAssign]
      exact hreflects.update op (fold key) (some val) (by rw [hwrite]; rfl)
    | some (key, none) =>
      refine ⟨ordered_mapErase key _ hordered, ?_⟩
      rw [mapWrite, hfolds.contents_mapErase key _ hordered]
      exact hreflects.update op (fold key) none (by rw [hwrite]; rfl)

end

end Sylar.Lib
