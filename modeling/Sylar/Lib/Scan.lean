import Mathlib.Data.List.GetD

/-! Scanners that are given state by state: a case is the list of its tests on the next byte with
the label that each jumps to, and a byte goes to the first label whose test it passes.

What a scanner makes of a text is put together from what it makes of its parts, each read between
what has been read and what is still to come. -/
namespace Sylar.Lib

abbrev CharClass := List (Nat × Nat)

def one (c : Nat) : CharClass := [(c, c)]

namespace CharClass

def has (bytes : CharClass) (c : UInt8) : Bool :=
  bytes.any fun range => Nat.ble range.1 c.toNat && Nat.ble c.toNat range.2

theorem has_append (bytes others : CharClass) (c : UInt8) :
    has (bytes ++ others) c = (bytes.has c || others.has c) :=
  List.any_append

/-- Every byte of the class belongs to one range of the other. -/
def within (bytes others : CharClass) : Bool :=
  bytes.all fun range => others.any fun other => Nat.ble other.1 range.1 && Nat.ble range.2 other.2

theorem has_of_within (bytes others : CharClass) (c : UInt8)
    (hwithin : bytes.within others = true) (hhas : bytes.has c = true) : others.has c = true := by
  obtain ⟨range, hrange, hc⟩ := List.any_eq_true.mp hhas
  obtain ⟨other, hother, hle⟩ := List.any_eq_true.mp (List.all_eq_true.mp hwithin range hrange)
  apply List.any_eq_true.mpr
  refine ⟨other, hother, ?_⟩
  simp only [Bool.and_eq_true, Nat.ble_eq] at hc hle ⊢
  exact ⟨Nat.le_trans hle.1 hc.1, Nat.le_trans hc.2 hle.2⟩

/-- A text of bytes of one class that begins with one of another class. -/
def Spells (bytes lead : CharClass) (text : List UInt8) : Prop :=
  (∀ c ∈ text, bytes.has c = true) ∧ ∀ c, text.head? = some c → lead.has c = true

theorem spells_iff (bytes lead : CharClass) (text : List UInt8) :
    (text.all bytes.has && text.head?.all lead.has) = true ↔ Spells bytes lead text := by
  cases text <;> simp [Spells]

instance Spells.decidable (bytes lead : CharClass) (text : List UInt8) :
    Decidable (Spells bytes lead text) :=
  decidable_of_iff _ (spells_iff bytes lead text)

theorem spells_of_within (narrow bytes lead : CharClass) (text : List UInt8)
    (hnarrow : ∀ c ∈ text, narrow.has c = true) (hbytes : narrow.within bytes = true)
    (hlead : narrow.within lead = true) : Spells bytes lead text :=
  ⟨fun c hc => has_of_within narrow bytes c hbytes (hnarrow c hc),
    fun c hc => has_of_within narrow lead c hlead (hnarrow c (List.mem_of_head? hc))⟩

theorem forall_byte (test : UInt8 → Bool)
    (hall : ((List.range 256).all fun n => test (UInt8.ofNat n)) = true) (c : UInt8) :
    test c = true := by
  have hbyte := List.all_eq_true.mp hall c.toNat (List.mem_range.mpr c.toNat_lt)
  rw [UInt8.ofNat_toNat] at hbyte
  exact hbyte

end CharClass

/-- Where a case jumps to: the actions there, and the state that follows. -/
structure Label (α : Type) where
  actions : List α
  target : Nat
deriving DecidableEq

abbrev Case (α : Type) := List (CharClass × Label α)

section
variable {α : Type}

def st (n : Nat) : Label α := ⟨[], n⟩

def jump (cases : List (Case α)) (cs : Nat) (c : UInt8) : Option (Label α) :=
  ((cases.getD cs []).find? fun test => test.1.has c).map Prod.snd

/-- What a test on the cases, their states and their labels finds, it finds of every jump. -/
theorem of_jump (cases : List (Case α)) (test : Nat → CharClass → Label α → Bool)
    (hall : (cases.zipIdx.all fun entry =>
      entry.1.all fun jump => test entry.2 jump.1 jump.2) = true)
    (cs : Nat) (c : UInt8) (label : Label α) (hjump : jump cases cs c = some label) :
    ∃ bytes : CharClass, bytes.has c = true ∧ test cs bytes label = true := by
  obtain ⟨⟨bytes, other⟩, hfind, rfl⟩ := Option.map_eq_some_iff.mp hjump
  have hfound := List.find?_some hfind
  refine ⟨bytes, hfound, ?_⟩
  have hmem := List.mem_of_find?_eq_some hfind
  rcases Nat.lt_or_ge cs cases.length with hlt | hge
  · rw [List.getD_eq_getElem _ _ hlt] at hmem
    have hcase : (cases[cs], cs) ∈ cases.zipIdx :=
      List.mem_zipIdx_iff_getElem?.mpr (List.getElem?_eq_getElem hlt)
    exact List.all_eq_true.mp (List.all_eq_true.mp hall _ hcase) _ hmem
  · rw [List.getD_eq_default _ _ hge] at hmem
    cases hmem

variable (goto : Nat → UInt8 → Option (Label α))

/-- The state after bytes on which nothing is done, where all states stay below a bound. -/
def plainRun (bound cs : Nat) : List UInt8 → Option Nat
  | [] => some cs
  | c :: rest =>
    match goto cs c with
    | none => none
    | some label =>
      if label.actions.isEmpty ∧ label.target < bound then plainRun bound label.target rest
      else none

def onClass (cs : Nat) (bytes : CharClass) (test : Label α → Bool) : Bool :=
  (List.range 256).all fun n =>
    !bytes.has (UInt8.ofNat n) || (goto cs (UInt8.ofNat n)).any test

theorem of_onClass (cs : Nat) (bytes : CharClass) (test : Label α → Bool) (c : UInt8)
    (hclass : onClass goto cs bytes test = true) (hhas : bytes.has c = true) :
    ∃ label, goto cs c = some label ∧ test label = true := by
  have hbyte := CharClass.forall_byte (fun c => !bytes.has c || (goto cs c).any test) hclass c
  rw [hhas, Bool.not_true, Bool.false_or, Option.any_eq_true] at hbyte
  exact hbyte

end

section
variable {β σ ρ : Type*} (exec : List β → Nat → List β → σ → ρ)

/-- Between `before` and anything else the loop goes through `bytes` and takes `p` to `q`. -/
def Reads (before bytes : List β) (p q : σ) : Prop :=
  ∀ after, exec (before ++ (bytes ++ after)) before.length (bytes ++ after) p =
    exec (before ++ (bytes ++ after)) (before ++ bytes).length after q

variable (before bytes more : List β) (c : β) (p q r : σ)

theorem Reads.nil : Reads exec before [] p p := by
  intro after
  rw [List.append_nil]
  rfl

theorem Reads.trans (hfirst : Reads exec before bytes p q)
    (hsecond : Reads exec (before ++ bytes) more q r) : Reads exec before (bytes ++ more) p r := by
  intro after
  have hone := hfirst (more ++ after)
  have htwo := hsecond after
  rw [List.append_assoc before bytes] at htwo
  rw [List.append_assoc bytes more after, hone, htwo, List.append_assoc before bytes more]

theorem Reads.cons (hone : Reads exec before [c] p q)
    (hrest : Reads exec (before ++ [c]) bytes q r) : Reads exec before (c :: bytes) p r :=
  Reads.trans exec before [c] bytes p q r hone hrest

/-- Parts that are read one after the other, each of which takes the state on by `next`. -/
theorem Reads.flatMap {γ δ : Type*} (text : γ → List β) (stands : δ → σ → Prop) (next : δ → γ → δ)
    (parts : List γ) (hpart : ∀ part ∈ parts, ∀ before d p, stands d p →
      ∃ q, Reads exec before (text part) p q ∧ stands (next d part) q)
    (before : List β) (d : δ) (p : σ) (hp : stands d p) :
    ∃ q, Reads exec before (parts.flatMap text) p q ∧ stands (parts.foldl next d) q := by
  induction parts generalizing before d p with
  | nil => exact ⟨p, Reads.nil exec before p, hp⟩
  | cons part parts ih =>
    obtain ⟨q, hfirst, hq⟩ := hpart part List.mem_cons_self before d p hp
    obtain ⟨r, hrest, hr⟩ := ih (fun other hother => hpart other (List.mem_cons_of_mem part hother))
      (before ++ text part) (next d part) q hq
    refine ⟨r, ?_, hr⟩
    rw [List.flatMap_cons]
    exact Reads.trans exec before (text part) _ p q r hfirst hrest

end

/-- Bytes on which nothing is done, where `mid cs` is the parser in a state. -/
theorem Reads.plain {α : Type} {σ ρ : Type*} (exec : List UInt8 → Nat → List UInt8 → σ → ρ)
    (goto : Nat → UInt8 → Option (Label α)) (bound : Nat) (mid : Nat → σ)
    (hsilent : ∀ before c cs target, goto cs c = some (st target) → target < bound →
      Reads exec before [c] (mid cs) (mid target))
    (before bytes : List UInt8) (cs cs' : Nat) (hrun : plainRun goto bound cs bytes = some cs') :
    Reads exec before bytes (mid cs) (mid cs') := by
  induction bytes generalizing before cs with
  | nil =>
    cases hrun
    exact Reads.nil exec before (mid _)
  | cons c rest ih =>
    rw [plainRun] at hrun
    cases hgoto : goto cs c with
    | none =>
      rw [hgoto] at hrun
      cases hrun
    | some label =>
      obtain ⟨actions, target⟩ := label
      rw [hgoto] at hrun
      obtain ⟨⟨hnone, hlive⟩, hrest⟩ := Option.ite_none_right_eq_some.mp hrun
      dsimp only at hnone hlive hrest
      rw [List.isEmpty_iff.mp hnone] at hgoto
      exact Reads.cons exec before rest c _ _ _ (hsilent before c cs target hgoto hlive)
        (ih (before ++ [c]) target hrest)

end Sylar.Lib
