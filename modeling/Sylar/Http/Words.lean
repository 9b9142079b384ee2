import Sylar.Http.Safety

/-! How the parser goes through the words of a head: bytes of one class, words with percent
escapes, and fixed texts. -/
namespace Sylar
namespace Http11
open HttpRequestParser
open Lib (CharClass st)

/-- Between `before` and anything else the loop goes through `bytes` and takes `p` to `q`. -/
abbrev Reads (relaxed : Bool) (before bytes : List UInt8) (p q : HttpRequestParser Nat) : Prop :=
  Lib.Reads (exec (machine relaxed)) before bytes p q

section
variable (relaxed : Bool) (before : List UInt8) (c : UInt8) (cs : Nat) (label : Label)
  (p q : HttpRequestParser Nat)

theorem Reads.one (hcs : p.parser.cs = some cs) (hgoto : goto relaxed cs c = some label)
    (hlive : label.target < 348)
    (hacts : ∀ after, acts (before ++ c :: after) before.length p label.actions = .ok q) :
    Reads relaxed before [c] p { q with parser.cs := some label.target } := by
  intro after
  have hfinal : ¬ (machine relaxed).final label.target = true := fun htrue =>
    Nat.not_le_of_lt hlive (Nat.ble_eq.mp htrue)
  rw [List.singleton_append, exec_jump relaxed _ after c before.length cs label p q hcs hgoto
    (hacts after), if_neg hfinal, List.length_append]
  rfl

theorem Reads.silent (hcs : p.parser.cs = some cs) (target : Nat)
    (hgoto : goto relaxed cs c = some (st target)) (hlive : target < 348) :
    Reads relaxed before [c] p { p with parser.cs := some target } :=
  Reads.one relaxed before c cs (st target) p p hcs hgoto hlive fun _ => rfl

end

theorem setState_self (p : HttpRequestParser Nat) (cs : Nat) (hcs : p.parser.cs = some cs) :
    { p with parser.cs := some cs } = p := by
  rw [← hcs]

abbrev plainRun (relaxed : Bool) (cs : Nat) (bytes : List UInt8) : Option Nat :=
  Lib.plainRun (goto relaxed) 348 cs bytes

theorem Reads.plain (relaxed : Bool) (before bytes : List UInt8) (cs cs' : Nat)
    (p : HttpRequestParser Nat) (hcs : p.parser.cs = some cs)
    (hrun : plainRun relaxed cs bytes = some cs') :
    Reads relaxed before bytes p { p with parser.cs := some cs' } := by
  have hplain := Lib.Reads.plain (exec (machine relaxed)) (goto relaxed) 348
    (fun cs => { p with parser.cs := some cs })
    (fun before c cs target hgoto hlive =>
      Reads.silent relaxed before c cs { p with parser.cs := some cs } rfl target hgoto hlive)
    before bytes cs cs' hrun
  rw [setState_self p cs hcs] at hplain
  exact hplain

def onClass (relaxed : Bool) (cs : Nat) (bytes : CharClass) (label : Label) : Bool :=
  Lib.onClass (goto relaxed) cs bytes fun found => decide (found = label)

theorem goto_of_onClass (relaxed : Bool) (cs : Nat) (bytes : CharClass) (label : Label) (c : UInt8)
    (hclass : onClass relaxed cs bytes label = true) (hhas : bytes.has c = true) :
    goto relaxed cs c = some label := by
  obtain ⟨found, hgoto, hsame⟩ := Lib.of_onClass (goto relaxed) cs bytes _ c hclass hhas
  rw [hgoto, of_decide_eq_true hsame]

theorem Reads.loop (relaxed : Bool) (before word : List UInt8) (cs : Nat) (bytes : CharClass)
    (p : HttpRequestParser Nat) (hcs : p.parser.cs = some cs) (hlive : cs < 348)
    (hclass : onClass relaxed cs bytes (st cs) = true) (hword : ∀ c ∈ word, bytes.has c = true) :
    Reads relaxed before word p p := by
  have hrun : plainRun relaxed cs word = some cs := by
    induction word with
    | nil => rfl
    | cons c rest ih =>
      have hgoto := goto_of_onClass relaxed cs bytes (st cs) c hclass (hword c List.mem_cons_self)
      rw [plainRun, Lib.plainRun, hgoto]
      dsimp only [st]
      rw [if_pos ⟨rfl, hlive⟩]
      exact ih fun d hd => hword d (List.mem_cons_of_mem c hd)
  have hreads := Reads.plain relaxed before word cs cs p hcs hrun
  rw [setState_self p cs hcs] at hreads
  exact hreads

/-- A word of bytes of a class and of percent signs with two digits behind them. `due` is how many
digits are still to come. -/
def escaped (bytes : CharClass) : (due : Nat) → List UInt8 → Bool
  | due, [] => due == 0
  | 0, c :: rest => if c = 37 then escaped bytes 2 rest else bytes.has c && escaped bytes 0 rest
  | due + 1, c :: rest => xdigit.has c && escaped bytes due rest

/-- The states of a word: the one it stays in, and those behind a percent sign and its first
digit. -/
structure WordStates where
  main : Nat
  percent : Nat
  digit : Nat

namespace WordStates

def waiting (states : WordStates) : Nat → Nat
  | 0 => states.main
  | 1 => states.digit
  | _ => states.percent

def ok (states : WordStates) (relaxed : Bool) (bytes : CharClass) : Bool :=
  onClass relaxed states.main bytes (st states.main) &&
    onClass relaxed states.main (Lib.one 37) (st states.percent) &&
    onClass relaxed states.percent xdigit (st states.digit) &&
    onClass relaxed states.digit xdigit (st states.main) &&
    decide (states.main < 348 ∧ states.percent < 348 ∧ states.digit < 348)

theorem plainRun_escaped (states : WordStates) (relaxed : Bool) (bytes : CharClass)
    (hok : states.ok relaxed bytes = true) (due : Nat) (word : List UInt8) (hdue : due ≤ 2)
    (hword : escaped bytes due word = true) :
    plainRun relaxed (states.waiting due) word = some states.main := by
  simp only [ok, Bool.and_eq_true, decide_eq_true_eq] at hok
  obtain ⟨⟨⟨⟨hmain, hpercent⟩, hfirst⟩, hsecond⟩, hmainLive, hpercentLive, hdigitLive⟩ := hok
  induction word generalizing due with
  | nil =>
    rw [escaped, beq_iff_eq] at hword
    rw [hword]
    rfl
  | cons c rest ih =>
    match due with
    | 0 =>
      rw [escaped] at hword
      split at hword
      · rename_i hc
        have hgoto := goto_of_onClass relaxed _ _ _ c hpercent (by rw [hc]; rfl)
        rw [waiting, plainRun, Lib.plainRun, hgoto]
        dsimp only [st]
        rw [if_pos ⟨rfl, hpercentLive⟩]
        exact ih 2 (Nat.le_refl 2) hword
      · obtain ⟨hc, hrest⟩ := Bool.and_eq_true_iff.mp hword
        have hgoto := goto_of_onClass relaxed _ _ _ c hmain hc
        rw [waiting, plainRun, Lib.plainRun, hgoto]
        dsimp only [st]
        rw [if_pos ⟨rfl, hmainLive⟩]
        exact ih 0 (Nat.zero_le 2) hrest
    | 1 =>
      obtain ⟨hc, hrest⟩ := Bool.and_eq_true_iff.mp hword
      have hgoto := goto_of_onClass relaxed _ _ _ c hsecond hc
      rw [waiting, plainRun, Lib.plainRun, hgoto]
      dsimp only [st]
      rw [if_pos ⟨rfl, hmainLive⟩]
      exact ih 0 (Nat.zero_le 2) hrest
    | 2 =>
      obtain ⟨hc, hrest⟩ := Bool.and_eq_true_iff.mp hword
      have hgoto := goto_of_onClass relaxed _ _ _ c hfirst hc
      rw [waiting, plainRun, Lib.plainRun, hgoto]
      dsimp only [st]
      rw [if_pos ⟨rfl, hdigitLive⟩]
      exact ih 1 (Nat.le_succ 1) hrest
      all_goals omega
    | due + 3 => omega

end WordStates

theorem Reads.word (states : WordStates) (relaxed : Bool) (before : List UInt8) (c : UInt8)
    (rest : List UInt8) (cs : Nat) (bytes : CharClass) (actions : List ParserAction)
    (p q : HttpRequestParser Nat) (hok : states.ok relaxed bytes = true)
    (hcs : p.parser.cs = some cs)
    (hplain : bytes.has c = true → goto relaxed cs c = some ⟨actions, states.main⟩)
    (hpercent : c = 37 → goto relaxed cs c = some ⟨actions, states.percent⟩)
    (hacts : ∀ after, acts (before ++ c :: after) before.length p actions = .ok q)
    (hword : escaped bytes 0 (c :: rest) = true) :
    Reads relaxed before (c :: rest) p { q with parser.cs := some states.main } := by
  have hlive := hok
  simp only [WordStates.ok, Bool.and_eq_true, decide_eq_true_eq] at hlive
  obtain ⟨-, hmainLive, hpercentLive, -⟩ := hlive
  rw [escaped] at hword
  split at hword
  · have hgoto := hpercent ‹_›
    apply Lib.Reads.cons _ before rest c p _ _
      (Reads.one relaxed before c cs _ p q hcs hgoto hpercentLive hacts)
    exact Reads.plain relaxed _ rest states.percent states.main _ rfl
      (states.plainRun_escaped relaxed bytes hok 2 rest (Nat.le_refl 2) hword)
  · obtain ⟨hc, hrest⟩ := Bool.and_eq_true_iff.mp hword
    have hgoto := hplain hc
    apply Lib.Reads.cons _ before rest c p _ _
      (Reads.one relaxed before c cs _ p q hcs hgoto hmainLive hacts)
    exact Reads.plain relaxed _ rest states.main states.main _ rfl
      (states.plainRun_escaped relaxed bytes hok 0 rest (Nat.zero_le 2) hrest)

end Http11
end Sylar
