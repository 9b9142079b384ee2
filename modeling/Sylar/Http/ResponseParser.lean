import Mathlib.Algebra.Order.Ring.Int
import Mathlib.Tactic.Common
import Sylar.Http.Request
import Sylar.Lib.Run

/-! `HttpResponseParser::execute` of `http_parser.cc`, over `httpclient_parser_execute` of
`httpclient_parser.rl`.

The states and transitions of the generated machine are a parameter. The registers hold offsets
into the buffer of a call. No call resets them, nor the counter `nread`. -/
namespace Sylar

/-- The actions of `httpclient_parser.rl`, apart from `done`. -/
inductive ClientAction where
  | mark | startField | writeField | startValue | writeContentLen | writeConnectionClose
  | writeValue | reasonPhrase | statusCode | httpVersion | chunkSize | transChunked
deriving DecidableEq

/-- `next` is `none` for a transition into the error state. The finishing action `done` is on
the transitions into a final state, and breaks. The error state has no `case` of its own:
`behindSwitch` is the state of the first label there, which a call in the error state comes to. -/
structure ClientMachine (σ : Type) where
  start : σ
  behindSwitch : σ
  next : σ → UInt8 → Option (σ × List ClientAction)
  final : σ → Bool

/-- `cs` is `none` in the error state. The others are of type `size_t`. -/
structure HttpclientParser (σ : Type) where
  cs : Option σ
  bodyStart : Nat
  nread : Nat
  mark : Nat
  fieldStart : Nat
  fieldLen : Nat
deriving DecidableEq

namespace HttpclientParser
variable {σ : Type}

def new (machine : ClientMachine σ) : HttpclientParser σ where
  cs := some machine.start
  bodyStart := 0
  nread := 0
  mark := 0
  fieldStart := 0
  fieldLen := 0

/-- The difference of two values of type `size_t`. -/
def subSize (a b : Nat) : Nat :=
  if b ≤ a then a - b else a + 2 ^ 64 - b

/-- One action, at the byte with offset `fpc`. The callbacks write the response and the error of
the `HttpResponseParser`, which nothing below looks at. -/
def act (fpc : Nat) (p : HttpclientParser σ) : ClientAction → HttpclientParser σ
  | .mark | .startValue => { p with mark := fpc }
  | .startField => { p with fieldStart := fpc }
  | .writeField => { p with fieldLen := subSize fpc p.fieldStart }
  | .writeContentLen | .writeConnectionClose | .writeValue | .reasonPhrase | .statusCode
  | .httpVersion | .chunkSize | .transChunked => p

def acts (fpc : Nat) (p : HttpclientParser σ) (actions : List ClientAction) :
    HttpclientParser σ :=
  actions.foldl (act fpc) p

/-- The generated loop over the bytes from offset `fpc` on. With the parser comes the offset
that it stops at. -/
def exec (machine : ClientMachine σ) :
    Nat → List UInt8 → HttpclientParser σ → HttpclientParser σ × Nat
  | fpc, [], p => (p, fpc)
  | fpc, c :: rest, p =>
    match p.cs with
    | none => ({ p with cs := some machine.behindSwitch }, fpc)
    | some s =>
      match machine.next s c with
      | none => ({ p with cs := none }, fpc)
      | some (s', actions) =>
        let p' := acts fpc { p with cs := some s' } actions
        if machine.final s' then ({ p' with bodyStart := fpc + 1 }, fpc + 1)
        else exec machine (fpc + 1) rest p'

def toInt (n : Nat) : Int :=
  Int.bmod n (2 ^ 32)

def toSize (n : Int) : Nat :=
  (n % 2 ^ 64).toNat

/-- With `off` 0, on a buffer that has its NUL behind the `len` bytes. `none` is a failed
assertion. -/
def httpclientParserExecute (machine : ClientMachine σ) (p : HttpclientParser σ)
    (buffer : List UInt8) : Option (HttpclientParser σ × Int) :=
  let len := buffer.length
  if (len : Int) ≠ toInt len then none
  else
    let (p', fpc) := exec machine 0 buffer p
    let p' := { p' with nread := (p'.nread + fpc) % 2 ^ 64 }
    if fpc ≤ len ∧ p'.nread ≤ len ∧ p'.bodyStart ≤ len then
      if p'.mark < len ∧ p'.fieldLen ≤ len ∧ p'.fieldStart < len then some (p', toInt p'.nread)
      else some (p', -1)
    else none

/-- The bytes of `data` after `memmove(data, data + offset, count)`, or `none` where it moves a
byte from outside. -/
def memmove (data : List UInt8) (offset count : Nat) : Option (List UInt8) :=
  if offset + count ≤ data.length then some ((data.drop offset).take count ++ data.drop count)
  else none

/-- `HttpResponseParser::execute`: the parser, the result and the bytes at `data`. -/
def execute (machine : ClientMachine σ) (p : HttpclientParser σ) (data : List UInt8) :
    Option (HttpclientParser σ × Nat × Option (List UInt8)) := do
  let (p', result) ← httpclientParserExecute machine p data
  let offset := toSize result
  let count := subSize data.length offset
  return (p', offset, memmove data offset count)

def step (machine : ClientMachine σ) (p : HttpclientParser σ) (data : List UInt8) :
    Option (HttpclientParser σ) :=
  (execute machine p data).map Prod.fst

def consumed (machine : ClientMachine σ) (p : HttpclientParser σ) (data : List UInt8) : Nat :=
  (exec machine 0 data p).2

/-- The call returns what it has consumed, and leaves the other bytes at the front. -/
def Delivers (machine : ClientMachine σ) (p : HttpclientParser σ) (data : List UInt8) : Prop :=
  ∃ p' left, execute machine p data = some (p', consumed machine p data, some left) ∧
    consumed machine p data ≤ data.length ∧
    left.take (data.length - consumed machine p data) = data.drop (consumed machine p data)

/-- Nothing was consumed before, and the length is positive and an `int`. -/
def First (p : HttpclientParser σ) (data : List UInt8) : Prop :=
  p.nread = 0 ∧ 0 < data.length ∧ data.length < 2 ^ 31

instance First.decidable (p : HttpclientParser σ) (data : List UInt8) : Decidable (First p data) :=
  inferInstanceAs (Decidable (_ ∧ _ ∧ _))

theorem act_nread (fpc : Nat) (p : HttpclientParser σ) (action : ClientAction) :
    (act fpc p action).nread = p.nread := by
  cases action <;> simp only [act]

theorem acts_nread (fpc : Nat) (p : HttpclientParser σ) (actions : List ClientAction) :
    (acts fpc p actions).nread = p.nread := by
  induction actions generalizing p with
  | nil => rfl
  | cons action actions ih => exact (ih (act fpc p action)).trans (act_nread fpc p action)

theorem exec_cons (machine : ClientMachine σ) (fpc : Nat) (c : UInt8) (rest : List UInt8)
    (p : HttpclientParser σ) :
    (∃ cs, exec machine fpc (c :: rest) p = ({ p with cs := cs }, fpc)) ∨
      ∃ cs actions,
        exec machine fpc (c :: rest) p =
            ({ acts fpc { p with cs := cs } actions with bodyStart := fpc + 1 }, fpc + 1) ∨
          exec machine fpc (c :: rest) p =
            exec machine (fpc + 1) rest (acts fpc { p with cs := cs } actions) := by
  simp only [exec]
  split
  · exact .inl ⟨some machine.behindSwitch, rfl⟩
  · split
    · exact .inl ⟨none, rfl⟩
    · rename_i s' actions hnext
      refine .inr ⟨some s', actions, ?_⟩
      split
      · exact .inl rfl
      · exact .inr rfl

theorem exec_nread (machine : ClientMachine σ) (fpc : Nat) (rest : List UInt8)
    (p : HttpclientParser σ) : (exec machine fpc rest p).1.nread = p.nread := by
  induction rest generalizing fpc p with
  | nil => rfl
  | cons c rest ih =>
    rcases exec_cons machine fpc c rest p with ⟨cs, heq⟩ | ⟨cs, actions, heq | heq⟩
    · rw [heq]
    · rw [heq]
      exact acts_nread fpc _ actions
    · rw [heq, ih]
      exact acts_nread fpc _ actions

theorem exec_bounds (machine : ClientMachine σ) (fpc : Nat) (rest : List UInt8)
    (p : HttpclientParser σ) :
    fpc ≤ (exec machine fpc rest p).2 ∧ (exec machine fpc rest p).2 ≤ fpc + rest.length := by
  induction rest generalizing fpc p with
  | nil => exact ⟨Nat.le_refl fpc, Nat.le_refl fpc⟩
  | cons c rest ih =>
    rw [List.length_cons]
    rcases exec_cons machine fpc c rest p with ⟨cs, heq⟩ | ⟨cs, actions, heq | heq⟩
    · rw [heq]
      exact ⟨Nat.le_refl fpc, Nat.le_add_right fpc _⟩
    · rw [heq]
      dsimp only
      omega
    · have hrest := ih (fpc + 1) (acts fpc { p with cs := cs } actions)
      rw [heq]
      omega

structure Registers where
  bodyStart : Nat
  mark : Nat
  fieldStart : Nat
  fieldLen : Nat
deriving DecidableEq

def registers (p : HttpclientParser σ) : Registers where
  bodyStart := p.bodyStart
  mark := p.mark
  fieldStart := p.fieldStart
  fieldLen := p.fieldLen

theorem exec_still (machine : ClientMachine σ) (fpc : Nat) (rest : List UInt8)
    (p : HttpclientParser σ) (hstill : (exec machine fpc rest p).2 = fpc) :
    (exec machine fpc rest p).1.registers = p.registers := by
  cases rest with
  | nil => rfl
  | cons c rest =>
    rcases exec_cons machine fpc c rest p with ⟨cs, heq⟩ | ⟨cs, actions, heq | heq⟩
    · rw [heq]
      rfl
    · rw [heq] at hstill
      dsimp only at hstill
      omega
    · have hmoved := (exec_bounds machine (fpc + 1) rest (acts fpc { p with cs := cs } actions)).1
      rw [heq] at hstill
      omega

/-- The registers fit a buffer of `len` bytes of which `fpc` have been looked at. -/
structure Fits (len fpc : Nat) (p : HttpclientParser σ) : Prop where
  mark : p.mark < len
  fieldStart : p.fieldStart ≤ fpc ∧ p.fieldStart < len
  fieldLen : p.fieldLen ≤ len
  bodyStart : p.bodyStart ≤ len

theorem act_fits (len fpc : Nat) (p : HttpclientParser σ) (action : ClientAction)
    (hp : Fits len fpc p) (hfpc : fpc < len) : Fits len fpc (act fpc p action) := by
  cases action with
  | mark | startValue => exact { hp with mark := hfpc }
  | startField => exact { hp with fieldStart := ⟨Nat.le_refl fpc, hfpc⟩ }
  | writeField =>
    have hstart := hp.fieldStart
    have hle : subSize fpc p.fieldStart ≤ len := by
      rw [subSize, if_pos hstart.1]
      omega
    exact { hp with fieldLen := hle }
  | _ => exact hp

theorem acts_fits (len fpc : Nat) (p : HttpclientParser σ) (actions : List ClientAction)
    (hp : Fits len fpc p) (hfpc : fpc < len) : Fits len fpc (acts fpc p actions) := by
  induction actions generalizing p with
  | nil => exact hp
  | cons action actions ih => exact ih _ (act_fits len fpc p action hp hfpc)

theorem exec_fits (machine : ClientMachine σ) (len fpc : Nat) (rest : List UInt8)
    (p : HttpclientParser σ) (hrest : fpc + rest.length = len) (hp : Fits len fpc p) :
    Fits len (exec machine fpc rest p).2 (exec machine fpc rest p).1 := by
  induction rest generalizing fpc p with
  | nil => exact hp
  | cons c rest ih =>
    rw [List.length_cons] at hrest
    rcases exec_cons machine fpc c rest p with ⟨cs, heq⟩ | ⟨cs, actions, hmoved⟩
    · rw [heq]
      exact { hp with }
    · have hacts := acts_fits len fpc { p with cs := cs } actions { hp with } (by omega)
      have hstart := hacts.fieldStart
      rcases hmoved with heq | heq
      · rw [heq]
        have hbody : fpc + 1 ≤ len := by omega
        exact { hacts with fieldStart := ⟨Nat.le_succ_of_le hstart.1, hstart.2⟩, bodyStart := hbody }
      · rw [heq]
        exact ih (fpc + 1) _ (by omega)
          { hacts with fieldStart := ⟨Nat.le_succ_of_le hstart.1, hstart.2⟩ }

theorem toInt_eq_iff (n : Nat) : (n : Int) = toInt n ↔ n < 2 ^ 31 := by
  have hbmod := Int.bmod_def n (2 ^ 32)
  unfold toInt
  split at hbmod <;> omega

theorem toSize_toInt (n : Nat) (hn : n < 2 ^ 31) : toSize (toInt n) = n := by
  rw [← (toInt_eq_iff n).mpr hn]
  unfold toSize
  omega

def Checked (p : HttpclientParser σ) (len : Nat) : Prop :=
  p.mark < len ∧ p.fieldLen ≤ len ∧ p.fieldStart < len

instance Checked.decidable (p : HttpclientParser σ) (len : Nat) : Decidable (Checked p len) :=
  inferInstanceAs (Decidable (_ ∧ _ ∧ _))

def counted (machine : ClientMachine σ) (p : HttpclientParser σ) (data : List UInt8) :
    HttpclientParser σ :=
  let (p', fpc) := exec machine 0 data p
  { p' with nread := (p'.nread + fpc) % 2 ^ 64 }

theorem counted_nread (machine : ClientMachine σ) (p : HttpclientParser σ) (data : List UInt8) :
    (counted machine p data).nread = (p.nread + consumed machine p data) % 2 ^ 64 := by
  rw [← exec_nread machine 0 data p]
  rfl

theorem consumed_le (machine : ClientMachine σ) (p : HttpclientParser σ) (data : List UInt8) :
    consumed machine p data ≤ data.length := by
  have hbounds := (exec_bounds machine 0 data p).2
  rwa [Nat.zero_add] at hbounds

theorem httpclientParserExecute_eq (machine : ClientMachine σ) (p : HttpclientParser σ)
    (buffer : List UInt8) :
    httpclientParserExecute machine p buffer =
      if buffer.length < 2 ^ 31 ∧ (counted machine p buffer).nread ≤ buffer.length ∧
          (counted machine p buffer).bodyStart ≤ buffer.length then
        some (counted machine p buffer,
          if Checked (counted machine p buffer) buffer.length
          then toInt (counted machine p buffer).nread else -1)
      else none := by
  unfold httpclientParserExecute
  by_cases hshort : buffer.length < 2 ^ 31
  · rw [if_neg (not_not_intro ((toInt_eq_iff buffer.length).mpr hshort))]
    by_cases hasserts : (counted machine p buffer).nread ≤ buffer.length ∧
        (counted machine p buffer).bodyStart ≤ buffer.length
    · rw [if_pos ⟨hshort, hasserts⟩]
      refine (if_pos ⟨consumed_le machine p buffer, hasserts⟩).trans ?_
      by_cases hchecked : Checked (counted machine p buffer) buffer.length
      · rw [if_pos hchecked]
        exact if_pos hchecked
      · rw [if_neg hchecked]
        exact if_neg hchecked
    · rw [if_neg (fun hall => hasserts hall.2)]
      exact if_neg (fun hall => hasserts hall.2)
  · rw [if_pos (fun heq => hshort ((toInt_eq_iff buffer.length).mp heq)),
      if_neg (fun hall => hshort hall.1)]

structure Returns (machine : ClientMachine σ) (p : HttpclientParser σ) (data : List UInt8)
    (p' : HttpclientParser σ) (offset : Nat) (moved : Option (List UInt8)) : Prop where
  short : data.length < 2 ^ 31
  nread : p'.nread ≤ data.length
  bodyStart : p'.bodyStart ≤ data.length
  parser : p' = counted machine p data
  result : offset = if Checked p' data.length then p'.nread else 2 ^ 64 - 1
  front : moved = memmove data offset (subSize data.length offset)

theorem execute_eq_some_iff (machine : ClientMachine σ) (p p' : HttpclientParser σ)
    (data : List UInt8) (offset : Nat) (moved : Option (List UInt8)) :
    execute machine p data = some (p', offset, moved) ↔
      Returns machine p data p' offset moved := by
  have hresult (q : HttpclientParser σ) (hnread : q.nread ≤ data.length)
      (hshort : data.length < 2 ^ 31) :
      toSize (if Checked q data.length then toInt q.nread else -1) =
        if Checked q data.length then q.nread else 2 ^ 64 - 1 := by
    split
    · exact toSize_toInt q.nread (by omega)
    · decide
  unfold execute
  rw [httpclientParserExecute_eq]
  constructor
  · intro hexecute
    split at hexecute
    · rename_i hasserts
      obtain ⟨hshort, hnread, hbody⟩ := hasserts
      simp only [Option.bind_eq_bind, Option.bind_some, Option.pure_def, Option.some.injEq,
        Prod.mk.injEq, hresult _ hnread hshort] at hexecute
      obtain ⟨rfl, hoffset, hmoved⟩ := hexecute
      exact ⟨hshort, hnread, hbody, rfl, hoffset.symm, by rw [← hmoved, hoffset]⟩
    · cases hexecute
  · rintro ⟨hshort, hnread, hbody, rfl, hoffset, hmoved⟩
    rw [if_pos ⟨hshort, hnread, hbody⟩]
    simp only [Option.bind_eq_bind, Option.bind_some, Option.pure_def, hresult _ hnread hshort,
      ← hoffset, hmoved]

/-- What every run keeps: as long as nothing has been consumed, nothing has been written. -/
structure Intact (p : HttpclientParser σ) : Prop where
  nread : p.nread < 2 ^ 31
  registers : p.nread = 0 → p.registers = ⟨0, 0, 0, 0⟩

theorem new_intact (machine : ClientMachine σ) : Intact (new machine) :=
  ⟨Nat.two_pow_pos 31, fun _ => rfl⟩

theorem Intact.fits (p : HttpclientParser σ) (len : Nat) (hp : Intact p) (hfresh : p.nread = 0)
    (hpos : 0 < len) : Fits len 0 p := by
  have hregisters := hp.registers hfresh
  simp only [HttpclientParser.registers, Registers.mk.injEq] at hregisters
  obtain ⟨hbody, hmark, hstart, hlength⟩ := hregisters
  constructor <;> omega

theorem step_intact (machine : ClientMachine σ) (p : HttpclientParser σ) (data : List UInt8)
    (p' : HttpclientParser σ) (hp : Intact p) (hstep : step machine p data = some p') :
    Intact p' := by
  obtain ⟨⟨p', offset, moved⟩, hexecute, rfl⟩ := Option.map_eq_some_iff.mp hstep
  have hreturns := (execute_eq_some_iff machine p p' data offset moved).mp hexecute
  have hshort := hreturns.short
  have hnread := hreturns.nread
  refine ⟨by dsimp only; omega, ?_⟩
  intro hzero
  dsimp only at hzero ⊢
  have hparser := hreturns.parser
  have hconsumed := consumed_le machine p data
  have hold := hp.nread
  rw [hparser, counted_nread] at hzero
  have hstill : consumed machine p data = 0 := by omega
  rw [hparser]
  show (exec machine 0 data p).1.registers = _
  rw [exec_still machine 0 data p hstill]
  exact hp.registers (by omega)

theorem memmove_of_le (data : List UInt8) (offset : Nat) (hle : offset ≤ data.length) :
    memmove data offset (subSize data.length offset) =
      some (data.drop offset ++ data.drop (data.length - offset)) := by
  rw [memmove, subSize, if_pos hle, if_pos (by omega), List.take_of_length_le]
  rw [List.length_drop]

theorem delivers_iff (machine : ClientMachine σ) (p : HttpclientParser σ) (data : List UInt8)
    (hp : Intact p) : Delivers machine p data ↔ First p data := by
  have hconsumed := consumed_le machine p data
  have hold := hp.nread
  constructor
  · rintro ⟨p', left, hexecute, -, -⟩
    obtain ⟨hshort, hnread, -, hparser, hoffset, hmoved⟩ :=
      (execute_eq_some_iff machine p p' data _ _).mp hexecute
    split at hoffset
    · rename_i hchecked
      have hlen := hchecked.1
      rw [hparser, counted_nread] at hoffset
      exact ⟨by omega, by omega, hshort⟩
    · omega
  · rintro ⟨hfresh, hpos, hshort⟩
    have hfits := hp.fits p data.length hfresh hpos
    have hstop := exec_fits machine data.length 0 data p (Nat.zero_add _) hfits
    have hnread : (counted machine p data).nread = consumed machine p data := by
      rw [counted_nread]
      omega
    have hchecked : Checked (counted machine p data) data.length :=
      ⟨hstop.mark, hstop.fieldLen, hstop.fieldStart.2⟩
    refine ⟨counted machine p data, _, (execute_eq_some_iff machine p _ data _ _).mpr
      ⟨hshort, by omega, hstop.bodyStart, rfl, ?_, (memmove_of_le data _ hconsumed).symm⟩,
      hconsumed, ?_⟩
    · rw [if_pos hchecked, hnread]
    · rw [← List.length_drop, List.take_left]

/-- The calls of a run are right as long as nothing was consumed before them, and the first one
that comes behind consumed bytes, or with no bytes or too many, is wrong. -/
theorem response_calls_iff (machine : ClientMachine σ) (buffers : List (List UInt8)) :
    Lib.Meets (step machine) (Delivers machine) (new machine) buffers ↔
      Lib.Meets (step machine) First (new machine) buffers :=
  Lib.meets_congr (Delivers machine) First Intact (step_intact machine)
    (delivers_iff machine) buffers (new machine) (new_intact machine)

def statusLine : ClientMachine Nat where
  start := 1
  behindSwitch := 2
  next
    | 1, 72 => some (8, [.mark])
    | 8, 84 => some (9, [])
    | 9, 84 => some (10, [])
    | 10, 80 => some (11, [])
    | _, _ => none
  final s := decide (s = 120)

/-- A status line in two buffers, and an empty buffer: the bytes before `data` move too. -/
theorem response_calls_split :
    ¬ Lib.Meets (step statusLine) (Delivers statusLine) (new statusLine)
        [octets "HT", octets "TP"] ∧
      ¬ Lib.Meets (step statusLine) (Delivers statusLine) (new statusLine) [[]] ∧
      execute statusLine (new statusLine) [] = some (new statusLine, 2 ^ 64 - 1, none) := by
  refine ⟨?_, ?_, by decide +kernel⟩
  · intro hmeets
    have hrun : Lib.run (step statusLine) (new statusLine) [octets "HT"] =
        some { new statusLine with cs := some 9, nread := 2 } := by
      decide +kernel
    have hsecond := (Lib.Meets.of_append (Delivers statusLine) [octets "HT"] [octets "TP"] _ _
      hmeets hrun).2.1
    have hfirst := (delivers_iff statusLine _ _ ⟨by decide, by decide⟩).mp hsecond
    exact absurd hfirst.1 (by decide)
  · intro hmeets
    have hfirst := (delivers_iff statusLine _ _ (new_intact statusLine)).mp hmeets.1
    exact absurd hfirst.2.1 (by decide)

end HttpclientParser
end Sylar
