import Sylar.Http.Printed

/-! The parts of the head of a response as a dump writes them.

Where the machine is depends on what the headers are called and say. It is enough to know in which
part of a line it is: a part is a set of states with the same jumps, up to the states in the next
part. -/
namespace Sylar
namespace Httpclient
open HttpResponseParser
open HttpRequestParser (stringAt tokenFrom lengthFrom lengthFrom_ok stringAt_between
  tokenFrom_between)
open Lib (CharClass)

/-- Between `before` and anything else the loop goes through `bytes` and takes `p` to `q`. -/
abbrev Reads (before bytes : List UInt8) (p q : HttpResponseParser Nat) : Prop :=
  Lib.Reads (exec machine) before bytes p q

def lineStates : List Nat := [20, 36, 43, 62, 113]

/-- In front of a line, or of the end of the head, that follows a value that is not empty. -/
def headStates : List Nat := [20, 43]

def nameStates : List Nat :=
  21 :: List.range' 25 10 ++ List.range' 44 17 ++ List.range' 73 7 ++ List.range' 90 5 ++
    List.range' 101 11 ++ [117]

def colonStates : List Nat := [22, 35, 61, 112]

def valueStates : List Nat := 23 :: List.range' 81 7 ++ List.range' 96 5 ++ [119]

def emptyStates : List Nat := [24, 80, 95, 118]

def returnStates : List Nat := [24, 71, 88]

def goes (states : List Nat) (bytes : CharClass) (actions : List (List ClientAction))
    (next : List Nat) : Bool :=
  states.all fun cs => Lib.onClass goto cs bytes fun label =>
    next.contains label.target && actions.contains label.actions && Nat.blt label.target 120

theorem line_jumps :
    goes lineStates token [[.startField], [.writeConnectionClose, .startField],
      [.startValue, .startField]] nameStates = true ∧
    goes nameStates token [[]] nameStates = true ∧
    goes nameStates (Lib.one 58) [[.writeField]] colonStates = true ∧
    goes colonStates (Lib.one 32) [[.startValue]] colonStates = true := by
  decide +kernel

theorem value_jumps :
    goes colonStates leadByte [[.startValue]] valueStates = true ∧
    goes valueStates valueByte [[]] valueStates = true ∧
    goes valueStates (Lib.one 13) [[.writeValue], [.writeContentLen, .writeValue]]
      returnStates = true ∧
    goes returnStates (Lib.one 10) [[], [.transChunked]] headStates = true ∧
    goes colonStates (Lib.one 13) [[.startValue, .writeValue]] emptyStates = true ∧
    goes emptyStates (Lib.one 10) [[]] lineStates = true := by
  decide +kernel

theorem of_goes (states : List Nat) (bytes : CharClass) (actions : List (List ClientAction))
    (next : List Nat) (hgoes : goes states bytes actions next = true) (cs : Nat) (hcs : cs ∈ states)
    (c : UInt8) (hc : bytes.has c = true) :
    ∃ label, goto cs c = some label ∧ label.target ∈ next ∧ label.actions ∈ actions ∧
      label.target < 120 := by
  have hclass := List.all_eq_true.mp hgoes cs hcs
  obtain ⟨label, hlabel, htest⟩ := Lib.of_onClass goto cs bytes _ c hclass hc
  rw [Bool.and_eq_true, Bool.and_eq_true, List.contains_iff_mem, List.contains_iff_mem,
    Nat.blt_eq] at htest
  exact ⟨label, hlabel, htest.1.1, htest.1.2, htest.2⟩

section
variable (before rest : List UInt8) (c : UInt8) (cs fpc : Nat) (label : Label)
  (p q : HttpResponseParser Nat)

theorem exec_jump (buffer : List UInt8) (hcs : p.parser.cs = some cs)
    (hgoto : goto cs c = some label)
    (hacts : acts buffer fpc { p with parser.cs := some label.target } label.actions = .ok q) :
    exec machine buffer fpc (c :: rest) p =
      if Nat.ble 120 label.target then .ok ({ q with parser.bodyStart := fpc + 1 }, fpc + 1)
      else exec machine buffer (fpc + 1) rest q := by
  have hnext : machine.next cs c = some (label.target, label.actions) := by
    simp only [machine, hgoto, Option.map_some]
  simp only [exec, hcs, hnext, hacts]
  rfl

theorem Reads.one (hcs : p.parser.cs = some cs) (hgoto : goto cs c = some label)
    (hlive : label.target < 120)
    (hacts : ∀ after, acts (before ++ c :: after) before.length
      { p with parser.cs := some label.target } label.actions = .ok q) :
    Reads before [c] p q := by
  intro after
  have hfinal : ¬ Nat.ble 120 label.target = true := fun htrue =>
    Nat.not_le_of_lt hlive (Nat.ble_eq.mp htrue)
  rw [List.singleton_append, exec_jump after c cs before.length label p q _ hcs hgoto (hacts after),
    if_neg hfinal, List.length_append]
  rfl

end

/-- The parser is in one of the states, has this response, and has met no error. -/
structure Stands (states : List Nat) (data : HttpResponse) (p : HttpResponseParser Nat) : Prop where
  cs : ∃ cs ∈ states, p.parser.cs = some cs
  data : p.data = data
  error : p.error = 0

section
variable (before word : List UInt8) (c : UInt8) (states next : List Nat) (bytes : CharClass)
  (data : HttpResponse) (p : HttpResponseParser Nat)

theorem reads_loop (hgoes : goes states bytes [[]] states = true) (hp : Stands states data p)
    (hword : ∀ c ∈ word, bytes.has c = true) :
    ∃ cs ∈ states, Reads before word p { p with parser.cs := some cs } := by
  induction word generalizing before p with
  | nil =>
    obtain ⟨cs, hmem, hcs⟩ := hp.cs
    refine ⟨cs, hmem, ?_⟩
    have hself : { p with parser.cs := some cs } = p := by rw [← hcs]
    rw [hself]
    exact Lib.Reads.nil _ before p
  | cons c word ih =>
    obtain ⟨cs, hmem, hcs⟩ := hp.cs
    obtain ⟨label, hgoto, htarget, hactions, hlive⟩ := of_goes states bytes _ states hgoes cs hmem c
      (hword c List.mem_cons_self)
    have hone : Reads before [c] p { p with parser.cs := some label.target } := by
      refine Reads.one before c cs label p _ hcs hgoto hlive fun after => ?_
      rw [List.mem_singleton.mp hactions]
      rfl
    obtain ⟨last, hlast, hrest⟩ := ih (before ++ [c]) { p with parser.cs := some label.target }
      ⟨⟨_, htarget, rfl⟩, hp.data, hp.error⟩ fun d hd => hword d (List.mem_cons_of_mem c hd)
    exact ⟨last, hlast, Lib.Reads.cons _ before word c p _ _ hone hrest⟩

theorem reads_byte (actions : List (List ClientAction))
    (hgoes : goes states bytes actions next = true) (hp : Stands states data p)
    (hc : bytes.has c = true) (result : HttpResponseParser Nat → Prop)
    (hacts : ∀ list ∈ actions, ∀ cs ∈ next, ∃ q, result q ∧ ∀ after,
      acts (before ++ c :: after) before.length { p with parser.cs := some cs } list = .ok q) :
    ∃ q, Reads before [c] p q ∧ result q := by
  obtain ⟨cs, hmem, hcs⟩ := hp.cs
  obtain ⟨label, hgoto, htarget, hactions, hlive⟩ := of_goes states bytes _ next hgoes cs hmem c hc
  obtain ⟨q, hq, hall⟩ := hacts label.actions hactions label.target htarget
  exact ⟨q, Reads.one before c cs label p q hcs hgoto hlive hall, hq⟩

end

structure Names (name before : List UInt8) (p : HttpResponseParser Nat) : Prop where
  fieldStart : p.parser.fieldStart = before.length
  fieldLen : p.parser.fieldLen = name.length

def IsName (name : List UInt8) : Prop := name ≠ [] ∧ ∀ c ∈ name, token.has c = true

def IsValue (value : List UInt8) : Prop := Lib.CharClass.Spells valueByte leadByte value

theorem isSpace_leadByte (c : UInt8) (hc : leadByte.has c = true) : isSpace c = false := by
  have hbyte := CharClass.forall_byte (fun c => !leadByte.has c || !isSpace c) (by decide +kernel) c
  simpa [hc] using hbyte

section
variable (before name value : List UInt8) (data : HttpResponse) (p : HttpResponseParser Nat)

theorem reads_lead (c : UInt8) (hp : Stands lineStates data p) (hc : token.has c = true) :
    ∃ q, Reads before [c] p q ∧ Stands nameStates data q ∧
      q.parser.fieldStart = before.length := by
  apply reads_byte before c lineStates nameStates token data p _ line_jumps.1 hp hc
  intro list hlist cs hcs
  simp only [List.mem_cons, List.not_mem_nil, or_false] at hlist
  rcases hlist with rfl | rfl | rfl
  · exact ⟨{ p with parser.cs := some cs, parser.fieldStart := before.length },
      ⟨⟨⟨cs, hcs, rfl⟩, hp.data, hp.error⟩, rfl⟩, fun _ => rfl⟩
  · exact ⟨{ p with parser.cs := some cs, parser.fieldStart := before.length, close := true },
      ⟨⟨⟨cs, hcs, rfl⟩, hp.data, hp.error⟩, rfl⟩, fun _ => rfl⟩
  · exact ⟨{ p with parser.cs := some cs, parser.fieldStart := before.length,
                    parser.mark := before.length },
      ⟨⟨⟨cs, hcs, rfl⟩, hp.data, hp.error⟩, rfl⟩, fun _ => rfl⟩

theorem reads_name (hp : Stands lineStates data p) (hname : IsName name) :
    ∃ q, Reads before (name ++ [58]) p q ∧ Stands colonStates data q ∧ Names name before q := by
  obtain ⟨hsome, htoken⟩ := hname
  obtain ⟨c, rest, rfl⟩ := List.exists_cons_of_ne_nil hsome
  obtain ⟨p₁, hlead, hp₁, hstart⟩ := reads_lead before data p c hp (htoken c List.mem_cons_self)
  obtain ⟨cs, hcs, hrest⟩ := reads_loop (before ++ [c]) rest nameStates token data p₁ line_jumps.2.1
    hp₁ fun d hd => htoken d (List.mem_cons_of_mem c hd)
  have hp₂ : Stands nameStates data { p₁ with parser.cs := some cs } :=
    ⟨⟨cs, hcs, rfl⟩, hp₁.data, hp₁.error⟩
  obtain ⟨q, hcolon, hq⟩ := reads_byte (before ++ c :: rest) 58 nameStates colonStates (Lib.one 58)
    data _ _ line_jumps.2.2.1 hp₂ rfl (fun q => Stands colonStates data q ∧ Names (c :: rest) before q)
    (by
      intro list hlist cs' hcs'
      cases List.mem_singleton.mp hlist
      let length := HttpclientParser.subSize (before ++ c :: rest).length p₁.parser.fieldStart
      refine ⟨{ p₁ with parser.cs := some cs', parser.fieldLen := length },
        ⟨⟨⟨cs', hcs', rfl⟩, hp₁.data, hp₁.error⟩, hstart, ?_⟩, fun _ => rfl⟩
      show HttpclientParser.subSize _ p₁.parser.fieldStart = _
      rw [hstart, HttpclientParser.subSize, if_pos (by simp), List.length_append,
        Nat.add_sub_cancel_left])
  refine ⟨q, ?_, hq⟩
  exact Lib.Reads.trans _ before (c :: rest) [58] p _ q
    (Lib.Reads.cons _ before rest c p p₁ _ hlead hrest) hcolon

theorem reads_pad (middle : List UInt8) (hp : Stands colonStates data p)
    (hnames : Names name before p) :
    ∃ q, Reads middle [32] p q ∧ Stands colonStates data q ∧ Names name before q := by
  apply reads_byte middle 32 colonStates colonStates (Lib.one 32) data p _ line_jumps.2.2.2 hp rfl
  intro list hlist cs hcs
  cases List.mem_singleton.mp hlist
  exact ⟨{ p with parser.cs := some cs, parser.mark := middle.length },
    ⟨⟨⟨cs, hcs, rfl⟩, hp.data, hp.error⟩, hnames.fieldStart, hnames.fieldLen⟩, fun _ => rfl⟩

theorem act_writeValue (more : List UInt8) (c : UInt8) (after : List UInt8) (hname : name ≠ [])
    (hnames : Names name before p) (hmark : p.parser.mark = (before ++ (name ++ more)).length) :
    act (before ++ (name ++ more) ++ value ++ c :: after)
      (before ++ (name ++ more) ++ value).length p .writeValue =
      .ok { p with data := p.data.setHeader name value } := by
  have hlength : ¬ p.parser.fieldLen = 0 := by
    rw [hnames.fieldLen]
    exact fun hzero => hname (List.length_eq_zero_iff.mp hzero)
  have hfield : stringAt (before ++ (name ++ more) ++ value ++ c :: after) p.parser.fieldStart
      p.parser.fieldLen = .ok name := by
    rw [hnames.fieldStart, hnames.fieldLen]
    simp only [List.append_assoc]
    exact stringAt_between before name _
  have hvalue : tokenFrom (before ++ (name ++ more) ++ value ++ c :: after) p.parser.mark
      (before ++ (name ++ more) ++ value).length = .ok value := by
    rw [hmark, List.append_assoc (before ++ (name ++ more))]
    exact tokenFrom_between _ value _
  rw [act, if_neg hlength, hfield, hvalue]
  rfl

theorem reads_break (middle : List UInt8) (states next : List Nat)
    (actions : List (List ClientAction)) (hactions : ∀ list ∈ actions, list = [] ∨ list = [.transChunked])
    (hgoes : goes states (Lib.one 10) actions next = true) (hp : Stands states data p) :
    ∃ q, Reads middle [10] p q ∧ Stands next data q := by
  apply reads_byte middle 10 states next (Lib.one 10) data p _ hgoes hp rfl
  intro list hlist cs hcs
  rcases hactions list hlist with rfl | rfl
  · exact ⟨{ p with parser.cs := some cs }, ⟨⟨cs, hcs, rfl⟩, hp.data, hp.error⟩, fun _ => rfl⟩
  · exact ⟨{ p with parser.cs := some cs, chunked := true }, ⟨⟨cs, hcs, rfl⟩, hp.data, hp.error⟩,
      fun _ => rfl⟩

variable (more : List UInt8) (hname : name ≠ []) (hp : Stands colonStates data p)
  (hnames : Names name before p)
include hname hp hnames

theorem reads_value (hsome : value ≠ []) (hvalue : IsValue value) :
    ∃ q, Reads (before ++ (name ++ more)) (value ++ [13, 10]) p q ∧
      Stands headStates (data.setHeader name value) q := by
  obtain ⟨hlead, hloop, hreturn, hbreak, -⟩ := value_jumps
  obtain ⟨c, rest, hword⟩ := List.exists_cons_of_ne_nil hsome
  have hc : leadByte.has c = true := hvalue.2 c (by rw [hword]; rfl)
  obtain ⟨p₁, hfirst, hp₁, hnames₁, hmark₁⟩ := reads_byte (before ++ (name ++ more)) c colonStates
    valueStates leadByte data p _ hlead hp hc
    (fun q => Stands valueStates data q ∧ Names name before q ∧
      q.parser.mark = (before ++ (name ++ more)).length) (by
    intro list hlist cs hcs
    cases List.mem_singleton.mp hlist
    exact ⟨{ p with parser.cs := some cs, parser.mark := (before ++ (name ++ more)).length },
      ⟨⟨⟨cs, hcs, rfl⟩, hp.data, hp.error⟩, ⟨hnames.fieldStart, hnames.fieldLen⟩, rfl⟩, fun _ => rfl⟩)
  obtain ⟨cs, hcs, hrest⟩ := reads_loop (before ++ (name ++ more) ++ [c]) rest valueStates valueByte
    data p₁ hloop hp₁ fun d hd => hvalue.1 d (by rw [hword]; exact List.mem_cons_of_mem c hd)
  have hp₂ : Stands valueStates data { p₁ with parser.cs := some cs } :=
    ⟨⟨cs, hcs, rfl⟩, hp₁.data, hp₁.error⟩
  obtain ⟨p₃, hthird, hp₃⟩ := reads_byte (before ++ (name ++ more) ++ value) 13 valueStates
    returnStates (Lib.one 13) data _ _ hreturn hp₂ rfl
    (Stands returnStates (data.setHeader name value)) (by
    intro list hlist cs' hcs'
    simp only [List.mem_cons, List.not_mem_nil, or_false] at hlist
    rcases hlist with rfl | rfl
    · refine ⟨{ p₁ with parser.cs := some cs', data := p₁.data.setHeader name value },
        ⟨⟨cs', hcs', rfl⟩, congrArg (·.setHeader name value) hp₁.data, hp₁.error⟩, fun after => ?_⟩
      rw [acts, List.foldlM_cons, act_writeValue before name value
        { p₁ with parser.cs := some cs' } more 13 after hname
        ⟨hnames₁.fieldStart, hnames₁.fieldLen⟩ hmark₁]
      rfl
    · let length := longToInt (strtol 10 value)
      refine ⟨{ p₁ with parser.cs := some cs', data := p₁.data.setHeader name value,
                        contentLen := length },
        ⟨⟨cs', hcs', rfl⟩, congrArg (·.setHeader name value) hp₁.data, hp₁.error⟩, fun after => ?_⟩
      have hlength : strtol 10 ((before ++ (name ++ more) ++ value ++ 13 :: after).drop
          p₁.parser.mark) = strtol 10 value := by
        rw [hmark₁, List.append_assoc (before ++ (name ++ more)), List.drop_left, hword]
        exact strtol_break c rest after (isSpace_leadByte c hc)
      have hwrite := act_writeValue before name value
        { p₁ with parser.cs := some cs', contentLen := length } more 13 after hname
        ⟨hnames₁.fieldStart, hnames₁.fieldLen⟩ hmark₁
      rw [acts, List.foldlM_cons, act]
      dsimp only
      rw [hlength]
      show (acts _ _ { p₁ with parser.cs := some cs', contentLen := length } [.writeValue]) = _
      rw [acts, List.foldlM_cons, hwrite]
      rfl)
  obtain ⟨q, hfourth, hq⟩ := reads_break (data.setHeader name value) p₃
    (before ++ (name ++ more) ++ value ++ [13]) returnStates headStates [[], [.transChunked]]
    (by simp) hbreak hp₃
  refine ⟨q, ?_, hq⟩
  have hwhole : Reads (before ++ (name ++ more)) value p { p₁ with parser.cs := some cs } := by
    rw [hword]
    exact Lib.Reads.cons _ _ rest c p p₁ _ hfirst hrest
  exact Lib.Reads.trans _ _ value _ p _ q hwhole (Lib.Reads.cons _ _ [10] 13 _ p₃ q hthird hfourth)

theorem reads_empty :
    ∃ q, Reads (before ++ (name ++ more)) [13, 10] p q ∧
      Stands lineStates (data.setHeader name []) q := by
  obtain ⟨-, -, -, -, hreturn, hbreak⟩ := value_jumps
  obtain ⟨p₁, hfirst, hp₁⟩ := reads_byte (before ++ (name ++ more)) 13 colonStates emptyStates
    (Lib.one 13) data p _ hreturn hp rfl (Stands emptyStates (data.setHeader name [])) (by
    intro list hlist cs hcs
    cases List.mem_singleton.mp hlist
    let marked : HttpResponseParser Nat :=
      { p with parser.cs := some cs, parser.mark := (before ++ (name ++ more)).length }
    refine ⟨{ marked with data := p.data.setHeader name [] },
      ⟨⟨cs, hcs, rfl⟩, congrArg (·.setHeader name []) hp.data, hp.error⟩, fun after => ?_⟩
    have hwrite := act_writeValue before name [] marked more 13 after hname
      ⟨hnames.fieldStart, hnames.fieldLen⟩ rfl
    rw [List.append_nil] at hwrite
    show (acts _ _ marked [.writeValue]) = _
    rw [acts, List.foldlM_cons, hwrite]
    rfl)
  obtain ⟨q, hsecond, hq⟩ := reads_break (data.setHeader name []) p₁
    (before ++ (name ++ more) ++ [13]) emptyStates lineStates [[]] (by simp) hbreak hp₁
  exact ⟨q, Lib.Reads.cons _ _ [10] 13 p p₁ q hfirst hsecond, hq⟩

end

def lineOf (entry : List UInt8 × List UInt8) : List UInt8 :=
  entry.1 ++ [58, 32] ++ entry.2 ++ [13, 10]

def setEntry (data : HttpResponse) (entry : List UInt8 × List UInt8) : HttpResponse :=
  data.setHeader entry.1 entry.2

def IsLine (entry : List UInt8 × List UInt8) : Prop := IsName entry.1 ∧ IsValue entry.2

theorem Stands.line (data : HttpResponse) (p : HttpResponseParser Nat)
    (hp : Stands headStates data p) : Stands lineStates data p := by
  obtain ⟨cs, hcs, heq⟩ := hp.cs
  have hall : ∀ cs ∈ headStates, cs ∈ lineStates := by decide
  exact ⟨⟨cs, hall cs hcs, heq⟩, hp.data, hp.error⟩

section
variable (before : List UInt8) (entry : List UInt8 × List UInt8) (data : HttpResponse)
  (p : HttpResponseParser Nat) (hentry : IsLine entry) (hp : Stands lineStates data p)
include hentry hp

theorem reads_whole_line (hsome : entry.2 ≠ []) :
    ∃ q, Reads before (lineOf entry) p q ∧ Stands headStates (setEntry data entry) q := by
  obtain ⟨name, value⟩ := entry
  obtain ⟨p₁, hname, hp₁, hnames₁⟩ := reads_name before name data p hp hentry.1
  obtain ⟨p₂, hpad, hp₂, hnames₂⟩ := reads_pad before name data p₁ (before ++ (name ++ [58])) hp₁
    hnames₁
  obtain ⟨q, hvalue, hq⟩ := reads_value before name value data p₂ [58, 32] hentry.1.1 hp₂ hnames₂ hsome
    hentry.2
  refine ⟨q, ?_, hq⟩
  have hmore : before ++ (name ++ [58, 32]) = before ++ (name ++ [58]) ++ [32] := by simp
  rw [hmore] at hvalue
  have hall := Lib.Reads.trans _ before (name ++ [58]) _ p p₁ q hname
    (Lib.Reads.trans _ _ [32] _ p₁ p₂ q hpad hvalue)
  simpa [lineOf] using hall

theorem reads_line :
    ∃ q, Reads before (lineOf entry) p q ∧ Stands lineStates (setEntry data entry) q := by
  by_cases hsome : entry.2 = []
  · obtain ⟨name, value⟩ := entry
    dsimp only at hsome
    subst hsome
    obtain ⟨p₁, hname, hp₁, hnames₁⟩ := reads_name before name data p hp hentry.1
    obtain ⟨p₂, hpad, hp₂, hnames₂⟩ := reads_pad before name data p₁ (before ++ (name ++ [58])) hp₁
      hnames₁
    obtain ⟨q, hvalue, hq⟩ := reads_empty before name data p₂ [58, 32] hentry.1.1 hp₂ hnames₂
    refine ⟨q, ?_, hq⟩
    have hmore : before ++ (name ++ [58, 32]) = before ++ (name ++ [58]) ++ [32] := by simp
    rw [hmore] at hvalue
    have hall := Lib.Reads.trans _ before (name ++ [58]) _ p p₁ q hname
      (Lib.Reads.trans _ _ [32] _ p₁ p₂ q hpad hvalue)
    simpa [lineOf] using hall
  · obtain ⟨q, hreads, hq⟩ := reads_whole_line before entry data p hentry hp hsome
    exact ⟨q, hreads, hq.line⟩

end

theorem version_jumps : goes [1] (Lib.one 72) [[.mark]] [8] = true ∧
    Lib.plainRun goto 120 8 (octets "TTP/1.1") = some 15 ∧
    Lib.plainRun goto 120 8 (octets "TTP/1.0") = some 15 ∧
    goes [15] (Lib.one 32) [[.httpVersion]] [16] = true := by
  decide +kernel

theorem status_jumps : goes [16] digit [[.mark]] [17] = true ∧ goes [17] digit [[]] [17] = true ∧
    goes [17] (Lib.one 32) [[.statusCode]] [18] = true := by
  decide +kernel

theorem reason_jumps : goes [18] valueByte [[.mark]] [19] = true ∧
    goes [19] valueByte [[]] [19] = true ∧ goes [19] (Lib.one 13) [[.reasonPhrase]] [24] = true ∧
    goes [24] (Lib.one 10) [[]] headStates = true := by
  decide +kernel

section
variable (before : List UInt8) (data : HttpResponse) (p : HttpResponseParser Nat)

theorem reads_silent (c : UInt8) (cs target : Nat) (hcs : p.parser.cs = some cs)
    (hgoto : goto cs c = some (Lib.st target)) (hlive : target < 120) :
    Reads before [c] p { p with parser.cs := some target } :=
  Reads.one before c cs (Lib.st target) p _ hcs hgoto hlive fun _ => rfl

theorem reads_plain (bytes : List UInt8) (cs cs' : Nat) (hcs : p.parser.cs = some cs)
    (hrun : Lib.plainRun goto 120 cs bytes = some cs') :
    Reads before bytes p { p with parser.cs := some cs' } := by
  have hplain := Lib.Reads.plain (exec machine) goto 120 (fun cs => { p with parser.cs := some cs })
    (fun before c cs target hgoto hlive =>
      reads_silent before { p with parser.cs := some cs } c cs target rfl hgoto hlive)
    before bytes cs cs' hrun
  have hself : { p with parser.cs := some cs } = p := by rw [← hcs]
  rw [hself] at hplain
  exact hplain

theorem reads_mark (c : UInt8) (bytes : CharClass) (states next : List Nat)
    (hgoes : goes states bytes [[.mark]] next = true) (hc : bytes.has c = true)
    (hp : Stands states data p) :
    ∃ q, Reads before [c] p q ∧ Stands next data q ∧ q.parser.mark = before.length := by
  apply reads_byte before c states next bytes data p _ hgoes hp hc
  intro list hlist cs hcs
  cases List.mem_singleton.mp hlist
  exact ⟨{ p with parser.cs := some cs, parser.mark := before.length },
    ⟨⟨⟨cs, hcs, rfl⟩, hp.data, hp.error⟩, rfl⟩, fun _ => rfl⟩

theorem reads_word (word : List UInt8) (bytes : CharClass) (states next : List Nat)
    (hfirst : goes states bytes [[.mark]] next = true) (hloop : goes next bytes [[]] next = true)
    (hsome : word ≠ []) (hword : ∀ c ∈ word, bytes.has c = true) (hp : Stands states data p) :
    ∃ q, Reads before word p q ∧ Stands next data q ∧ q.parser.mark = before.length := by
  obtain ⟨c, rest, rfl⟩ := List.exists_cons_of_ne_nil hsome
  obtain ⟨p₁, hlead, hp₁, hmark⟩ := reads_mark before data p c bytes states next hfirst
    (hword c List.mem_cons_self) hp
  obtain ⟨cs, hcs, hrest⟩ := reads_loop (before ++ [c]) rest next bytes data p₁ hloop hp₁
    fun d hd => hword d (List.mem_cons_of_mem c hd)
  exact ⟨_, Lib.Reads.cons _ before rest c p p₁ _ hlead hrest,
    ⟨⟨cs, hcs, rfl⟩, hp₁.data, hp₁.error⟩, hmark⟩

theorem reads_version (version : UInt8) (text : List UInt8)
    (hversion : version = 0x11 ∧ text = octets "HTTP/1.1" ∨
      version = 0x10 ∧ text = octets "HTTP/1.0") (hp : Stands [1] data p) :
    ∃ q, Reads before (text ++ [32]) p q ∧ Stands [16] { data with version := version } q := by
  obtain ⟨hfirst, hnew, hold, hlast⟩ := version_jumps
  obtain ⟨rest, rfl, hrun, hlength⟩ : ∃ rest, text = 72 :: rest ∧
      Lib.plainRun goto 120 8 rest = some 15 ∧ rest.length = 7 := by
    rcases hversion with ⟨-, rfl⟩ | ⟨-, rfl⟩
    · exact ⟨octets "TTP/1.1", by decide, hnew, by decide⟩
    · exact ⟨octets "TTP/1.0", by decide, hold, by decide⟩
  obtain ⟨p₁, hlead, hp₁, hmark⟩ := reads_mark before data p 72 (Lib.one 72) [1] [8] hfirst rfl hp
  obtain ⟨cs, hcs, heq⟩ := hp₁.cs
  cases List.mem_singleton.mp hcs
  have hrest := reads_plain (before ++ [72]) p₁ rest 8 15 heq hrun
  let read : HttpResponseParser Nat := { p₁ with parser.cs := some 15 }
  obtain ⟨q, hspace, hq⟩ := reads_byte (before ++ 72 :: rest) 32 [15] [16] (Lib.one 32) data read _
    hlast ⟨⟨15, List.mem_cons_self, rfl⟩, hp₁.data, hp₁.error⟩ rfl
    (Stands [16] { data with version := version }) (by
    intro list hlist cs hcs
    cases List.mem_singleton.mp hlist
    refine ⟨{ p₁ with parser.cs := some cs, data.version := version },
      ⟨⟨cs, hcs, rfl⟩, congrArg (fun data => { data with version := version }) hp₁.data, hp₁.error⟩,
      fun after => ?_⟩
    have hle : before.length ≤ (before ++ 72 :: rest).length := by simp
    have height : (before ++ 72 :: rest).length - before.length = 8 := by
      rw [List.length_append, Nat.add_sub_cancel_left, List.length_cons, hlength]
    have hchars : (before ++ 72 :: rest ++ 32 :: after).drop before.length =
        72 :: rest ++ 32 :: after := by
      rw [List.append_assoc, List.drop_left]
    have hset (r : HttpResponseParser Nat) : r.onResponseVersion (72 :: rest ++ 32 :: after) 8 =
        { r with data.version := version } := by
      have hshort : 8 ≤ (72 :: rest).length := by rw [List.length_cons, hlength]
      unfold onResponseVersion
      rw [HttpRequestParser.strncmpEq_append 8 _ _ _ hshort,
        HttpRequestParser.strncmpEq_append 8 _ _ _ hshort]
      rcases hversion with ⟨rfl, htext⟩ | ⟨rfl, htext⟩
      · rw [htext, if_pos (by decide)]
      · rw [htext, if_neg (by decide), if_pos (by decide)]
    rw [acts, List.foldlM_cons, act]
    dsimp only
    rw [hmark, lengthFrom_ok _ _ hle, height, hchars]
    show (Except.ok (HttpResponseParser.onResponseVersion _ _ 8) >>= _) = _
    rw [hset]
    rfl)
  refine ⟨q, ?_, hq⟩
  exact Lib.Reads.trans _ before (72 :: rest) [32] p read q
    (Lib.Reads.cons _ before rest 72 p p₁ read hlead hrest) hspace

theorem reads_status (status : Nat) (hstatus : status < 2 ^ 31) (hp : Stands [16] data p) :
    ∃ q, Reads before (octets (toString status) ++ [32]) p q ∧
      Stands [18] { data with status := status } q := by
  obtain ⟨hfirst, hloop, hlast⟩ := status_jumps
  obtain ⟨hsome, hrange⟩ := octets_toString status
  have hdigits : ∀ c ∈ octets (toString status), digit.has c = true := by
    intro c hc
    obtain ⟨hlow, hhigh⟩ := hrange c hc
    have hbyte := CharClass.forall_byte
      (fun c => !(decide (48 ≤ c) && decide (c ≤ 57)) || digit.has c) (by decide +kernel) c
    simpa [hlow, hhigh] using hbyte
  obtain ⟨p₁, hword, hp₁, hmark⟩ := reads_word before data p _ digit [16] [17] hfirst hloop hsome
    hdigits hp
  obtain ⟨q, hspace, hq⟩ := reads_byte (before ++ octets (toString status)) 32 [17] [18] (Lib.one 32)
    data p₁ _ hlast hp₁ rfl (Stands [18] { data with status := status }) (by
    intro list hlist cs hcs
    cases List.mem_singleton.mp hlist
    refine ⟨{ p₁ with parser.cs := some cs, status := status, data.status := status },
      ⟨⟨cs, hcs, rfl⟩, congrArg (fun data => { data with status := status }) hp₁.data, hp₁.error⟩,
      fun after => ?_⟩
    have hchars : (before ++ octets (toString status) ++ 32 :: after).drop p₁.parser.mark =
        octets (toString status) ++ 32 :: after := by
      rw [hmark, List.append_assoc, List.drop_left]
    have hatoi : atoi (octets (toString status) ++ 32 :: after) = status :=
      atoi_toString status 32 after (by decide) hstatus
    have hnat : ((status : Int) % 2 ^ 32).toNat = status := by omega
    rw [acts, List.foldlM_cons, act]
    dsimp only
    rw [hchars]
    show (Except.ok (HttpResponseParser.onResponseStatus { p₁ with parser.cs := some cs, status := atoi (octets (toString status) ++ 32 :: after) } _) >>= _) = _
    rw [onResponseStatus, hatoi, hnat]
    rfl)
  exact ⟨q, Lib.Reads.trans _ before _ [32] p p₁ q hword hspace, hq⟩

theorem reads_reason (reason : List UInt8) (hsome : reason ≠ [])
    (hreason : ∀ c ∈ reason, valueByte.has c = true) (hp : Stands [18] data p) :
    ∃ q, Reads before (reason ++ [13, 10]) p q ∧
      Stands headStates { data with reason := reason } q := by
  obtain ⟨hfirst, hloop, hreturn, hbreak⟩ := reason_jumps
  obtain ⟨p₁, hword, hp₁, hmark⟩ := reads_word before data p reason valueByte [18] [19] hfirst hloop
    hsome hreason hp
  obtain ⟨p₂, hreported, hp₂⟩ := reads_byte (before ++ reason) 13 [19] [24] (Lib.one 13) data p₁ _
    hreturn hp₁ rfl (Stands [24] { data with reason := reason }) (by
    intro list hlist cs hcs
    cases List.mem_singleton.mp hlist
    refine ⟨{ p₁ with parser.cs := some cs, data.reason := reason },
      ⟨⟨cs, hcs, rfl⟩, congrArg (fun data => { data with reason := reason }) hp₁.data, hp₁.error⟩,
      fun after => ?_⟩
    have htoken : tokenFrom (before ++ reason ++ 13 :: after) p₁.parser.mark
        (before ++ reason).length = .ok reason := by
      rw [hmark, List.append_assoc]
      exact tokenFrom_between before reason _
    rw [acts, List.foldlM_cons, act]
    dsimp only
    rw [htoken]
    rfl)
  obtain ⟨q, hlast, hq⟩ := reads_break { data with reason := reason } p₂ (before ++ reason ++ [13]) [24]
    headStates [[]] (by simp) hbreak hp₂
  exact ⟨q, Lib.Reads.trans _ before reason [13, 10] p p₁ q hword
    (Lib.Reads.cons _ _ [10] 13 p₁ p₂ q hreported hlast), hq⟩

end

theorem exec_end (before after : List UInt8) (data : HttpResponse) (p : HttpResponseParser Nat)
    (hp : Stands headStates data p) :
    ∃ q, exec machine (before ++ ([13, 10] ++ after)) before.length ([13, 10] ++ after) p =
        .ok (q, (before ++ [13, 10]).length) ∧
      q.parser.cs = some 120 ∧ q.data = data ∧ q.error = 0 := by
  have hjumps : goes headStates (Lib.one 13) [[], [.writeConnectionClose]] [3] = true ∧
      goto 3 10 = some tr7 := by
    decide +kernel
  obtain ⟨p₁, hreturn, hp₁⟩ := reads_byte before 13 headStates [3] (Lib.one 13) data p _ hjumps.1 hp
    rfl (Stands [3] data) (by
    intro list hlist cs hcs
    simp only [List.mem_cons, List.not_mem_nil, or_false] at hlist
    rcases hlist with rfl | rfl
    · exact ⟨{ p with parser.cs := some cs }, ⟨⟨cs, by simpa using hcs, rfl⟩, hp.data, hp.error⟩,
        fun _ => rfl⟩
    · exact ⟨{ p with parser.cs := some cs, close := true },
        ⟨⟨cs, by simpa using hcs, rfl⟩, hp.data, hp.error⟩, fun _ => rfl⟩)
  obtain ⟨cs, hcs, heq⟩ := hp₁.cs
  cases List.mem_singleton.mp hcs
  refine ⟨{ p₁ with parser.cs := some 120, parser.bodyStart := (before ++ [13]).length + 1 }, ?_, rfl,
    hp₁.data, hp₁.error⟩
  show exec _ (before ++ ([13] ++ 10 :: after)) _ ([13] ++ 10 :: after) p = _
  rw [hreturn (10 :: after), exec_jump after 10 3 _ tr7 p₁ { p₁ with parser.cs := some 120 } _ heq
    hjumps.2 rfl, if_pos (show Nat.ble 120 tr7.target = true from rfl), List.length_append,
    List.length_append]
  rfl

end Httpclient
end Sylar
