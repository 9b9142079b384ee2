import Sylar.Log.Logger

/-! Patterns that are put together from literals and directives, against what `init()` makes of
them.

Between two directives there may be several literals in a row; `init()` keeps them as one string.
A directive without braces ends where a character comes that cannot belong to its name. -/
namespace Sylar

def FormatItemKind.letter : FormatItemKind → Char
  | .message => 'm'
  | .level => 'p'
  | .elapse => 'r'
  | .name => 'c'
  | .threadId => 't'
  | .fiberId => 'F'
  | .newLine => 'n'
  | .dateTime => 'd'
  | .fileName => 'f'
  | .line => 'l'
  | .tab => 'T'
  | .threadName => 'N'

theorem FormatItemKind.eq_letter (name : List Char) (kind : FormatItemKind)
    (hfind : find (String.ofList name) = some kind) : name = [kind.letter] := by
  have hname : String.ofList name = String.ofList [kind.letter] := by
    obtain ⟨before, after, htable, -⟩ := List.lookup_eq_some_iff.mp hfind
    have hall : ∀ entry ∈ before ++ (String.ofList name, kind) :: after,
        entry.1 = String.ofList [entry.2.letter] := by
      rw [← htable]
      decide
    exact hall (String.ofList name, kind) (by simp)
  exact String.ofList_injective hname

inductive PatternPiece where
  | literal (text : List Char)
  | directive (name : List Char) (fmt : Option (List Char))
deriving DecidableEq

def inName (c : Char) : Bool :=
  c.isAlpha || c == '\x7b' || c == '\x7d'

namespace PatternPiece

def text : PatternPiece → List Char
  | .literal text => text
  | .directive name none => '%' :: name
  | .directive name (some fmt) => '%' :: name ++ '\x7b' :: fmt ++ ['\x7d']

def render (pieces : List PatternPiece) : List Char := pieces.flatMap text

/-- A literal has no percent sign, a name is one letter or more, a format has no closing brace. -/
def Valid : PatternPiece → Prop
  | .literal text => '%' ∉ text
  | .directive name fmt =>
    name ≠ [] ∧ (∀ c ∈ name, c.isAlpha = true) ∧ ∀ text, fmt = some text → '\x7d' ∉ text

/-- What follows a directive without braces ends its name. -/
def Apart : List PatternPiece → Prop
  | [] => True
  | .directive _ none :: rest => (∀ c, (render rest).head? = some c → inName c = false) ∧ Apart rest
  | _ :: rest => Apart rest

/-- One part for each directive and one for each run of literals; `run` is the run so far. -/
def parts (run : List Char) : List PatternPiece → List PatternPart
  | [] => LogFormatter.flush run
  | .literal text :: rest => parts (run ++ text) rest
  | .directive name fmt :: rest =>
    LogFormatter.flush run ++
      .item (String.ofList name) (String.ofList (fmt.getD [])) :: parts [] rest

end PatternPiece

namespace LogFormatter

theorem scan_literal (pattern : String) (nstr text rest : List Char) (hpercent : '%' ∉ text) :
    scan pattern nstr 0 (text ++ rest) = scan pattern (nstr ++ text) 0 rest := by
  induction text generalizing nstr with
  | nil => rw [List.nil_append, List.append_nil]
  | cons c text ih =>
    rw [List.mem_cons, not_or] at hpercent
    rw [List.cons_append, scan, if_pos (Ne.symm hpercent.1), ih _ hpercent.2, List.append_assoc]
    rfl

theorem scan_skip (pattern : String) (nstr text rest : List Char) :
    scan pattern nstr text.length (text ++ rest) = scan pattern nstr 0 rest := by
  induction text with
  | nil => rfl
  | cons c text ih => rw [List.length_cons, List.cons_append, scan, ih]

theorem scanFormat_closed (str : String) (seen : List Char) (n : Nat) (fmt rest : List Char)
    (hbrace : '\x7d' ∉ fmt) :
    scanFormat str seen n (fmt ++ '\x7d' :: rest) =
      some (str, String.ofList (seen ++ fmt), n + fmt.length + 1) := by
  induction fmt generalizing seen n with
  | nil =>
    rw [List.nil_append, scanFormat, if_pos rfl, List.append_nil, List.length_nil, Nat.add_zero]
  | cons c fmt ih =>
    rw [List.mem_cons, not_or] at hbrace
    rw [List.cons_append, scanFormat, if_neg (Ne.symm hbrace.1), ih _ _ hbrace.2,
      List.append_assoc, List.length_cons, Nat.add_assoc n 1, Nat.add_comm 1]
    rfl

theorem scanName_letters (str : List Char) (n : Nat) (name rest : List Char)
    (hname : ∀ c ∈ name, c.isAlpha = true) :
    scanName str n (name ++ rest) = scanName (str ++ name) (n + name.length) rest := by
  induction name generalizing str n with
  | nil => rw [List.nil_append, List.append_nil, List.length_nil, Nat.add_zero]
  | cons c name ih =>
    obtain ⟨hletter, hname⟩ := List.forall_mem_cons.mp hname
    have hopen : c ≠ '\x7b' := by
      rintro rfl
      revert hletter
      decide
    rw [List.cons_append, scanName, if_neg (by rw [hletter]; simp), if_neg hopen, ih _ _ hname,
      List.append_assoc, List.length_cons, Nat.add_assoc n 1, Nat.add_comm 1]
    rfl

theorem scanName_end (str : List Char) (n : Nat) (rest : List Char)
    (hend : ∀ c, rest.head? = some c → inName c = false) :
    scanName str n rest = some (String.ofList str, "", n) := by
  cases rest with
  | nil => rfl
  | cons c rest =>
    have hstop := hend c rfl
    rw [inName, Bool.or_eq_false_iff, Bool.or_eq_false_iff, beq_eq_false_iff_ne,
      beq_eq_false_iff_ne] at hstop
    rw [scanName, if_pos ⟨hstop.1.1, hstop.1.2, hstop.2⟩]

theorem scan_directive (pattern : String) (nstr taken rest : List Char) (str fmt : String)
    (hpercent : (taken ++ rest).head? ≠ some '%')
    (hname : scanName [] 0 (taken ++ rest) = some (str, fmt, taken.length)) :
    scan pattern nstr 0 ('%' :: (taken ++ rest)) =
      (flush nstr ++ .item str fmt :: (scan pattern [] 0 rest).1, (scan pattern [] 0 rest).2) := by
  rw [scan, if_neg (by simp), if_neg hpercent]
  simp only [hname, scan_skip]

end LogFormatter

namespace PatternPiece

theorem scanName_directive (name rest : List Char) (hname : ∀ c ∈ name, c.isAlpha = true)
    (hend : ∀ c, rest.head? = some c → inName c = false) :
    LogFormatter.scanName [] 0 (name ++ rest) = some (String.ofList name, "", name.length) := by
  rw [LogFormatter.scanName_letters _ _ _ _ hname, LogFormatter.scanName_end _ _ _ hend,
    List.nil_append, Nat.zero_add]

theorem scanName_braced (name fmt rest : List Char) (hname : ∀ c ∈ name, c.isAlpha = true)
    (hfmt : '\x7d' ∉ fmt) :
    LogFormatter.scanName [] 0 (name ++ '\x7b' :: fmt ++ ['\x7d'] ++ rest) =
      some (String.ofList name, String.ofList fmt, (name ++ '\x7b' :: fmt ++ ['\x7d']).length) := by
  have hopen : LogFormatter.scanName name name.length ('\x7b' :: (fmt ++ '\x7d' :: rest)) =
      LogFormatter.scanFormat (String.ofList name) [] (name.length + 1)
        (fmt ++ '\x7d' :: rest) := rfl
  have hlength : (name ++ '\x7b' :: fmt ++ ['\x7d']).length = name.length + 1 + fmt.length + 1 := by
    rw [List.length_append, List.length_append, List.length_cons, List.length_singleton]
    omega
  have hshape : name ++ '\x7b' :: fmt ++ ['\x7d'] ++ rest =
      name ++ '\x7b' :: (fmt ++ '\x7d' :: rest) := by
    simp
  rw [hshape, LogFormatter.scanName_letters _ _ _ _ hname, List.nil_append, Nat.zero_add, hopen,
    LogFormatter.scanFormat_closed _ _ _ _ _ hfmt, List.nil_append, hlength]

/-- A name begins with a letter, so the percent sign before it is not escaped. -/
theorem head_name (name rest : List Char) (hne : name ≠ []) (hname : ∀ c ∈ name, c.isAlpha = true) :
    (name ++ rest).head? ≠ some '%' := by
  obtain ⟨c, name, rfl⟩ := List.exists_cons_of_ne_nil hne
  have hletter := hname c List.mem_cons_self
  rintro hhead
  obtain rfl := Option.some.inj hhead
  revert hletter
  decide

theorem scan_render (pattern : String) (nstr : List Char) (pieces : List PatternPiece)
    (hvalid : ∀ piece ∈ pieces, piece.Valid) (hapart : Apart pieces) :
    LogFormatter.scan pattern nstr 0 (render pieces) = (parts nstr pieces, []) := by
  induction pieces generalizing nstr with
  | nil => rfl
  | cons piece rest ih =>
    obtain ⟨hpiece, hrest⟩ := List.forall_mem_cons.mp hvalid
    rw [render, List.flatMap_cons]
    change LogFormatter.scan pattern nstr 0 (piece.text ++ render rest) = _
    cases piece with
    | literal content =>
      rw [text, LogFormatter.scan_literal _ _ _ _ hpiece, ih _ hrest hapart, parts]
    | directive name fmt =>
      obtain ⟨hne, hname, hfmt⟩ := hpiece
      cases fmt with
      | none =>
        have hscan := scanName_directive name (render rest) hname hapart.1
        rw [text, List.cons_append, LogFormatter.scan_directive _ _ _ _ _ _
          (head_name name _ hne hname) hscan, ih _ hrest hapart.2]
        rfl
      | some fmt =>
        have hscan := scanName_braced name fmt (render rest) hname (hfmt fmt rfl)
        have hhead : (name ++ '\x7b' :: fmt ++ ['\x7d'] ++ render rest).head? ≠ some '%' := by
          rw [List.append_assoc, List.append_assoc]
          exact head_name name _ hne hname
        change LogFormatter.scan pattern nstr 0
          ('%' :: ((name ++ '\x7b' :: fmt ++ ['\x7d']) ++ render rest)) = _
        rw [LogFormatter.scan_directive _ _ _ _ _ _ hhead hscan, ih _ hrest hapart]
        rfl

/-- The item for a directive: of the class that the letter stands for, or a string for a name that
is none of the twelve. -/
inductive ItemOf : List Char → Option (List Char) → FormatItem → Prop where
  | known (kind : FormatItemKind) (fmt : Option (List Char)) :
    ItemOf [kind.letter] fmt (.item kind (String.ofList (fmt.getD [])))
  | unknown (name : List Char) (fmt : Option (List Char)) :
    (∀ kind, name ≠ [FormatItemKind.letter kind]) →
    ItemOf name fmt (.string ("<<error_format %" ++ String.ofList name ++ ">>"))

def run (texts : List (List Char)) : List FormatItem :=
  if texts.flatten = [] then [] else [.string (String.ofList texts.flatten)]

/-- One item for each directive, and one for all the literals before it or behind the last one. -/
inductive Layout : List PatternPiece → List FormatItem → Prop where
  | literals (texts : List (List Char)) : Layout (texts.map literal) (run texts)
  | directive (texts : List (List Char)) (name : List Char) (fmt : Option (List Char))
    (item : FormatItem) (rest : List PatternPiece) (items : List FormatItem) :
    ItemOf name fmt item → Layout rest items →
    Layout (texts.map literal ++ directive name fmt :: rest) (run texts ++ item :: items)

theorem find_letter (kind : FormatItemKind) :
    FormatItemKind.find (String.ofList [kind.letter]) = some kind := by
  cases kind <;> decide

theorem find_eq_none_iff (name : List Char) : FormatItemKind.find (String.ofList name) = none ↔
    ∀ kind, name ≠ [FormatItemKind.letter kind] := by
  constructor
  · rintro hnone kind rfl
    rw [find_letter] at hnone
    cases hnone
  · intro hother
    cases hfind : FormatItemKind.find (String.ofList name) with
    | none => rfl
    | some kind => exact absurd (FormatItemKind.eq_letter name kind hfind) (hother kind)

theorem itemOf_toItem (name : List Char) (fmt : Option (List Char)) :
    ItemOf name fmt
      (LogFormatter.toItem (.item (String.ofList name) (String.ofList (fmt.getD [])))) := by
  rw [LogFormatter.toItem]
  cases hfind : FormatItemKind.find (String.ofList name) with
  | none => exact .unknown name fmt ((find_eq_none_iff name).mp hfind)
  | some kind =>
    obtain rfl := FormatItemKind.eq_letter name kind hfind
    exact .known kind fmt

theorem flush_toItem (texts : List (List Char)) :
    (LogFormatter.flush texts.flatten).map LogFormatter.toItem = run texts := by
  unfold LogFormatter.flush run
  split <;> rfl

theorem layout_parts (texts : List (List Char)) (pieces : List PatternPiece) :
    Layout (texts.map literal ++ pieces) ((parts texts.flatten pieces).map LogFormatter.toItem) := by
  induction pieces generalizing texts with
  | nil =>
    rw [parts, flush_toItem, List.append_nil]
    exact .literals texts
  | cons piece rest ih =>
    cases piece with
    | literal content =>
      have hmore := ih (texts ++ [content])
      rw [List.map_append, List.flatten_append, List.append_assoc] at hmore
      rw [parts]
      simpa using hmore
    | directive name fmt =>
      rw [parts, List.map_append, List.map_cons, flush_toItem]
      exact .directive texts name fmt _ rest _ (itemOf_toItem name fmt) (ih [])

theorem unknown_parts (nstr : List Char) (pieces : List PatternPiece) :
    (parts nstr pieces).any LogFormatter.unknown = true ↔
      ∃ name fmt, directive name fmt ∈ pieces ∧ ∀ kind, name ≠ [FormatItemKind.letter kind] := by
  have hflush : ∀ nstr, (LogFormatter.flush nstr).any LogFormatter.unknown = false := by
    intro nstr
    unfold LogFormatter.flush
    split <;> rfl
  induction pieces generalizing nstr with
  | nil => simp [parts, hflush]
  | cons piece rest ih =>
    cases piece with
    | literal content => simp [parts, ih]
    | directive name fmt =>
      simp only [parts, List.any_append, hflush, Bool.false_or, List.any_cons, Bool.or_eq_true, ih,
        LogFormatter.unknown, Option.isNone_iff_eq_none, find_eq_none_iff, List.mem_cons]
      constructor
      · rintro (hunknown | ⟨other, format, hmem, hunknown⟩)
        · exact ⟨name, fmt, .inl rfl, hunknown⟩
        · exact ⟨other, format, .inr hmem, hunknown⟩
      · rintro ⟨other, format, heq | hmem, hunknown⟩
        · cases heq
          exact .inl hunknown
        · exact .inr ⟨other, format, hmem, hunknown⟩

/-- A formatter that reads a row of pieces: its items are laid out as the pieces are, nothing is
reported, and only a name that is none of the twelve is an error. -/
structure ReadBy (pieces : List PatternPiece) (formatter : LogFormatter) : Prop where
  items : Layout pieces formatter.items
  error : formatter.error = true ↔
    ∃ name fmt, directive name fmt ∈ pieces ∧ ∀ kind, name ≠ [FormatItemKind.letter kind]
  lines : formatter.lines = []

theorem init_reads_pieces (pieces : List PatternPiece) (hvalid : ∀ piece ∈ pieces, piece.Valid)
    (hapart : Apart pieces) : ReadBy pieces (LogFormatter.new (String.ofList (render pieces))) := by
  have hscan := scan_render (String.ofList (render pieces)) [] pieces hvalid hapart
  unfold LogFormatter.new
  rw [String.toList_ofList, hscan]
  refine ⟨layout_parts [] pieces, ?_, rfl⟩
  simp only [ne_eq, not_true_eq_false, false_or, decide_eq_true_eq]
  exact unknown_parts [] pieces

/-- Two literals in a row, a format in braces and an unknown name. -/
theorem init_reads_pieces_mixed :
    ReadBy [.literal ['a'], .literal [' '], .directive ['d'] (some ['%', 'Y']), .literal ['x'],
        .directive ['q', 'q'] none, .directive ['m'] none]
      (LogFormatter.new "a %d\x7b%Y\x7dx%qq%m") :=
  init_reads_pieces _ (by simp [Valid]) (by simp [Apart, render, text, inName])

end PatternPiece
end Sylar
