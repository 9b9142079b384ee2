import Mathlib.Data.List.Induction
import Sylar.Log.Pattern

/-! `LogFormatter::format`, and patterns in which every percent sign of a text is doubled.

Where the scanner sees two percent signs it keeps one and goes on at the second one, which is
looked at as a first one: the last percent sign of a run always begins a directive. -/
namespace Sylar

/-- `content` is `m_ss.str()`, `logger` is the name of `m_logger`. -/
structure LogEvent where
  file : String
  line : Int32
  elapse : UInt32
  threadId : UInt32
  fiberId : UInt32
  time : UInt64
  threadName : String
  content : String
  logger : String

/-- What `DateTimeFormatItem` uses in place of an empty format. -/
def standardDate : List Char := "%Y-%m-%d %H:%M:%S".toList

/-- What `localtime_r` and `strftime` make of a format and a time, in the zone and the locale of
the process: ordinary characters are copied, two percent signs are one, and the standard format
ends with the digits of the second. -/
structure Strftime where
  expand : List Char → UInt64 → List Char
  nil : ∀ time, expand [] time = []
  ordinary : ∀ c rest time, c ≠ '%' → expand (c :: rest) time = c :: expand rest time
  percent : ∀ rest time, expand ('%' :: '%' :: rest) time = '%' :: expand rest time
  standard : ∀ time, ∃ text c, c.isDigit = true ∧ expand standardDate time = text ++ [c]

namespace Strftime

/-- The format of a `DateTimeFormatItem`, as `c_str()` gives it. -/
def format (fmt : String) : List Char :=
  if fmt = "" then standardDate else fmt.toList.takeWhile (· ≠ '\x00')

/-- `strftime(buf, sizeof(buf), ..)` and `os << buf`. What does not fit into the 64 bytes leaves
the buffer undefined. -/
def print (strftime : Strftime) (fmt : String) (time : UInt64) : Option (List Char) :=
  let text := strftime.expand (format fmt) time
  if (String.ofList text).utf8ByteSize < 64 then some text else none

end Strftime

namespace FormatItem

/-- `none` is a buffer that is printed without having been written. -/
def format (strftime : Strftime) (level : LogLevel) (event : LogEvent) :
    FormatItem → Option (List Char)
  | .string text => some text.toList
  | .item .message _ => some event.content.toList
  | .item .level _ => some level.toString.toList
  | .item .elapse _ => some (toString event.elapse).toList
  | .item .name _ => some event.logger.toList
  | .item .threadId _ => some (toString event.threadId).toList
  | .item .fiberId _ => some (toString event.fiberId).toList
  | .item .newLine _ => some ['\n']
  | .item .dateTime fmt => strftime.print fmt event.time
  | .item .fileName _ => some event.file.toList
  | .item .line _ => some (toString event.line).toList
  | .item .tab _ => some ['\t']
  | .item .threadName _ => some event.threadName.toList

def formatAll (strftime : Strftime) (level : LogLevel) (event : LogEvent) :
    List FormatItem → Option (List Char)
  | [] => some []
  | first :: rest => do
    let text ← first.format strftime level event
    let more ← formatAll strftime level event rest
    return text ++ more

end FormatItem

def LogFormatter.format (formatter : LogFormatter) (strftime : Strftime) (level : LogLevel)
    (event : LogEvent) : Option (List Char) :=
  FormatItem.formatAll strftime level event formatter.items

def escape (text : List Char) : List Char :=
  text.flatMap fun c => if c = '%' then ['%', '%'] else [c]

def PrintsEscaped (strftime : Strftime) (text : String) : Prop :=
  (LogFormatter.new (String.ofList (escape text.toList))).error = false ∧
    ∀ level event, (LogFormatter.new (String.ofList (escape text.toList))).format strftime level
      event = some text.toList

theorem escape_percent (text : List Char) : escape ('%' :: text) = '%' :: '%' :: escape text := by
  rw [escape, List.flatMap_cons, if_pos rfl]
  rfl

theorem escape_cons (c : Char) (text : List Char) (hc : c ≠ '%') :
    escape (c :: text) = c :: escape text := by
  rw [escape, List.flatMap_cons, if_neg hc]
  rfl

theorem escape_of_notMem (text : List Char) (hpercent : '%' ∉ text) : escape text = text := by
  induction text with
  | nil => rfl
  | cons c text ih =>
    rw [List.mem_cons, not_or] at hpercent
    rw [escape_cons c text (Ne.symm hpercent.1), ih hpercent.2]

theorem head_escape (text : List Char) : (escape text).head? = text.head? := by
  cases text with
  | nil => rfl
  | cons c text =>
    by_cases hc : c = '%'
    · rw [hc, escape_percent]
      rfl
    · rw [escape_cons c text hc]
      rfl

theorem of_escape_cons (text rest : List Char) (c : Char) (hc : c ≠ '%')
    (htext : escape text = c :: rest) : ∃ after, text = c :: after ∧ rest = escape after := by
  have hhead := head_escape text
  rw [htext] at hhead
  cases text with
  | nil => cases hhead
  | cons d text =>
    obtain rfl := Option.some.inj hhead
    rw [escape_cons c text hc] at htext
    exact ⟨text, rfl, (List.cons.inj htext).2.symm⟩

theorem of_escape_brace (text fmt rest : List Char) (hbrace : '\x7d' ∉ fmt)
    (htext : escape text = fmt ++ '\x7d' :: rest) :
    ∃ inner after, text = inner ++ '\x7d' :: after ∧ fmt = escape inner ∧ rest = escape after := by
  induction text generalizing fmt with
  | nil => simp [escape] at htext
  | cons c text ih =>
    by_cases hc : c = '%'
    · subst hc
      rw [escape_percent] at htext
      match fmt with
      | [] => cases htext
      | [_] =>
        obtain ⟨-, hrest⟩ := List.cons.inj htext
        cases hrest
      | d :: e :: fmt =>
        obtain ⟨hd, htail⟩ := List.cons.inj htext
        obtain ⟨he, hrest⟩ := List.cons.inj htail
        subst hd he
        have hinner : '\x7d' ∉ fmt := by
          intro hmem
          exact hbrace (List.mem_cons_of_mem _ (List.mem_cons_of_mem _ hmem))
        obtain ⟨inner, after, rfl, rfl, rfl⟩ := ih fmt hinner hrest
        exact ⟨'%' :: inner, after, rfl, (escape_percent inner).symm, rfl⟩
    · rw [escape_cons c text hc] at htext
      cases fmt with
      | nil =>
        obtain ⟨rfl, rfl⟩ := List.cons.inj htext
        exact ⟨[], text, rfl, rfl, rfl⟩
      | cons d fmt =>
        obtain ⟨rfl, hrest⟩ := List.cons.inj htext
        obtain ⟨inner, after, rfl, rfl, rfl⟩ :=
          ih fmt (fun hmem => hbrace (List.mem_cons_of_mem _ hmem)) hrest
        exact ⟨c :: inner, after, rfl, (escape_cons c inner hc).symm, rfl⟩

theorem Strftime.expand_escape (strftime : Strftime) (text : List Char) (time : UInt64) :
    strftime.expand ((escape text).takeWhile (· ≠ '\x00')) time =
      text.takeWhile (· ≠ '\x00') := by
  induction text with
  | nil => exact strftime.nil time
  | cons c text ih =>
    by_cases hc : c = '%'
    · subst hc
      rw [escape_percent, List.takeWhile_cons_of_pos (by decide),
        List.takeWhile_cons_of_pos (by decide), List.takeWhile_cons_of_pos (by decide),
        strftime.percent, ih]
    · rw [escape_cons c text hc]
      by_cases hnul : c = '\x00'
      · subst hnul
        exact strftime.nil time
      · rw [List.takeWhile_cons_of_pos (by simpa using hnul),
          List.takeWhile_cons_of_pos (by simpa using hnul), strftime.ordinary c _ _ hc, ih]

namespace LogFormatter

theorem scanFormat_some (str : String) (seen : List Char) (n : Nat) (text : List Char)
    (name fmt : String) (m : Nat) (hscan : scanFormat str seen n text = some (name, fmt, m)) :
    ∃ inner rest, text = inner ++ '\x7d' :: rest ∧ '\x7d' ∉ inner ∧ name = str ∧
      fmt = String.ofList (seen ++ inner) ∧ m = n + inner.length + 1 := by
  induction text generalizing seen n with
  | nil => cases hscan
  | cons c text ih =>
    rw [scanFormat] at hscan
    by_cases hc : c = '\x7d'
    · rw [if_pos hc] at hscan
      cases hscan
      exact ⟨[], text, by rw [hc]; rfl, List.not_mem_nil, rfl, by rw [List.append_nil], rfl⟩
    · rw [if_neg hc] at hscan
      obtain ⟨inner, rest, rfl, hbrace, hname, hfmt, hm⟩ := ih _ _ hscan
      refine ⟨c :: inner, rest, rfl, ?_, hname, ?_, ?_⟩
      · rw [List.mem_cons, not_or]
        exact ⟨Ne.symm hc, hbrace⟩
      · rw [hfmt, List.append_assoc]
        rfl
      · rw [hm, List.length_cons]
        omega

theorem scanName_some (str : List Char) (n : Nat) (text : List Char) (name fmt : String) (m : Nat)
    (hscan : scanName str n text = some (name, fmt, m)) :
    ∃ letters rest, text = letters ++ rest ∧ name = String.ofList (str ++ letters) ∧
      (fmt = "" ∧ m = n + letters.length ∨
        ∃ inner after, rest = '\x7b' :: inner ++ '\x7d' :: after ∧ '\x7d' ∉ inner ∧
          fmt = String.ofList inner ∧ m = n + letters.length + inner.length + 2) := by
  induction text generalizing str n with
  | nil =>
    cases hscan
    exact ⟨[], [], rfl, by rw [List.append_nil], .inl ⟨rfl, rfl⟩⟩
  | cons c text ih =>
    rw [scanName] at hscan
    split at hscan
    · cases hscan
      exact ⟨[], c :: text, rfl, by rw [List.append_nil], .inl ⟨rfl, rfl⟩⟩
    · split at hscan
      · rename_i hopen
        obtain ⟨inner, after, rfl, hbrace, hname, hfmt, hm⟩ := scanFormat_some _ _ _ _ _ _ _ hscan
        refine ⟨[], _, rfl, by rw [hname, List.append_nil], .inr ⟨inner, after, ?_, hbrace, hfmt, ?_⟩⟩
        · rw [hopen]
          rfl
        · rw [hm, List.length_nil]
          omega
      · obtain ⟨letters, rest, rfl, hname, hend⟩ := ih _ _ hscan
        refine ⟨c :: letters, rest, rfl, ?_, ?_⟩
        · rw [hname, List.append_assoc]
          rfl
        · rw [List.length_cons]
          refine hend.imp ?_ ?_
          · rintro ⟨hfmt, hm⟩
            exact ⟨hfmt, by omega⟩
          · rintro ⟨inner, after, hrest, hbrace, hfmt, hm⟩
            exact ⟨inner, after, hrest, hbrace, hfmt, by omega⟩

end LogFormatter

def plainEvent : LogEvent where
  file := "0"
  line := 0
  elapse := 0
  threadId := 0
  fiberId := 0
  time := 0
  threadName := "0"
  content := "0"
  logger := "0"

/-- Two texts that part from each other somewhere, seen from their ends. -/
def Differ (out text : List Char) : Prop :=
  ∃ first second tail c d, out = first ++ c :: tail ∧ text = second ++ d :: tail ∧ c ≠ d

theorem Differ.ne {out text : List Char} (hdiffer : Differ out text) : out ≠ text := by
  obtain ⟨first, second, tail, c, d, rfl, rfl, hne⟩ := hdiffer
  intro heq
  rw [List.append_cons first, List.append_cons second] at heq
  have hlast := congrArg List.getLast? (List.append_cancel_right heq)
  rw [List.getLast?_concat, List.getLast?_concat] at hlast
  exact hne (Option.some.inj hlast)

theorem Differ.append {out text : List Char} (hdiffer : Differ out text)
    (before after : List Char) : Differ (before ++ out) (after ++ text) := by
  obtain ⟨first, second, tail, c, d, rfl, rfl, hne⟩ := hdiffer
  exact ⟨before ++ first, after ++ second, tail, c, d, (List.append_assoc _ _ _).symm,
    (List.append_assoc _ _ _).symm, hne⟩

theorem mem_escape (c : Char) (text : List Char) : c ∈ escape text ↔ c ∈ text := by
  induction text with
  | nil => rfl
  | cons d text ih =>
    by_cases hd : d = '%'
    · rw [hd, escape_percent, List.mem_cons, List.mem_cons, List.mem_cons, ih]
      tauto
    · rw [escape_cons d text hd, List.mem_cons, List.mem_cons, ih]

/-- What a date writes ends neither with a brace nor, for the standard format, like its name. -/
theorem Strftime.print_last (strftime : Strftime) (inner : List Char) (hbrace : '\x7d' ∉ inner)
    (time : UInt64) (out : List Char)
    (hprint : strftime.print (String.ofList (escape inner)) time = some out) :
    ∃ text c, '%' :: out = text ++ [c] ∧ c ≠ '\x7d' ∧ (inner = [] → c ≠ 'd') := by
  unfold print at hprint
  dsimp only at hprint
  split at hprint
  · obtain rfl := Option.some.inj hprint
    by_cases hinner : inner = []
    · subst hinner
      obtain ⟨text, c, hdigit, htext⟩ := strftime.standard time
      refine ⟨'%' :: text, c, ?_, ?_, ?_⟩
      · change '%' :: strftime.expand standardDate time = _
        rw [htext]
        rfl
      · rintro rfl
        revert hdigit
        decide
      · rintro - rfl
        revert hdigit
        decide
    · have hsome : String.ofList (escape inner) ≠ "" := by
        intro hempty
        obtain ⟨c, rest, rfl⟩ := List.exists_cons_of_ne_nil hinner
        have hmem := (mem_escape c (c :: rest)).mpr List.mem_cons_self
        rw [String.ofList_injective hempty] at hmem
        cases hmem
      have htext : strftime.expand (format (String.ofList (escape inner))) time =
          inner.takeWhile (· ≠ '\x00') := by
        rw [format, if_neg hsome, String.toList_ofList, strftime.expand_escape]
      rw [htext]
      have hne : '%' :: inner.takeWhile (· ≠ '\x00') ≠ [] := List.cons_ne_nil _ _
      refine ⟨_, _, (List.dropLast_append_getLast hne).symm, ?_, fun h => absurd h hinner⟩
      intro hlast
      have hmem := List.getLast_mem hne
      rw [hlast, List.mem_cons] at hmem
      rcases hmem with hmem | hmem
      · revert hmem
        decide
      · exact hbrace ((List.takeWhile_sublist _).mem hmem)
  · cases hprint

theorem FormatItem.format_last (strftime : Strftime) (kind : FormatItemKind) (inner : List Char)
    (hbrace : '\x7d' ∉ inner) (out : List Char)
    (hformat : FormatItem.format strftime .debug plainEvent
      (.item kind (String.ofList (escape inner))) = some out) :
    ∃ text c, '%' :: out = text ++ [c] ∧ c ≠ '\x7d' ∧ (inner = [] → c ≠ kind.letter) := by
  cases kind with
  | dateTime => exact strftime.print_last inner hbrace plainEvent.time out hformat
  | level => exact ⟨"%DEBU".toList, 'G', by cases hformat; rfl, by decide, fun _ => by decide⟩
  | newLine => exact ⟨['%'], '\n', by cases hformat; rfl, by decide, fun _ => by decide⟩
  | tab => exact ⟨['%'], '\t', by cases hformat; rfl, by decide, fun _ => by decide⟩
  | message | elapse | name | threadId | fiberId | fileName | line | threadName =>
    exact ⟨['%'], '0', by cases hformat; rfl, by decide, fun _ => by decide⟩

theorem FormatItem.of_formatAll_append (strftime : Strftime) (level : LogLevel) (event : LogEvent)
    (first second : List FormatItem) (out : List Char)
    (hformat : formatAll strftime level event (first ++ second) = some out) :
    ∃ before after, formatAll strftime level event first = some before ∧
      formatAll strftime level event second = some after ∧ out = before ++ after := by
  induction first generalizing out with
  | nil => exact ⟨[], out, rfl, hformat, rfl⟩
  | cons item rest ih =>
    obtain ⟨text, htext, hmore⟩ := Option.bind_eq_some_iff.mp hformat
    obtain ⟨more, hrest, hout⟩ := Option.bind_eq_some_iff.mp hmore
    obtain ⟨before, after, hbefore, hafter, rfl⟩ := ih more hrest
    refine ⟨text ++ before, after, ?_, hafter, ?_⟩
    · simp only [formatAll, htext, hbefore]
      rfl
    · rw [List.append_assoc]
      exact (Option.some.inj hout).symm

namespace LogFormatter

theorem format_flush (strftime : Strftime) (level : LogLevel) (event : LogEvent)
    (run : List Char) :
    FormatItem.formatAll strftime level event ((flush run).map toItem) = some run := by
  unfold flush
  split
  · rename_i hrun
    rw [hrun]
    rfl
  · simp [FormatItem.formatAll, FormatItem.format, toItem]

theorem scan_plain (pattern : String) (nstr text : List Char) (hpercent : '%' ∉ text) :
    scan pattern nstr 0 (escape text) = (flush (nstr ++ text), []) := by
  have hscan := scan_literal pattern nstr text [] hpercent
  rw [List.append_nil] at hscan
  rw [escape_of_notMem text hpercent, hscan, scan]

theorem scanName_escape (pattern : String) (text : List Char) (name fmt : String) (n : Nat)
    (kind : FormatItemKind) (hname : scanName [] 0 (escape text) = some (name, fmt, n))
    (hkind : FormatItemKind.find name = some kind) :
    ∃ inner taken d after, text = taken ++ d :: after ∧ fmt = String.ofList (escape inner) ∧
      '\x7d' ∉ inner ∧ (d = '\x7d' ∨ inner = [] ∧ d = kind.letter) ∧
      scan pattern [] n (escape text) = scan pattern [] 0 (escape after) := by
  have hletter : kind.letter ≠ '%' := by cases kind <;> decide
  obtain ⟨letters, rest, htext, rfl, hend⟩ := scanName_some _ _ _ _ _ _ hname
  rw [List.nil_append] at hkind
  obtain rfl := FormatItemKind.eq_letter letters kind hkind
  obtain ⟨after, rfl, hrest⟩ := of_escape_cons text rest kind.letter hletter htext
  rw [escape_cons _ _ hletter]
  rcases hend with ⟨hfmt, hn⟩ | ⟨innerText, afterText, hbraces, hbrace, hfmt, hn⟩
  · refine ⟨[], [], kind.letter, after, rfl, hfmt, List.not_mem_nil, .inr ⟨rfl, rfl⟩, ?_⟩
    rw [hn]
    rfl
  · rw [hbraces] at hrest
    obtain ⟨after, rfl, hafter⟩ := of_escape_cons after _ '\x7b' (by decide) hrest.symm
    obtain ⟨inner, after, rfl, rfl, rfl⟩ := of_escape_brace after _ _ hbrace hafter.symm
    rw [mem_escape] at hbrace
    refine ⟨inner, kind.letter :: '\x7b' :: inner, '\x7d', after, rfl, hfmt, hbrace, .inl rfl, ?_⟩
    have hskip := scan_skip pattern [] (kind.letter :: '\x7b' :: escape inner ++ ['\x7d'])
      (escape after)
    have hlength : n = (kind.letter :: '\x7b' :: escape inner ++ ['\x7d']).length := by
      rw [hn, List.length_append]
      simp only [List.length_cons, List.length_nil]
      omega
    rw [← hlength, List.append_assoc] at hskip
    rw [← hrest]
    exact hskip

theorem scan_pair (pattern : String) (nstr rest : List Char) (hnext : rest.head? = some '%') :
    scan pattern nstr 0 ('%' :: rest) = scan pattern (nstr ++ ['%']) 0 rest := by
  rw [scan, if_neg (by simp), if_pos hnext]

theorem item_differs (strftime : Strftime) (kind : FormatItemKind) (inner : List Char)
    (hbrace : '\x7d' ∉ inner) (d : Char) (hd : d = '\x7d' ∨ inner = [] ∧ d = kind.letter)
    (written : List Char)
    (hwritten : FormatItem.format strftime .debug plainEvent
      (.item kind (String.ofList (escape inner))) = some written)
    (nstr taken after more : List Char) (hmore : more = after ∨ Differ more after) :
    Differ (nstr ++ ['%'] ++ (written ++ more)) ('%' :: taken ++ d :: after) := by
  rcases hmore with rfl | hdiffer
  · obtain ⟨text, c, htext, hclose, hletter⟩ :=
      FormatItem.format_last strftime kind inner hbrace written hwritten
    refine ⟨nstr ++ text, '%' :: taken, more, c, d, ?_, rfl, ?_⟩
    · calc nstr ++ ['%'] ++ (written ++ more) = nstr ++ ('%' :: written ++ more) := by simp
        _ = nstr ++ text ++ c :: more := by rw [htext]; simp
    · rintro rfl
      rcases hd with hd | ⟨hinner, hd⟩
      · exact hclose hd
      · exact hletter hinner hd
  · have happend := hdiffer.append (nstr ++ ['%'] ++ written) ('%' :: taken ++ [d])
    rw [List.append_assoc, List.append_assoc _ [d]] at happend
    exact happend

/-- Behind one that is kept, the last percent sign of a run begins a directive. `ih` is about what
stands behind the directive. -/
theorem directive_differs (strftime : Strftime) (pattern : String) (nstr rest : List Char)
    (parts : List PatternPart) (out : List Char) (hnext : rest.head? ≠ some '%')
    (hscan : scan pattern (nstr ++ ['%']) 0 ('%' :: escape rest) = (parts, []))
    (hknown : parts.any unknown = false)
    (hformat : FormatItem.formatAll strftime .debug plainEvent (parts.map toItem) = some out)
    (ih : ∀ after parts more, after.length ≤ rest.length → '%' ∈ after →
      scan pattern [] 0 (escape after) = (parts, []) → parts.any unknown = false →
      FormatItem.formatAll strftime .debug plainEvent (parts.map toItem) = some more →
      Differ more after) :
    Differ out ('%' :: rest) := by
  rw [scan, if_neg (by simp), if_neg (by rw [head_escape]; exact hnext)] at hscan
  cases hname : scanName [] 0 (escape rest) with
  | none =>
    rw [hname] at hscan
    cases (Prod.mk.inj hscan).2
  | some found =>
    obtain ⟨name, fmt, n⟩ := found
    rw [hname] at hscan
    obtain ⟨rfl, hlines⟩ := Prod.mk.inj hscan
    rw [List.any_append, List.any_cons, Bool.or_eq_false_iff, Bool.or_eq_false_iff] at hknown
    obtain ⟨-, hfound, hknown⟩ := hknown
    obtain ⟨kind, hkind⟩ := Option.ne_none_iff_exists'.mp
      (fun hnone => by simp [unknown, hnone] at hfound : FormatItemKind.find name ≠ none)
    obtain ⟨inner, taken, d, after, rfl, rfl, hbrace, hd, hrest⟩ :=
      scanName_escape pattern rest name fmt n kind hname hkind
    rw [hrest] at hknown hlines hformat
    rw [List.map_append, List.map_cons] at hformat
    obtain ⟨before, tail, hbefore, htail, rfl⟩ :=
      FormatItem.of_formatAll_append _ _ _ _ _ _ hformat
    rw [format_flush] at hbefore
    cases hbefore
    have hitem : toItem (.item name (String.ofList (escape inner))) =
        .item kind (String.ofList (escape inner)) := by
      simp only [toItem, hkind]
    rw [hitem] at htail
    obtain ⟨written, hwritten, htail⟩ := Option.bind_eq_some_iff.mp htail
    obtain ⟨more, hmore, htail⟩ := Option.bind_eq_some_iff.mp htail
    cases htail
    apply item_differs strftime kind inner hbrace d hd written hwritten
    by_cases hlater : '%' ∈ after
    · right
      apply ih after _ more _ hlater (Prod.ext rfl hlines) hknown hmore
      rw [List.length_append, List.length_cons]
      omega
    · left
      rw [scan_plain pattern [] after hlater, format_flush] at hmore
      exact (Option.some.inj hmore).symm

theorem escape_differs (strftime : Strftime) (pattern : String) (nstr text : List Char)
    (parts : List PatternPart) (out : List Char) (hpercent : '%' ∈ text)
    (hscan : scan pattern nstr 0 (escape text) = (parts, []))
    (hknown : parts.any unknown = false)
    (hformat : FormatItem.formatAll strftime .debug plainEvent (parts.map toItem) = some out) :
    Differ out text := by
  induction hlength : text.length using Nat.strongRecOn generalizing text nstr parts out with
  | ind length ih =>
    cases text with
    | nil => cases hpercent
    | cons c rest =>
      have hshorter : rest.length < length := by
        rw [← hlength]
        exact Nat.lt_succ_self _
      by_cases hc : c = '%'
      · subst hc
        rw [escape_percent, scan_pair _ _ _ List.head?_cons] at hscan
        by_cases hnext : rest.head? = some '%'
        · -- the second percent sign of a pair is kept like the first one
          rw [scan_pair _ _ _ ((head_escape rest).trans hnext)] at hscan
          exact (ih _ hshorter _ rest parts out (List.mem_of_mem_head? hnext) hscan hknown hformat
            rfl).append [] ['%']
        · apply directive_differs strftime pattern _ rest parts out hnext hscan hknown hformat
          intro after parts more hle hlater hscan hknown hformat
          exact ih _ (Nat.lt_of_le_of_lt hle hshorter) [] after parts more hlater hscan hknown
            hformat rfl
      · rw [escape_cons c rest hc, scan, if_pos hc] at hscan
        have hmem : '%' ∈ rest := (List.mem_cons.mp hpercent).resolve_left (Ne.symm hc)
        exact (ih _ hshorter _ rest parts out hmem hscan hknown hformat rfl).append [] [c]

end LogFormatter

/-- The doubled text is printed as the text exactly when nothing was doubled. -/
theorem printsEscaped_iff (strftime : Strftime) (text : String) :
    PrintsEscaped strftime text ↔ '%' ∉ text.toList := by
  have hitems : (LogFormatter.new (String.ofList (escape text.toList))).items =
      (LogFormatter.scan (String.ofList (escape text.toList)) [] 0 (escape text.toList)).1.map
        LogFormatter.toItem := by
    rw [LogFormatter.new, String.toList_ofList]
  have herror : (LogFormatter.new (String.ofList (escape text.toList))).error = false ↔
      (LogFormatter.scan (String.ofList (escape text.toList)) [] 0 (escape text.toList)).2 = [] ∧
      (LogFormatter.scan (String.ofList (escape text.toList)) [] 0
        (escape text.toList)).1.any LogFormatter.unknown = false := by
    rw [LogFormatter.new, String.toList_ofList]
    simp
  rw [PrintsEscaped, herror]
  simp only [LogFormatter.format, hitems]
  constructor
  · rintro ⟨⟨hlines, hknown⟩, hprint⟩ hpercent
    exact (LogFormatter.escape_differs strftime _ [] text.toList _ text.toList hpercent
      (Prod.ext rfl hlines) hknown (hprint .debug plainEvent)).ne rfl
  · intro hpercent
    rw [LogFormatter.scan_plain _ _ _ hpercent]
    refine ⟨⟨rfl, ?_⟩, ?_⟩
    · unfold LogFormatter.flush
      split <;> rfl
    · intro level event
      exact LogFormatter.format_flush strftime level event _

def stoppedClock : List Char → List Char
  | '%' :: '%' :: rest => '%' :: stoppedClock rest
  | '%' :: _ :: rest => '0' :: stoppedClock rest
  | ['%'] => []
  | c :: rest => c :: stoppedClock rest
  | [] => []

def stoppedStrftime : Strftime where
  expand := fun fmt _ => stoppedClock fmt
  nil := fun _ => rfl
  ordinary := by
    intro c rest _ hc
    simp [stoppedClock, hc]
  percent := fun _ _ => rfl
  standard := fun _ => ⟨"0-0-0 0:0:".toList, '0', by decide, by decide⟩

/-- The text of one percent sign: the second one of the pattern is a directive without a name. -/
theorem escaped_percent_error :
    (LogFormatter.new "%%").error = true ∧
      (LogFormatter.new "%%").items = [.string "%", .string "<<error_format %>>"] ∧
      ¬ PrintsEscaped stoppedStrftime "%" := by
  refine ⟨by decide, by decide, ?_⟩
  rintro ⟨herror, -⟩
  revert herror
  decide

end Sylar
