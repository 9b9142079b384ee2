import Sylar.Http.Framing
import Sylar.Http.Methods
import Sylar.Http.Words

/-! The parts of a head as a dump writes them, each read from a state and a request to the next. -/
namespace Sylar
namespace Http11
open HttpRequestParser
open Lib (CharClass st)

/-- Where the parser is, what it has reported so far, and that there was no error. -/
structure Stands (cs : Nat) (data : HttpRequest) (p : HttpRequestParser Nat) : Prop where
  cs : p.parser.cs = some cs
  data : p.data = data
  error : p.error = 0

theorem methods_run (relaxed : Bool) : ∀ entry ∈ httpMethodMap, entry.1 ≠ .MSEARCH →
    ∃ c rest cs, octets entry.2 = c :: rest ∧ goto relaxed 1 c = some tr0 ∧
      plainRun relaxed 2 rest = some cs ∧ goto relaxed cs 32 = some tr4 := by
  have hall : (httpMethodMap.all fun entry => decide (entry.1 = .MSEARCH) ||
      !(octets entry.2).isEmpty && decide (goto relaxed 1 ((octets entry.2).headD 0) = some tr0) &&
        ((plainRun relaxed 2 (octets entry.2).tail).map fun cs => goto relaxed cs 32) ==
          some (some tr4)) = true := by
    cases relaxed <;> decide +kernel
  intro entry hentry hmethod
  have hone := List.all_eq_true.mp hall entry hentry
  rw [decide_eq_false hmethod, Bool.false_or] at hone
  cases hname : octets entry.2 with
  | nil =>
    rw [hname] at hone
    cases hone
  | cons c rest =>
    simp only [hname, List.headD_cons, List.tail_cons, List.isEmpty_cons, Bool.not_false,
      Bool.true_and, Bool.and_eq_true, decide_eq_true_eq, beq_iff_eq] at hone
    obtain ⟨cs, hrun, hspace⟩ := Option.map_eq_some_iff.mp hone.2
    exact ⟨c, rest, cs, rfl, hone.1, hrun, hspace⟩

theorem reads_method (relaxed : Bool) (entry : HttpMethod × String) (hentry : entry ∈ httpMethodMap)
    (hmethod : entry.1 ≠ .MSEARCH) (data : HttpRequest) (p : HttpRequestParser Nat)
    (hp : Stands 1 data p) :
    ∃ q, Reads relaxed [] (octets entry.2 ++ [32]) p q ∧ Stands 3 (data.setMethod entry.1) q := by
  obtain ⟨c, rest, cs, hname, hfirst, hrun, hspace⟩ := methods_run relaxed entry hentry hmethod
  let marked : HttpRequestParser Nat := { p with parser.mark := 0, parser.cs := some 2 }
  let named : HttpRequestParser Nat := { marked with parser.cs := some cs }
  refine ⟨{ p with parser.mark := 0, parser.cs := some 3, data := p.data.setMethod entry.1 }, ?_,
    rfl, congrArg (·.setMethod entry.1) hp.data, hp.error⟩
  rw [hname]
  apply Lib.Reads.trans _ [] (c :: rest) [32] p named
  · apply Lib.Reads.cons _ [] rest c p marked
    · exact Reads.one relaxed [] c 1 tr0 p { p with parser.mark := 0 } hp.cs hfirst (by decide)
        fun _ => rfl
    · exact Reads.plain relaxed [c] rest 2 cs marked rfl hrun
  · apply Reads.one relaxed (c :: rest) 32 cs tr4 named
      { named with data := p.data.setMethod entry.1 } rfl hspace (by decide)
    intro after
    have hfound : charsToHttpMethod (octets entry.2 ++ 32 :: after) = entry.1 :=
      (charsToHttpMethod_eq_iff _ _ entry hentry).mpr (List.prefix_refl _)
    show Except.ok (named.onRequestMethod ((c :: rest ++ 32 :: after).drop 0)) = _
    rw [List.drop_zero, ← hname]
    simp only [onRequestMethod, hfound, if_neg (httpMethodMap_valid entry hentry)]
    rfl

def segmentByte (relaxed : Bool) : CharClass := unreserved ++ subDelims relaxed ++ [(58, 58), (64, 64)]

def pathByte (relaxed : Bool) : CharClass :=
  unreserved ++ subDelims relaxed ++ [(47, 47), (58, 58), (64, 64)]

def queryByte (relaxed : Bool) : CharClass :=
  unreserved ++ subDelims relaxed ++ [(47, 47), (58, 58), (63, 64)]

def pathStates : WordStates := ⟨26, 27, 28⟩

def queryStates : WordStates := ⟨30, 31, 32⟩

def fragmentStates : WordStates := ⟨21, 22, 23⟩

theorem states_ok (relaxed : Bool) : pathStates.ok relaxed (pathByte relaxed) = true ∧
    queryStates.ok relaxed (queryByte relaxed) = true ∧
    fragmentStates.ok relaxed (queryByte relaxed) = true := by
  cases relaxed <;> decide +kernel

theorem starts_ok (relaxed : Bool) :
    onClass relaxed 33 (segmentByte relaxed) (st 26) = true ∧
    goto relaxed 33 37 = some (st 27) ∧
    onClass relaxed 29 (queryByte relaxed) tr54 = true ∧ goto relaxed 29 37 = some tr56 ∧
    onClass relaxed 20 (queryByte relaxed) tr44 = true ∧ goto relaxed 20 37 = some tr45 := by
  cases relaxed <;> decide +kernel

theorem query_jumps (relaxed : Bool) : goto relaxed 30 32 = some tr57 ∧
    goto relaxed 30 35 = some tr59 ∧ goto relaxed 21 32 = some tr46 := by
  cases relaxed <;> decide +kernel

/-- What has been read is a target up to here: a space ends it, and a number sign ends it before a
fragment. -/
structure EndsTarget (relaxed : Bool) (before : List UInt8) (p : HttpRequestParser Nat)
    (data : HttpRequest) : Prop where
  space : ∃ q, Reads relaxed before [32] p q ∧ Stands 4 data q
  sign : ∃ q, Reads relaxed before [35] p q ∧ Stands 20 data q

theorem path_jumps (relaxed : Bool) (cs : Nat) (hcs : cs = 33 ∨ cs = 26) :
    goto relaxed cs 32 = some tr37 ∧ goto relaxed cs 35 = some tr39 ∧
    goto relaxed cs 63 = some tr42 := by
  rcases hcs with rfl | rfl <;> cases relaxed <;> decide +kernel

theorem segmentByte_has (relaxed : Bool) (c : UInt8) (hc : (pathByte relaxed).has c = true)
    (hslash : c ≠ 47) : (segmentByte relaxed).has c = true := by
  rw [pathByte, CharClass.has_append, CharClass.has_append, Bool.or_eq_true, Bool.or_eq_true] at hc
  rw [segmentByte, CharClass.has_append, CharClass.has_append, Bool.or_eq_true, Bool.or_eq_true]
  refine hc.imp id fun hlast => ?_
  simp only [CharClass.has, List.any_cons, List.any_nil, Bool.or_false, Bool.or_eq_true,
    Bool.and_eq_true, Nat.ble_eq] at hlast ⊢
  refine hlast.resolve_left fun hboth => hslash ?_
  exact UInt8.toNat_inj.mp (Nat.le_antisymm hboth.2 hboth.1)

section
variable (relaxed : Bool) (before word : List UInt8) (data : HttpRequest)
  (p : HttpRequestParser Nat)

theorem reads_path (hp : Stands 3 data p) (hslash : word.head? ≠ some 47)
    (hword : escaped (pathByte relaxed) 0 word = true) :
    ∃ q, Reads relaxed before (47 :: word) p q ∧
      EndsTarget relaxed (before ++ 47 :: word) q (data.setPath (47 :: word)) ∧
      ∃ r, Reads relaxed (before ++ 47 :: word) [63] q r ∧
        Stands 29 (data.setPath (47 :: word)) r := by
  let marked : HttpRequestParser Nat := { p with parser.mark := before.length, parser.cs := some 33 }
  have hopen : Reads relaxed before [47] p marked :=
    Reads.one relaxed before 47 3 tr10 p { p with parser.mark := before.length } hp.cs
      (by cases relaxed <;> decide +kernel) (by decide) fun _ => rfl
  obtain ⟨cs, hcs, hrest⟩ : ∃ cs, (cs = 33 ∨ cs = 26) ∧
      Reads relaxed (before ++ [47]) word marked { marked with parser.cs := some cs } := by
    cases word with
    | nil => exact ⟨33, .inl rfl, Lib.Reads.nil _ _ _⟩
    | cons c rest =>
      refine ⟨26, .inr rfl, ?_⟩
      have hc : c ≠ 47 := fun heq => hslash (congrArg some heq)
      refine Reads.word pathStates relaxed _ c rest 33 (pathByte relaxed) [] marked marked
        (states_ok relaxed).1 rfl ?_ ?_ (fun _ => rfl) hword
      · intro hhas
        exact goto_of_onClass relaxed 33 _ _ c (starts_ok relaxed).1 (segmentByte_has relaxed c hhas hc)
      · rintro rfl
        exact (starts_ok relaxed).2.1
  have hreads := Lib.Reads.cons _ before word 47 p marked _ hopen hrest
  obtain ⟨hspace, hsign, hquery⟩ := path_jumps relaxed cs hcs
  let found : HttpRequestParser Nat :=
    { marked with parser.cs := some cs, data := p.data.setPath (47 :: word) }
  have htoken (after : List UInt8) :
      tokenFrom (before ++ 47 :: word ++ after) before.length (before ++ 47 :: word).length =
        .ok (47 :: word) := by
    rw [List.append_assoc]
    exact tokenFrom_between before (47 :: word) after
  have hpath (c : UInt8) (after : List UInt8) :
      act (before ++ 47 :: word ++ c :: after) (before ++ 47 :: word).length
        { marked with parser.cs := some cs } .requestPath = .ok found := by
    rw [act, htoken]
    rfl
  have hdata : found.data = data.setPath (47 :: word) := congrArg (·.setPath (47 :: word)) hp.data
  refine ⟨_, hreads, ⟨⟨{ found with parser.cs := some 4 }, ?_, rfl, hdata, hp.error⟩,
    ⟨{ found with parser.cs := some 20 }, ?_, rfl, hdata, hp.error⟩⟩,
    ⟨{ found with parser.cs := some 29 }, ?_, rfl, hdata, hp.error⟩⟩
  · refine Reads.one relaxed _ 32 cs tr37 _ found rfl hspace (by decide) fun after => ?_
    rw [acts, tr37, List.foldlM_cons, hpath]
    rfl
  · refine Reads.one relaxed _ 35 cs tr39 _ found rfl hsign (by decide) fun after => ?_
    rw [acts, tr39, List.foldlM_cons, hpath]
    rfl
  · refine Reads.one relaxed _ 63 cs tr42 _ found rfl hquery (by decide) fun after => ?_
    rw [acts, tr42, List.foldlM_cons, hpath]
    rfl

theorem reads_query (hp : Stands 29 data p) (hsome : word ≠ [])
    (hword : escaped (queryByte relaxed) 0 word = true) :
    ∃ q, Reads relaxed before word p q ∧
      EndsTarget relaxed (before ++ word) q (data.setQuery word) := by
  obtain ⟨c, rest, rfl⟩ := List.exists_cons_of_ne_nil hsome
  let started : HttpRequestParser Nat :=
    { p with parser.queryStart := some before.length, parser.cs := some 30 }
  have hreads : Reads relaxed before (c :: rest) p started := by
    refine Reads.word queryStates relaxed before c rest 29 (queryByte relaxed) [.startQuery] p
      { p with parser.queryStart := some before.length } (states_ok relaxed).2.1 hp.cs ?_ ?_
      (fun _ => rfl) hword
    · exact goto_of_onClass relaxed 29 _ _ c (starts_ok relaxed).2.2.1
    · rintro rfl
      exact (starts_ok relaxed).2.2.2.1
  obtain ⟨hspace, hsign, -⟩ := query_jumps relaxed
  let found : HttpRequestParser Nat := { started with data := p.data.setQuery (c :: rest) }
  have hquery (d : UInt8) (after : List UInt8) :
      act (before ++ c :: rest ++ d :: after) (before ++ c :: rest).length started .queryString =
        .ok found := by
    have htoken := tokenFrom_between before (c :: rest) (d :: after)
    rw [← List.append_assoc] at htoken
    rw [act]
    dsimp only [started]
    rw [htoken]
    rfl
  have hdata : found.data = data.setQuery (c :: rest) := congrArg (·.setQuery (c :: rest)) hp.data
  refine ⟨started, hreads, ⟨{ found with parser.cs := some 4 }, ?_, rfl, hdata, hp.error⟩,
    ⟨{ found with parser.cs := some 20 }, ?_, rfl, hdata, hp.error⟩⟩
  · refine Reads.one relaxed _ 32 30 tr57 _ found rfl hspace (by decide) fun after => ?_
    rw [acts, tr57, List.foldlM_cons, hquery]
    rfl
  · refine Reads.one relaxed _ 35 30 tr59 _ found rfl hsign (by decide) fun after => ?_
    rw [acts, tr59, List.foldlM_cons, hquery]
    rfl

theorem reads_fragment (hp : Stands 20 data p) (hsome : word ≠ [])
    (hword : escaped (queryByte relaxed) 0 word = true) :
    ∃ q, Reads relaxed before (word ++ [32]) p q ∧ Stands 4 (data.setFragment word) q := by
  obtain ⟨c, rest, rfl⟩ := List.exists_cons_of_ne_nil hsome
  let marked : HttpRequestParser Nat :=
    { p with parser.mark := before.length, parser.cs := some 21 }
  have hreads : Reads relaxed before (c :: rest) p marked := by
    refine Reads.word fragmentStates relaxed before c rest 20 (queryByte relaxed) [.mark] p
      { p with parser.mark := before.length } (states_ok relaxed).2.2 hp.cs ?_ ?_
      (fun _ => rfl) hword
    · exact goto_of_onClass relaxed 20 _ _ c (starts_ok relaxed).2.2.2.2.1
    · rintro rfl
      exact (starts_ok relaxed).2.2.2.2.2
  let found : HttpRequestParser Nat := { marked with data := p.data.setFragment (c :: rest) }
  refine ⟨{ found with parser.cs := some 4 }, ?_, rfl, congrArg (·.setFragment (c :: rest)) hp.data,
    hp.error⟩
  apply Lib.Reads.trans _ before (c :: rest) [32] p marked _ hreads
  refine Reads.one relaxed _ 32 21 tr46 marked found rfl (query_jumps relaxed).2.2 (by decide)
    fun after => ?_
  have htoken := tokenFrom_between before (c :: rest) (32 :: after)
  rw [← List.append_assoc] at htoken
  rw [acts, tr46, List.foldlM_cons, act, htoken]
  rfl

theorem reads_end (fragment : List UInt8) (hp : EndsTarget relaxed before p data)
    (hnone : data.fragment = []) (hfragment : escaped (queryByte relaxed) 0 fragment = true) :
    ∃ q, Reads relaxed before
        ((if fragment = [] then [] else octets "#") ++ fragment ++ [32]) p q ∧
      Stands 4 (data.setFragment fragment) q := by
  by_cases hempty : fragment = []
  · subst hempty
    obtain ⟨q, hreads, hq⟩ := hp.space
    have hsame : data.setFragment [] = data := by
      rw [HttpRequest.setFragment, ← hnone]
    rw [hsame]
    exact ⟨q, hreads, hq⟩
  · obtain ⟨q, hsign, hq⟩ := hp.sign
    obtain ⟨r, hreads, hr⟩ := reads_fragment relaxed (before ++ [35]) fragment data q hq hempty
      hfragment
    rw [if_neg hempty]
    exact ⟨r, Lib.Reads.cons _ before _ 35 p q r hsign hreads, hr⟩

theorem reads_target (query fragment : List UInt8) (hp : Stands 3 data p)
    (hslash : word.head? ≠ some 47) (hword : escaped (pathByte relaxed) 0 word = true)
    (hquery : escaped (queryByte relaxed) 0 query = true)
    (hfragment : escaped (queryByte relaxed) 0 fragment = true) (hquiet : data.query = [])
    (hnone : data.fragment = []) :
    ∃ q, Reads relaxed before (47 :: word ++ (if query = [] then [] else octets "?") ++ query ++
        (if fragment = [] then [] else octets "#") ++ fragment ++ [32]) p q ∧
      Stands 4 (((data.setPath (47 :: word)).setQuery query).setFragment fragment) q := by
  obtain ⟨q, hpath, hends, r, hmark, hr⟩ := reads_path relaxed before word data p hp hslash hword
  by_cases hempty : query = []
  · subst hempty
    have hsame : (data.setPath (47 :: word)).setQuery [] = data.setPath (47 :: word) := by
      rw [HttpRequest.setQuery, HttpRequest.setPath, ← hquiet]
    rw [hsame]
    obtain ⟨s, hend, hs⟩ := reads_end relaxed _ (data.setPath (47 :: word)) q fragment hends hnone
      hfragment
    refine ⟨s, ?_, hs⟩
    have hall := Lib.Reads.trans _ before (47 :: word) _ p q s hpath hend
    simpa only [if_pos, List.append_nil, List.append_assoc] using hall
  · obtain ⟨t, hread, ht⟩ := reads_query relaxed _ query _ r hr hempty hquery
    obtain ⟨s, hend, hs⟩ := reads_end relaxed _ _ t fragment ht hnone hfragment
    refine ⟨s, ?_, hs⟩
    have hall := Lib.Reads.trans _ before (47 :: word) _ p q s hpath
      (Lib.Reads.trans _ _ [63] _ q r s hmark (Lib.Reads.trans _ _ query _ r t s hread hend))
    have hsign : octets "?" = [63] := by decide
    rw [if_neg hempty, hsign]
    simpa only [List.append_assoc] using hall

end

theorem version_runs (relaxed : Bool) : goto relaxed 4 72 = some tr13 ∧
    plainRun relaxed 5 (octets "TTP/1.1") = some 12 ∧ plainRun relaxed 5 (octets "TTP/1.0") = some 12 ∧
    goto relaxed 12 13 = some tr22 ∧ goto relaxed 17 10 = some (st 13) := by
  cases relaxed <;> decide +kernel

theorem reads_version (relaxed : Bool) (before : List UInt8) (data : HttpRequest)
    (p : HttpRequestParser Nat) (version : UInt8) (text : List UInt8)
    (hversion : version = 0x11 ∧ text = octets "HTTP/1.1" ∨
      version = 0x10 ∧ text = octets "HTTP/1.0") (hp : Stands 4 data p) :
    ∃ q, Reads relaxed before (text ++ [13, 10]) p q ∧ Stands 13 (data.setVersion version) q := by
  obtain ⟨hfirst, hnew, hold, hreturn, hline⟩ := version_runs relaxed
  obtain ⟨rest, rfl, hrun, hlength⟩ : ∃ rest, text = 72 :: rest ∧ plainRun relaxed 5 rest = some 12 ∧
      rest.length = 7 := by
    rcases hversion with ⟨-, rfl⟩ | ⟨-, rfl⟩
    · exact ⟨octets "TTP/1.1", by decide, hnew, by decide⟩
    · exact ⟨octets "TTP/1.0", by decide, hold, by decide⟩
  let marked : HttpRequestParser Nat := { p with parser.mark := before.length, parser.cs := some 5 }
  let read : HttpRequestParser Nat := { marked with parser.cs := some 12 }
  let found : HttpRequestParser Nat := { read with data := p.data.setVersion version }
  have hone : Reads relaxed before [72] p marked :=
    Reads.one relaxed before 72 4 tr13 p { p with parser.mark := before.length } hp.cs hfirst
      (by decide) fun _ => rfl
  have htwo : Reads relaxed (before ++ [72]) rest marked read :=
    Reads.plain relaxed _ rest 5 12 marked rfl hrun
  have hthree : Reads relaxed (before ++ 72 :: rest) [13] read { found with parser.cs := some 17 } := by
    refine Reads.one relaxed _ 13 12 tr22 read found rfl hreturn (by decide) fun after => ?_
    have hle : before.length ≤ (before ++ 72 :: rest).length := by simp
    have height : (before ++ 72 :: rest).length - before.length = 8 := by
      rw [List.length_append, Nat.add_sub_cancel_left, List.length_cons, hlength]
    have hchars : (before ++ 72 :: rest ++ 13 :: after).drop before.length =
        72 :: rest ++ 13 :: after := by
      rw [List.append_assoc, List.drop_left]
    have hset : read.onRequestVersion (72 :: rest ++ 13 :: after) 8 = found := by
      rw [onRequestVersion_append read (72 :: rest) _ 8 (by rw [List.length_cons, hlength])]
      unfold onRequestVersion
      rcases hversion with ⟨rfl, htext⟩ | ⟨rfl, htext⟩
      · rw [htext, if_pos (by decide)]
      · rw [htext, if_neg (by decide), if_pos (by decide)]
    rw [acts, tr22, List.foldlM_cons, act, lengthFrom_ok _ _ hle, height, hchars]
    show (Except.ok (read.onRequestVersion (72 :: rest ++ 13 :: after) 8) >>= _) = _
    rw [hset]
    rfl
  have hfour : Reads relaxed (before ++ 72 :: rest ++ [13]) [10] { found with parser.cs := some 17 }
      { found with parser.cs := some 13 } :=
    Reads.silent relaxed _ 10 17 _ rfl 13 hline (by decide)
  refine ⟨{ found with parser.cs := some 13 }, ?_, rfl, congrArg (·.setVersion version) hp.data,
    hp.error⟩
  exact Lib.Reads.trans _ before (72 :: rest) _ p read _
    (Lib.Reads.cons _ before rest 72 p marked read hone htwo)
    (Lib.Reads.cons _ _ [10] 13 read _ _ hthree hfour)

def IsName (name : List UInt8) : Prop :=
  ∃ c rest, name = c :: rest ∧ c ≠ 10 ∧ c ≠ 13 ∧ ∀ d ∈ name, token.has d = true

theorem isName_iff (name : List UInt8) : ((name.head?.any fun c => c != 10 && c != 13) &&
    name.all token.has) = true ↔ IsName name := by
  cases name with
  | nil => simp [IsName]
  | cons c rest => simp [IsName, and_assoc]

instance IsName.decidable (name : List UInt8) : Decidable (IsName name) :=
  decidable_of_iff _ (isName_iff name)

def IsValue (value : List UInt8) : Prop := Lib.CharClass.Spells valueByte leadByte value

instance IsValue.decidable (value : List UInt8) : Decidable (IsValue value) :=
  inferInstanceAs (Decidable (Lib.CharClass.Spells _ _ _))

def nameLead : CharClass :=
  [(1, 8), (11, 12), (14, 31), (33, 33), (35, 39), (42, 43), (45, 46), (48, 57), (65, 90), (94, 122),
    (124, 124), (126, 126)]

theorem line_jumps (relaxed : Bool) : onClass relaxed 13 nameLead tr23 = true ∧
    onClass relaxed 14 token (st 14) = true ∧ goto relaxed 14 58 = some tr27 ∧
    goto relaxed 15 32 = some tr29 ∧ onClass relaxed 15 leadByte tr28 = true ∧
    onClass relaxed 16 valueByte (st 16) = true ∧ goto relaxed 15 13 = some tr31 ∧
    goto relaxed 16 13 = some tr34 := by
  cases relaxed <;> decide +kernel

theorem nameLead_has (c : UInt8) (hc : token.has c = true) (hline : c ≠ 10) (hreturn : c ≠ 13) :
    nameLead.has c = true := by
  have hbyte := CharClass.forall_byte
    (fun c => !token.has c || c == 10 || c == 13 || nameLead.has c) (by decide +kernel) c
  simpa [hc, hline, hreturn] using hbyte

/-- Where the field registers cover a name, with the machine in front of or inside its value. -/
structure Names (name before : List UInt8) (p : HttpRequestParser Nat) : Prop where
  fieldStart : p.parser.fieldStart = before.length
  fieldLen : p.parser.fieldLen = name.length

section
variable (relaxed : Bool) (before name value : List UInt8) (data : HttpRequest)
  (p : HttpRequestParser Nat)

theorem reads_name (hp : Stands 13 data p) (hname : IsName name) :
    ∃ q, Reads relaxed before (name ++ [58]) p q ∧ Stands 15 data q ∧ Names name before q := by
  obtain ⟨c, rest, rfl, hline, hreturn, htoken⟩ := hname
  obtain ⟨hfirst, hrest, hcolon, -⟩ := line_jumps relaxed
  have hlead := nameLead_has c (htoken c List.mem_cons_self) hline hreturn
  let started : HttpRequestParser Nat :=
    { p with parser.fieldStart := before.length, parser.cs := some 14 }
  let named : HttpRequestParser Nat := { started with parser.fieldLen := (c :: rest).length }
  have hone : Reads relaxed before [c] p started :=
    Reads.one relaxed before c 13 tr23 p { p with parser.fieldStart := before.length } hp.cs
      (goto_of_onClass relaxed 13 nameLead tr23 c hfirst hlead) (by decide) fun _ => rfl
  have htwo : Reads relaxed (before ++ [c]) rest started started :=
    Reads.loop relaxed _ rest 14 token started rfl (by decide) hrest
      fun d hd => htoken d (List.mem_cons_of_mem c hd)
  refine ⟨{ named with parser.cs := some 15 }, ?_, ⟨rfl, hp.data, hp.error⟩, rfl, rfl⟩
  apply Lib.Reads.trans _ before (c :: rest) [58] p started
  · exact Lib.Reads.cons _ before rest c p started started hone htwo
  · refine Reads.one relaxed _ 58 14 tr27 started named rfl hcolon (by decide) fun after => ?_
    have hle : before.length ≤ (before ++ c :: rest).length := by simp
    rw [acts, tr27, List.foldlM_cons, act, lengthFrom_ok _ _ hle, List.length_append,
      Nat.add_sub_cancel_left]
    rfl

theorem Names.stringAt (more after : List UInt8) (hp : Names name before p) :
    stringAt (before ++ (name ++ more) ++ after) p.parser.fieldStart p.parser.fieldLen =
      .ok name := by
  rw [hp.fieldStart, hp.fieldLen, List.append_assoc, List.append_assoc]
  exact stringAt_between before name (more ++ after)

/-- The value, up to the end of the line; `more` is what stands between the name and the value. -/
theorem reads_value (more : List UInt8) (hp : Stands 15 data p) (hnames : Names name before p)
    (hsome : name ≠ []) (hvalue : IsValue value) :
    ∃ q, Reads relaxed (before ++ (name ++ more)) (value ++ [13, 10]) p q ∧
      Stands 13 (data.setHeader name value) q := by
  obtain ⟨-, -, -, -, hlead, hinner, hempty, hend⟩ := line_jumps relaxed
  obtain ⟨-, -, -, -, hline⟩ := version_runs relaxed
  let marked : HttpRequestParser Nat :=
    { p with parser.mark := (before ++ (name ++ more)).length }
  let found : HttpRequestParser Nat := { marked with data := p.data.setHeader name value }
  have hreport (cs : Nat) (after : List UInt8) :
      act (before ++ (name ++ more) ++ value ++ 13 :: after)
        (before ++ (name ++ more) ++ value).length { marked with parser.cs := some cs } .writeValue =
        .ok { found with parser.cs := some cs } := by
    have hstring := Names.stringAt before name { marked with parser.cs := some cs } more
      (value ++ 13 :: after) ⟨hnames.fieldStart, hnames.fieldLen⟩
    have htoken := tokenFrom_between (before ++ (name ++ more)) value (13 :: after)
    rw [← List.append_assoc _ value] at hstring htoken
    have hlength : ¬ name.length = 0 := fun hzero => hsome (List.length_eq_zero_iff.mp hzero)
    rw [act, hstring]
    show (tokenFrom _ (before ++ (name ++ more)).length _ >>= _) = _
    rw [htoken]
    show Except.ok (HttpRequestParser.onRequestHttpField _ name value) = _
    rw [onRequestHttpField, if_neg hlength]
  have hlast (read : List UInt8) : Reads relaxed read [10] { found with parser.cs := some 17 }
      { found with parser.cs := some 13 } :=
    Reads.silent relaxed read 10 17 _ rfl 13 hline (by decide)
  refine ⟨{ found with parser.cs := some 13 }, ?_, rfl, congrArg (·.setHeader name value) hp.data,
    hp.error⟩
  cases hword : value with
  | nil =>
    rw [List.nil_append]
    refine Lib.Reads.cons _ _ [10] 13 p { found with parser.cs := some 17 } _ ?_ (hlast _)
    refine Reads.one relaxed _ 13 15 tr31 p found hp.cs hempty (by decide) fun after => ?_
    have hwrite := hreport 15 after
    rw [hword, List.append_nil] at hwrite
    rw [setState_self marked 15 hp.cs, setState_self found 15 hp.cs] at hwrite
    rw [acts, tr31, List.foldlM_cons, act]
    show (act _ _ marked .writeValue >>= _) = _
    rw [hwrite]
    rfl
  | cons c rest =>
    have hc : leadByte.has c = true := hvalue.2 c (by rw [hword]; rfl)
    refine Lib.Reads.trans _ _ (c :: rest) [13, 10] p { marked with parser.cs := some 16 } _ ?_ ?_
    · refine Lib.Reads.cons _ _ rest c p { marked with parser.cs := some 16 } _ ?_ ?_
      · exact Reads.one relaxed _ c 15 tr28 p marked hp.cs
          (goto_of_onClass relaxed 15 leadByte tr28 c hlead hc) (by decide) fun _ => rfl
      · exact Reads.loop relaxed _ rest 16 valueByte _ rfl (by decide) hinner
          fun d hd => hvalue.1 d (by rw [hword]; exact List.mem_cons_of_mem c hd)
    · rw [← hword]
      refine Lib.Reads.cons _ _ [10] 13 _ { found with parser.cs := some 17 } _ ?_ (hlast _)
      refine Reads.one relaxed _ 13 16 tr34 _ { found with parser.cs := some 16 } rfl hend
        (by decide) fun after => ?_
      rw [acts, tr34, List.foldlM_cons, hreport]
      rfl

end

theorem reads_line (relaxed : Bool) (before name pad value : List UInt8) (data : HttpRequest)
    (p : HttpRequestParser Nat) (hp : Stands 13 data p) (hname : IsName name)
    (hpad : pad = [] ∨ pad = [32]) (hvalue : IsValue value) :
    ∃ q, Reads relaxed before (name ++ 58 :: (pad ++ value) ++ [13, 10]) p q ∧
      Stands 13 (data.setHeader name value) q := by
  obtain ⟨q, hopen, hq, hnames⟩ := reads_name relaxed before name data p hp hname
  have hsome : name ≠ [] := by
    obtain ⟨c, rest, rfl, -⟩ := hname
    exact List.cons_ne_nil c rest
  rcases hpad with rfl | rfl
  · obtain ⟨r, hreads, hr⟩ := reads_value relaxed before name value data q [58] hq hnames hsome hvalue
    refine ⟨r, ?_, hr⟩
    have hall := Lib.Reads.trans _ before (name ++ [58]) _ p q r hopen hreads
    simpa only [List.append_assoc, List.singleton_append, List.nil_append, List.cons_append]
      using hall
  · let padded : HttpRequestParser Nat :=
      { q with parser.mark := (before ++ (name ++ [58])).length, parser.cs := some 15 }
    have hpad : Reads relaxed (before ++ (name ++ [58])) [32] q padded :=
      Reads.one relaxed _ 32 15 tr29 q { q with parser.mark := (before ++ (name ++ [58])).length }
        hq.cs (line_jumps relaxed).2.2.2.1 (by decide) fun _ => rfl
    obtain ⟨r, hreads, hr⟩ := reads_value relaxed before name value data padded [58, 32]
      ⟨rfl, hq.data, hq.error⟩ ⟨hnames.fieldStart, hnames.fieldLen⟩ hsome hvalue
    refine ⟨r, ?_, hr⟩
    have hmore : before ++ (name ++ [58, 32]) = before ++ (name ++ [58]) ++ [32] := by simp
    rw [hmore] at hreads
    have hall := Lib.Reads.trans _ before (name ++ [58]) _ p q r hopen
      (Lib.Reads.trans _ _ [32] _ q padded r hpad hreads)
    simpa only [List.append_assoc, List.singleton_append, List.nil_append, List.cons_append]
      using hall

structure HeaderLine where
  name : List UInt8
  pad : List UInt8
  value : List UInt8

namespace HeaderLine

def bytes (line : HeaderLine) : List UInt8 := line.name ++ 58 :: (line.pad ++ line.value)

structure Valid (line : HeaderLine) : Prop where
  name : IsName line.name
  pad : line.pad = [] ∨ line.pad = [32]
  value : IsValue line.value

def set (data : HttpRequest) (line : HeaderLine) : HttpRequest := data.setHeader line.name line.value

end HeaderLine

theorem reads_lines (relaxed : Bool) (before : List UInt8) (lines : List HeaderLine)
    (data : HttpRequest) (p : HttpRequestParser Nat) (hp : Stands 13 data p)
    (hlines : ∀ line ∈ lines, line.Valid) :
    ∃ q, Reads relaxed before (lines.flatMap fun line => line.bytes ++ [13, 10]) p q ∧
      Stands 13 (lines.foldl HeaderLine.set data) q := by
  apply Lib.Reads.flatMap _ (fun line : HeaderLine => line.bytes ++ [13, 10]) (Stands 13)
    HeaderLine.set lines ?_ before data p hp
  intro line hline before data p hp
  obtain ⟨hname, hpad, hvalue⟩ := hlines line hline
  exact reads_line relaxed before line.name line.pad line.value data p hp hname hpad hvalue

theorem exec_end (relaxed : Bool) (before after : List UInt8) (data : HttpRequest)
    (p : HttpRequestParser Nat) (hp : Stands 13 data p) :
    ∃ q, exec (machine relaxed) (before ++ ([13, 10] ++ after)) before.length ([13, 10] ++ after) p =
        .ok (q, (before ++ [13, 10]).length) ∧ Stands 348 data q := by
  have hreturn : goto relaxed 13 13 = some tr25 := by cases relaxed <;> decide +kernel
  have hline : goto relaxed 18 10 = some tr36 := by cases relaxed <;> decide +kernel
  let started : HttpRequestParser Nat :=
    { p with parser.fieldStart := before.length, parser.cs := some 18 }
  have hone : Reads relaxed before [13] p started :=
    Reads.one relaxed before 13 13 tr25 p { p with parser.fieldStart := before.length } hp.cs hreturn
      (by decide) fun _ => rfl
  have hexec := hone (10 :: after)
  refine ⟨done (before ++ [13]).length { started with parser.cs := some 348 }, ?_, ?_, ?_, ?_⟩
  · have hfinal : (machine relaxed).final tr36.target = true := rfl
    show exec _ (before ++ ([13] ++ 10 :: after)) _ ([13] ++ 10 :: after) p = _
    rw [hexec, exec_jump relaxed _ after 10 _ 18 tr36 started started rfl hline rfl, if_pos hfinal,
      List.length_append, List.length_append]
    rfl
  · rw [done_cs]
  · rw [done_data]
    exact hp.data
  · rw [done_error]
    exact hp.error

end Http11
end Sylar
