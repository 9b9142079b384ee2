import Sylar.Http.HeaderMap
import Sylar.Http.Safety

/-! What the tokens of a request are made of.

The view of a state says of which bytes the registers' tokens consist so far, whatever way led to
the state. That every jump goes from view to view, and reports only tokens that the views vouch
for, is checked over the whole table. -/
namespace Sylar
namespace Http11
open HttpRequestParser
open Lib (CharClass)

/-- What is neither a control character nor a space nor outside of ASCII. -/
def graphic : CharClass := [(33, 126)]

/-- The repetition counts of `IPv6address` stand where a byte of that value is expected. -/
def uriByte : CharClass := [(2, 6), (33, 126)]

def anyByte : CharClass := [(0, 255)]

structure Clean (data : HttpRequest) : Prop where
  method : data.method ≠ .INVALID_METHOD
  version : data.version = 0x11 ∨ data.version = 0x10
  path : ∀ c ∈ data.path, uriByte.has c = true
  query : ∀ c ∈ data.query, graphic.has c = true
  fragment : ∀ c ∈ data.fragment, graphic.has c = true
  names : ∀ entry ∈ data.headers, entry.1 ≠ [] ∧ ∀ c ∈ entry.1, token.has c = true
  values : ∀ entry ∈ data.headers, (∀ c ∈ entry.2, valueByte.has c = true) ∧
    ∀ c, entry.2.head? = some c → leadByte.has c = true

def Spans (bytes : CharClass) (buffer : List UInt8) (start stop : Nat) : Prop :=
  ∀ i c, start ≤ i → i < stop → buffer[i]? = some c → bytes.has c = true

theorem Spans.mono (bytes others : CharClass) (buffer : List UInt8) (start stop : Nat)
    (hspans : Spans bytes buffer start stop) (hwithin : bytes.within others = true) :
    Spans others buffer start stop := by
  intro i c hstart hstop hc
  exact bytes.has_of_within others c hwithin (hspans i c hstart hstop hc)

theorem Spans.nil (bytes : CharClass) (buffer : List UInt8) (fpc : Nat) :
    Spans bytes buffer fpc fpc := by
  intro i c hstart hstop
  omega

theorem Spans.succ (bytes : CharClass) (buffer : List UInt8) (start fpc : Nat) (c : UInt8)
    (hspans : Spans bytes buffer start fpc) (hc : buffer[fpc]? = some c)
    (hhas : bytes.has c = true) : Spans bytes buffer start (fpc + 1) := by
  intro i d hstart hstop hd
  rcases Nat.lt_succ_iff_lt_or_eq.mp hstop with hlt | rfl
  · exact hspans i d hstart hlt hd
  · rw [hc] at hd
    cases hd
    exact hhas

theorem mem_slice (buffer : List UInt8) (start length : Nat) (c : UInt8)
    (hmem : c ∈ (buffer.drop start).take length) :
    ∃ i, start ≤ i ∧ i < start + length ∧ buffer[i]? = some c := by
  obtain ⟨i, hi, hget⟩ := List.mem_iff_getElem.mp hmem
  rw [List.length_take, List.length_drop] at hi
  refine ⟨start + i, Nat.le_add_right start i, by omega, ?_⟩
  rw [List.getElem_take, List.getElem_drop] at hget
  rw [← hget]
  exact List.getElem?_eq_getElem (by omega)

theorem Spans.slice (bytes : CharClass) (buffer : List UInt8) (start length : Nat)
    (hspans : Spans bytes buffer start (start + length)) :
    ∀ c ∈ (buffer.drop start).take length, bytes.has c = true := by
  intro c hmem
  obtain ⟨i, hstart, hstop, hc⟩ := mem_slice buffer start length c hmem
  exact hspans i c hstart hstop hc

/-- What is known of the current field name: nothing, that it begins here, that some of it has
been seen, or all of it. -/
inductive FieldView where
  | unknown
  | begun
  | open
  | closed
deriving DecidableEq

/-- `mark` has the bytes from the mark on and `lead` the first of them, if there is one;
`fresh` says that the mark is here. The query is graphic when `query` says so. -/
structure View where
  mark : CharClass
  lead : CharClass
  fresh : Bool
  field : FieldView
  query : Bool

namespace View

/-- `none` for a report of a token that is not vouched for. -/
def step (view : View) : ParserAction → Option View
  | .mark | .startValue => some { view with mark := [], lead := [], fresh := true }
  | .startField => some { view with field := .begun }
  | .writeField => if view.field = .open then some { view with field := .closed } else none
  | .writeValue =>
    if view.field = .closed ∧ view.mark.within valueByte ∧ view.lead.within leadByte then some view
    else none
  | .requestPath => if view.mark.within uriByte then some view else none
  | .fragment => if view.mark.within graphic then some view else none
  | .startQuery => some { view with query := true }
  | .queryString => if view.query then some view else none
  | .requestMethod | .requestUri | .httpVersion | .xml | .json => some view

def steps (view : View) (actions : List ParserAction) : Option View :=
  actions.foldlM step view

def extend (view : View) (bytes : CharClass) : View where
  mark := view.mark ++ bytes
  lead := if view.fresh then bytes else view.lead
  fresh := false
  field :=
    match view.field with
    | .closed => .closed
    | .begun | .open => if bytes.within token then .open else .unknown
    | .unknown => .unknown
  query := view.query && bytes.within graphic

/-- What is known with `view` is known with `other`, and neither has a fresh mark. -/
def implies (view other : View) : Bool :=
  view.mark.within other.mark && view.lead.within other.lead && (!view.fresh && !other.fresh) &&
    (decide (view.field = other.field) || decide (other.field = .unknown)) &&
    (view.query || !other.query)

def inPath (cs : Nat) : Bool :=
  Nat.beq cs 19 || (Nat.ble 24 cs && Nat.ble cs 28) || (Nat.ble 33 cs && Nat.ble cs 174) ||
    (Nat.ble 194 cs && Nat.ble cs 195) || Nat.beq cs 198 || (Nat.ble 202 cs && Nat.ble cs 347)

def known (cs : Nat) : View where
  mark :=
    if Nat.beq cs 16 then valueByte
    else if Nat.ble 21 cs && Nat.ble cs 23 then graphic
    else if inPath cs then uriByte
    else anyByte
  lead := if Nat.beq cs 16 then leadByte else anyByte
  fresh := false
  field :=
    if Nat.beq cs 14 || Nat.beq cs 18 || Nat.beq cs 348 then .open
    else if Nat.ble 15 cs && Nat.ble cs 16 then .closed
    else .unknown
  query := inQuery cs

end View

/-- The jump reports only what the view of the state vouches for, and gives that of the next. -/
def jumpClean (cs : Nat) (bytes : CharClass) (label : Label) : Bool :=
  match (View.known cs).steps label.actions with
  | none => false
  | some view => (view.extend bytes).implies (.known label.target)

theorem jumps_clean (relaxed : Bool) :
    ((cases relaxed).zipIdx.all fun entry => entry.1.all fun jump =>
      jumpClean entry.2 jump.1 jump.2) = true := by
  cases relaxed <;> decide +kernel

def FieldView.Holds (buffer : List UInt8) (fpc start length : Nat) : FieldView → Prop
  | .unknown => True
  | .begun => start = fpc
  | .open => start < fpc ∧ Spans token buffer start fpc
  | .closed => 0 < length ∧ start + length ≤ fpc ∧ Spans token buffer start (start + length)

/-- The view is right about the registers at offset `fpc`, and the request is clean so far. -/
structure Contents (buffer : List UInt8) (fpc : Nat) (view : View) (p : HttpRequestParser Nat) :
    Prop where
  le : p.parser.mark ≤ fpc
  mark : Spans view.mark buffer p.parser.mark fpc
  fresh : view.fresh = true → p.parser.mark = fpc
  lead : view.fresh = false → ∀ c, buffer[p.parser.mark]? = some c → view.lead.has c = true
  field : view.field.Holds buffer fpc p.parser.fieldStart p.parser.fieldLen
  query : view.query = true → ∃ start, p.parser.queryStart = some start ∧ start ≤ fpc ∧
    Spans graphic buffer start fpc
  data : Clean p.data

theorem Contents.weaken (buffer : List UInt8) (fpc : Nat) (view other : View)
    (p : HttpRequestParser Nat) (hp : Contents buffer fpc view p)
    (himplies : view.implies other = true) : Contents buffer fpc other p := by
  simp only [View.implies, Bool.and_eq_true, Bool.or_eq_true, decide_eq_true_eq,
    Bool.not_eq_true'] at himplies
  obtain ⟨⟨⟨⟨hmark, hlead⟩, hfresh, hother⟩, hfield⟩, hquery⟩ := himplies
  refine ⟨hp.le, hp.mark.mono _ _ _ _ _ hmark, ?_, ?_, ?_, ?_, hp.data⟩
  · intro htrue
    rw [hother] at htrue
    cases htrue
  · intro _ c hc
    exact view.lead.has_of_within _ c hlead (hp.lead hfresh c hc)
  · rcases hfield with heq | hunknown
    · rw [← heq]
      exact hp.field
    · rw [hunknown]
      trivial
  · intro htrue
    rw [htrue] at hquery
    exact hp.query (hquery.resolve_right (by decide))

theorem Contents.extend (buffer : List UInt8) (fpc : Nat) (view : View) (p : HttpRequestParser Nat)
    (cs : Option Nat) (bytes : CharClass) (c : UInt8) (hp : Contents buffer fpc view p)
    (hc : buffer[fpc]? = some c) (hhas : bytes.has c = true) :
    Contents buffer (fpc + 1) (view.extend bytes) { p with parser.cs := cs } where
  le := Nat.le_succ_of_le hp.le
  mark := by
    intro i d hstart hstop hd
    dsimp only [View.extend]
    rw [CharClass.has_append]
    rcases Nat.lt_succ_iff_lt_or_eq.mp hstop with hlt | rfl
    · rw [hp.mark i d hstart hlt hd, Bool.true_or]
    · rw [hc] at hd
      cases hd
      rw [hhas, Bool.or_true]
  fresh htrue := by cases htrue
  lead := by
    intro _ d hd
    dsimp only [View.extend] at hd ⊢
    by_cases hfresh : view.fresh = true
    · rw [if_pos hfresh]
      rw [hp.fresh hfresh, hc] at hd
      cases hd
      exact hhas
    · rw [if_neg hfresh]
      exact hp.lead (Bool.eq_false_iff.mpr hfresh) d hd
  field := by
    have hfield := hp.field
    dsimp only [View.extend]
    cases hview : view.field with
    | unknown => trivial
    | closed =>
      rw [hview] at hfield
      exact ⟨hfield.1, Nat.le_succ_of_le hfield.2.1, hfield.2.2⟩
    | begun =>
      rw [hview] at hfield
      have hstart : p.parser.fieldStart = fpc := hfield
      dsimp only
      by_cases htoken : bytes.within token = true
      · rw [if_pos htoken, hstart]
        exact ⟨Nat.lt_succ_self fpc, (Spans.nil token buffer fpc).succ _ _ _ _ c hc
          (bytes.has_of_within token c htoken hhas)⟩
      · rw [if_neg htoken]
        trivial
    | «open» =>
      rw [hview] at hfield
      obtain ⟨hlt, hspans⟩ : _ ∧ Spans token buffer p.parser.fieldStart fpc := hfield
      dsimp only
      by_cases htoken : bytes.within token = true
      · rw [if_pos htoken]
        exact ⟨Nat.lt_succ_of_lt hlt, hspans.succ _ _ _ _ c hc
          (bytes.has_of_within token c htoken hhas)⟩
      · rw [if_neg htoken]
        trivial
  query := by
    intro htrue
    obtain ⟨hquery, hgraphic⟩ := Bool.and_eq_true_iff.mp htrue
    obtain ⟨start, hstart, hle, hspans⟩ := hp.query hquery
    exact ⟨start, hstart, Nat.le_succ_of_le hle, hspans.succ _ _ _ _ c hc
      (bytes.has_of_within graphic c hgraphic hhas)⟩
  data := hp.data

theorem clean_new : Clean HttpRequest.new where
  method := by decide
  version := .inl rfl
  path := by decide +kernel
  query _ hmem := absurd hmem List.not_mem_nil
  fragment _ hmem := absurd hmem List.not_mem_nil
  names _ hmem := absurd hmem List.not_mem_nil
  values _ hmem := absurd hmem List.not_mem_nil

section
variable (p : HttpRequestParser Nat) (hp : Clean p.data)
include hp

theorem clean_onRequestMethod (chars : List UInt8) : Clean (p.onRequestMethod chars).data := by
  unfold onRequestMethod
  by_cases hinvalid : charsToHttpMethod chars = .INVALID_METHOD
  · simp only [if_pos hinvalid]
    exact hp
  · simp only [if_neg hinvalid]
    exact { hp with method := hinvalid }

theorem clean_onRequestVersion (chars : List UInt8) (length : Nat) :
    Clean (p.onRequestVersion chars length).data := by
  unfold onRequestVersion
  split
  · exact { hp with version := .inl rfl }
  · split
    · exact { hp with version := .inr rfl }
    · exact hp

theorem clean_onRequestHttpField (field value : List UInt8)
    (hfield : ∀ c ∈ field, token.has c = true) (hvalue : ∀ c ∈ value, valueByte.has c = true)
    (hlead : ∀ c, value.head? = some c → leadByte.has c = true) :
    Clean (p.onRequestHttpField field value).data := by
  unfold onRequestHttpField
  by_cases hnone : field.length = 0
  · rw [if_pos hnone]
    exact hp
  · rw [if_neg hnone]
    have hsome : field ≠ [] := fun hnil => hnone (by rw [hnil]; rfl)
    have hassign : ∀ entry, entry ∈ (p.data.setHeader field value).headers →
        entry ∈ Lib.mapAssign caseInsensitiveLess field value p.data.headers := fun _ => id
    refine { hp with names := ?_, values := ?_ }
    · intro entry hentry
      rcases Lib.mem_mapAssign _ field value _ entry (hassign entry hentry) with
        hold | ⟨-, rfl | ⟨old, hold, hkey⟩⟩
      · exact hp.names entry hold
      · exact ⟨hsome, hfield⟩
      · rw [← hkey]
        exact hp.names old hold
    · intro entry hentry
      rcases Lib.mem_mapAssign _ field value _ entry (hassign entry hentry) with hold | ⟨hval, -⟩
      · exact hp.values entry hold
      · rw [hval]
        exact ⟨hvalue, hlead⟩

end

theorem Contents.report (buffer : List UInt8) (fpc : Nat) (view : View)
    (p : HttpRequestParser Nat) (f : HttpRequestParser Nat → HttpRequestParser Nat)
    (hf : Reports f) (hp : Contents buffer fpc view p) (hclean : Clean (f p).data) :
    Contents buffer fpc view (f p) := by
  have hparser := hf.parser p
  exact ⟨hparser ▸ hp.le, hparser ▸ hp.mark, hparser ▸ hp.fresh, hparser ▸ hp.lead,
    hparser ▸ hp.field, hparser ▸ hp.query, hclean⟩

theorem of_tokenFrom (bytes : CharClass) (buffer token : List UInt8) (start fpc : Nat)
    (hspans : Spans bytes buffer start fpc) (htoken : tokenFrom buffer start fpc = .ok token) :
    (∀ c ∈ token, bytes.has c = true) ∧
      ∀ c, token.head? = some c → start < fpc ∧ buffer[start]? = some c := by
  obtain ⟨length, hlength, hstring⟩ := Lib.of_bind_ok _ _ _ htoken
  rw [lengthFrom] at hlength
  split at hlength
  · rename_i hle
    cases hlength
    rw [stringAt] at hstring
    split at hstring
    · cases hstring
      constructor
      · apply Spans.slice
        rw [Nat.add_sub_cancel' hle]
        exact hspans
      · intro c hc
        by_cases hlt : start < fpc
        · refine ⟨hlt, ?_⟩
          rw [List.head?_take, if_neg (by omega), List.head?_drop] at hc
          exact hc
        · rw [Nat.sub_eq_zero_of_le (Nat.le_of_not_lt hlt), List.take_zero] at hc
          cases hc
    · cases hstring
  · cases hlength

section
variable (buffer : List UInt8) (fpc : Nat) (view view' : View) (p p' : HttpRequestParser Nat)
  (hp : Contents buffer fpc view p)
include hp

theorem Contents.writeField (hstep : view.step .writeField = some view')
    (hok : act buffer fpc p .writeField = .ok p') : Contents buffer fpc view' p' := by
  rw [View.step, Option.ite_none_right_eq_some] at hstep
  obtain ⟨hopen, heq⟩ := hstep
  cases heq
  have hfield := hp.field
  rw [hopen] at hfield
  obtain ⟨hlt, hspans⟩ : _ ∧ Spans token buffer p.parser.fieldStart fpc := hfield
  obtain ⟨length, hlength, hok⟩ := Lib.of_bind_ok _ _ _ hok
  cases hok
  rw [lengthFrom_ok _ _ (Nat.le_of_lt hlt)] at hlength
  cases hlength
  refine { hp with field := ⟨Nat.sub_pos_of_lt hlt, by dsimp only; omega, ?_⟩ }
  dsimp only
  rw [Nat.add_sub_cancel' (Nat.le_of_lt hlt)]
  exact hspans

theorem Contents.writeValue (hstep : view.step .writeValue = some view')
    (hok : act buffer fpc p .writeValue = .ok p') : Contents buffer fpc view' p' := by
  rw [View.step, Option.ite_none_right_eq_some] at hstep
  obtain ⟨⟨hclosed, hmark, hlead⟩, heq⟩ := hstep
  cases heq
  have hfield := hp.field
  rw [hclosed] at hfield
  obtain ⟨hpos, hle, hspans⟩ : _ ∧ _ ∧ Spans token buffer p.parser.fieldStart _ := hfield
  obtain ⟨name, hname, hok⟩ := Lib.of_bind_ok _ _ _ hok
  obtain ⟨value, hvalue, hok⟩ := Lib.of_bind_ok _ _ _ hok
  cases hok
  obtain ⟨hbytes, hhead⟩ := of_tokenFrom _ buffer value _ fpc (hp.mark.mono _ _ _ _ _ hmark) hvalue
  apply hp.report _ _ _ p (fun p => p.onRequestHttpField name value)
    (onRequestHttpField_reports name value)
  apply clean_onRequestHttpField p hp.data name value _ hbytes
  · intro c hc
    obtain ⟨hlt, hget⟩ := hhead c hc
    have hstale : view.fresh = false := by
      by_contra hfresh
      rw [Bool.not_eq_false] at hfresh
      exact Nat.ne_of_lt hlt (hp.fresh hfresh)
    exact view.lead.has_of_within _ c hlead (hp.lead hstale c hget)
  · rw [stringAt] at hname
    split at hname
    · cases hname
      exact hspans.slice
    · cases hname

theorem Contents.requestPath (hstep : view.step .requestPath = some view')
    (hok : act buffer fpc p .requestPath = .ok p') : Contents buffer fpc view' p' := by
  rw [View.step, Option.ite_none_right_eq_some] at hstep
  obtain ⟨hmark, heq⟩ := hstep
  cases heq
  obtain ⟨path, hpath, hok⟩ := Lib.of_bind_ok _ _ _ hok
  cases hok
  have hbytes := (of_tokenFrom _ buffer path _ fpc (hp.mark.mono _ _ _ _ _ hmark) hpath).1
  exact hp.report _ _ _ p _ (onRequestPath_reports path) { hp.data with path := hbytes }

theorem Contents.fragment (hstep : view.step .fragment = some view')
    (hok : act buffer fpc p .fragment = .ok p') : Contents buffer fpc view' p' := by
  rw [View.step, Option.ite_none_right_eq_some] at hstep
  obtain ⟨hmark, heq⟩ := hstep
  cases heq
  obtain ⟨part, hpart, hok⟩ := Lib.of_bind_ok _ _ _ hok
  cases hok
  have hbytes := (of_tokenFrom _ buffer part _ fpc (hp.mark.mono _ _ _ _ _ hmark) hpart).1
  exact hp.report _ _ _ p _ (onRequestFragment_reports part) { hp.data with fragment := hbytes }

theorem Contents.queryString (hstep : view.step .queryString = some view')
    (hok : act buffer fpc p .queryString = .ok p') : Contents buffer fpc view' p' := by
  rw [View.step, Option.ite_none_right_eq_some] at hstep
  obtain ⟨hquery, heq⟩ := hstep
  cases heq
  obtain ⟨start, hstart, -, hspans⟩ := hp.query hquery
  rw [act, hstart] at hok
  obtain ⟨query, hfound, hok⟩ := Lib.of_bind_ok _ _ _ hok
  cases hok
  have hbytes := (of_tokenFrom _ buffer query _ fpc hspans hfound).1
  exact hp.report _ _ _ p _ (onRequestQuery_reports query) { hp.data with query := hbytes }

end

theorem act_contents (buffer : List UInt8) (fpc : Nat) (view view' : View)
    (p p' : HttpRequestParser Nat) (action : ParserAction) (hstep : view.step action = some view')
    (hp : Contents buffer fpc view p) (hok : act buffer fpc p action = .ok p') :
    Contents buffer fpc view' p' := by
  cases action with
  | mark | startValue =>
    cases hstep
    cases hok
    exact { hp with
      le := Nat.le_refl fpc
      mark := Spans.nil _ buffer fpc
      fresh := fun _ => rfl
      lead := fun hfalse => by cases hfalse }
  | startField =>
    cases hstep
    cases hok
    exact { hp with field := rfl }
  | requestUri =>
    cases hstep
    cases hok
    exact hp
  | startQuery =>
    cases hstep
    cases hok
    exact { hp with query := fun _ => ⟨fpc, rfl, Nat.le_refl fpc, Spans.nil _ buffer fpc⟩ }
  | xml | json =>
    cases hstep
    cases hok
    exact { hp with }
  | writeField => exact hp.writeField buffer fpc view view' p p' hstep hok
  | writeValue => exact hp.writeValue buffer fpc view view' p p' hstep hok
  | requestMethod =>
    cases hstep
    cases hok
    exact hp.report _ _ _ p _ (onRequestMethod_reports _) (clean_onRequestMethod p hp.data _)
  | httpVersion =>
    cases hstep
    obtain ⟨length, -, hok⟩ := Lib.of_bind_ok _ _ _ hok
    cases hok
    exact hp.report _ _ _ p _ (onRequestVersion_reports _ _) (clean_onRequestVersion p hp.data _ _)
  | requestPath => exact hp.requestPath buffer fpc view view' p p' hstep hok
  | fragment => exact hp.fragment buffer fpc view view' p p' hstep hok
  | queryString => exact hp.queryString buffer fpc view view' p p' hstep hok

theorem acts_contents (buffer : List UInt8) (fpc : Nat) (view view' : View)
    (p p' : HttpRequestParser Nat) (actions : List ParserAction)
    (hsteps : view.steps actions = some view') (hp : Contents buffer fpc view p)
    (hok : acts buffer fpc p actions = .ok p') : Contents buffer fpc view' p' := by
  induction actions generalizing view p with
  | nil =>
    cases hsteps
    cases hok
    exact hp
  | cons action actions ih =>
    rw [View.steps, List.foldlM_cons] at hsteps
    obtain ⟨mid, hmid, hrest⟩ := Option.bind_eq_some_iff.mp hsteps
    obtain ⟨q, hq, hok⟩ := Lib.of_bind_ok _ _ _ hok
    exact ih mid q hrest (act_contents buffer fpc view mid p q action hmid hp hq) hok

theorem exec_clean (relaxed : Bool) (before rest : List UInt8) (cs nread : Nat)
    (p p' : HttpRequestParser Nat) (hcs : p.parser.cs = some cs)
    (hp : Contents (before ++ rest) before.length (.known cs) p)
    (hok : exec (machine relaxed) (before ++ rest) before.length rest p = .ok (p', nread)) :
    Clean p'.data := by
  induction rest generalizing before cs p with
  | nil =>
    cases hok
    exact hp.data
  | cons c rest ih =>
    cases hgoto : goto relaxed cs c with
    | none =>
      rw [exec_stuck relaxed _ rest c _ cs p hcs hgoto] at hok
      cases hok
      exact hp.data
    | some label =>
      have hnext : (machine relaxed).next cs c = some (label.target, label.actions) := by
        simp only [machine, hgoto, Option.map_some]
      simp only [exec, hcs, hnext] at hok
      obtain ⟨q, hacts, hok⟩ := Lib.of_bind_ok _ _ _ hok
      obtain ⟨bytes, hhas, htest⟩ := Lib.of_jump (cases relaxed) jumpClean (jumps_clean relaxed) cs c label hgoto
      dsimp only [jumpClean] at htest
      split at htest
      · cases htest
      · rename_i view hsteps
        have hq := acts_contents _ _ _ view p q label.actions hsteps hp hacts
        have hc : (before ++ c :: rest)[before.length]? = some c := by simp
        have hnow := (hq.extend _ _ view q (some label.target) bytes c hc hhas).weaken _ _ _ _ _ htest
        split at hok
        · cases hok
          rw [done_data]
          exact hnow.data
        · have hsplit : before ++ c :: rest = (before ++ [c]) ++ rest := List.append_cons _ _ _
          have hlength : (before ++ [c]).length = before.length + 1 := List.length_append
          rw [hsplit, ← hlength] at hnow hok
          exact ih (before ++ [c]) label.target _ rfl hnow hok

/-- Whatever a buffer holds, a parser that reads it from the start reports a method of the table, a
version of the two it knows, a path, a query and a fragment without spaces, line breaks and bytes
outside of ASCII, and headers with a name made of token characters and a value that has no line
break in it and no blank before it. -/
theorem execute_clean (relaxed : Bool) (buffer kept : List UInt8) (nread : Nat)
    (p : HttpRequestParser Nat)
    (hexecute : (HttpRequestParser.new (machine relaxed)).execute (machine relaxed) buffer =
      .ok (p, nread, kept)) : Clean p.data := by
  by_cases hsome : buffer = []
  · subst hsome
    cases hexecute
    exact clean_new
  · obtain ⟨hexec, -⟩ := exec_of_execute _ _ p buffer kept nread hsome hexecute
    apply exec_clean relaxed [] buffer 1 nread _ p rfl _ hexec
    have hany : ∀ c : UInt8, anyByte.has c = true := by
      intro c
      simpa [CharClass.has, anyByte] using Nat.le_of_lt_succ c.toNat_lt
    exact {
      le := Nat.le_refl 0
      mark := Spans.nil _ _ 0
      fresh := fun hfalse => absurd hfalse Bool.false_ne_true
      lead := fun _ c _ => hany c
      field := trivial
      query := fun hfalse => absurd hfalse Bool.false_ne_true
      data := clean_new }

/-- A head with one header, whose value has blanks before it. -/
theorem execute_clean_host : ∃ p nread kept,
    (HttpRequestParser.new (machine false)).execute (machine false)
        (octets "GET /a?b#c HTTP/1.0\r\nHost:  d e\r\n\r\n") = .ok (p, nread, kept) ∧
      p.data.headers = [(octets "Host", octets "d e")] ∧ Clean p.data := by
  have hview : ((HttpRequestParser.new (machine false)).execute (machine false)
      (octets "GET /a?b#c HTTP/1.0\r\nHost:  d e\r\n\r\n")).toOption.map
      (fun found => found.1.data.headers) = some [(octets "Host", octets "d e")] := by
    decide +kernel
  obtain ⟨⟨p, nread, kept⟩, hfound, hheaders⟩ := Option.map_eq_some_iff.mp hview
  have hexecute := Lib.ok_of_toOption _ _ hfound
  exact ⟨p, nread, kept, hexecute, hheaders, execute_clean false _ kept nread p hexecute⟩

end Http11
end Sylar
