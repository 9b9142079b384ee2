import Sylar.Http.Machine

/-! What the registers of a request parser hold in each state of its machine.

A call resets three of the registers, and `query_start` keeps the offset into the buffer of an
earlier call. The facts of a state are what every way to it through one buffer leaves behind; that
the actions of every jump can rely on them is checked over the whole table. -/
namespace Sylar
namespace Http11
open HttpRequestParser

/-- The part of a head in which `query_start` is waiting for the end of the query. -/
def inQuery (cs : Nat) : Bool := Nat.ble 30 cs && Nat.ble cs 32

/-- The field register covers bytes of the buffer, and the query register has been written. -/
structure Facts where
  field : Bool
  query : Bool
deriving DecidableEq

namespace Facts

/-- `none` for an action that needs more. -/
def step (facts : Facts) : ParserAction → Option Facts
  | .startField => some { facts with field := false }
  | .writeField => some { facts with field := true }
  | .writeValue => if facts.field then some facts else none
  | .startQuery => some { facts with query := true }
  | .queryString => if facts.query then some facts else none
  | _ => some facts

def steps (facts : Facts) (actions : List ParserAction) : Option Facts :=
  actions.foldlM step facts

def implies (facts other : Facts) : Bool :=
  (facts.field || !other.field) && (facts.query || !other.query)

def known (cs : Nat) : Facts where
  field := Nat.ble 15 cs && Nat.ble cs 16
  query := inQuery cs

end Facts

structure Ready (len fpc : Nat) (facts : Facts) (p : HttpRequestParser Nat) : Prop where
  mark : p.parser.mark ≤ fpc
  fieldStart : p.parser.fieldStart ≤ fpc
  field : facts.field = true → p.parser.fieldStart + p.parser.fieldLen ≤ len
  query : facts.query = true → ∃ start, p.parser.queryStart = some start ∧ start ≤ fpc

theorem Ready.weaken (len fpc : Nat) (facts other : Facts) (p : HttpRequestParser Nat)
    (hready : Ready len fpc facts p) (himplies : facts.implies other = true) :
    Ready len fpc other p := by
  rw [Facts.implies, Bool.and_eq_true, Bool.or_eq_true, Bool.or_eq_true] at himplies
  obtain ⟨hfield, hquery⟩ := himplies
  refine { hready with field := fun hother => ?_, query := fun hother => ?_ }
  · rw [hother] at hfield
    exact hready.field (hfield.resolve_right Bool.false_ne_true)
  · rw [hother] at hquery
    exact hready.query (hquery.resolve_right Bool.false_ne_true)

theorem Ready.next (len fpc : Nat) (facts : Facts) (p : HttpRequestParser Nat) (cs : Option Nat)
    (hready : Ready len fpc facts p) : Ready len (fpc + 1) facts { p with parser.cs := cs } where
  mark := Nat.le_succ_of_le hready.mark
  fieldStart := Nat.le_succ_of_le hready.fieldStart
  field := hready.field
  query hquery := by
    obtain ⟨start, hstart, hle⟩ := hready.query hquery
    exact ⟨start, hstart, Nat.le_succ_of_le hle⟩

theorem Ready.report (len fpc : Nat) (facts : Facts) (p : HttpRequestParser Nat)
    (f : HttpRequestParser Nat → HttpRequestParser Nat) (hf : Reports f)
    (hready : Ready len fpc facts p) : Ready len fpc facts (f p) := by
  have hparser := hf.parser p
  exact ⟨hparser ▸ hready.mark, hparser ▸ hready.fieldStart, hparser ▸ hready.field,
    hparser ▸ hready.query⟩

theorem act_ready (buffer : List UInt8) (fpc : Nat) (facts facts' : Facts)
    (p : HttpRequestParser Nat) (action : ParserAction) (hfpc : fpc < buffer.length)
    (hstep : facts.step action = some facts') (hready : Ready buffer.length fpc facts p) :
    ∃ p', act buffer fpc p action = .ok p' ∧ Ready buffer.length fpc facts' p' := by
  cases action with
  | mark | startValue =>
    cases hstep
    exact ⟨_, rfl, { hready with mark := Nat.le_refl fpc }⟩
  | startField =>
    cases hstep
    exact ⟨_, rfl, { hready with fieldStart := Nat.le_refl fpc, field := fun hfalse => by cases hfalse }⟩
  | writeField =>
    cases hstep
    refine ⟨{ p with parser.fieldLen := fpc - p.parser.fieldStart }, ?_, ?_⟩
    · rw [act, lengthFrom_ok _ _ hready.fieldStart]
      rfl
    · have hstart := hready.fieldStart
      exact { hready with field := fun _ => by dsimp only; omega }
  | writeValue =>
    rw [Facts.step, Option.ite_none_right_eq_some] at hstep
    obtain ⟨hfield, heq⟩ := hstep
    cases heq
    rw [act, stringAt_ok _ _ _ (hready.field hfield),
      tokenFrom_ok _ _ _ hready.mark (Nat.le_of_lt hfpc)]
    exact ⟨_, rfl, hready.report _ _ _ p _ (onRequestHttpField_reports _ _)⟩
  | requestMethod =>
    cases hstep
    exact ⟨_, rfl, hready.report _ _ _ p _ (onRequestMethod_reports _)⟩
  | requestUri =>
    cases hstep
    exact ⟨p, rfl, hready⟩
  | fragment =>
    cases hstep
    rw [act, tokenFrom_ok _ _ _ hready.mark (Nat.le_of_lt hfpc)]
    exact ⟨_, rfl, hready.report _ _ _ p _ (onRequestFragment_reports _)⟩
  | requestPath =>
    cases hstep
    rw [act, tokenFrom_ok _ _ _ hready.mark (Nat.le_of_lt hfpc)]
    exact ⟨_, rfl, hready.report _ _ _ p _ (onRequestPath_reports _)⟩
  | httpVersion =>
    cases hstep
    rw [act, lengthFrom_ok _ _ hready.mark]
    exact ⟨_, rfl, hready.report _ _ _ p _ (onRequestVersion_reports _ _)⟩
  | startQuery =>
    cases hstep
    exact ⟨_, rfl, { hready with query := fun _ => ⟨fpc, rfl, Nat.le_refl fpc⟩ }⟩
  | queryString =>
    rw [Facts.step, Option.ite_none_right_eq_some] at hstep
    obtain ⟨hquery, heq⟩ := hstep
    cases heq
    obtain ⟨start, hstart, hle⟩ := hready.query hquery
    rw [act, hstart]
    dsimp only
    rw [tokenFrom_ok _ _ _ hle (Nat.le_of_lt hfpc)]
    exact ⟨_, rfl, hready.report _ _ _ p _ (onRequestQuery_reports _)⟩
  | xml | json =>
    cases hstep
    exact ⟨_, rfl, { hready with }⟩

theorem acts_ready (buffer : List UInt8) (fpc : Nat) (facts facts' : Facts)
    (p : HttpRequestParser Nat) (actions : List ParserAction) (hfpc : fpc < buffer.length)
    (hsteps : facts.steps actions = some facts') (hready : Ready buffer.length fpc facts p) :
    ∃ p', acts buffer fpc p actions = .ok p' ∧ Ready buffer.length fpc facts' p' := by
  induction actions generalizing facts p with
  | nil =>
    cases hsteps
    exact ⟨p, rfl, hready⟩
  | cons action actions ih =>
    rw [Facts.steps, List.foldlM_cons] at hsteps
    obtain ⟨mid, hmid, hrest⟩ := Option.bind_eq_some_iff.mp hsteps
    obtain ⟨q, hq, hqready⟩ := act_ready buffer fpc facts mid p action hfpc hmid hready
    obtain ⟨p', hp', hready'⟩ := ih mid q hrest hqready
    refine ⟨p', ?_, hready'⟩
    rw [acts, List.foldlM_cons, hq]
    exact hp'

def jumpReady (cs : Nat) (label : Label) : Bool :=
  match (Facts.known cs).steps label.actions with
  | none => false
  | some facts => facts.implies (.known label.target)

theorem jumps_ready (relaxed : Bool) :
    ((cases relaxed).zipIdx.all fun entry => entry.1.all fun jump =>
      jumpReady entry.2 jump.2) = true := by
  cases relaxed <;> decide +kernel

/-- Within the query nothing is done, and it is left with one action that needs its start. -/
def jumpInQuery (cs : Nat) (label : Label) : Bool :=
  !inQuery cs ||
    (if inQuery label.target then label.actions.isEmpty
    else label.actions == [.queryString, .requestUri])

theorem jumps_inQuery (relaxed : Bool) :
    ((cases relaxed).zipIdx.all fun entry => entry.1.all fun jump =>
      jumpInQuery entry.2 jump.2) = true := by
  cases relaxed <;> decide +kernel

/-- The offset at which the bytes of a buffer end the query that the parser is in. -/
def queryEnd (relaxed : Bool) (cs : Nat) : List UInt8 → Option Nat
  | [] => none
  | c :: rest =>
    match goto relaxed cs c with
    | none => none
    | some label =>
      if inQuery label.target then (queryEnd relaxed label.target rest).map (· + 1) else some 0

/-- The query that the parser is in ends at an offset below the one at which it began, in an
earlier buffer. -/
def QueryCut (relaxed : Bool) (p : HttpRequestParser Nat) (buffer : List UInt8) : Prop :=
  ∃ cs start stop, p.parser.cs = some cs ∧ inQuery cs = true ∧ p.parser.queryStart = some start ∧
    queryEnd relaxed cs buffer = some stop ∧ stop < start

def QueryKnown (p : HttpRequestParser Nat) : Prop :=
  ∀ cs, p.parser.cs = some cs → inQuery cs = true → ∃ start, p.parser.queryStart = some start

def Goes (relaxed : Bool) (buffer rest : List UInt8) (fpc : Nat) (p : HttpRequestParser Nat) : Prop :=
  ∃ p' nread, exec (machine relaxed) buffer fpc rest p = .ok (p', nread) ∧ QueryKnown p'

section
variable (relaxed : Bool) (buffer rest : List UInt8) (c : UInt8) (fpc cs : Nat) (label : Label)
  (p q : HttpRequestParser Nat)

theorem exec_stuck (hcs : p.parser.cs = some cs) (hgoto : goto relaxed cs c = none) :
    exec (machine relaxed) buffer fpc (c :: rest) p = .ok ({ p with parser.cs := none }, fpc) := by
  simp only [exec, hcs, machine, hgoto, Option.map_none]

theorem exec_jump (hcs : p.parser.cs = some cs) (hgoto : goto relaxed cs c = some label)
    (hacts : acts buffer fpc p label.actions = .ok q) :
    exec (machine relaxed) buffer fpc (c :: rest) p =
      if (machine relaxed).final label.target then
        .ok (done fpc { q with parser.cs := some label.target }, fpc + 1)
      else exec (machine relaxed) buffer (fpc + 1) rest { q with parser.cs := some label.target } := by
  have hnext : (machine relaxed).next cs c = some (label.target, label.actions) := by
    simp only [machine, hgoto, Option.map_some]
  simp only [exec, hcs, hnext, hacts]
  rfl

theorem goes_stuck (hcs : p.parser.cs = some cs) (hgoto : goto relaxed cs c = none) :
    Goes relaxed buffer (c :: rest) fpc p := by
  refine ⟨_, _, exec_stuck relaxed buffer rest c fpc cs p hcs hgoto, ?_⟩
  intro other hother
  cases hother

theorem goes_jump (hcs : p.parser.cs = some cs) (hgoto : goto relaxed cs c = some label)
    (hacts : acts buffer fpc p label.actions = .ok q)
    (hrest : Goes relaxed buffer rest (fpc + 1) { q with parser.cs := some label.target }) :
    Goes relaxed buffer (c :: rest) fpc p := by
  rw [Goes, exec_jump relaxed buffer rest c fpc cs label p q hcs hgoto hacts]
  by_cases hfinal : (machine relaxed).final label.target = true
  · rw [if_pos hfinal]
    refine ⟨_, _, rfl, ?_⟩
    intro other hother hquery
    rw [done_cs] at hother
    obtain rfl := Option.some.inj hother
    have hge : 348 ≤ label.target := Nat.ble_eq.mp hfinal
    rw [inQuery, Bool.and_eq_true, Nat.ble_eq, Nat.ble_eq] at hquery
    omega
  · rw [if_neg hfinal]
    exact hrest

end

theorem goes_of_ready (relaxed : Bool) (buffer rest : List UInt8) (fpc cs : Nat)
    (p : HttpRequestParser Nat) (hlen : fpc + rest.length = buffer.length)
    (hcs : p.parser.cs = some cs) (hready : Ready buffer.length fpc (.known cs) p) :
    Goes relaxed buffer rest fpc p := by
  induction rest generalizing fpc cs p with
  | nil =>
    refine ⟨p, fpc, rfl, ?_⟩
    intro other hother hquery
    rw [hcs] at hother
    cases hother
    obtain ⟨start, hstart, -⟩ := hready.query hquery
    exact ⟨start, hstart⟩
  | cons c rest ih =>
    rw [List.length_cons] at hlen
    cases hgoto : goto relaxed cs c with
    | none => exact goes_stuck relaxed buffer rest c fpc cs p hcs hgoto
    | some label =>
      obtain ⟨-, -, htest⟩ := Lib.of_jump (cases relaxed) (fun cs _ label => jumpReady cs label)
        (jumps_ready relaxed) cs c label hgoto
      dsimp only [jumpReady] at htest
      split at htest
      · cases htest
      · rename_i facts hsteps
        obtain ⟨q, hacts, hq⟩ := acts_ready buffer fpc _ facts p label.actions (by omega) hsteps hready
        apply goes_jump relaxed buffer rest c fpc cs label p q hcs hgoto hacts
        exact ih (fpc + 1) label.target _ (by omega) rfl
          ((hq.weaken _ _ _ _ q htest).next _ _ _ q _)

theorem exec_inQuery (relaxed : Bool) (buffer rest : List UInt8) (fpc cs start : Nat)
    (p : HttpRequestParser Nat) (hlen : fpc + rest.length = buffer.length)
    (hcs : p.parser.cs = some cs) (hquery : inQuery cs = true)
    (hstart : p.parser.queryStart = some start)
    (hready : Ready buffer.length fpc ⟨false, false⟩ p) :
    (∀ stop, queryEnd relaxed cs rest = some stop → fpc + stop < start →
      exec (machine relaxed) buffer fpc rest p = .error .range) ∧
    ((∀ stop, queryEnd relaxed cs rest = some stop → start ≤ fpc + stop) →
      Goes relaxed buffer rest fpc p) := by
  induction rest generalizing fpc cs p with
  | nil =>
    refine ⟨?_, fun _ => ⟨p, fpc, rfl, fun _ _ _ => ⟨start, hstart⟩⟩⟩
    intro stop hstop
    cases hstop
  | cons c rest ih =>
    rw [List.length_cons] at hlen
    cases hgoto : goto relaxed cs c with
    | none =>
      refine ⟨fun stop hstop => ?_, fun _ => goes_stuck relaxed buffer rest c fpc cs p hcs hgoto⟩
      rw [queryEnd, hgoto] at hstop
      cases hstop
    | some label =>
      obtain ⟨-, -, htest⟩ := Lib.of_jump (cases relaxed) (fun cs _ label => jumpInQuery cs label)
        (jumps_inQuery relaxed) cs c label hgoto
      rw [jumpInQuery, hquery, Bool.not_true, Bool.false_or] at htest
      by_cases hstays : inQuery label.target = true
      · rw [if_pos hstays, List.isEmpty_iff] at htest
        have hacts : acts buffer fpc p label.actions = .ok p := by
          rw [htest]
          rfl
        have hlive : ¬ (machine relaxed).final label.target = true := by
          intro hfinal
          have hge : 348 ≤ label.target := Nat.ble_eq.mp hfinal
          rw [inQuery, Bool.and_eq_true, Nat.ble_eq, Nat.ble_eq] at hstays
          omega
        obtain ⟨hfault, hgoes⟩ := ih (fpc + 1) label.target { p with parser.cs := some label.target }
          (by omega) rfl hstays hstart (hready.next _ _ _ p _)
        rw [queryEnd, hgoto]
        dsimp only
        rw [if_pos hstays]
        constructor
        · intro stop hstop hlt
          obtain ⟨stop', hstop', rfl⟩ := Option.map_eq_some_iff.mp hstop
          rw [exec_jump relaxed buffer rest c fpc cs label p p hcs hgoto hacts, if_neg hlive]
          exact hfault stop' hstop' (by omega)
        · intro hle
          apply goes_jump relaxed buffer rest c fpc cs label p p hcs hgoto hacts
          apply hgoes
          intro stop hstop
          have hlast := hle (stop + 1) (by rw [hstop]; rfl)
          omega
      · rw [if_neg hstays, beq_iff_eq] at htest
        rw [queryEnd, hgoto]
        dsimp only
        rw [if_neg hstays]
        constructor
        · rintro stop hstop hlt
          cases hstop
          have hacts : acts buffer fpc p label.actions = .error .range := by
            rw [htest, acts, List.foldlM_cons, act, hstart]
            dsimp only
            rw [tokenFrom, lengthFrom, if_neg (by omega)]
            rfl
          have hnext : (machine relaxed).next cs c = some (label.target, label.actions) := by
            simp only [machine, hgoto, Option.map_some]
          simp only [exec, hcs, hnext, hacts]
          rfl
        · intro hle
          have hreach := hle 0 rfl
          -- From here on the register is inside the buffer, as if the query had begun in it.
          have hfresh : Ready buffer.length fpc (.known cs) p := by
            rw [inQuery, Bool.and_eq_true, Nat.ble_eq, Nat.ble_eq] at hquery
            refine ⟨hready.mark, hready.fieldStart, fun hfield => ?_, fun _ => ⟨start, hstart, hreach⟩⟩
            dsimp only [Facts.known] at hfield
            rw [Bool.and_eq_true, Nat.ble_eq, Nat.ble_eq] at hfield
            omega
          exact goes_of_ready relaxed buffer (c :: rest) fpc cs p (by rw [List.length_cons]; exact hlen)
            hcs hfresh

def call (relaxed : Bool) (p : HttpRequestParser Nat) (buffer : List UInt8) :
    Option (HttpRequestParser Nat) :=
  if p.isFinished (machine relaxed) then none
  else ((p.execute (machine relaxed) buffer).toOption).map Prod.fst

structure Between (relaxed : Bool) (p : HttpRequestParser Nat) : Prop where
  known : QueryKnown p
  bodyStart : p.isFinished (machine relaxed) = false → p.parser.bodyStart = 0

theorem between_new (relaxed : Bool) : Between relaxed (.new (machine relaxed)) where
  known := by
    rintro cs hcs hquery
    cases hcs
    cases hquery
  bodyStart _ := rfl

theorem Between.execute (relaxed : Bool) (p : HttpRequestParser Nat) (buffer : List UInt8)
    (hp : Between relaxed p) (hunfinished : p.isFinished (machine relaxed) = false) :
    (QueryCut relaxed p buffer → p.execute (machine relaxed) buffer = .error .range) ∧
    (¬ QueryCut relaxed p buffer → ∃ p' nread kept,
      p.execute (machine relaxed) buffer = .ok (p', nread, kept) ∧ Between relaxed p') := by
  have hbody := hp.bodyStart hunfinished
  by_cases hsome : buffer = []
  · subst hsome
    refine ⟨?_, fun _ => ⟨p, 0, [], rfl, hp⟩⟩
    rintro ⟨cs, start, stop, -, -, -, hstop, -⟩
    cases hstop
  · have hpos := List.length_pos_iff.mpr hsome
    have hgoes (h : Goes relaxed buffer buffer 0 (p.reset buffer.length)) : ∃ p' nread kept,
        p.execute (machine relaxed) buffer = .ok (p', nread, kept) ∧ Between relaxed p' := by
      obtain ⟨p', nread, hexec, hknown⟩ := h
      exact ⟨p', nread, _, execute_of_exec _ p p' buffer nread hsome hbody hexec, hknown,
        (exec_executed _ buffer buffer buffer.length 0 nread _ p' (Nat.zero_add _)
          (reset_inRange p _ hpos hbody) hexec).bodyStart⟩
    have hweak : Ready buffer.length 0 ⟨false, false⟩ (p.reset buffer.length) :=
      ⟨Nat.le_refl 0, Nat.le_refl 0, fun hfalse => absurd hfalse Bool.false_ne_true,
        fun hfalse => absurd hfalse Bool.false_ne_true⟩
    cases hcs : p.parser.cs with
    | none =>
      rw [isFinished, hcs] at hunfinished
      cases hunfinished
    | some cs =>
      by_cases hquery : inQuery cs = true
      · obtain ⟨start, hstart⟩ := hp.known cs hcs hquery
        obtain ⟨hfault, hgo⟩ := exec_inQuery relaxed buffer buffer 0 cs start
          (p.reset buffer.length) (Nat.zero_add _) hcs hquery hstart hweak
        constructor
        · rintro ⟨cs', start', stop, hcs', -, hstart', hstop, hlt⟩
          rw [hcs] at hcs'
          cases hcs'
          rw [hstart] at hstart'
          cases hstart'
          have hexec := hfault stop hstop (by omega)
          rw [HttpRequestParser.execute, httpParserExecute, if_neg (by omega), hexec]
          rfl
        · intro hwhole
          apply hgoes
          apply hgo
          intro stop hstop
          by_contra hlt
          exact hwhole ⟨cs, start, stop, hcs, hquery, hstart, hstop, by omega⟩
      · refine ⟨?_, fun _ => ?_⟩
        · rintro ⟨cs', start', stop, hcs', hquery', -⟩
          rw [hcs] at hcs'
          cases hcs'
          exact absurd hquery' hquery
        · apply hgoes
          apply goes_of_ready relaxed buffer buffer 0 cs (p.reset buffer.length) (Nat.zero_add _) hcs
          refine ⟨Nat.le_refl 0, Nat.le_refl 0, fun _ => Nat.le_of_eq (Nat.zero_add _), ?_⟩
          intro hknown
          exact absurd hknown hquery

theorem Between.call (relaxed : Bool) (p p' : HttpRequestParser Nat) (buffer : List UInt8)
    (hp : Between relaxed p) (hcall : call relaxed p buffer = some p') : Between relaxed p' := by
  unfold Http11.call at hcall
  split at hcall
  · cases hcall
  · rename_i hunfinished
    obtain ⟨hcut, hwhole⟩ := hp.execute relaxed p buffer (Bool.not_eq_true _ ▸ hunfinished)
    by_cases hquery : QueryCut relaxed p buffer
    · rw [hcut hquery] at hcall
      cases hcall
    · obtain ⟨next, nread, kept, hexecute, hnext⟩ := hwhole hquery
      rw [hexecute] at hcall
      cases hcall
      exact hnext

/-- After any calls with any buffers, the next call reads no register that has not been written,
fails no assertion, and makes no string of bytes outside the buffer, unless it is the call in which
a query of an earlier buffer ends at an offset below the one at which it began. -/
theorem execute_fails_iff (relaxed : Bool) (buffers : List (List UInt8)) (p : HttpRequestParser Nat)
    (buffer : List UInt8) (hrun : Lib.run (call relaxed) (.new (machine relaxed)) buffers = some p)
    (hunfinished : p.isFinished (machine relaxed) = false) (fault : HttpFault) :
    p.execute (machine relaxed) buffer = .error fault ↔
      fault = .range ∧ QueryCut relaxed p buffer := by
  have hp : Between relaxed p := Lib.run_invariant (Between relaxed)
    (fun s buffer s' hs hcall => hs.call relaxed s s' buffer hcall) buffers _ p
    (between_new relaxed) hrun
  obtain ⟨hcut, hwhole⟩ := hp.execute relaxed p buffer hunfinished
  constructor
  · intro hfails
    by_cases hquery : QueryCut relaxed p buffer
    · rw [hcut hquery] at hfails
      cases hfails
      exact ⟨rfl, hquery⟩
    · obtain ⟨next, nread, kept, hexecute, -⟩ := hwhole hquery
      rw [hexecute] at hfails
      cases hfails
  · rintro ⟨rfl, hquery⟩
    exact hcut hquery

/-- The parser of a head whose first read ends inside the query. -/
theorem execute_fails_iff_cut_query : ∃ p, Lib.run (call false) (.new (machine false))
      [octets "GET /?q=1"] = some p ∧
    p.execute (machine false) (octets "0 HTTP/1.1\r\n") = .error .range := by
  have hview : (Lib.run (call false) (.new (machine false)) [octets "GET /?q=1"]).map
      (fun p => (p.isFinished (machine false), p.parser.cs, p.parser.queryStart)) =
      some (false, some 30, some 6) := by
    decide +kernel
  obtain ⟨p, hrun, heq⟩ := Option.map_eq_some_iff.mp hview
  obtain ⟨hunfinished, hrest⟩ := Prod.mk.inj heq
  obtain ⟨hcs, hstart⟩ := Prod.mk.inj hrest
  refine ⟨p, hrun, ?_⟩
  apply (execute_fails_iff false [octets "GET /?q=1"] p _ hrun hunfinished .range).mpr
  exact ⟨rfl, 30, 6, 1, hcs, rfl, hstart, by decide +kernel, by decide⟩

end Http11
end Sylar
