import Sylar.Http.Parser

/-! What the parser sees of a token.

The registers of the parser are offsets into the buffer of one read and are reset at the next
one, so a token is reported rightly when it began in the read in which it ends. Then it does
not matter what is before or after the read. -/
namespace Sylar

inductive FieldSeen where
  | unseen
  | opened
  | closed
deriving DecidableEq

structure Seen where
  mark : Bool
  field : FieldSeen
  query : Bool
deriving DecidableEq

namespace Seen

def nothing : Seen where
  mark := false
  field := .unseen
  query := false

/-- `none` for an action that reads a register from before this read. `on_request_uri` does
nothing with its token. -/
def step (seen : Seen) : ParserAction → Option Seen
  | .mark | .startValue => some { seen with mark := true }
  | .startField => some { seen with field := .opened }
  | .writeField => if seen.field ≠ .unseen then some { seen with field := .closed } else none
  | .writeValue => if seen.field = .closed ∧ seen.mark then some seen else none
  | .requestMethod | .fragment | .httpVersion | .requestPath =>
    if seen.mark then some seen else none
  | .startQuery => some { seen with query := true }
  | .queryString => if seen.query then some seen else none
  | .requestUri | .xml | .json => some seen

def steps (seen : Seen) (actions : List ParserAction) : Option Seen :=
  actions.foldlM step seen

end Seen

namespace Machine
variable {σ : Type} (machine : Machine σ)

/-- The state after one read, if every token that ends in it began in it. -/
def wholeIn : σ → Seen → List UInt8 → Option σ
  | s, _, [] => some s
  | s, seen, c :: rest =>
    match machine.next s c with
    | none => none
    | some (s', actions) =>
      match seen.steps actions with
      | none => none
      | some seen' => wholeIn s' seen' rest

def wholeFrom : σ → List (List UInt8) → Bool
  | _, [] => true
  | s, part :: parts =>
    match machine.wholeIn s .nothing part with
    | none => false
    | some s' => wholeFrom s' parts

def WholeTokens (parts : List (List UInt8)) : Prop :=
  machine.wholeFrom machine.start parts = true

instance WholeTokens.decidable (parts : List (List UInt8)) : Decidable (machine.WholeTokens parts) :=
  inferInstanceAs (Decidable (_ = true))

def finishesAtEnd : σ → List UInt8 → Bool
  | _, [] => false
  | s, c :: rest =>
    match machine.next s c with
    | none => false
    | some (s', _) => if machine.final s' then rest.isEmpty else finishesAtEnd s' rest

def IsHead (head : List UInt8) : Prop :=
  machine.finishesAtEnd machine.start head = true

instance IsHead.decidable (head : List UInt8) : Decidable (machine.IsHead head) :=
  inferInstanceAs (Decidable (_ = true))

end Machine

namespace HttpRequestParser
variable {σ : Type}

theorem strncmpEq_append (n : Nat) (xs ys lit : List UInt8) (hn : n ≤ xs.length) :
    strncmpEq n (xs ++ ys) lit = strncmpEq n xs lit := by
  induction n generalizing xs lit with
  | zero => rfl
  | succ n ih =>
    cases xs with
    | nil => simp at hn
    | cons x xs =>
      have htail := ih xs lit.tail (by simpa using hn)
      simp only [strncmpEq, List.cons_append, List.headD_cons, List.tail_cons, htail]

theorem onRequestVersion_append (p : HttpRequestParser σ) (chars more : List UInt8) (length : Nat)
    (hlength : length ≤ chars.length) :
    p.onRequestVersion (chars ++ more) length = p.onRequestVersion chars length := by
  unfold onRequestVersion
  rw [strncmpEq_append length chars more _ hlength, strncmpEq_append length chars more _ hlength]

/-- `u` parses a head from one buffer, `s` the read of it that starts at offset `base`; both are
at offset `fpc` of that read. -/
structure Agree (base fpc : Nat) (seen : Seen) (u s : HttpRequestParser σ) : Prop where
  cs : u.parser.cs = s.parser.cs
  data : u.data = s.data
  error : u.error = s.error
  mark : seen.mark = true → u.parser.mark = base + s.parser.mark ∧ s.parser.mark ≤ fpc
  fieldStart : seen.field ≠ .unseen →
    u.parser.fieldStart = base + s.parser.fieldStart ∧ s.parser.fieldStart ≤ fpc
  fieldLen : seen.field = .closed →
    u.parser.fieldLen = s.parser.fieldLen ∧ s.parser.fieldStart + s.parser.fieldLen ≤ fpc
  query : seen.query = true → ∃ start, s.parser.queryStart = some start ∧
    u.parser.queryStart = some (base + start) ∧ start ≤ fpc

theorem Agree.start (base len : Nat) (u s : HttpRequestParser σ)
    (hcs : u.parser.cs = s.parser.cs) (hdata : u.data = s.data) (herror : u.error = s.error) :
    Agree base 0 .nothing u (s.reset len) where
  cs := hcs
  data := hdata
  error := herror
  mark := fun hseen => nomatch hseen
  fieldStart := fun hseen => (hseen rfl).elim
  fieldLen := fun hseen => nomatch hseen
  query := fun hseen => nomatch hseen

theorem Agree.report (base fpc : Nat) (seen : Seen) (u s : HttpRequestParser σ)
    (f : HttpRequestParser σ → HttpRequestParser σ) (hf : Reports f)
    (hagree : Agree base fpc seen u s) : Agree base fpc seen (f u) (f s) where
  cs := by
    rw [hf.parser, hf.parser]
    exact hagree.cs
  data := hf.data u s hagree.data
  error := hf.error u s hagree.error
  mark := by
    rw [hf.parser, hf.parser]
    exact hagree.mark
  fieldStart := by
    rw [hf.parser, hf.parser]
    exact hagree.fieldStart
  fieldLen := by
    rw [hf.parser, hf.parser]
    exact hagree.fieldLen
  query := by
    rw [hf.parser, hf.parser]
    exact hagree.query

section
variable (before consumed rest after : List UInt8) (c : UInt8)

theorem stringAt_inside (start length : Nat) (hend : start + length ≤ consumed.length) :
    stringAt (before ++ (consumed ++ rest)) (before.length + start) length =
      .ok ((consumed.drop start).take length) := by
  rw [stringAt, if_pos (by simp only [List.length_append]; omega), List.drop_length_add_append,
    List.drop_append_of_le_length (by omega),
    List.take_append_of_le_length (by rw [List.length_drop]; omega)]

theorem tokenFrom_inside (start : Nat) (hstart : start ≤ consumed.length) :
    tokenFrom (before ++ (consumed ++ rest)) (before.length + start)
        (before.length + consumed.length) = .ok (consumed.drop start) := by
  have hlength : lengthFrom (before.length + start) (before.length + consumed.length) =
      .ok (consumed.length - start) := by
    rw [lengthFrom, if_pos (by omega), Nat.add_sub_add_left]
  rw [tokenFrom, hlength]
  show stringAt _ _ (consumed.length - start) = _
  rw [stringAt_inside before consumed rest start _ (by omega), ← List.length_drop, List.take_length]

end

section
variable (before consumed rest after : List UInt8) (c : UInt8) (seen seen' : Seen)
  (u s : HttpRequestParser σ)

theorem token_agree (start : Nat) (hstart : start ≤ consumed.length) :
    tokenFrom (before ++ (consumed ++ c :: (rest ++ after))) (before.length + start)
        (before.length + consumed.length) = .ok (consumed.drop start) ∧
      tokenFrom (consumed ++ c :: rest) start consumed.length = .ok (consumed.drop start) := by
  refine ⟨tokenFrom_inside before consumed _ start hstart, ?_⟩
  simpa using tokenFrom_inside [] consumed (c :: rest) start hstart

theorem token_reported (f : List UInt8 → HttpRequestParser σ → HttpRequestParser σ)
    (hf : ∀ token, Reports (f token)) (start : Nat) (hstart : start ≤ consumed.length)
    (hagree : Agree before.length consumed.length seen u s) :
    ∃ u' s', (tokenFrom (before ++ (consumed ++ c :: (rest ++ after))) (before.length + start)
          (before.length + consumed.length) >>= fun token => pure (f token u)) = .ok u' ∧
      (tokenFrom (consumed ++ c :: rest) start consumed.length >>= fun token => pure (f token s)) =
        .ok s' ∧
      Agree before.length consumed.length seen u' s' := by
  obtain ⟨htokenU, htokenS⟩ := token_agree before consumed rest after c start hstart
  rw [htokenU, htokenS]
  exact ⟨_, _, rfl, rfl, hagree.report _ _ _ _ _ _ (hf (consumed.drop start))⟩

def ActsAlike (action : ParserAction) : Prop :=
  ∃ u' s', act (before ++ (consumed ++ c :: (rest ++ after))) (before.length + consumed.length) u
        action = .ok u' ∧
    act (consumed ++ c :: rest) consumed.length s action = .ok s' ∧
    Agree before.length consumed.length seen' u' s'

theorem writeField_alike (hstep : seen.step .writeField = some seen')
    (hagree : Agree before.length consumed.length seen u s) :
    ActsAlike before consumed rest after c seen' u s .writeField := by
  obtain ⟨hseen, heq⟩ := Option.ite_none_right_eq_some.mp hstep
  cases heq
  obtain ⟨hstart, hle⟩ := hagree.fieldStart hseen
  refine ⟨{ u with parser.fieldLen := consumed.length - s.parser.fieldStart },
    { s with parser.fieldLen := consumed.length - s.parser.fieldStart }, ?_, ?_, { hagree with
    fieldStart := fun _ => ⟨hstart, hle⟩
    fieldLen := fun _ => ⟨rfl, ?_⟩ }⟩
  · simp only [act, lengthFrom]
    rw [if_pos (by omega), hstart, Nat.add_sub_add_left]
    rfl
  · simp only [act, lengthFrom]
    rw [if_pos hle]
    rfl
  · show s.parser.fieldStart + (consumed.length - s.parser.fieldStart) ≤ consumed.length
    omega

theorem writeValue_alike (hstep : seen.step .writeValue = some seen')
    (hagree : Agree before.length consumed.length seen u s) :
    ActsAlike before consumed rest after c seen' u s .writeValue := by
  obtain ⟨⟨hclosed, hmark⟩, heq⟩ := Option.ite_none_right_eq_some.mp hstep
  cases heq
  obtain ⟨hstart, hle⟩ := hagree.fieldStart (by rw [hclosed]; decide)
  obtain ⟨hlen, hend⟩ := hagree.fieldLen hclosed
  obtain ⟨hu, hs⟩ := hagree.mark hmark
  obtain ⟨htokenU, htokenS⟩ := token_agree before consumed rest after c s.parser.mark hs
  have hfieldU := stringAt_inside before consumed (c :: (rest ++ after)) s.parser.fieldStart
    s.parser.fieldLen hend
  have hfieldS := stringAt_inside [] consumed (c :: rest) s.parser.fieldStart
    s.parser.fieldLen hend
  simp only [List.length_nil, List.nil_append, Nat.zero_add] at hfieldS
  refine ⟨_, _, ?_, ?_, hagree.report _ _ _ _ _ _ (onRequestHttpField_reports
    ((consumed.drop s.parser.fieldStart).take s.parser.fieldLen)
    (consumed.drop s.parser.mark))⟩
  · simp only [act]
    rw [hstart, hlen, hu, hfieldU, htokenU]
    rfl
  · simp only [act]
    rw [hfieldS, htokenS]
    rfl

theorem requestMethod_alike (hstep : seen.step .requestMethod = some seen') (hspace : c = 32)
    (hagree : Agree before.length consumed.length seen u s) :
    ActsAlike before consumed rest after c seen' u s .requestMethod := by
  obtain ⟨hmark, heq⟩ := Option.ite_none_right_eq_some.mp hstep
  cases heq
  obtain ⟨hu, hs⟩ := hagree.mark hmark
  cases hspace
  refine ⟨_, _, rfl, rfl, ?_⟩
  have hchars : charsToHttpMethod ((before ++ (consumed ++ 32 :: (rest ++ after))).drop
        u.parser.mark) =
      charsToHttpMethod ((consumed ++ 32 :: rest).drop s.parser.mark) := by
    rw [hu, List.drop_length_add_append, List.drop_append_of_le_length hs,
      List.drop_append_of_le_length hs]
    exact charsToHttpMethod_of_space _ _ _
  have hreport := hagree.report _ _ _ _ _ _ (onRequestMethod_reports
    ((consumed ++ 32 :: rest).drop s.parser.mark))
  unfold onRequestMethod at hreport ⊢
  rw [hchars]
  exact hreport

theorem httpVersion_alike (hstep : seen.step .httpVersion = some seen')
    (hagree : Agree before.length consumed.length seen u s) :
    ActsAlike before consumed rest after c seen' u s .httpVersion := by
  obtain ⟨hmark, heq⟩ := Option.ite_none_right_eq_some.mp hstep
  cases heq
  obtain ⟨hu, hs⟩ := hagree.mark hmark
  refine ⟨_, _, ?_, ?_, hagree.report _ _ _ _ _ _
    (onRequestVersion_reports (consumed.drop s.parser.mark) (consumed.length - s.parser.mark))⟩
  · simp only [act, lengthFrom]
    rw [if_pos (by omega), hu, Nat.add_sub_add_left, List.drop_length_add_append,
      List.drop_append_of_le_length hs]
    exact congrArg Except.ok (onRequestVersion_append u _ _ _ (by rw [List.length_drop]))
  · simp only [act, lengthFrom]
    rw [if_pos hs, List.drop_append_of_le_length hs]
    exact congrArg Except.ok (onRequestVersion_append s _ _ _ (by rw [List.length_drop]))

theorem act_agree (action : ParserAction) (hstep : seen.step action = some seen')
    (hspace : action = .requestMethod → c = 32)
    (hagree : Agree before.length consumed.length seen u s) :
    ∃ u' s', act (before ++ (consumed ++ c :: (rest ++ after))) (before.length + consumed.length) u
          action = .ok u' ∧
      act (consumed ++ c :: rest) consumed.length s action = .ok s' ∧
      Agree before.length consumed.length seen' u' s' := by
  cases action with
  | mark =>
    cases hstep
    exact ⟨_, _, rfl, rfl, { hagree with mark := fun _ => ⟨rfl, Nat.le_refl _⟩ }⟩
  | startValue =>
    cases hstep
    exact ⟨_, _, rfl, rfl, { hagree with mark := fun _ => ⟨rfl, Nat.le_refl _⟩ }⟩
  | startField =>
    cases hstep
    exact ⟨_, _, rfl, rfl, { hagree with
      fieldStart := fun _ => ⟨rfl, Nat.le_refl _⟩
      fieldLen := fun hclosed => nomatch hclosed }⟩
  | writeField =>
    exact writeField_alike before consumed rest after c seen seen' u s hstep hagree
  | writeValue =>
    exact writeValue_alike before consumed rest after c seen seen' u s hstep hagree
  | requestMethod =>
    exact requestMethod_alike before consumed rest after c seen seen' u s hstep (hspace rfl) hagree
  | requestUri =>
    cases hstep
    exact ⟨_, _, rfl, rfl, hagree⟩
  | fragment =>
    obtain ⟨hmark, heq⟩ := Option.ite_none_right_eq_some.mp hstep
    cases heq
    obtain ⟨hu, hs⟩ := hagree.mark hmark
    simp only [act, hu]
    exact token_reported before consumed rest after c seen u s
      (fun token p => p.onRequestFragment token) onRequestFragment_reports s.parser.mark hs hagree
  | startQuery =>
    cases hstep
    exact ⟨_, _, rfl, rfl, { hagree with query := fun _ => ⟨_, rfl, rfl, Nat.le_refl _⟩ }⟩
  | queryString =>
    obtain ⟨hquery, heq⟩ := Option.ite_none_right_eq_some.mp hstep
    cases heq
    obtain ⟨start, hs, hu, hle⟩ := hagree.query hquery
    simp only [act, hu, hs]
    exact token_reported before consumed rest after c seen u s
      (fun token p => p.onRequestQuery token) onRequestQuery_reports start hle hagree
  | httpVersion =>
    exact httpVersion_alike before consumed rest after c seen seen' u s hstep hagree
  | requestPath =>
    obtain ⟨hmark, heq⟩ := Option.ite_none_right_eq_some.mp hstep
    cases heq
    obtain ⟨hu, hs⟩ := hagree.mark hmark
    simp only [act, hu]
    exact token_reported before consumed rest after c seen u s
      (fun token p => p.onRequestPath token) onRequestPath_reports s.parser.mark hs hagree
  | xml =>
    cases hstep
    exact ⟨_, _, rfl, rfl, { hagree with }⟩
  | json =>
    cases hstep
    exact ⟨_, _, rfl, rfl, { hagree with }⟩

theorem acts_agree (actions : List ParserAction) (hsteps : seen.steps actions = some seen')
    (hspace : ParserAction.requestMethod ∈ actions → c = 32)
    (hagree : Agree before.length consumed.length seen u s) :
    ∃ u' s', acts (before ++ (consumed ++ c :: (rest ++ after))) (before.length + consumed.length) u
          actions = .ok u' ∧
      acts (consumed ++ c :: rest) consumed.length s actions = .ok s' ∧
      Agree before.length consumed.length seen' u' s' := by
  induction actions generalizing seen u s with
  | nil =>
    cases hsteps
    exact ⟨u, s, rfl, rfl, hagree⟩
  | cons action actions ih =>
    obtain ⟨next, hnext, hrest⟩ := Option.bind_eq_some_iff.mp hsteps
    obtain ⟨u₁, s₁, hu₁, hs₁, hagree₁⟩ := act_agree before consumed rest after c seen next u s
      action hnext (fun heq => hspace (heq ▸ List.mem_cons_self)) hagree
    obtain ⟨u', s', hu', hs', hagree'⟩ := ih next u₁ s₁ hrest
      (fun hmem => hspace (List.mem_cons_of_mem _ hmem)) hagree₁
    refine ⟨u', s', ?_, ?_, hagree'⟩
    · rw [acts, List.foldlM_cons, hu₁]
      exact hu'
    · rw [acts, List.foldlM_cons, hs₁]
      exact hs'

end

section
variable (machine : Machine σ) (before consumed rest after : List UInt8) (c : UInt8)
  (seen seen' : Seen) (u s : HttpRequestParser σ) (state state' : σ)

theorem exec_step (actions : List ParserAction) (hnext : machine.next state c = some (state', actions))
    (hsteps : seen.steps actions = some seen') (hcs : s.parser.cs = some state)
    (hagree : Agree before.length consumed.length seen u s) :
    ∃ u' s', Agree before.length (consumed.length + 1) seen' u' s' ∧
      s'.parser.cs = some state' ∧
      exec machine (before ++ (consumed ++ c :: (rest ++ after))) (before.length + consumed.length)
          (c :: (rest ++ after)) u =
        (if machine.final state' then
          .ok (done (before.length + consumed.length) u', before.length + consumed.length + 1)
        else exec machine (before ++ (consumed ++ c :: (rest ++ after)))
          (before.length + consumed.length + 1) (rest ++ after) u') ∧
      exec machine (consumed ++ c :: rest) consumed.length (c :: rest) s =
        (if machine.final state' then .ok (done consumed.length s', consumed.length + 1)
        else exec machine (consumed ++ c :: rest) (consumed.length + 1) rest s') := by
  obtain ⟨u', s', hu, hs, hagree'⟩ := acts_agree before consumed rest after c seen seen' u s actions
    hsteps (machine.method_at_space state c state' actions hnext) hagree
  have hcsU : u.parser.cs = some state := hagree.cs.trans hcs
  refine ⟨{ u' with parser.cs := some state' }, { s' with parser.cs := some state' }, ?_, rfl, ?_,
    ?_⟩
  · exact { hagree' with
      cs := rfl
      mark := fun hseen => (hagree'.mark hseen).imp id (Nat.le_succ_of_le ·)
      fieldStart := fun hseen => (hagree'.fieldStart hseen).imp id (Nat.le_succ_of_le ·)
      fieldLen := fun hseen => (hagree'.fieldLen hseen).imp id (Nat.le_succ_of_le ·)
      query := by
        intro hseen
        obtain ⟨start, hstartS, hstartU, hle⟩ := hagree'.query hseen
        exact ⟨start, hstartS, hstartU, Nat.le_succ_of_le hle⟩ }
  · simp only [exec, hcsU, hnext, hu]
    rfl
  · simp only [exec, hcs, hnext, hs]
    rfl

structure Same (u s : HttpRequestParser σ) : Prop where
  cs : u.parser.cs = s.parser.cs
  data : u.data = s.data
  error : u.error = s.error

theorem wholeIn_cons (hwhole : machine.wholeIn state seen (c :: rest) = some state') :
    ∃ mid actions seen₁, machine.next state c = some (mid, actions) ∧
      seen.steps actions = some seen₁ ∧ machine.wholeIn mid seen₁ rest = some state' := by
  simp only [Machine.wholeIn] at hwhole
  split at hwhole
  · cases hwhole
  · rename_i mid actions hnext
    split at hwhole
    · cases hwhole
    · rename_i seen₁ hsteps
      exact ⟨mid, actions, seen₁, hnext, hsteps, hwhole⟩

theorem exec_more (hafter : after ≠ [])
    (hwhole : machine.wholeIn state seen rest = some state')
    (hends : machine.finishesAtEnd state (rest ++ after) = true)
    (hcs : s.parser.cs = some state) (hagree : Agree before.length consumed.length seen u s) :
    ∃ u' s', exec machine (consumed ++ rest) consumed.length rest s =
        .ok (s', (consumed ++ rest).length) ∧
      s'.parser.cs = some state' ∧ Same u' s' ∧
      exec machine (before ++ (consumed ++ (rest ++ after))) (before.length + consumed.length)
          (rest ++ after) u =
        exec machine (before ++ (consumed ++ (rest ++ after)))
          (before.length + (consumed ++ rest).length) after u' ∧
      machine.finishesAtEnd state' after = true ∧ (rest = [] ∨ machine.final state' = false) := by
  induction rest generalizing consumed seen u s state with
  | nil =>
    cases hwhole
    simp only [List.append_nil]
    exact ⟨u, s, rfl, hcs, ⟨hagree.cs, hagree.data, hagree.error⟩, rfl, hends, .inl trivial⟩
  | cons c rest ih =>
    obtain ⟨mid, actions, seen₁, hnext, hsteps, hrest⟩ := wholeIn_cons machine rest c seen state
      state' hwhole
    obtain ⟨u₁, s₁, hagree₁, hcs₁, hu, hs⟩ := exec_step machine before consumed rest after c
      seen seen₁ u s state mid actions hnext hsteps hcs hagree
    have hlive : machine.final mid = false := by
      cases hfinal : machine.final mid with
      | false => rfl
      | true => simp [Machine.finishesAtEnd, hnext, hfinal, hafter] at hends
    have hends₁ : machine.finishesAtEnd mid (rest ++ after) = true := by
      simpa [Machine.finishesAtEnd, hnext, hlive] using hends
    have hsplit : consumed ++ c :: rest = consumed ++ [c] ++ rest := List.append_cons _ _ _
    have hsplitU : consumed ++ (c :: rest ++ after) = consumed ++ [c] ++ (rest ++ after) :=
      List.append_cons _ _ _
    have hlength : (consumed ++ [c]).length = consumed.length + 1 := List.length_append
    obtain ⟨u', s', hs', hcs', hsame, hu', hends', hlive'⟩ := ih (consumed ++ [c]) seen₁ u₁ s₁ mid
      hrest hends₁ hcs₁ (by rw [hlength]; exact hagree₁)
    rw [hlength] at hs' hu'
    rw [← hsplit] at hs' hu'
    refine ⟨u', s', ?_, hcs', hsame, ?_, hends', .inr ?_⟩
    · rw [hs, hlive]
      exact hs'
    · rw [← hsplitU] at hu'
      rw [← hu', List.cons_append]
      rw [hlive] at hu
      exact hu
    · rcases hlive' with hnone | hstill
      · subst hnone
        cases hrest
        exact hlive
      · exact hstill

theorem exec_last (hwhole : machine.wholeIn state seen rest = some state')
    (hends : machine.finishesAtEnd state rest = true)
    (hcs : s.parser.cs = some state) (hagree : Agree before.length consumed.length seen u s) :
    ∃ u' s', exec machine (consumed ++ rest) consumed.length rest s =
        .ok (s', (consumed ++ rest).length) ∧
      Same u' s' ∧
      exec machine (before ++ (consumed ++ (rest ++ after))) (before.length + consumed.length)
          (rest ++ after) u =
        .ok (u', before.length + (consumed ++ rest).length) := by
  induction rest generalizing consumed seen u s state with
  | nil => cases hends
  | cons c rest ih =>
    obtain ⟨mid, actions, seen₁, hnext, hsteps, hrest⟩ := wholeIn_cons machine rest c seen state
      state' hwhole
    obtain ⟨u₁, s₁, hagree₁, hcs₁, hu, hs⟩ := exec_step machine before consumed rest after c
      seen seen₁ u s state mid actions hnext hsteps hcs hagree
    have hlength : (consumed ++ [c]).length = consumed.length + 1 := List.length_append
    cases hfinal : machine.final mid with
    | true =>
      have hlast : rest = [] := by
        simpa [Machine.finishesAtEnd, hnext, hfinal] using hends
      subst hlast
      rw [hfinal] at hu hs
      refine ⟨done (before.length + consumed.length) u₁, done consumed.length s₁, ?_, ?_, ?_⟩
      · rw [hs, hlength]
        rfl
      · exact ⟨by simp [hagree₁.cs], by simp [hagree₁.data], by simp [hagree₁.error]⟩
      · rw [hlength]
        exact hu
    | false =>
      have hends₁ : machine.finishesAtEnd mid rest = true := by
        simpa [Machine.finishesAtEnd, hnext, hfinal] using hends
      have hsplit : consumed ++ c :: rest = consumed ++ [c] ++ rest := List.append_cons _ _ _
      have hsplitU : consumed ++ (c :: rest ++ after) = consumed ++ [c] ++ (rest ++ after) :=
        List.append_cons _ _ _
      obtain ⟨u', s', hs', hsame, hu'⟩ := ih (consumed ++ [c]) seen₁ u₁ s₁ mid hrest hends₁ hcs₁
        (by rw [hlength]; exact hagree₁)
      rw [hlength] at hs' hu'
      rw [← hsplit] at hs' hu'
      rw [← hsplitU] at hu'
      rw [hfinal] at hu hs
      exact ⟨u', s', hs.trans hs', hsame, hu.trans hu'⟩

end

theorem exec_finishes (machine : Machine σ) (buffer rest : List UInt8) (fpc nread : Nat)
    (p p' : HttpRequestParser σ) (state : σ) (hcs : p.parser.cs = some state)
    (hends : machine.finishesAtEnd state rest = true)
    (hexec : exec machine buffer fpc rest p = .ok (p', nread)) :
    nread = fpc + rest.length ∧ ∃ last, p'.parser.cs = some last ∧ machine.final last = true := by
  induction rest generalizing fpc p state with
  | nil => cases hends
  | cons c rest ih =>
    simp only [Machine.finishesAtEnd] at hends
    simp only [exec, hcs] at hexec
    split at hends
    · cases hends
    · rename_i mid actions hnext
      rw [hnext] at hexec
      obtain ⟨next, hnext', hexec⟩ := Lib.of_bind_ok _ _ _ hexec
      cases hfinal : machine.final mid with
      | true =>
        rw [hfinal] at hends hexec
        have hlast : rest = [] := List.isEmpty_iff.mp hends
        subst hlast
        cases hexec
        exact ⟨rfl, mid, by rw [done_cs], hfinal⟩
      | false =>
        rw [hfinal] at hends hexec
        obtain ⟨hnread, hfinished⟩ := ih (fpc + 1) _ mid rfl hends hexec
        refine ⟨?_, hfinished⟩
        rw [hnread, List.length_cons]
        omega

end HttpRequestParser

end Sylar
