import Mathlib.Data.List.Flatten
import Sylar.Log.Escape

/-! `FileLogAppender::log` and `reopen` of `log.cc`.

`open` truncates the file, and `log` opens it again at the first record of every second. -/
namespace Sylar

def LogLevel.value : LogLevel → Nat
  | .unknow => 0
  | .debug => 1
  | .info => 2
  | .warn => 3
  | .error => 4
  | .fatal => 5
  | .level100 => 100

/-- A call, the second in which it is made, and what it prints for a buffer that nobody has
written. -/
structure LogCall where
  now : Nat
  level : LogLevel
  event : LogEvent
  undefined : List Char

/-- `file` is what the file holds as soon as the stream is flushed. -/
structure FileLogAppender where
  level : LogLevel
  formatter : LogFormatter
  lastTime : Nat
  file : List Char

namespace FileLogAppender

/-- `close` and `open`, which succeed. -/
def reopen (a : FileLogAppender) : FileLogAppender :=
  { a with file := [] }

def new (level : LogLevel) (formatter : LogFormatter) : FileLogAppender :=
  reopen { level, formatter, lastTime := 0, file := [] }

def text (strftime : Strftime) (formatter : LogFormatter) (call : LogCall) : List Char :=
  (formatter.format strftime call.level call.event).getD call.undefined

def accepts (level : LogLevel) (call : LogCall) : Bool :=
  decide (call.level.value ≥ level.value)

def log (strftime : Strftime) (a : FileLogAppender) (call : LogCall) : FileLogAppender :=
  if accepts a.level call then
    let a := if call.now ≠ a.lastTime then { a.reopen with lastTime := call.now } else a
    { a with file := a.file ++ text strftime a.formatter call }
  else a

def after (strftime : Strftime) (level : LogLevel) (formatter : LogFormatter)
    (calls : List LogCall) : FileLogAppender :=
  calls.foldl (log strftime) (new level formatter)

/-- The file has the text of every record that is not below the level. -/
def Lossless (strftime : Strftime) (level : LogLevel) (formatter : LogFormatter)
    (calls : List LogCall) : Prop :=
  (after strftime level formatter calls).file =
    (calls.filter (accepts level)).flatMap (text strftime formatter)

def LastSecondOnly (strftime : Strftime) (level : LogLevel) (formatter : LogFormatter)
    (calls : List LogCall) : Prop :=
  ∀ call ∈ calls.filter (accepts level), ∀ later ∈ calls.filter (accepts level),
    call.now < later.now → text strftime formatter call = []

section
variable (strftime : Strftime) (level : LogLevel) (formatter : LogFormatter)

theorem after_append (calls : List LogCall) (call : LogCall) :
    after strftime level formatter (calls ++ [call]) =
      log strftime (after strftime level formatter calls) call := by
  rw [after, List.foldl_append]
  rfl

def printed (calls : List LogCall) (second : Nat) : List Char :=
  ((calls.filter (accepts level)).filter fun call => call.now = second).flatMap
    (text strftime formatter)

/-- The appender after some calls: it holds the records of the last second that had one. -/
structure Holds (calls : List LogCall) (a : FileLogAppender) : Prop where
  settings : a.level = level ∧ a.formatter = formatter
  file : a.file = printed strftime level formatter calls a.lastTime
  latest : ∀ call ∈ calls.filter (accepts level), call.now ≤ a.lastTime
  reached : a.lastTime = 0 ∨ ∃ call ∈ calls.filter (accepts level), call.now = a.lastTime

theorem filter_append_accepted (calls : List LogCall) (call : LogCall)
    (haccepts : accepts level call = true) :
    (calls ++ [call]).filter (accepts level) = calls.filter (accepts level) ++ [call] := by
  rw [List.filter_append, List.filter_cons_of_pos haccepts, List.filter_nil]

theorem filter_append_rejected (calls : List LogCall) (call : LogCall)
    (hrejects : ¬ accepts level call = true) :
    (calls ++ [call]).filter (accepts level) = calls.filter (accepts level) := by
  rw [List.filter_append, List.filter_cons_of_neg hrejects, List.filter_nil, List.append_nil]

theorem printed_append (calls : List LogCall) (call : LogCall) (second : Nat)
    (haccepts : accepts level call = true) :
    printed strftime level formatter (calls ++ [call]) second =
      printed strftime level formatter calls second ++
        if call.now = second then text strftime formatter call else [] := by
  rw [printed, filter_append_accepted level calls call haccepts, List.filter_append,
    List.flatMap_append, printed]
  by_cases hnow : call.now = second <;> simp [hnow]

theorem new_holds : Holds strftime level formatter [] (new level formatter) where
  settings := ⟨rfl, rfl⟩
  file := rfl
  latest := fun _ hmem => absurd hmem List.not_mem_nil
  reached := .inl rfl

theorem Holds.earlier (calls : List LogCall) (a : FileLogAppender) (now : Nat)
    (ha : Holds strftime level formatter calls a) (hnow : ∀ earlier ∈ calls, earlier.now ≤ now)
    (hnew : now ≠ a.lastTime) : ∀ earlier ∈ calls.filter (accepts level), earlier.now < now := by
  intro earlier hearlier
  have hle := ha.latest earlier hearlier
  have hbefore := hnow earlier (List.mem_filter.mp hearlier).1
  rcases ha.reached with hzero | ⟨last, hlast, hreach⟩
  · omega
  · have hlastNow := hnow last (List.mem_filter.mp hlast).1
    omega

theorem printed_eq_nil (calls : List LogCall) (now : Nat)
    (hearlier : ∀ earlier ∈ calls.filter (accepts level), earlier.now < now) :
    printed strftime level formatter calls now = [] := by
  have hempty : (calls.filter (accepts level)).filter (fun call => decide (call.now = now)) =
      [] := by
    rw [List.filter_eq_nil_iff]
    intro earlier hmem
    have hlt := hearlier earlier hmem
    simp only [decide_eq_true_eq]
    omega
  rw [printed, hempty, List.flatMap_nil]

theorem log_holds (calls : List LogCall) (a : FileLogAppender) (call : LogCall)
    (ha : Holds strftime level formatter calls a) (hnow : ∀ earlier ∈ calls, earlier.now ≤ call.now) :
    Holds strftime level formatter (calls ++ [call]) (log strftime a call) := by
  have hearlier := ha.earlier strftime level formatter calls a call.now hnow
  obtain ⟨⟨hlevel, hformatter⟩, hfile, hlatest, hreached⟩ := ha
  unfold log
  rw [hlevel]
  by_cases haccepts : accepts level call = true
  · have hsplit := filter_append_accepted level calls call haccepts
    have hmem : call ∈ (calls ++ [call]).filter (accepts level) := by
      rw [hsplit]
      exact List.mem_append_right _ List.mem_cons_self
    rw [if_pos haccepts]
    by_cases hsame : call.now = a.lastTime
    · rw [if_neg (not_not_intro hsame)]
      refine ⟨⟨hlevel, hformatter⟩, ?_, ?_, .inr ⟨call, hmem, hsame⟩⟩
      · dsimp only
        rw [printed_append strftime level formatter calls call _ haccepts, if_pos hsame, hfile,
          hformatter]
      · rw [hsplit, List.forall_mem_append, List.forall_mem_singleton]
        exact ⟨hlatest, Nat.le_of_eq hsame⟩
    · -- The file is truncated: none of the earlier records is of this second.
      have hnone := printed_eq_nil strftime level formatter calls call.now (hearlier hsame)
      rw [if_pos hsame]
      refine ⟨⟨hlevel, hformatter⟩, ?_, ?_, .inr ⟨call, hmem, rfl⟩⟩
      · dsimp only
        rw [printed_append strftime level formatter calls call _ haccepts, if_pos rfl, hnone,
          ← hformatter]
        rfl
      · rw [hsplit, List.forall_mem_append, List.forall_mem_singleton]
        exact ⟨fun other hother => Nat.le_of_lt (hearlier hsame other hother), Nat.le_refl _⟩
  · have hsplit := filter_append_rejected level calls call haccepts
    rw [if_neg haccepts]
    refine ⟨⟨hlevel, hformatter⟩, ?_, ?_, ?_⟩
    · rw [hfile, printed, printed, hsplit]
    · rw [hsplit]
      exact hlatest
    · rw [hsplit]
      exact hreached

theorem after_holds (calls : List LogCall) (hsorted : calls.Pairwise fun c d => c.now ≤ d.now) :
    Holds strftime level formatter calls (after strftime level formatter calls) := by
  induction calls using List.reverseRecOn with
  | nil => exact new_holds strftime level formatter
  | append_singleton calls call ih =>
    rw [List.pairwise_append] at hsorted
    rw [after_append]
    exact log_holds strftime level formatter calls _ call (ih hsorted.1)
      fun earlier hearlier => hsorted.2.2 earlier hearlier call List.mem_cons_self

end

theorem flatMap_filter_eq_iff {α β : Type} (f : α → List β) (p : α → Bool) (entries : List α) :
    (entries.filter p).flatMap f = entries.flatMap f ↔
      ∀ entry ∈ entries, p entry = false → f entry = [] := by
  induction entries with
  | nil => exact ⟨fun _ entry hmem => absurd hmem List.not_mem_nil, fun _ => rfl⟩
  | cons first rest ih =>
    rw [List.forall_mem_cons]
    cases hp : p first with
    | true =>
      rw [List.filter_cons_of_pos hp, List.flatMap_cons, List.flatMap_cons,
        List.append_cancel_left_eq, ih]
      simp only [Bool.true_eq_false, false_implies, true_and]
    | false =>
      rw [List.filter_cons_of_neg (by rw [hp]; decide), List.flatMap_cons, ← ih]
      constructor
      · intro heq
        have hlength := congrArg List.length heq
        rw [List.length_append] at hlength
        have hnil : f first = [] := by
          apply List.eq_nil_of_length_eq_zero
          have hle := (List.filter_sublist (p := p) (l := rest)).flatMap f |>.length_le
          omega
        rw [hnil, List.nil_append] at heq
        exact ⟨fun _ => hnil, heq⟩
      · rintro ⟨hnil, heq⟩
        rw [hnil rfl, List.nil_append, heq]

/-- Nothing is lost exactly when all text is of the last second. -/
theorem lossless_iff (strftime : Strftime) (level : LogLevel) (formatter : LogFormatter)
    (calls : List LogCall) (hsorted : calls.Pairwise fun c d => c.now ≤ d.now) :
    Lossless strftime level formatter calls ↔ LastSecondOnly strftime level formatter calls := by
  obtain ⟨-, hfile, hlatest, hreached⟩ := after_holds strftime level formatter calls hsorted
  rw [Lossless, hfile, printed, flatMap_filter_eq_iff]
  constructor
  · intro hempty call hcall later hlater hlt
    have hle := hlatest later hlater
    exact hempty call hcall (decide_eq_false (by omega))
  · intro hlast call hcall hother
    have hle := hlatest call hcall
    have hne := of_decide_eq_false hother
    rcases hreached with hzero | ⟨later, hlater, hreach⟩
    · omega
    · exact hlast call hcall later hlater (by omega)

def record (now : Nat) (content : String) : LogCall where
  now
  level := .info
  event := { plainEvent with content }
  undefined := []

/-- Two records of one second. -/
theorem lossless_one_second :
    ([record 5 "first", record 5 "second"].Pairwise fun c d => c.now ≤ d.now) ∧
      Lossless stoppedStrftime .debug (.new "%m%n") [record 5 "first", record 5 "second"] := by
  have hsorted : [record 5 "first", record 5 "second"].Pairwise fun c d => c.now ≤ d.now := by
    decide
  refine ⟨hsorted, (lossless_iff _ _ _ _ hsorted).mpr ?_⟩
  intro call hcall later hlater hlt
  have hsame : call.now = 5 ∧ later.now = 5 := by
    simp only [List.mem_filter, List.mem_cons, List.not_mem_nil, or_false] at hcall hlater
    rcases hcall.1 with rfl | rfl <;> rcases hlater.1 with rfl | rfl <;> exact ⟨rfl, rfl⟩
  omega

/-- A record of the next second. -/
theorem lossless_next_second :
    ¬ Lossless stoppedStrftime .debug (.new "%m%n") [record 5 "first", record 6 "second"] ∧
      (after stoppedStrftime .debug (.new "%m%n") [record 5 "first", record 6 "second"]).file =
        "second\n".toList := by
  unfold Lossless
  decide

end FileLogAppender
end Sylar
