import Sylar.Log.Logger

/-! The change listener that `LogIniter` of `config_log.cc` installs. -/
namespace Sylar

/-- The use of a null `Logger::ptr` or `LogAppender::ptr`. -/
inductive InitFault where
  | nullLogger
  | nullAppender
deriving DecidableEq, Repr

namespace LogIniter

def makeAppender (name : String) (a : LogAppenderDefine) :
    Except InitFault (LogAppender × List String) :=
  let ap : Option LogAppender :=
    if a.type = 1 then some { kind := .file a.file }
    else if a.type = 2 then some { kind := .stdout }
    else none
  match ap with
  | none => .error .nullAppender
  | some ap =>
    let ap := { ap with level := a.level }
    if a.formatter ≠ "" then
      let fmt := LogFormatter.new a.formatter
      if fmt.error = false then .ok (ap.setFormatter (some fmt), fmt.lines)
      else .ok (ap, fmt.lines ++ ["log.name = " ++ name ++ " appender type=" ++ toString a.type ++
        " formatter" ++ a.formatter ++ " is invalid"])
    else .ok (ap, [])

def addAppenders (name : String) : Logger → List LogAppenderDefine →
    Except InitFault (Logger × List String)
  | logger, [] => .ok (logger, [])
  | logger, a :: rest =>
    match makeAppender name a with
    | .error fault => .error fault
    | .ok (ap, lines) =>
      match addAppenders name (logger.addAppender ap) rest with
      | .error fault => .error fault
      | .ok (logger, more) => .ok (logger, lines ++ more)

def configure (logger : Logger) (i : LogDefine) : Except InitFault (Logger × List String) :=
  let logger := logger.setLevel i.level
  let (logger, lines) :=
    if i.formatter ≠ "" then logger.setFormatterText i.formatter else (logger, [])
  let logger := logger.clearAppenders
  match addAppenders i.name logger i.appenders with
  | .error fault => .error fault
  | .ok (logger, more) => .ok (logger, lines ++ more)

def applyDefine (old : LogDefineSet) (m : LoggerManager) (i : LogDefine) :
    Except InitFault (LoggerManager × List String) :=
  let named :=
    match Lib.setFind LogDefine.lt i old.defs with
    | none => some (m.getLogger i.name)
    | some it => if i ≠ it then some (m.getLogger i.name) else none
  match named with
  | none => .error .nullLogger
  | some (logger, m) =>
    match configure logger i with
    | .error fault => .error fault
    | .ok (logger, lines) => .ok (m.store i.name logger, lines)

def applyAll (old : LogDefineSet) : LoggerManager → List LogDefine →
    Except InitFault (LoggerManager × List String)
  | m, [] => .ok (m, [])
  | m, i :: rest =>
    match applyDefine old m i with
    | .error fault => .error fault
    | .ok (m, lines) =>
      match applyAll old m rest with
      | .error fault => .error fault
      | .ok (m, more) => .ok (m, lines ++ more)

def removeDefine (new : LogDefineSet) (m : LoggerManager) (i : LogDefine) : LoggerManager :=
  match Lib.setFind LogDefine.lt i new.defs with
  | some _ => m
  | none =>
    let (logger, m) := m.getLogger i.name
    m.store i.name ((logger.setLevel .level100).clearAppenders)

def onChange (old new : LogDefineSet) (m : LoggerManager) :
    Except InitFault (LoggerManager × List String) :=
  match applyAll old m new.defs with
  | .error fault => .error fault
  | .ok (m, lines) => .ok (old.defs.foldl (removeDefine new) m, lines)

/-- The formatter that a definition asks for: its own if it is given and valid. -/
def formatterOf (text : String) (otherwise : LogFormatter) : LogFormatter :=
  if text ≠ "" ∧ (LogFormatter.new text).error = false then .new text else otherwise

def appenderOf (formatter : LogFormatter) (a : LogAppenderDefine) : LogAppender where
  kind := if a.type = 1 then .file a.file else .stdout
  level := a.level
  hasFormat := a.formatter ≠ "" ∧ (LogFormatter.new a.formatter).error = false
  formatter := some (formatterOf a.formatter formatter)

/-- The logger state that the new configuration alone determines. -/
structure Determined (old new : LogDefineSet) (before after : LoggerManager) : Prop where
  defined : ∀ d ∈ new.defs, ∃ logger, after.loggers d.name = some logger ∧
    logger.level = d.level ∧
    logger.formatter = formatterOf d.formatter .standard ∧
    logger.appenders = d.appenders.map (appenderOf (formatterOf d.formatter .standard))
  removed : ∀ d ∈ old.defs, (∀ e ∈ new.defs, e.name ≠ d.name) →
    ∃ logger, after.loggers d.name = some logger ∧ logger.level = .level100 ∧
      logger.appenders = []
  others : ∀ name, (∀ d ∈ new.defs, d.name ≠ name) → (∀ d ∈ old.defs, d.name ≠ name) →
    after.loggers name = before.loggers name

/-- No entry of the old configuration stays as it is, and a logger that gets no valid
formatter of its own still has the standard one, or is new. -/
def Fresh (old new : LogDefineSet) (m : LoggerManager) : Prop :=
  ∀ d ∈ new.defs, d ∉ old.defs ∧
    (d.formatter = "" ∨ (LogFormatter.new d.formatter).error = true →
      ∀ logger, m.loggers d.name = some logger → logger.formatter = .standard)

theorem addAppender_makeAppender (name : String) (logger : Logger) (a : LogAppenderDefine)
    (htype : a.type = 1 ∨ a.type = 2) :
    ∃ ap lines, makeAppender name a = .ok (ap, lines) ∧
      logger.addAppender ap =
        { logger with appenders := logger.appenders ++ [appenderOf logger.formatter a] } := by
  have hkind : (if a.type = 1 then some { kind := .file a.file }
      else if a.type = 2 then some { kind := .stdout } else none : Option LogAppender) =
      some { kind := if a.type = 1 then .file a.file else .stdout } := by
    rcases htype with hfile | hout
    · simp [hfile]
    · simp [hout]
  unfold makeAppender
  rw [hkind]
  by_cases hempty : a.formatter = ""
  · simp [hempty, appenderOf, formatterOf, Logger.addAppender]
  · by_cases herror : (LogFormatter.new a.formatter).error = false
    · simp [hempty, herror, appenderOf, formatterOf, Logger.addAppender, LogAppender.setFormatter]
    · simp [hempty, herror, appenderOf, formatterOf, Logger.addAppender]

theorem addAppenders_ok (name : String) (logger : Logger) (appenders : List LogAppenderDefine)
    (htyped : ∀ a ∈ appenders, a.type = 1 ∨ a.type = 2) :
    ∃ lines, addAppenders name logger appenders =
      .ok ({ logger with appenders :=
        logger.appenders ++ appenders.map (appenderOf logger.formatter) }, lines) := by
  induction appenders generalizing logger with
  | nil => exact ⟨[], by simp [addAppenders]⟩
  | cons a rest ih =>
    obtain ⟨ap, lines, hmake, hadd⟩ :=
      addAppender_makeAppender name logger a (htyped a List.mem_cons_self)
    obtain ⟨more, hrest⟩ := ih (logger.addAppender ap) fun other hother =>
      htyped other (List.mem_cons_of_mem a hother)
    refine ⟨lines ++ more, ?_⟩
    simp only [addAppenders, hmake, hrest]
    simp [hadd]

def configured (logger : Logger) (i : LogDefine) : Logger where
  name := logger.name
  level := i.level
  formatter := formatterOf i.formatter logger.formatter
  appenders := i.appenders.map (appenderOf (formatterOf i.formatter logger.formatter))

theorem configure_ok (logger : Logger) (i : LogDefine)
    (htyped : ∀ a ∈ i.appenders, a.type = 1 ∨ a.type = 2) :
    ∃ lines, configure logger i = .ok (configured logger i, lines) := by
  have hformatter : ∃ cleared lines,
      (if i.formatter ≠ "" then (logger.setLevel i.level).setFormatterText i.formatter
        else (logger.setLevel i.level, [])) = (cleared, lines) ∧
      cleared.clearAppenders =
        ⟨logger.name, i.level, formatterOf i.formatter logger.formatter, []⟩ := by
    by_cases hempty : i.formatter = ""
    · simp [hempty, formatterOf, Logger.setLevel, Logger.clearAppenders]
    · by_cases herror : (LogFormatter.new i.formatter).error = false
      · simp [hempty, herror, formatterOf, Logger.setLevel, Logger.clearAppenders,
          Logger.setFormatterText, Logger.setFormatter]
      · simp [hempty, herror, formatterOf, Logger.setLevel, Logger.clearAppenders,
          Logger.setFormatterText]
  obtain ⟨cleared, lines, hset, hcleared⟩ := hformatter
  obtain ⟨more, hadd⟩ := addAppenders_ok i.name cleared.clearAppenders i.appenders htyped
  refine ⟨lines ++ more, ?_⟩
  simp only [configure, hset, hadd]
  rw [hcleared]
  simp [configured]

theorem setFind_name (i it : LogDefine) (v : LogDefineSet) :
    Lib.setFind LogDefine.lt i v.defs = some it ↔ it ∈ v.defs ∧ it.name = i.name :=
  Lib.setFind_eq_some_iff LogDefine.name i it v.defs v.sorted

theorem nodup_names (v : LogDefineSet) : (v.defs.map LogDefine.name).Nodup :=
  Lib.Sorted.nodup_key LogDefine.name v.defs v.sorted

theorem store_getLogger (m : LoggerManager) (name : String) (logger : Logger) :
    (m.getLogger name).2.store name logger = m.store name logger := by
  unfold LoggerManager.getLogger
  split
  · rfl
  · simp [LoggerManager.store]

theorem loggers_store (m : LoggerManager) (name : String) (logger : Logger) :
    (m.store name logger).loggers name = some logger :=
  Function.update_self name _ _

theorem loggers_store_other (m : LoggerManager) (name other : String) (logger : Logger)
    (hne : other ≠ name) : (m.store name logger).loggers other = m.loggers other :=
  Function.update_of_ne hne _ _

theorem getLogger_congr (m m' : LoggerManager) (name : String)
    (heq : m'.loggers name = m.loggers name) : (m'.getLogger name).1 = (m.getLogger name).1 := by
  unfold LoggerManager.getLogger
  rw [heq]
  split <;> rfl

theorem applyDefine_ok (old : LogDefineSet) (m : LoggerManager) (i : LogDefine)
    (hold : i ∉ old.defs) (htyped : ∀ a ∈ i.appenders, a.type = 1 ∨ a.type = 2) :
    ∃ lines, applyDefine old m i =
      .ok (m.store i.name (configured (m.getLogger i.name).1 i), lines) := by
  have hnamed : (match Lib.setFind LogDefine.lt i old.defs with
      | none => some (m.getLogger i.name)
      | some it => if i ≠ it then some (m.getLogger i.name) else none) =
      some (m.getLogger i.name) := by
    cases hfind : Lib.setFind LogDefine.lt i old.defs with
    | none => rfl
    | some it =>
      have hne : i ≠ it := by
        intro heq
        rw [heq] at hold
        exact hold ((setFind_name i it old).mp hfind).1
      exact if_pos hne
  obtain ⟨lines, hconfigure⟩ := configure_ok (m.getLogger i.name).1 i htyped
  refine ⟨lines, ?_⟩
  unfold applyDefine
  rw [hnamed]
  dsimp only
  rw [hconfigure]
  dsimp only
  rw [store_getLogger]

theorem applyDefine_unchanged (old : LogDefineSet) (m : LoggerManager) (i : LogDefine)
    (hold : i ∈ old.defs) : applyDefine old m i = .error .nullLogger := by
  have hfind : Lib.setFind LogDefine.lt i old.defs = some i := (setFind_name i i old).mpr ⟨hold, rfl⟩
  unfold applyDefine
  rw [hfind]
  simp

theorem applyAll_ok (old : LogDefineSet) (m : LoggerManager) (defs : List LogDefine)
    (hold : ∀ d ∈ defs, d ∉ old.defs)
    (htyped : ∀ d ∈ defs, ∀ a ∈ d.appenders, a.type = 1 ∨ a.type = 2)
    (hnodup : (defs.map LogDefine.name).Nodup) :
    ∃ m' lines, applyAll old m defs = .ok (m', lines) ∧
      (∀ d ∈ defs, m'.loggers d.name = some (configured (m.getLogger d.name).1 d)) ∧
      ∀ name, (∀ d ∈ defs, d.name ≠ name) → m'.loggers name = m.loggers name := by
  induction defs generalizing m with
  | nil =>
    refine ⟨m, [], rfl, ?_, fun _ _ => rfl⟩
    intro d hd
    cases hd
  | cons i rest ih =>
    obtain ⟨hhead, htail⟩ := List.nodup_cons.mp hnodup
    have hapart : ∀ d ∈ rest, d.name ≠ i.name := by
      intro d hd heq
      exact hhead (heq ▸ List.mem_map_of_mem hd)
    obtain ⟨lines, happly⟩ := applyDefine_ok old m i (hold i List.mem_cons_self)
      (htyped i List.mem_cons_self)
    obtain ⟨m', more, hrest, hdefined, hothers⟩ :=
      ih (m.store i.name (configured (m.getLogger i.name).1 i))
        (fun d hd => hold d (List.mem_cons_of_mem i hd))
        (fun d hd => htyped d (List.mem_cons_of_mem i hd)) htail
    refine ⟨m', lines ++ more, ?_, ?_, ?_⟩
    · simp only [applyAll, happly, hrest]
    · intro d hd
      rcases List.mem_cons.mp hd with rfl | hmem
      · rw [hothers d.name hapart]
        exact loggers_store m d.name _
      · rw [hdefined d hmem, getLogger_congr m _ d.name
          (loggers_store_other m i.name d.name _ (hapart d hmem))]
    · intro name hname
      rw [hothers name fun d hd => hname d (List.mem_cons_of_mem i hd)]
      exact loggers_store_other m i.name name _ (Ne.symm (hname i List.mem_cons_self))

theorem not_mem_old_of_applyAll (old : LogDefineSet) (m : LoggerManager) (defs : List LogDefine)
    (result : LoggerManager × List String) (happly : applyAll old m defs = .ok result) :
    ∀ d ∈ defs, d ∉ old.defs := by
  induction defs generalizing m result with
  | nil =>
    intro d hd
    cases hd
  | cons i rest ih =>
    have hfirst : i ∉ old.defs := by
      intro hmem
      simp only [applyAll, applyDefine_unchanged old m i hmem] at happly
      cases happly
    cases hdefine : applyDefine old m i with
    | error fault =>
      simp only [applyAll, hdefine] at happly
      cases happly
    | ok next =>
      cases hrest : applyAll old next.1 rest with
      | error fault =>
        simp only [applyAll, hdefine, hrest] at happly
        cases happly
      | ok last =>
        intro d hd
        rcases List.mem_cons.mp hd with rfl | hmem
        · exact hfirst
        · exact ih next.1 last hrest d hmem

theorem removeDefine_kept (new : LogDefineSet) (m : LoggerManager) (i e : LogDefine)
    (he : e ∈ new.defs) (hname : e.name = i.name) : removeDefine new m i = m := by
  have hfind : Lib.setFind LogDefine.lt i new.defs = some e := (setFind_name i e new).mpr ⟨he, hname⟩
  simp only [removeDefine, hfind]

theorem removeDefine_removed (new : LogDefineSet) (m : LoggerManager) (i : LogDefine)
    (hnone : ∀ e ∈ new.defs, e.name ≠ i.name) :
    removeDefine new m i =
      m.store i.name (((m.getLogger i.name).1.setLevel .level100).clearAppenders) := by
  have hfind : Lib.setFind LogDefine.lt i new.defs = none := by
    apply Option.eq_none_iff_forall_ne_some.mpr
    intro it hsome
    obtain ⟨hmem, hname⟩ := (setFind_name i it new).mp hsome
    exact hnone it hmem hname
  simp only [removeDefine, hfind]
  exact store_getLogger m i.name _

theorem removeAll_kept (new : LogDefineSet) (m : LoggerManager) (defs : List LogDefine)
    (name : String)
    (hkept : (∃ e ∈ new.defs, e.name = name) ∨ ∀ d ∈ defs, d.name ≠ name) :
    (defs.foldl (removeDefine new) m).loggers name = m.loggers name := by
  induction defs generalizing m with
  | nil => rfl
  | cons i rest ih =>
    rw [List.foldl_cons, ih _ (hkept.imp_right fun hne d hd => hne d (List.mem_cons_of_mem i hd))]
    by_cases hnew : ∃ e ∈ new.defs, e.name = i.name
    · obtain ⟨e, he, hname⟩ := hnew
      rw [removeDefine_kept new m i e he hname]
    · rw [removeDefine_removed new m i fun e he heq => hnew ⟨e, he, heq⟩]
      apply loggers_store_other
      intro heq
      rcases hkept with ⟨e, he, hname⟩ | hne
      · exact hnew ⟨e, he, hname.trans heq⟩
      · exact hne i List.mem_cons_self heq.symm

theorem removeAll_removed (new : LogDefineSet) (m : LoggerManager) (defs : List LogDefine)
    (hnodup : (defs.map LogDefine.name).Nodup) (d : LogDefine) (hd : d ∈ defs)
    (hnone : ∀ e ∈ new.defs, e.name ≠ d.name) :
    ∃ logger, (defs.foldl (removeDefine new) m).loggers d.name = some logger ∧
      logger.level = .level100 ∧ logger.appenders = [] := by
  induction defs generalizing m with
  | nil => cases hd
  | cons i rest ih =>
    obtain ⟨hhead, htail⟩ := List.nodup_cons.mp hnodup
    rw [List.foldl_cons]
    rcases List.mem_cons.mp hd with rfl | hmem
    · rw [removeAll_kept new _ rest d.name (.inr fun e he heq => hhead (heq ▸ List.mem_map_of_mem he)),
        removeDefine_removed new m d hnone, loggers_store]
      exact ⟨_, rfl, rfl, rfl⟩
    · exact ih _ htail hmem

theorem formatterOf_of_valid (text : String) (x y : LogFormatter)
    (hvalid : ¬ (text = "" ∨ (LogFormatter.new text).error = true)) :
    formatterOf text x = formatterOf text y := by
  have hboth : text ≠ "" ∧ (LogFormatter.new text).error = false := by
    rw [not_or] at hvalid
    exact ⟨hvalid.1, Bool.eq_false_iff.mpr hvalid.2⟩
  rw [formatterOf, formatterOf, if_pos hboth, if_pos hboth]

theorem formatterOf_of_invalid (text : String) (x : LogFormatter)
    (hinvalid : text = "" ∨ (LogFormatter.new text).error = true) : formatterOf text x = x := by
  apply if_neg
  rintro ⟨hne, hvalid⟩
  rcases hinvalid with hempty | herror
  · exact hne hempty
  · rw [hvalid] at herror
    contradiction

theorem getLogger_formatter (m : LoggerManager) (d : LogDefine)
    (hstandard : ∀ logger, m.loggers d.name = some logger → logger.formatter = .standard) :
    (m.getLogger d.name).1.formatter = .standard := by
  unfold LoggerManager.getLogger
  cases hlogger : m.loggers d.name with
  | none => rfl
  | some logger => exact hstandard logger hlogger

/-- The listener completes and leaves what the new configuration determines exactly when the
change is fresh. -/
theorem determined_iff_fresh (old new : LogDefineSet) (m : LoggerManager) (htyped : new.Typed) :
    (∃ m' lines, onChange old new m = .ok (m', lines) ∧ Determined old new m m') ↔
      Fresh old new m := by
  constructor
  · rintro ⟨m', lines, hchange, hdetermined⟩
    cases happly : applyAll old m new.defs with
    | error fault =>
      simp only [onChange, happly] at hchange
      cases hchange
    | ok mid =>
      have hold := not_mem_old_of_applyAll old m new.defs mid happly
      obtain ⟨m₁, lines₁, happly', hdefined, -⟩ :=
        applyAll_ok old m new.defs hold htyped (nodup_names new)
      rw [happly] at happly'
      cases happly'
      simp only [onChange, happly] at hchange
      cases hchange
      intro d hd
      refine ⟨hold d hd, ?_⟩
      intro hinvalid logger hlogger
      obtain ⟨result, hresult, -, hformatter, -⟩ := hdetermined.defined d hd
      rw [removeAll_kept new m₁ old.defs d.name (.inl ⟨d, hd, rfl⟩), hdefined d hd] at hresult
      cases hresult
      rw [configured, formatterOf_of_invalid _ _ hinvalid,
        formatterOf_of_invalid _ _ hinvalid] at hformatter
      rw [LoggerManager.getLogger, hlogger] at hformatter
      exact hformatter
  · intro hfresh
    obtain ⟨m₁, lines, happly, hdefined, hothers⟩ :=
      applyAll_ok old m new.defs (fun d hd => (hfresh d hd).1) htyped (nodup_names new)
    refine ⟨old.defs.foldl (removeDefine new) m₁, lines, ?_, ?_, ?_, ?_⟩
    · simp only [onChange, happly]
    · intro d hd
      have hformatter : formatterOf d.formatter (m.getLogger d.name).1.formatter =
          formatterOf d.formatter .standard := by
        by_cases hinvalid : d.formatter = "" ∨ (LogFormatter.new d.formatter).error = true
        · rw [getLogger_formatter m d ((hfresh d hd).2 hinvalid)]
        · exact formatterOf_of_valid d.formatter _ _ hinvalid
      rw [removeAll_kept new m₁ old.defs d.name (.inl ⟨d, hd, rfl⟩), hdefined d hd]
      refine ⟨_, rfl, rfl, hformatter, ?_⟩
      rw [configured, hformatter]
    · intro d hd hnone
      exact removeAll_removed new m₁ old.defs (nodup_names old) d hd hnone
    · intro name hnew hold
      rw [removeAll_kept new m₁ old.defs name (.inr hold)]
      exact hothers name hnew

/-- A logger whose level is changed, one that is added and one that is removed. -/
theorem determined_iff_fresh_reload :
    ∃ m' lines, onChange
        ⟨[{ name := "root", level := .debug }, { name := "system" }], by decide⟩
        ⟨[{ name := "http", appenders := [{ type := 2 }] }, { name := "root", level := .info }],
          by decide⟩ .new = .ok (m', lines) ∧
      Determined ⟨[{ name := "root", level := .debug }, { name := "system" }], by decide⟩
        ⟨[{ name := "http", appenders := [{ type := 2 }] }, { name := "root", level := .info }],
          by decide⟩ .new m' := by
  apply (determined_iff_fresh _ _ _ (by decide)).mpr
  intro d hd
  refine ⟨?_, ?_⟩
  · revert d
    decide
  · intro _ logger hlogger
    simp only [List.mem_cons, List.not_mem_nil, or_false] at hd
    rcases hd with rfl | rfl
    · cases hlogger
    · cases hlogger
      rfl

/-- Adding a logger to the configuration while another one stays as it is. -/
theorem unchanged_entry_faults :
    ∃ m lines, onChange ⟨[], .nil⟩ ⟨[{ name := "root" }], by decide⟩ .new = .ok (m, lines) ∧
      onChange ⟨[{ name := "root" }], by decide⟩ ⟨[{ name := "root" }, { name := "system" }], by decide⟩
        m = .error .nullLogger :=
  ⟨_, _, rfl, rfl⟩

end LogIniter
end Sylar
