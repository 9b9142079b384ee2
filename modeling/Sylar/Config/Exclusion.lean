import Sylar.Config.Shared
import Sylar.Lib.Interference

/-! What the locks of the logging and of the configuration protect, and what the threads know
about names: an object that one of them has got under a name is the one that all get. -/
namespace Sylar
open Lib (Mode Prog)

/-- The part of the state that belongs to a lock. Of the objects, those that exist. -/
def SharedLock.Same {ε ν κ : Type} (w w' : LogShared ε (ConfigShared ν κ)) : SharedLock → Prop
  | .config => w'.config.datas = w.config.datas ∧ w'.config.created = w.config.created
  | .var v => v < w.config.created →
    w'.config.vals v = w.config.vals v ∧ w'.config.cbs v = w.config.cbs v
  | .manager => w'.loggers = w.loggers ∧ w'.created = w.created
  | .logger l => l ≤ w.created → w'.objects.loggers l = w.objects.loggers l
  | .appender a => a < w.allocated →
    w'.objects.appenders a = w.objects.appenders a ∧ w'.streams a = w.streams a

namespace LogShared
variable {ε ν κ : Type}

structure Named (w : LogShared ε (ConfigShared ν κ)) : Prop where
  loggers : Lib.Distinct (fun name => w.loggers.lookup name) (w.created + 1)
  vars : Lib.Distinct (fun name => w.config.datas.lookup name) w.config.created

/-- No name is taken away, and no variable changes its type. -/
structure Grows (w w' : LogShared ε (ConfigShared ν κ)) : Prop where
  named : w.Named → w'.Named
  loggers : ∀ name l, w.loggers.lookup name = some l → w'.loggers.lookup name = some l
  vars : ∀ name v, w.config.datas.lookup name = some v → w'.config.datas.lookup name = some v
  created : w.config.created ≤ w'.config.created
  types : ∀ v, v < w.config.created → w'.config.types v = w.config.types v

theorem grows_of_eq (w w' : LogShared ε (ConfigShared ν κ)) (hloggers : w'.loggers = w.loggers)
    (hcreated : w'.created = w.created) (hdatas : w'.config.datas = w.config.datas)
    (hvars : w'.config.created = w.config.created) (htypes : w'.config.types = w.config.types) :
    w.Grows w' where
  named := fun hnamed =>
    { loggers := by rw [hloggers, hcreated]; exact hnamed.loggers
      vars := by rw [hdatas, hvars]; exact hnamed.vars }
  loggers := by rw [hloggers]; exact fun _ _ hl => hl
  vars := by rw [hdatas]; exact fun _ _ hv => hv
  created := by rw [hvars]
  types := by rw [htypes]; exact fun _ _ => rfl

theorem lookup_createLogger (w : LogShared ε (ConfigShared ν κ)) (name other : String) :
    (w.createLogger name).loggers.lookup other =
      if other = name then some (w.created + 1) else w.loggers.lookup other := by
  refine Lib.lookup_mapAssign _ name _ w.loggers other (fun x => by simp) fun x y hxy hyx => ?_
  rw [decide_eq_false_iff_not, String.not_lt] at hxy hyx
  exact String.le_antisymm hyx hxy

theorem lookup_insert (find find' : String → Option Nat) (name : String) (number : Nat)
    (hnew : find name = none)
    (hfind : ∀ other, find' other = if other = name then some number else find other)
    (other : String) (n : Nat) (hother : find other = some n) : find' other = some n := by
  rw [hfind, if_neg]
  · exact hother
  · rintro rfl
    rw [hnew] at hother
    cases hother

theorem grows_createLogger (w : LogShared ε (ConfigShared ν κ)) (name : String)
    (hnew : w.loggers.lookup name = none) : w.Grows (w.createLogger name) where
  named := fun hnamed =>
    { loggers := hnamed.loggers.insert _ _ _ name (w.lookup_createLogger name)
      vars := hnamed.vars }
  loggers := lookup_insert (fun n => w.loggers.lookup n) _ name _ hnew (w.lookup_createLogger name)
  vars := fun _ _ hv => hv
  created := Nat.le_refl _
  types := fun _ _ => rfl

theorem lookup_create (s : ConfigShared ν κ) (name : String) (type : Nat) (val : ν)
    (other : String) : (s.create name type val).datas.lookup other =
      if other = name then some s.created else s.datas.lookup other :=
  Lib.lookup_cons_if _ _ other

theorem grows_create (w : LogShared ε (ConfigShared ν κ)) (name : String) (type : Nat) (val : ν)
    (hnew : w.config.datas.lookup name = none) :
    w.Grows { w with config := w.config.create name type val } where
  named := fun hnamed =>
    { loggers := hnamed.loggers
      vars := hnamed.vars.insert _ _ _ name (lookup_create w.config name type val) }
  loggers := fun _ _ hl => hl
  vars := lookup_insert (fun n => w.config.datas.lookup n) _ name _ hnew
    (lookup_create w.config name type val)
  created := Nat.le_succ _
  types := fun _ hv => Function.update_of_ne hv.ne _ _

end LogShared

namespace ConfigProg
variable {ε ν κ α β : Type} {needs : List SharedLock}

abbrev Allowed (held : List (SharedLock × Mode)) (w w' : LogShared ε (ConfigShared ν κ)) : Prop :=
  Lib.Respects (fun lock w w' => SharedLock.Same w w' lock) LogShared.Grows held w w'

/-- The program changes what belongs to its locks, when its thread has the locks `needs` alone. -/
abbrev Keeps (needs : List SharedLock) (p : ConfigProg ε ν κ α) : Prop :=
  Lib.Keeps Allowed LogShared.Named needs p

theorem named_persists :
    Lib.Persists Allowed (LogShared.Named : LogShared ε (ConfigShared ν κ) → Prop) :=
  fun _ _ _ hallowed hnamed => hallowed.always.named hnamed

theorem same_refl (w : LogShared ε (ConfigShared ν κ)) (lock : SharedLock) :
    SharedLock.Same w w lock := by
  cases lock with
  | config => exact ⟨rfl, rfl⟩
  | var v => exact fun _ => ⟨rfl, rfl⟩
  | manager => exact ⟨rfl, rfl⟩
  | logger l => exact fun _ => rfl
  | appender a => exact fun _ => ⟨rfl, rfl⟩

theorem keeps_bind (p : ConfigProg ε ν κ α) (f : α → ConfigProg ε ν κ β) (hp : Keeps needs p)
    (hf : ∀ a, Keeps needs (f a)) : Keeps needs (p >>= f) :=
  Lib.Keeps.bind p f hp hf

theorem keeps_when (c : Prop) [Decidable c] (p : ConfigProg ε ν κ Unit)
    (hp : c → Keeps needs p) : Keeps needs (if c then p else pure ()) := by
  by_cases hc : c
  · rw [if_pos hc]
    exact hp hc
  · rw [if_neg hc]
    exact Lib.Keeps.pure ()

theorem keeps_read (f : LogShared ε (ConfigShared ν κ) → α) :
    Keeps needs (Prog.read f : ConfigProg ε ν κ α) := by
  refine Lib.Keeps.act id _ named_persists (fun held hneeds w _ => ?_) fun _ => Lib.Keeps.pure _
  exact ⟨fun lock _ => same_refl w lock, w.grows_of_eq w rfl rfl rfl rfl rfl⟩

theorem keeps_object (effect : LogShared ε (ConfigShared ν κ) → LogShared ε (ConfigShared ν κ))
    (rest : LogShared ε (ConfigShared ν κ) → ConfigProg ε ν κ α)
    (hkept : ∀ w, (effect w).config = w.config ∧ (effect w).loggers = w.loggers ∧
      (effect w).created = w.created)
    (hloggers : ∀ w l, .logger l ∉ needs →
      (effect w).objects.loggers l = w.objects.loggers l)
    (happenders : ∀ w a, a < w.allocated → .appender a ∉ needs →
      (effect w).objects.appenders a = w.objects.appenders a ∧ (effect w).streams a = w.streams a)
    (hrest : ∀ w, Keeps needs (rest w)) : Keeps needs (.act effect rest) := by
  refine Lib.Keeps.act effect rest named_persists (fun held hneeds w _ => ⟨?_, ?_⟩) hrest
  · intro lock hlock
    obtain ⟨hconfig, hregistry, hcreated⟩ := hkept w
    have hneed : lock ∉ needs := fun hneed => hlock (hneeds lock hneed)
    cases lock with
    | config => exact ⟨by rw [hconfig], by rw [hconfig]⟩
    | var v => exact fun _ => ⟨by rw [hconfig], by rw [hconfig]⟩
    | manager => exact ⟨hregistry, hcreated⟩
    | logger l => exact fun _ => hloggers w l hneed
    | appender a => exact fun ha => happenders w a ha hneed
  · obtain ⟨hconfig, hregistry, hcreated⟩ := hkept w
    exact w.grows_of_eq _ hregistry hcreated (by rw [hconfig]) (by rw [hconfig]) (by rw [hconfig])

theorem keeps_config (f : ConfigShared ν κ → ConfigShared ν κ)
    (hkept : ∀ s, (f s).datas = s.datas ∧ (f s).created = s.created ∧ (f s).types = s.types)
    (hvars : ∀ s v, .var v ∉ needs → (f s).vals v = s.vals v ∧ (f s).cbs v = s.cbs v) :
    Keeps needs (modifyConfig f : ConfigProg ε ν κ Unit) := by
  refine Lib.Keeps.act _ _ named_persists (fun held hneeds w _ => ⟨?_, ?_⟩) fun _ => Lib.Keeps.pure ()
  · intro lock hlock
    obtain ⟨hdatas, hcreated, -⟩ := hkept w.config
    have hneed : lock ∉ needs := fun hneed => hlock (hneeds lock hneed)
    cases lock with
    | config => exact ⟨hdatas, hcreated⟩
    | var v => exact fun _ => hvars w.config v hneed
    | manager => exact ⟨rfl, rfl⟩
    | logger l => exact fun _ => rfl
    | appender a => exact fun _ => ⟨rfl, rfl⟩
  · obtain ⟨hdatas, hcreated, htypes⟩ := hkept w.config
    exact w.grows_of_eq _ rfl rfl hdatas hcreated htypes

theorem keeps_guarded (lock : SharedLock) (body : ConfigProg ε ν κ α)
    (hbody : Keeps (lock :: needs) body) : Keeps needs (LogProg.guarded lock body) :=
  Lib.Keeps.locked lock body named_persists hbody

theorem keeps_readLocked (lock : SharedLock) (body : ConfigProg ε ν κ α)
    (hbody : Keeps needs body) : Keeps needs (readLocked lock body) :=
  Lib.Keeps.readLocked lock body named_persists hbody

theorem keeps_free (p : ConfigProg ε ν κ α) (hp : Keeps [] p) : Keeps needs p :=
  Lib.Keeps.mono [] p hp (List.nil_subset needs)

section
variable (a l : Nat)
open LogProg

theorem keeps_appender (f : LogShared ε (ConfigShared ν κ) → LogShared ε (ConfigShared ν κ))
    (hkept : ∀ w, (f w).config = w.config ∧ (f w).loggers = w.loggers ∧ (f w).created = w.created)
    (hloggers : ∀ w, (f w).objects.loggers = w.objects.loggers)
    (happenders : ∀ w other, other ≠ a → (f w).objects.appenders other = w.objects.appenders other ∧
      (f w).streams other = w.streams other) :
    Keeps needs (guarded (.appender a) (Prog.modify f) : ConfigProg ε ν κ Unit) := by
  refine keeps_guarded _ _ (keeps_object f _ hkept (fun w l _ => by rw [hloggers]) ?_ fun _ =>
    Lib.Keeps.pure ())
  intro w other _ hneed
  refine happenders w other ?_
  rintro rfl
  exact hneed List.mem_cons_self

theorem keeps_reopen : Keeps needs (reopen a : ConfigProg ε ν κ Unit) :=
  keeps_appender a _ (fun _ => ⟨rfl, rfl, rfl⟩) (fun _ => rfl) fun _ _ hother =>
    ⟨rfl, Function.update_of_ne hother _ _⟩

theorem keeps_unlocked (f : LogShared ε (ConfigShared ν κ) → LogShared ε (ConfigShared ν κ))
    (hkept : ∀ w, (f w).config = w.config ∧ (f w).loggers = w.loggers ∧ (f w).created = w.created ∧
      (f w).objects = w.objects ∧ (f w).streams = w.streams) :
    Keeps needs (Prog.modify f : ConfigProg ε ν κ Unit) := by
  refine keeps_object f _ (fun w => ?_) (fun w l _ => ?_) (fun w a _ _ => ?_) fun _ =>
    Lib.Keeps.pure ()
  all_goals obtain ⟨hconfig, hloggers, hcreated, hobjects, hstreams⟩ := hkept w
  · exact ⟨hconfig, hloggers, hcreated⟩
  · rw [hobjects]
  · rw [hobjects, hstreams]
    exact ⟨rfl, rfl⟩

theorem keeps_allocate : Keeps needs (allocate : ConfigProg ε ν κ Nat) :=
  keeps_object _ _ (fun _ => ⟨rfl, rfl, rfl⟩) (fun _ _ _ => rfl) (fun _ _ _ _ => ⟨rfl, rfl⟩)
    fun _ => Lib.Keeps.pure _

theorem keeps_newAppender (kind : AppenderKind) :
    Keeps needs (newAppender kind : ConfigProg ε ν κ Nat) := by
  refine keeps_bind _ _ ?_ fun a => ?_
  · refine keeps_object _ _ (fun _ => ⟨rfl, rfl, rfl⟩) (fun _ _ _ => rfl) (fun w a ha _ => ?_)
      fun _ => Lib.Keeps.pure _
    exact ⟨Function.update_of_ne ha.ne _ _, Function.update_of_ne ha.ne _ _⟩
  · dsimp only
    split
    · exact keeps_bind _ _ (keeps_reopen a) fun _ => Lib.Keeps.pure a
    · exact Lib.Keeps.pure a

theorem keeps_appenderLog (level : LogLevel) (event : ε) (now : Nat) :
    Keeps needs (appenderLog a l level event now : ConfigProg ε ν κ Unit) := by
  refine keeps_bind _ _ (keeps_read _) fun least => keeps_when _ _ fun _ => ?_
  refine keeps_bind _ _ (keeps_read _) fun kind => keeps_bind _ _ (keeps_read _) fun last => ?_
  have hwrite : Keeps needs (guarded (.appender a)
      (Prog.modify fun w => w.write a l level event) : ConfigProg ε ν κ Unit) :=
    keeps_appender a _ (fun _ => ⟨rfl, rfl, rfl⟩) (fun _ => rfl) fun _ _ hother =>
      ⟨rfl, Function.update_of_ne hother _ _⟩
  dsimp only
  split
  · refine keeps_bind _ _ (keeps_reopen a) fun _ => keeps_bind _ _ ?_ fun _ => hwrite
    exact keeps_unlocked _ fun _ => ⟨rfl, rfl, rfl, rfl, rfl⟩
  · exact hwrite

theorem keeps_logger (f : LogShared ε (ConfigShared ν κ) → LogShared ε (ConfigShared ν κ))
    (hkept : ∀ w, (f w).config = w.config ∧ (f w).loggers = w.loggers ∧ (f w).created = w.created ∧
      (f w).objects.appenders = w.objects.appenders ∧ (f w).streams = w.streams)
    (hloggers : ∀ w other, other ≠ l → (f w).objects.loggers other = w.objects.loggers other) :
    Keeps (.logger l :: needs) (Prog.modify f : ConfigProg ε ν κ Unit) := by
  refine keeps_object f _ (fun w => ?_) (fun w other hneed => ?_) (fun w a _ _ => ?_) fun _ =>
    Lib.Keeps.pure ()
  all_goals obtain ⟨hconfig, hregistry, hcreated, happenders, hstreams⟩ := hkept w
  · exact ⟨hconfig, hregistry, hcreated⟩
  · refine hloggers w other ?_
    rintro rfl
    exact hneed List.mem_cons_self
  · rw [happenders, hstreams]
    exact ⟨rfl, rfl⟩

theorem keeps_setAppenders (appenders : LogShared ε (ConfigShared ν κ) → List Nat) :
    Keeps (.logger l :: needs) (Prog.modify fun w =>
      { w with
        objects := w.objects.setLogger l
          { w.objects.loggers l with appenders := appenders w } } : ConfigProg ε ν κ Unit) :=
  keeps_logger l _ (fun _ => ⟨rfl, rfl, rfl, rfl, rfl⟩) fun _ _ hother =>
    Function.update_of_ne hother _ _

theorem keeps_logThrough (rootLog : ConfigProg ε ν κ Unit) (level : LogLevel) (event : ε)
    (now : Nat → Nat) (hroot : Keeps [] rootLog) :
    Keeps needs (logThrough rootLog l level event now) := by
  refine keeps_bind _ _ (keeps_read _) fun least => keeps_when _ _ fun _ => ?_
  refine keeps_guarded _ _ (keeps_bind _ _ (keeps_read _) fun w => ?_)
  split
  · exact Lib.Keeps.forEach _ _ fun a _ => keeps_appenderLog a l level event (now a)
  · exact keeps_when _ _ fun _ => keeps_free _ hroot

theorem keeps_log (level : LogLevel) (event : ε) (now : Nat → Nat) :
    Keeps needs (log l level event now : ConfigProg ε ν κ Unit) :=
  keeps_logThrough l _ level event now <|
    keeps_logThrough 0 _ level event now (Lib.Keeps.pure ())

theorem keeps_logLevel (level : LogLevel) (event : ε) (now : Nat → Nat) :
    Keeps needs (logLevel l level event now : ConfigProg ε ν κ Unit) :=
  keeps_bind _ _ (keeps_read _) fun _ => keeps_when _ _ fun _ => keeps_log l level event now

theorem keeps_setFormatter (val : Option FormatterPtr) :
    Keeps needs (setFormatter l val : ConfigProg ε ν κ Unit) := by
  refine keeps_guarded _ _ (keeps_bind _ _ ?_ fun _ => keeps_bind _ _ (keeps_read _) fun _ => ?_)
  · exact keeps_logger l _ (fun _ => ⟨rfl, rfl, rfl, rfl, rfl⟩) fun _ _ hother =>
      Function.update_of_ne hother _ _
  · refine Lib.Keeps.forEach _ _ fun a _ => keeps_appender a _ (fun _ => ⟨rfl, rfl, rfl⟩)
      (fun _ => rfl) fun w other hother => ⟨?_, rfl⟩
    dsimp only [LogObjects.inherit]
    split
    · rfl
    · exact Function.update_of_ne hother _ _

theorem keeps_setFormatterText (val : String) :
    Keeps needs (setFormatterText l val : ConfigProg ε ν κ Unit) :=
  keeps_bind _ _ keeps_allocate fun _ => keeps_when _ _ fun _ => keeps_setFormatter l _

theorem keeps_addAppender : Keeps needs (addAppender l a : ConfigProg ε ν κ Unit) := by
  have hattach : Keeps (.logger l :: needs)
      (Prog.modify fun w => w.attach l a : ConfigProg ε ν κ Unit) :=
    keeps_setAppenders l fun w => (w.objects.loggers l).appenders ++ [a]
  refine keeps_guarded _ _ (keeps_bind _ _ (keeps_guarded _ _ (keeps_read _)) fun found => ?_)
  dsimp only
  split
  · refine keeps_bind _ _ (keeps_appender a _ (fun _ => ⟨rfl, rfl, rfl⟩) (fun _ => rfl) ?_) fun _ =>
      hattach
    exact fun _ _ hother => ⟨Function.update_of_ne hother _ _, rfl⟩
  · exact hattach

theorem keeps_clearAppenders : Keeps needs (clearAppenders l : ConfigProg ε ν κ Unit) :=
  keeps_guarded _ _ (keeps_setAppenders l fun _ => [])

theorem keeps_toYaml : Keeps needs (toYaml l : ConfigProg ε ν κ _) := by
  refine keeps_guarded _ _ (keeps_bind _ _ (keeps_read _) fun w => keeps_bind _ _ ?_ fun _ =>
    Lib.Keeps.pure _)
  exact Lib.Keeps.mapEach _ _ fun a _ => keeps_guarded _ _ (keeps_read _)

theorem keeps_setLevel (level : LogLevel) :
    Keeps needs (Prog.modify fun w => w.setLevel l level : ConfigProg ε ν κ Unit) :=
  keeps_unlocked _ fun _ => ⟨rfl, rfl, rfl, rfl, rfl⟩

theorem keeps_setAppenderLevel (level : LogLevel) :
    Keeps needs (Prog.modify fun w => w.setAppenderLevel a level : ConfigProg ε ν κ Unit) :=
  keeps_unlocked _ fun _ => ⟨rfl, rfl, rfl, rfl, rfl⟩

theorem keeps_appenderSetFormatter (val : Option FormatterPtr) :
    Keeps needs (appenderSetFormatter a val : ConfigProg ε ν κ Unit) :=
  keeps_appender a _ (fun _ => ⟨rfl, rfl, rfl⟩) (fun _ => rfl) fun _ _ hother =>
    ⟨Function.update_of_ne hother _ _, rfl⟩

end

end ConfigProg

def Found.Holds {ε ν κ : Type} (w : LogShared ε (ConfigShared ν κ)) : Found → Prop
  | .logger name l => w.loggers.lookup name = some l
  | .var name type v => w.config.datas.lookup name = some v ∧ v < w.config.created ∧
    w.config.types v = type

namespace ConfigProg
variable {ε ν κ α β : Type} {needs : List SharedLock}

theorem found_persists (f : Found) :
    Lib.Persists Allowed fun w : LogShared ε (ConfigShared ν κ) => f.Holds w := by
  intro held w w' hallowed hf
  obtain ⟨-, hloggers, hvars, hcreated, htypes⟩ := hallowed.always
  cases f with
  | logger name l => exact hloggers name l hf
  | var name type v =>
    obtain ⟨hv, hlt, htype⟩ := hf
    exact ⟨hvars name v hv, Nat.lt_of_lt_of_le hlt hcreated, by rw [htypes v hlt, htype]⟩

theorem allowed_refl (held : List (SharedLock × Mode)) (w : LogShared ε (ConfigShared ν κ)) :
    Allowed held w w :=
  ⟨fun lock _ => same_refl w lock, w.grows_of_eq w rfl rfl rfl rfl rfl⟩

def Finds (p : ConfigProg ε ν κ α) (found : α → List Found) : Prop :=
  ∀ held, Lib.Triple Allowed held LogShared.Named p held fun a w =>
    w.Named ∧ ∀ f ∈ found a, f.Holds w

theorem finds_persists (found : List Found) :
    Lib.Persists Allowed fun w : LogShared ε (ConfigShared ν κ) =>
      w.Named ∧ ∀ f ∈ found, f.Holds w :=
  fun held w w' hallowed hw => ⟨named_persists held w w' hallowed hw.1, fun f hf =>
    found_persists f held w w' hallowed (hw.2 f hf)⟩

theorem finds_of_keeps (p : ConfigProg ε ν κ α) (hp : Keeps [] p) : Finds p fun _ => [] :=
  fun held => (hp held fun _ hlock => absurd hlock List.not_mem_nil).strengthen _ _ _ _ _ _
    fun _ _ hw => ⟨hw, fun _ hf => absurd hf List.not_mem_nil⟩

theorem stable_loggers (held : List (SharedLock × Mode)) (w : LogShared ε (ConfigShared ν κ))
    (hheld : SharedLock.manager ∈ held.map Prod.fst) :
    Lib.Stable Allowed held fun w' : LogShared ε (ConfigShared ν κ) =>
      w'.Named ∧ w'.loggers = w.loggers ∧ w'.created = w.created := by
  refine (named_persists.stable _ _).and _ _ _ (Lib.stable_of_held _ _ _ .manager _ hheld ?_)
  intro w₁ w₂ hsame hp
  exact ⟨hsame.1.trans hp.1, hsame.2.trans hp.2⟩

theorem allowed_createLogger (held : List (SharedLock × Mode))
    (w : LogShared ε (ConfigShared ν κ)) (name : String)
    (hheld : (SharedLock.manager, Mode.exclusive) ∈ held)
    (hnew : w.loggers.lookup name = none) : Allowed held w (w.createLogger name) := by
  refine ⟨?_, w.grows_createLogger name hnew⟩
  intro lock hlock
  cases lock with
  | manager => exact absurd hheld hlock
  | config => exact ⟨rfl, rfl⟩
  | var v => exact fun _ => ⟨rfl, rfl⟩
  | logger l => exact fun hl => Function.update_of_ne (Nat.lt_succ_of_le hl).ne _ _
  | appender a => exact fun _ => ⟨rfl, rfl⟩

theorem finds_getLogger (name : String) :
    Finds (LogProg.getLogger name : ConfigProg ε ν κ Nat) fun l => [.logger name l] := by
  intro held
  refine Lib.Triple.locked _ _ held _ _ _ (named_persists.stable _ _)
    (fun l => (finds_persists _).stable _ _) ?_
  refine Lib.Triple.read _ _ _ _ _ _ fun w hw => ?_
  dsimp only [id]
  cases hfound : w.loggers.lookup name with
  | some l =>
    refine ⟨allowed_refl _ w, _, ?_, (finds_persists [.logger name l]).stable _ _, rfl, fun _ h => h⟩
    exact ⟨hw, fun f hf => by cases List.mem_singleton.mp hf; exact hfound⟩
  | none =>
    refine ⟨allowed_refl _ w, _, ⟨hw, rfl, rfl⟩, stable_loggers _ w List.mem_cons_self, ?_⟩
    rintro w' ⟨hnamed, hloggers, hcreated⟩
    have hallowed : Allowed ((SharedLock.manager, Mode.exclusive) :: held) w' (w'.createLogger name) :=
      allowed_createLogger _ w' name List.mem_cons_self (by rw [hloggers, hfound])
    refine ⟨hallowed, _, ?_, (finds_persists [.logger name (w.created + 1)]).stable _ _, rfl,
      fun _ h => h⟩
    refine ⟨named_persists _ _ _ hallowed hnamed, fun f hf => ?_⟩
    cases List.mem_singleton.mp hf
    rw [Found.Holds, LogShared.lookup_createLogger, if_pos rfl, hcreated]

theorem keeps_getLogger (name : String) :
    Keeps needs (LogProg.getLogger name : ConfigProg ε ν κ Nat) :=
  fun held _ => (finds_getLogger name held).strengthen _ _ _ _ _ _ fun _ _ hw => hw.1

end ConfigProg

namespace LogIniter
variable {ε ν κ : Type} {needs : List SharedLock} (event : String → ε) (now : Nat → Nat)
open ConfigProg

theorem keeps_addDefined (l : Nat) (a : LogAppenderDefine) :
    Keeps needs (addDefined l a : ConfigProg ε ν κ Unit) := by
  unfold addDefined
  split
  · refine keeps_bind _ _ (keeps_newAppender _) fun ap => ?_
    refine keeps_bind _ _ (keeps_setAppenderLevel ap a.level) fun _ => ?_
    have hadd : Keeps needs (LogProg.addAppender l ap : ConfigProg ε ν κ Unit) :=
      keeps_addAppender ap l
    dsimp only
    split
    · refine keeps_bind _ _ keeps_allocate fun address => ?_
      split
      · exact keeps_bind _ _ (keeps_appenderSetFormatter ap _) fun _ => hadd
      · exact hadd
    · exact hadd
  · exact Lib.Keeps.pure ()

theorem keeps_onChangeShared (old new : LogDefineSet) :
    Keeps needs (onChangeShared event now old new : ConfigProg ε ν κ Unit) := by
  refine keeps_bind _ _ (keeps_logLevel 0 _ _ _) fun _ => keeps_bind _ _
    (Lib.Keeps.forEach _ _ fun i _ => ?_) fun _ => Lib.Keeps.forEach _ _ fun i _ => ?_
  · unfold applyShared
    split
    · exact Lib.Keeps.pure ()
    · refine keeps_bind _ _ (keeps_getLogger i.name) fun l => ?_
      refine keeps_bind _ _ (keeps_setLevel l i.level) fun _ => ?_
      have hrest : Keeps needs (LogProg.clearAppenders l >>= fun _ =>
          Prog.forEach i.appenders (addDefined l) : ConfigProg ε ν κ Unit) :=
        keeps_bind _ _ (keeps_clearAppenders l) fun _ =>
          Lib.Keeps.forEach _ _ fun a _ => keeps_addDefined l a
      dsimp only
      split
      · exact keeps_bind _ _ (keeps_setFormatterText l _) fun _ => hrest
      · exact hrest
  · unfold removeShared
    split
    · refine keeps_bind _ _ (keeps_getLogger i.name) fun l => ?_
      exact keeps_bind _ _ (keeps_setLevel l .level100) fun _ => keeps_clearAppenders l
    · exact Lib.Keeps.pure ()

end LogIniter

/-- Listeners and visitors change what belongs to their locks. -/
structure ConfigEnv.Tame {ε ν κ : Type} (env : ConfigEnv ε ν κ) : Prop where
  listener : ∀ cb old new, ConfigProg.Keeps [] (env.listener cb old new)
  visitor : ∀ cb v, ConfigProg.Keeps [] (env.visitor cb v)

namespace ConfigProg
variable {ε ν κ α β : Type} {needs : List SharedLock} (env : ConfigEnv ε ν κ)
open LogProg

theorem keeps_rootLog (level : LogLevel) (text : String) : Keeps needs (rootLog env level text) :=
  keeps_logLevel 0 level _ _

theorem keeps_toString (v : Nat) : Keeps needs (toString env v) := by
  refine keeps_bind _ _ (keeps_readLocked _ _ (keeps_read _)) fun w => ?_
  split
  · exact Lib.Keeps.pure _
  · exact keeps_bind _ _ (keeps_rootLog env _ _) fun _ => Lib.Keeps.pure _

theorem keeps_setValue [DecidableEq ν] (henv : env.Tame) (v : Nat) (val : ν) :
    Keeps needs (setValue env v val) := by
  refine keeps_bind _ _ (keeps_readLocked _ _ (keeps_bind _ _ (keeps_read _) fun w => ?_))
    fun same => keeps_when _ _ fun _ => keeps_guarded _ _ ?_
  · split
    · exact Lib.Keeps.pure true
    · refine keeps_bind _ _ (Lib.Keeps.forEach _ _ fun cb _ => ?_) fun _ => Lib.Keeps.pure false
      exact keeps_bind _ _ (keeps_read _) fun old => keeps_free _ (henv.listener cb.2 old val)
  · refine keeps_config _ (fun _ => ⟨rfl, rfl, rfl⟩) fun s other hneed => ⟨?_, rfl⟩
    refine Function.update_of_ne ?_ _ _
    rintro rfl
    exact hneed List.mem_cons_self

theorem keeps_fromString [DecidableEq ν] (henv : env.Tame) (v : Nat) (text : String) :
    Keeps needs (fromString env v text) := by
  refine keeps_bind _ _ (keeps_read _) fun type => ?_
  dsimp only
  split
  · exact keeps_bind _ _ (keeps_setValue env henv v _) fun _ => Lib.Keeps.pure false
  · exact keeps_bind _ _ (keeps_rootLog env _ _) fun _ => Lib.Keeps.pure false

theorem keeps_setCbs (v : Nat) (cbs : ConfigShared ν κ → List (Nat × κ)) :
    Keeps (.var v :: needs) (modifyConfig fun s => s.setCbs v (cbs s) : ConfigProg ε ν κ Unit) := by
  refine keeps_config _ (fun _ => ⟨rfl, rfl, rfl⟩) fun s other hneed => ⟨rfl, ?_⟩
  refine Function.update_of_ne ?_ _ _
  rintro rfl
  exact hneed List.mem_cons_self

theorem keeps_addListener (v : Nat) (cb : κ) :
    Keeps needs (addListener v cb : ConfigProg ε ν κ Nat) := by
  refine keeps_guarded _ _ (keeps_bind _ _ ?_ fun _ => keeps_bind _ _ (keeps_setCbs v _) fun _ =>
    keeps_read _)
  exact keeps_config _ (fun _ => ⟨rfl, rfl, rfl⟩) fun _ _ _ => ⟨rfl, rfl⟩

theorem keeps_loadFromYaml [DecidableEq ν] (henv : env.Tame) (root : Yaml) :
    Keeps needs (loadFromYaml env root) := by
  refine keeps_bind _ _ (Lib.Keeps.forEach _ _ fun path _ => keeps_rootLog env _ _) fun _ =>
    Lib.Keeps.forEach _ _ fun i _ => ?_
  unfold loadNode
  split
  · exact Lib.Keeps.pure ()
  · refine keeps_bind _ _ (keeps_readLocked _ _ (keeps_read _)) fun found => ?_
    split
    · exact Lib.Keeps.pure ()
    · exact keeps_bind _ _ (keeps_fromString env henv _ _) fun _ => Lib.Keeps.pure ()

theorem keeps_visit (henv : env.Tame) (cb : κ) : Keeps needs (visit env cb) := by
  refine keeps_readLocked _ _ (keeps_bind _ _ (keeps_read _) fun w => ?_)
  exact Lib.Keeps.forEach _ _ fun v _ => keeps_free _ (henv.visitor cb v)

theorem keeps_logCall (call : LoggerCall ε α) : Keeps needs (call.prog : ConfigProg ε ν κ α) := by
  cases call with
  | log l level event now => exact keeps_logLevel l level event now
  | setLevel l level => exact keeps_setLevel l level
  | setFormatter l val => exact keeps_setFormatter l val
  | setFormatterText l val => exact keeps_setFormatterText l val
  | newAppender kind => exact keeps_newAppender kind
  | getFormatter l => exact keeps_guarded _ _ (keeps_read _)
  | addAppender l a => exact keeps_addAppender a l
  | delAppender l a =>
    exact keeps_guarded _ _ (keeps_setAppenders l fun w => (w.objects.loggers l).appenders.erase a)
  | clearAppenders l => exact keeps_clearAppenders l
  | toYamlString l => exact keeps_toYaml l
  | appenderSetLevel a level => exact keeps_setAppenderLevel a level
  | appenderSetFormatter a val => exact keeps_appenderSetFormatter a val
  | appenderGetFormatter a => exact keeps_guarded _ _ (keeps_read _)
  | reopen a => exact keeps_reopen a
  | getLogger name => exact keeps_getLogger name
  | managerToYamlString =>
    refine keeps_guarded _ _ (keeps_bind _ _ (keeps_read _) fun w => ?_)
    exact Lib.Keeps.mapEach _ _ fun l _ => keeps_toYaml l

theorem finds_find (name : String) (type : Nat) :
    Finds (find name type : ConfigProg ε ν κ _) (ConfigCall.found (.find name type : ConfigCall ε ν κ _)) := by
  intro held
  refine Lib.Triple.locked _ _ held _ _ _ (named_persists.stable _ _)
    (fun v => (finds_persists _).stable _ _) ?_
  intro w hw
  refine ⟨allowed_refl _ w, _, ?_, (finds_persists _).stable _ _, rfl, fun _ h => h⟩
  refine ⟨hw, ?_⟩
  dsimp only
  cases hfound : (w.config.datas.lookup name).filter fun v => decide (w.config.types v = type) with
  | none => exact fun f hf => absurd hf List.not_mem_nil
  | some v =>
    obtain ⟨hlookup, htype⟩ := Option.filter_eq_some_iff.mp hfound
    intro f hf
    cases List.mem_singleton.mp hf
    exact ⟨hlookup, hw.vars.bounded name v hlookup, by simpa using htype⟩

theorem finds_then (held : List (SharedLock × Mode)) (p : ConfigProg ε ν κ α) (b : β)
    (found : β → List Found) (hp : Keeps [] p) :
    Lib.Triple Allowed held (fun w => w.Named ∧ ∀ f ∈ found b, f.Holds w)
      (p >>= fun _ => .pure b) held fun b w => w.Named ∧ ∀ f ∈ found b, f.Holds w := by
  have hcall := (hp held fun _ hlock => absurd hlock List.not_mem_nil).frame held held _
    (fun w => w.Named ∧ ∀ f ∈ found b, f.Holds w) p _ (finds_persists _)
  refine Lib.Triple.bind held held held _ p _ _ _ (hcall.weaken _ _ _ _ _ _ ?_) fun _ => ⟨rfl, ?_⟩
  · exact fun w hw => ⟨hw.1, hw⟩
  · exact fun w hw => hw.2

theorem stable_vars (held : List (SharedLock × Mode)) (w : LogShared ε (ConfigShared ν κ))
    (hheld : SharedLock.config ∈ held.map Prod.fst) :
    Lib.Stable Allowed held fun w' : LogShared ε (ConfigShared ν κ) =>
      w'.Named ∧ w'.config.datas = w.config.datas ∧ w'.config.created = w.config.created := by
  refine (named_persists.stable _ _).and _ _ _ (Lib.stable_of_held _ _ _ .config _ hheld ?_)
  intro w₁ w₂ hsame hp
  exact ⟨hsame.1.trans hp.1, hsame.2.trans hp.2⟩

theorem allowed_create (held : List (SharedLock × Mode)) (w : LogShared ε (ConfigShared ν κ))
    (name : String) (type : Nat) (val : ν) (hheld : (SharedLock.config, Mode.exclusive) ∈ held)
    (hnew : w.config.datas.lookup name = none) :
    Allowed held w { w with config := w.config.create name type val } := by
  refine ⟨?_, w.grows_create name type val hnew⟩
  intro lock hlock
  cases lock with
  | config => exact absurd hheld hlock
  | var v => exact fun hv => ⟨Function.update_of_ne hv.ne _ _, Function.update_of_ne hv.ne _ _⟩
  | manager => exact ⟨rfl, rfl⟩
  | logger l => exact fun _ => rfl
  | appender a => exact fun _ => ⟨rfl, rfl⟩

theorem finds_create (held : List (SharedLock × Mode)) (w : LogShared ε (ConfigShared ν κ))
    (name : String) (type : Nat) (val : ν) (hheld : (SharedLock.config, Mode.exclusive) ∈ held)
    (hnew : w.config.datas.lookup name = none) :
    Lib.Triple Allowed held
      (fun w' => w'.Named ∧ w'.config.datas = w.config.datas ∧ w'.config.created = w.config.created)
      (modifyConfig (fun s => s.create name type val) >>= fun _ =>
        .pure (.ok (some w.config.created)) : ConfigProg ε ν κ (Except String (Option Nat)))
      held fun a w' => w'.Named ∧
        ∀ f ∈ ConfigCall.found (.lookup name type val : ConfigCall ε ν κ _) a, f.Holds w' := by
  rintro w' ⟨hnamed, hdatas, hcreated⟩
  have hallowed := allowed_create held w' name type val hheld (by rw [hdatas, hnew])
  refine ⟨hallowed, _, ?_, (finds_persists [.var name type w.config.created]).stable _ _, rfl,
    fun _ h => h⟩
  refine ⟨named_persists _ _ _ hallowed hnamed, fun f hf => ?_⟩
  cases List.mem_singleton.mp hf
  rw [Found.Holds, ← hcreated]
  refine ⟨?_, Nat.lt_succ_self _, Function.update_self _ _ _⟩
  exact (LogShared.lookup_create w'.config name type val name).trans (if_pos rfl)

theorem finds_mismatch (held : List (SharedLock × Mode)) (name : String) (type v : Nat) (val : ν) :
    Lib.Triple Allowed held (fun w => w.Named)
      (do
        let least ← Prog.read fun w => w.levels 0
        if least.value ≤ LogLevel.error.value then do
          let text ← toString env v
          log 0 .error (env.event ("Lookup name=" ++ name ++ " exists but type not " ++ text)) env.now
        .pure (.ok none) : ConfigProg ε ν κ (Except String (Option Nat)))
      held fun a w => w.Named ∧
        ∀ f ∈ ConfigCall.found (.lookup name type val : ConfigCall ε ν κ _) a, f.Holds w := by
  have hnothing (w : LogShared ε (ConfigShared ν κ)) (hw : w.Named) : w.Named ∧
      ∀ f ∈ ConfigCall.found (.lookup name type val : ConfigCall ε ν κ _) (.ok none), f.Holds w :=
    ⟨hw, fun _ hf => absurd hf List.not_mem_nil⟩
  refine Lib.Triple.read _ _ _ _ _ _ fun w hw =>
    ⟨allowed_refl _ w, _, hw, named_persists.stable _ _, ?_⟩
  dsimp only
  split
  · refine Lib.Triple.bind _ _ _ _ _ _ (fun _ => LogShared.Named) _
      (keeps_toString env v _ fun _ hlock => absurd hlock List.not_mem_nil) fun text => ?_
    exact (finds_then _ _ _ _ (keeps_log 0 _ _ _)).weaken _ _ _ _ _ _ hnothing
  · exact ⟨rfl, hnothing⟩

theorem finds_lookup (name : String) (type : Nat) (defaultValue : ν) :
    let request : ConfigCall ε ν κ _ := .lookup name type defaultValue
    Finds (lookup env name type defaultValue) request.found := by
  intro request held
  refine Lib.Triple.locked _ _ held _ _ _ (named_persists.stable _ _)
    (fun v => (finds_persists _).stable _ _) ?_
  refine Lib.Triple.read _ _ _ _ _ _ fun w hw => ?_
  dsimp only [id]
  cases hfound : w.config.datas.lookup name with
  | some v =>
    dsimp only
    by_cases htype : w.config.types v = type
    · rw [if_pos htype]
      refine ⟨allowed_refl _ w, _, ?_, (finds_persists _).stable _ _, finds_then _ _
        (Except.ok (some v)) (ConfigCall.found request) (keeps_rootLog env _ _)⟩
      refine ⟨hw, fun f hf => ?_⟩
      cases List.mem_singleton.mp hf
      exact ⟨hfound, hw.vars.bounded name v hfound, htype⟩
    · rw [if_neg htype]
      exact ⟨allowed_refl _ w, _, hw, named_persists.stable _ _,
        finds_mismatch env _ name type v defaultValue⟩
  | none =>
    dsimp only
    by_cases hvalid : Config.validName name = false
    · rw [if_pos hvalid]
      refine ⟨allowed_refl _ w, _, ?_, (finds_persists _).stable _ _, finds_then _ _
        (Except.error name) (ConfigCall.found request) (keeps_rootLog env _ _)⟩
      exact ⟨hw, fun _ hf => absurd hf List.not_mem_nil⟩
    · rw [if_neg hvalid]
      exact ⟨allowed_refl _ w, _, ⟨hw, rfl, rfl⟩, stable_vars _ w List.mem_cons_self,
        finds_create _ w name type defaultValue List.mem_cons_self hfound⟩

theorem finds_call [DecidableEq ν] (henv : env.Tame) (call : ConfigCall ε ν κ α) :
    Finds (call.prog env) call.found := by
  cases call with
  | lookup name type defaultValue => exact finds_lookup env name type defaultValue
  | find name type => exact finds_find name type
  | lookupBase name => exact finds_of_keeps _ (keeps_readLocked _ _ (keeps_read _))
  | loadFromYaml root => exact finds_of_keeps _ (keeps_loadFromYaml env henv root)
  | visit cb => exact finds_of_keeps _ (keeps_visit env henv cb)
  | toString v => exact finds_of_keeps _ (keeps_toString env v)
  | fromString v text => exact finds_of_keeps _ (keeps_fromString env henv v text)
  | getValue v => exact finds_of_keeps _ (keeps_readLocked _ _ (keeps_read _))
  | setValue v val => exact finds_of_keeps _ (keeps_setValue env henv v val)
  | addListener v cb => exact finds_of_keeps _ (keeps_addListener v cb)
  | delListener v key =>
    exact finds_of_keeps _ (keeps_guarded _ _ (keeps_setCbs v fun s => (s.cbs v).eraseP _))
  | clearListener v => exact finds_of_keeps _ (keeps_guarded _ _ (keeps_setCbs v fun _ => []))
  | getListener v key => exact finds_of_keeps _ (keeps_readLocked _ _ (keeps_read _))
  | log call =>
    have hkeeps : Keeps [] ((ConfigCall.log call).prog env) := keeps_logCall call
    cases call with
    | getLogger name => exact finds_getLogger name
    | _ => exact finds_of_keeps _ hkeeps

theorem finds_caller [DecidableEq ν] (henv : env.Tame) (caller : Caller ε ν κ) :
    Finds (caller.prog env) id := by
  induction caller with
  | done => exact fun held => ⟨rfl, fun w hw => ⟨hw, fun _ hf => absurd hf List.not_mem_nil⟩⟩
  | call request next ih =>
    intro held
    refine Lib.Triple.bind _ _ _ _ _ _ _ _ (finds_call env henv request held) fun a => ?_
    have hnext := (ih a held).frame _ _ _ _ _ _ (finds_persists (request.found a))
    refine Lib.Triple.bind _ _ _ _ _ _ _ _ (hnext.weaken _ _ _ _ _ _ ?_) fun found => ⟨rfl, ?_⟩
    · exact fun w hw => ⟨hw.1, hw⟩
    · rintro w ⟨⟨hnamed, hlater⟩, -, hfirst⟩
      exact ⟨hnamed, fun f hf => (List.mem_append.mp hf).elim (hfirst f) (hlater f)⟩

end ConfigProg

section
variable {ε ν κ : Type} [DecidableEq ν] (env : ConfigEnv ε ν κ)

theorem callers_assured (henv : env.Tame) (world : LogShared ε (ConfigShared ν κ))
    (hworld : world.Named) (callers : List (Caller ε ν κ)) :
    Lib.Assured ConfigProg.Allowed (fun found w => w.Named ∧ ∀ f ∈ found, f.Holds w)
      ⟨world, callers.map fun caller => ⟨[], caller.prog env⟩⟩ := by
  have hstart := Lib.assured_start ConfigProg.Allowed _ LogShared.Named world
    (callers.map (Caller.prog env)) hworld ConfigProg.named_persists (by
      intro p hp
      obtain ⟨caller, -, rfl⟩ := List.mem_map.mp hp
      exact ConfigProg.finds_caller env henv caller [])
  rwa [List.map_map] at hstart

/-- In every run, two threads that ask for the same name get the same logger, or the same variable,
whoever comes first, and for different names they get different ones. -/
theorem names_identify (henv : env.Tame) (world : LogShared ε (ConfigShared ν κ))
    (hworld : world.Named) (callers : List (Caller ε ν κ)) (schedule : List Nat)
    (s : Lib.Pool SharedLock (LogShared ε (ConfigShared ν κ)) (List Found))
    (hrun : Lib.run Lib.Pool.step ⟨world, callers.map fun caller => ⟨[], caller.prog env⟩⟩ schedule =
      some s) (t u : Lib.Thread SharedLock (LogShared ε (ConfigShared ν κ)) (List Found))
    (ht : t ∈ s.threads) (hu : u ∈ s.threads) (found found' : List Found)
    (hdone : t.prog = .pure found) (hdone' : u.prog = .pure found') :
    (∀ name l name' l', .logger name l ∈ found → .logger name' l' ∈ found' →
      (name = name' ↔ l = l')) ∧
    ∀ name type v name' type' v', .var name type v ∈ found → .var name' type' v' ∈ found' →
      (name = name' ↔ v = v') ∧ (name = name' → type = type') := by
  have hs := Lib.run_assured _ _ _ s schedule (callers_assured env henv world hworld callers) hrun
  obtain ⟨hnamed, hfound⟩ := hs.result _ _ _ t found ht hdone
  obtain ⟨-, hfound'⟩ := hs.result _ _ _ u found' hu hdone'
  constructor
  · intro name l name' l' hl hl'
    have hname : s.world.loggers.lookup name = some l := hfound _ hl
    have hname' : s.world.loggers.lookup name' = some l' := hfound' _ hl'
    constructor
    · rintro rfl
      exact Option.some.inj (hname.symm.trans hname')
    · rintro rfl
      exact hnamed.loggers.injective name name' l hname hname'
  · intro name type v name' type' v' hv hv'
    obtain ⟨hname, -, htype⟩ := hfound _ hv
    obtain ⟨hname', -, htype'⟩ := hfound' _ hv'
    have hvars : name = name' → v = v' := by
      rintro rfl
      exact Option.some.inj (hname.symm.trans hname')
    refine ⟨⟨hvars, ?_⟩, ?_⟩
    · rintro rfl
      exact hnamed.vars.injective name name' v hname hname'
    · intro heq
      rw [← htype, ← htype', hvars heq]

end

theorem logsEnv_tame : logsEnv.Tame where
  listener := fun _ _ _ => LogIniter.keeps_onChangeShared _ _ _ _
  visitor := fun _ _ => ConfigProg.keeps_bind _ _
    (ConfigProg.keeps_readLocked _ _ (ConfigProg.keeps_read _)) fun _ => Lib.Keeps.pure ()

theorem initialShared_named : initialShared.Named where
  loggers := Lib.distinct_empty.insert _ _ 0 "root" fun other => Lib.lookup_cons_if _ [] other
  vars := Lib.distinct_empty.insert _ _ 0 "logs" fun other => Lib.lookup_cons_if _ [] other

/-- Two threads ask for a logger, and the second waits until the first has made it. -/
theorem names_identify_system :
    let caller : Caller String LogDefineSet Unit := .call (.log (.getLogger "system")) fun _ => .done
    ∃ s t u, Lib.run Lib.Pool.step
        ⟨initialShared, [caller, caller].map fun caller => ⟨[], caller.prog logsEnv⟩⟩
        [0, 0, 0, 0, 1, 1, 1] = some s ∧
      s.threads = [t, u] ∧ t.prog = .pure [.logger "system" 1] ∧
      u.prog = .pure [.logger "system" 1] ∧
      ((∀ name l name' l', Found.logger name l ∈ [.logger "system" 1] →
        .logger name' l' ∈ [Found.logger "system" 1] → (name = name' ↔ l = l')) ∧
      ∀ name type v name' type' v', Found.var name type v ∈ [.logger "system" 1] →
        .var name' type' v' ∈ [Found.logger "system" 1] →
        (name = name' ↔ v = v') ∧ (name = name' → type = type')) := by
  intro caller
  refine ⟨_, _, _, rfl, rfl, rfl, rfl, ?_⟩
  exact names_identify logsEnv logsEnv_tame initialShared initialShared_named [caller, caller]
    [0, 0, 0, 0, 1, 1, 1] _ rfl _ _ List.mem_cons_self (List.mem_cons_of_mem _ List.mem_cons_self) _ _
    rfl rfl

end Sylar
