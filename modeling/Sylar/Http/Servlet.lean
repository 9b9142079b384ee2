import Mathlib.Data.List.Induction
import Mathlib.Logic.Function.Basic
import Sylar.Lib.History

/-! `ServletDispatch` of `servlet.h` and `servlet.cc`.

`m_datas` is a partial function, a `Servlet::ptr` may be null, and `fnmatch` is any test of
a pattern against a uri. -/
namespace Sylar

/-- A servlet of the user, a `FunctionServlet` around a callback, or the servlet that a new
dispatcher falls back to. -/
inductive Servlet (σ κ : Type) where
  | user (servlet : σ)
  | function (cb : κ)
  | notFound
deriving DecidableEq

structure ServletDispatch (σ κ : Type) where
  datas : String → Option (Option (Servlet σ κ))
  globs : List (String × Option (Servlet σ κ))
  default : Option (Servlet σ κ)

namespace ServletDispatch
variable {σ κ : Type}

def new : ServletDispatch σ κ where
  datas := fun _ => none
  globs := []
  default := some .notFound

def addServlet (d : ServletDispatch σ κ) (uri : String) (slt : Option (Servlet σ κ)) :
    ServletDispatch σ κ :=
  { d with datas := Function.update d.datas uri (some slt) }

def addServletCb (d : ServletDispatch σ κ) (uri : String) (cb : κ) : ServletDispatch σ κ :=
  { d with datas := Function.update d.datas uri (some (some (.function cb))) }

/-- The loop that erases the first entry of the pattern and breaks. -/
def eraseGlob (globs : List (String × Option (Servlet σ κ))) (uri : String) :
    List (String × Option (Servlet σ κ)) :=
  globs.eraseP fun entry => entry.1 = uri

def addGlobServlet (d : ServletDispatch σ κ) (uri : String) (slt : Option (Servlet σ κ)) :
    ServletDispatch σ κ :=
  { d with globs := eraseGlob d.globs uri ++ [(uri, slt)] }

def addGlobServletCb (d : ServletDispatch σ κ) (uri : String) (cb : κ) : ServletDispatch σ κ :=
  d.addGlobServlet uri (some (.function cb))

def delServlet (d : ServletDispatch σ κ) (uri : String) : ServletDispatch σ κ :=
  { d with datas := Function.update d.datas uri none }

def delGlobServlet (d : ServletDispatch σ κ) (uri : String) : ServletDispatch σ κ :=
  { d with globs := eraseGlob d.globs uri }

def setDefault (d : ServletDispatch σ κ) (v : Option (Servlet σ κ)) : ServletDispatch σ κ :=
  { d with default := v }

def getServlet (d : ServletDispatch σ κ) (uri : String) : Option (Servlet σ κ) :=
  match d.datas uri with
  | none => none
  | some slt => slt

def getGlobServlet (d : ServletDispatch σ κ) (uri : String) : Option (Servlet σ κ) :=
  match d.globs.find? fun entry => entry.1 = uri with
  | none => none
  | some entry => entry.2

def getMatchedServlet (fnmatch : String → String → Bool) (d : ServletDispatch σ κ)
    (uri : String) : Option (Servlet σ κ) :=
  match d.datas uri with
  | some slt => slt
  | none =>
    match d.globs.find? fun entry => fnmatch entry.1 uri with
    | some entry => entry.2
    | none => d.default

inductive Op (σ κ : Type) where
  | addServlet (uri : String) (slt : Option (Servlet σ κ))
  | addServletCb (uri : String) (cb : κ)
  | addGlobServlet (uri : String) (slt : Option (Servlet σ κ))
  | addGlobServletCb (uri : String) (cb : κ)
  | delServlet (uri : String)
  | delGlobServlet (uri : String)
  | setDefault (v : Option (Servlet σ κ))

def apply (d : ServletDispatch σ κ) : Op σ κ → ServletDispatch σ κ
  | .addServlet uri slt => d.addServlet uri slt
  | .addServletCb uri cb => d.addServletCb uri cb
  | .addGlobServlet uri slt => d.addGlobServlet uri slt
  | .addGlobServletCb uri cb => d.addGlobServletCb uri cb
  | .delServlet uri => d.delServlet uri
  | .delGlobServlet uri => d.delGlobServlet uri
  | .setDefault v => d.setDefault v

def after (history : List (Op σ κ)) : ServletDispatch σ κ :=
  history.foldl apply new

def exactEffect : Op σ κ → Option (String × Option (Option (Servlet σ κ)))
  | .addServlet uri slt => some (uri, some slt)
  | .addServletCb uri cb => some (uri, some (some (.function cb)))
  | .delServlet uri => some (uri, none)
  | _ => none

def globEffect : Op σ κ → Option (String × Option (Option (Servlet σ κ)))
  | .addGlobServlet uri slt => some (uri, some slt)
  | .addGlobServletCb uri cb => some (uri, some (some (.function cb)))
  | .delGlobServlet uri => some (uri, none)
  | _ => none

/-- What the lookups answer after a history: `Lib.LastWrite` says which servlet was added
last under a key and not deleted since, and when. -/
structure FollowsHistory (fnmatch : String → String → Bool) (history : List (Op σ κ)) : Prop where
  distinct : ((after history).globs.map Prod.fst).Nodup
  exact : ∀ uri slt time, Lib.LastWrite exactEffect history uri slt time →
    (after history).getServlet uri = slt
  exactNull : ∀ uri, (∀ slt time, ¬ Lib.LastWrite exactEffect history uri slt time) →
    (after history).getServlet uri = none
  glob : ∀ uri slt time, Lib.LastWrite globEffect history uri slt time →
    (after history).getGlobServlet uri = slt
  globNull : ∀ uri, (∀ slt time, ¬ Lib.LastWrite globEffect history uri slt time) →
    (after history).getGlobServlet uri = none
  matchedExact : ∀ uri slt time, Lib.LastWrite exactEffect history uri slt time →
    (after history).getMatchedServlet fnmatch uri = slt
  matchedGlob : ∀ uri pattern slt time,
    (∀ slt time, ¬ Lib.LastWrite exactEffect history uri slt time) →
    Lib.LastWrite globEffect history pattern slt time → fnmatch pattern uri = true →
    (∀ pattern' slt' time', Lib.LastWrite globEffect history pattern' slt' time' →
      fnmatch pattern' uri = true → time ≤ time') →
    (after history).getMatchedServlet fnmatch uri = slt
  matchedDefault : ∀ uri, (∀ slt time, ¬ Lib.LastWrite exactEffect history uri slt time) →
    (∀ pattern slt time, Lib.LastWrite globEffect history pattern slt time →
      fnmatch pattern uri = false) →
    (after history).getMatchedServlet fnmatch uri = (after history).default
  exactOthers : ∀ op uri, (∀ left, exactEffect op ≠ some (uri, left)) →
    (after (history ++ [op])).getServlet uri = (after history).getServlet uri
  globOthers : ∀ op uri, (∀ left, globEffect op ≠ some (uri, left)) →
    (after (history ++ [op])).getGlobServlet uri = (after history).getGlobServlet uri
  matchedOthers : ∀ op uri, (∀ left, exactEffect op ≠ some (uri, left)) →
    (∀ pattern left, globEffect op = some (pattern, left) → fnmatch pattern uri = false) →
    (∀ v, op ≠ .setDefault v) →
    (after (history ++ [op])).getMatchedServlet fnmatch uri =
      (after history).getMatchedServlet fnmatch uri

theorem after_append (history : List (Op σ κ)) (op : Op σ κ) :
    after (history ++ [op]) = (after history).apply op := by
  rw [after, List.foldl_append]
  rfl

theorem datas_apply (d : ServletDispatch σ κ) (op : Op σ κ) :
    (d.apply op).datas =
      match exactEffect op with
      | none => d.datas
      | some (uri, left) => Function.update d.datas uri left := by
  cases op <;> rfl

theorem globs_apply (d : ServletDispatch σ κ) (op : Op σ κ) :
    (d.apply op).globs =
      match globEffect op with
      | none => d.globs
      | some (uri, none) => eraseGlob d.globs uri
      | some (uri, some slt) => eraseGlob d.globs uri ++ [(uri, slt)] := by
  cases op <;> rfl

theorem datas_eq_some_iff (history : List (Op σ κ)) (uri : String) (slt : Option (Servlet σ κ)) :
    (after history).datas uri = some slt ↔
      ∃ time, Lib.LastWrite exactEffect history uri slt time := by
  induction history using List.reverseRecOn with
  | nil =>
    simp [after, new, Lib.lastWrite_nil]
  | append_singleton history op ih =>
    simp only [Lib.lastWrite_append]
    rw [after_append, datas_apply]
    cases heffect : exactEffect op with
    | none => simp [ih]
    | some effect =>
      obtain ⟨key, left⟩ := effect
      by_cases hkey : uri = key
      · subst hkey
        simp
      · dsimp only
        rw [Function.update_of_ne hkey, ih]
        simp [Ne.symm hkey]

theorem globs_chronological (history : List (Op σ κ)) :
    Lib.Chronological globEffect history (after history).globs := by
  induction history using List.reverseRecOn with
  | nil => exact Lib.chronological_nil
  | append_singleton history op ih =>
    rw [after_append, globs_apply]
    have hnodup := ih.nodup
    cases heffect : globEffect op with
    | none => exact ih.skip op heffect
    | some effect =>
      obtain ⟨key, left⟩ := effect
      cases left with
      | none =>
        have herase := ih.erase op key heffect
        rw [← Lib.eraseP_key key _ hnodup] at herase
        exact herase
      | some slt =>
        have hwrite := ih.write op key slt heffect
        rw [← Lib.eraseP_key key _ hnodup] at hwrite
        exact hwrite

theorem datas_eq_none (history : List (Op σ κ)) (uri : String)
    (habsent : ∀ slt time, ¬ Lib.LastWrite exactEffect history uri slt time) :
    (after history).datas uri = none := by
  apply Option.eq_none_iff_forall_ne_some.mpr
  intro slt hsome
  obtain ⟨time, hlast⟩ := (datas_eq_some_iff history uri slt).mp hsome
  exact habsent slt time hlast

theorem find?_apply (history : List (Op σ κ)) (op : Op σ κ) (test : String → Bool)
    (htest : ∀ pattern left, globEffect op = some (pattern, left) → test pattern = false) :
    ((after history).apply op).globs.find? (fun entry => test entry.1) =
      (after history).globs.find? fun entry => test entry.1 := by
  have hnodup := (globs_chronological history).nodup
  have hskip (pattern : String) (hpattern : test pattern = false) :
      (eraseGlob (after history).globs pattern).find? (fun entry => test entry.1) =
        (after history).globs.find? fun entry => test entry.1 := by
    rw [eraseGlob, Lib.eraseP_key pattern _ hnodup, List.find?_filter]
    congr 1
    funext entry
    by_cases heq : entry.1 = pattern
    · simp [heq, hpattern]
    · simp [heq]
  rw [globs_apply]
  cases heffect : globEffect op with
  | none => rfl
  | some effect =>
    obtain ⟨pattern, left⟩ := effect
    have hpattern := htest pattern left heffect
    cases left with
    | none => exact hskip pattern hpattern
    | some slt =>
      dsimp only
      rw [List.find?_append, hskip pattern hpattern]
      simp [hpattern]

theorem datas_apply_other (d : ServletDispatch σ κ) (op : Op σ κ) (uri : String)
    (huri : ∀ left, exactEffect op ≠ some (uri, left)) : (d.apply op).datas uri = d.datas uri := by
  rw [datas_apply]
  cases heffect : exactEffect op with
  | none => rfl
  | some effect =>
    apply Function.update_of_ne
    intro heq
    apply huri effect.2
    rw [heffect, heq]

theorem lookups_follow_history (fnmatch : String → String → Bool) (history : List (Op σ κ)) :
    FollowsHistory fnmatch history where
  distinct := (globs_chronological history).nodup
  exact := by
    intro uri slt time hlast
    have hdatas := (datas_eq_some_iff history uri slt).mpr ⟨time, hlast⟩
    simp only [getServlet, hdatas]
  exactNull := by
    intro uri habsent
    simp only [getServlet, datas_eq_none history uri habsent]
  glob := by
    intro uri slt time hlast
    have hfind := (globs_chronological history).find?_eq (fun key => key = uri) uri slt time hlast
      (by simp) fun other slt' time' hother heq => by
        rw [of_decide_eq_true heq] at hother
        exact Nat.le_of_eq (hlast.unique uri slt slt' time time' hother).1
    simp only [getGlobServlet, hfind]
  globNull := by
    intro uri habsent
    have hfind := (globs_chronological history).find?_none (fun key => key = uri)
      fun other slt time hother => by
        apply decide_eq_false
        intro heq
        rw [heq] at hother
        exact habsent slt time hother
    simp only [getGlobServlet, hfind]
  matchedExact := by
    intro uri slt time hlast
    have hdatas := (datas_eq_some_iff history uri slt).mpr ⟨time, hlast⟩
    simp only [getMatchedServlet, hdatas]
  matchedGlob := by
    intro uri pattern slt time habsent hlast hmatch hfirst
    have hfind := (globs_chronological history).find?_eq (fun key => fnmatch key uri) pattern slt
      time hlast hmatch hfirst
    simp only [getMatchedServlet, datas_eq_none history uri habsent, hfind]
  matchedDefault := by
    intro uri habsent hnone
    have hfind := (globs_chronological history).find?_none (fun key => fnmatch key uri) hnone
    simp only [getMatchedServlet, datas_eq_none history uri habsent, hfind]
  exactOthers := by
    intro op uri huri
    rw [after_append]
    simp only [getServlet, datas_apply_other _ op uri huri]
  globOthers := by
    intro op uri huri
    have hfind := find?_apply history op (fun key => key = uri) fun pattern left heffect => by
      apply decide_eq_false
      intro heq
      exact huri left (by rw [heffect, heq])
    rw [after_append]
    simp only [getGlobServlet, hfind]
  matchedOthers := by
    intro op uri huri hpattern hdefault
    have hfind := find?_apply history op (fun key => fnmatch key uri) hpattern
    have hsame : ((after history).apply op).default = (after history).default := by
      cases op with
      | setDefault v => exact absurd rfl (hdefault v)
      | _ => rfl
    rw [after_append]
    simp only [getMatchedServlet, datas_apply_other _ op uri huri, hfind, hsame]

end ServletDispatch
end Sylar
