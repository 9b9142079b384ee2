import Sylar.Http.Accessors
import Sylar.Http.Server
import Sylar.Lib.KeyedMap

/-! The maps of `HttpRequest` and `HttpResponse` as partial functions from keys without case.

`CaseInsensitiveLess` compares C strings in lower case, so two keys are one key when they have
the same lower case up to the first terminator. -/
namespace Sylar

/-- What `strcasecmp` sees of a key. -/
def foldKey (key : List UInt8) : List Nat :=
  (cStr key).map fun c => (toLower c).toNat

theorem strcasecmpLt_iff (lhs rhs : List UInt8) :
    strcasecmpLt lhs rhs = true ↔
      (lhs.map fun c => (toLower c).toNat) < rhs.map fun c => (toLower c).toNat := by
  induction lhs generalizing rhs with
  | nil =>
    cases rhs with
    | nil => simp [strcasecmpLt]
    | cons r rhs => simp [strcasecmpLt]
  | cons l lhs ih =>
    cases rhs with
    | nil => simp [strcasecmpLt]
    | cons r rhs =>
      rw [strcasecmpLt, List.map_cons, List.map_cons, List.cons_lt_cons_iff]
      simp only [UInt8.lt_iff_toNat_lt]
      rcases Nat.lt_trichotomy (toLower l).toNat (toLower r).toNat with hlt | heq | hgt
      · simp [hlt]
      · simp [heq, ih]
      · simp [hgt, Nat.lt_asymm hgt, hgt.ne']

theorem caseInsensitiveLess_folds : Lib.Folds caseInsensitiveLess foldKey := by
  intro lhs rhs
  rw [caseInsensitiveLess, strcasecmpLt_iff]
  rfl

namespace HttpMap

theorem find_eq (m : HttpMap) (key : List UInt8) :
    m.find key = Lib.contents foldKey m (foldKey key) :=
  caseInsensitiveLess_folds.mapFind_eq m key

structure Serves {ο : Type} (m : HttpMap) (write : ο → Option (List UInt8 × Option (List UInt8)))
    (history : List ο) : Prop where
  ordered : Lib.Ordered foldKey m
  reflects : Lib.Reflects (fun op => (write op).map (Prod.map foldKey id)) history
    (Lib.contents foldKey m)

section
variable {ο : Type} {m : HttpMap} {write : ο → Option (List UInt8 × Option (List UInt8))}
  {history : List ο} (hserves : m.Serves write history)
include hserves

theorem Serves.nodup : (m.map fun entry => foldKey entry.1).Nodup := by
  rw [List.Nodup, List.pairwise_map]
  exact hserves.ordered.imp fun hlt => hlt.ne

theorem Serves.has_iff (key val value : List UInt8) :
    m.has key val = (true, value) ↔
      ∃ time, Lib.LastWrite (fun op => (write op).map (Prod.map foldKey id)) history (foldKey key)
        value time := by
  rw [← hserves.reflects, ← find_eq, has]
  cases m.find key with
  | none => simp
  | some found => simp

theorem Serves.get_of_write (key default value : List UInt8) (time : Nat)
    (hlast : Lib.LastWrite (fun op => (write op).map (Prod.map foldKey id)) history (foldKey key)
      value time) : m.get key default = value := by
  have hfound := (hserves.reflects (foldKey key) value).mpr ⟨time, hlast⟩
  rw [get, find_eq, hfound]

theorem Serves.get_default (key default : List UInt8)
    (hnone : ∀ value time, ¬ Lib.LastWrite (fun op => (write op).map (Prod.map foldKey id)) history
      (foldKey key) value time) : m.get key default = default := by
  have hmissing : Lib.contents foldKey m (foldKey key) = none := by
    cases hfound : Lib.contents foldKey m (foldKey key) with
    | none => rfl
    | some value =>
      obtain ⟨time, hlast⟩ := (hserves.reflects (foldKey key) value).mp hfound
      exact absurd hlast (hnone value time)
  rw [get, find_eq, hmissing]

end

end HttpMap

inductive MapFamily where
  | header
  | param
  | cookie
deriving DecidableEq

namespace MapFamily

def map (r : MappedRequest) : MapFamily → HttpMap
  | .header => r.headers
  | .param => r.params
  | .cookie => r.cookies

def write : MapFamily → MapCall → Option (List UInt8 × Option (List UInt8))
  | .header, .setHeader key val => some (key, some val)
  | .header, .delHeader key => some (key, none)
  | .param, .setParam key val => some (key, some val)
  | .param, .delParam key => some (key, none)
  | .cookie, .setCookie key val => some (key, some val)
  | .cookie, .delCookie key => some (key, none)
  | _, _ => none

def get (r : MappedRequest) : MapFamily → List UInt8 → List UInt8 → List UInt8
  | .header => r.getHeader
  | .param => r.getParam
  | .cookie => r.getCookie

def has (r : MappedRequest) : MapFamily → List UInt8 → List UInt8 → Bool × List UInt8
  | .header => r.hasHeader
  | .param => r.hasParam
  | .cookie => r.hasCookie

theorem map_call (family : MapFamily) (r : MappedRequest) (op : MapCall) :
    family.map (r.call op) = Lib.mapWrite caseInsensitiveLess (family.write op) (family.map r) := by
  cases family <;> cases op <;> rfl

theorem serves (family : MapFamily) (history : List MapCall) :
    (family.map (MappedRequest.after history)).Serves family.write history := by
  have hempty : family.map MappedRequest.new = [] := by cases family <;> rfl
  obtain ⟨hordered, hreflects⟩ := caseInsensitiveLess_folds.reflects_foldl MappedRequest.call
    family.map family.write (family.map_call) MappedRequest.new hempty history
  exact ⟨hordered, hreflects⟩

theorem get_eq (family : MapFamily) (r : MappedRequest) (key default : List UInt8) :
    family.get r key default = (family.map r).get key default := by
  cases family <;> rfl

theorem has_eq (family : MapFamily) (r : MappedRequest) (key val : List UInt8) :
    family.has r key val = (family.map r).has key val := by
  cases family <;> rfl

end MapFamily

/-- The write of `value` under a key that is `key` up to case, at `time`, is the last one of the
family, and has not been taken back. -/
def LiveWrite (family : MapFamily) (history : List MapCall) (key value : List UInt8) (time : Nat) :
    Prop :=
  Lib.LastWrite (fun op => (family.write op).map (Prod.map foldKey id)) history (foldKey key) value
    time

/-- After any history of calls, each of the three families of accessors answers with the last live
write of the family under the key up to case, and no map has two keys that are equal up to case. -/
theorem accessors_serve_history (history : List MapCall) (family : MapFamily) :
    ((family.map (MappedRequest.after history)).map fun entry => foldKey entry.1).Nodup ∧
    (∀ key val value, family.has (.after history) key val = (true, value) ↔
      ∃ time, LiveWrite family history key value time) ∧
    (∀ key default value time, LiveWrite family history key value time →
      family.get (.after history) key default = value) ∧
    ∀ key default, (∀ value time, ¬ LiveWrite family history key value time) →
      family.get (.after history) key default = default := by
  have hserves := family.serves history
  refine ⟨hserves.nodup, ?_, ?_, ?_⟩
  · intro key val value
    rw [family.has_eq]
    exact hserves.has_iff key val value
  · intro key default value time hlast
    rw [family.get_eq]
    exact hserves.get_of_write key default value time hlast
  · intro key default hnone
    rw [family.get_eq]
    exact hserves.get_default key default hnone

end Sylar
