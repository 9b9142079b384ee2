import Mathlib.Algebra.Order.Ring.Int
import Mathlib.Tactic.Common

/-! Runs of a partial step function. A label names one atomic step together
with every choice the environment makes in it, so a run is a list of labels and
an interleaving needs no separate notion. -/
namespace Sylar.Lib

variable {σ ℓ : Type*} {step : σ → ℓ → Option σ}

/-- The state a run ends in, or `none` when one of its steps is not enabled. -/
def run (step : σ → ℓ → Option σ) : σ → List ℓ → Option σ
  | s, [] => some s
  | s, label :: labels =>
    match step s label with
    | none => none
    | some s' => run step s' labels

theorem ok_of_toOption {ε α : Type*} (e : Except ε α) (value : α)
    (hsome : e.toOption = some value) : e = .ok value := by
  cases e with
  | error _ => cases hsome
  | ok _ =>
    cases hsome
    rfl

theorem of_bind_ok {ε α β : Type} (e : Except ε α) (f : α → Except ε β) (value : β)
    (hok : (e >>= f) = .ok value) : ∃ found, e = .ok found ∧ f found = .ok value := by
  cases e with
  | error fault => cases hok
  | ok found => exact ⟨found, rfl, hok⟩

/-- Every step of the run meets `cond` in the state it is taken from. -/
def Meets (step : σ → ℓ → Option σ) (cond : σ → ℓ → Prop) : σ → List ℓ → Prop
  | _, [] => True
  | s, label :: labels =>
    cond s label ∧
      match step s label with
      | none => True
      | some s' => Meets step cond s' labels

instance Meets.decidable (cond : σ → ℓ → Prop) [∀ s label, Decidable (cond s label)] :
    ∀ (s : σ) (labels : List ℓ), Decidable (Meets step cond s labels)
  | _, [] => .isTrue trivial
  | s, label :: labels =>
    have : Decidable (match step s label with
        | none => True
        | some s' => Meets step cond s' labels) :=
      match step s label with
      | none => .isTrue trivial
      | some s' => Meets.decidable cond s' labels
    inferInstanceAs (Decidable (_ ∧ _))

/-- A property that every step meeting `cond` preserves holds at the end of
every run all of whose steps meet `cond`. -/
theorem run_invariant_of_meets (cond : σ → ℓ → Prop) (Inv : σ → Prop)
    (preserved : ∀ s label s', Inv s → cond s label → step s label = some s' → Inv s')
    (labels : List ℓ) (s s' : σ) (initial : Inv s) (meets : Meets step cond s labels)
    (hrun : run step s labels = some s') : Inv s' := by
  induction labels generalizing s with
  | nil =>
    cases hrun
    exact initial
  | cons label labels ih =>
    obtain ⟨hcond, hrest⟩ := meets
    cases hstep : step s label with
    | none =>
      simp only [run, hstep] at hrun
      contradiction
    | some next =>
      simp only [run, hstep] at hrun hrest
      exact ih next (preserved s label next initial hcond hstep) hrest hrun

theorem meets_of_forall (cond : σ → ℓ → Prop) (hcond : ∀ s label, cond s label)
    (labels : List ℓ) (s : σ) : Meets step cond s labels := by
  induction labels generalizing s with
  | nil => trivial
  | cons label labels ih =>
    refine ⟨hcond s label, ?_⟩
    cases step s label with
    | none => trivial
    | some next => exact ih next

/-- The unconditional rule: what every step preserves holds along every run. -/
theorem run_invariant (Inv : σ → Prop)
    (preserved : ∀ s label s', Inv s → step s label = some s' → Inv s')
    (labels : List ℓ) (s s' : σ) (initial : Inv s)
    (hrun : run step s labels = some s') : Inv s' :=
  run_invariant_of_meets (fun _ _ => True) Inv
    (fun s label s' hInv _ hstep => preserved s label s' hInv hstep)
    labels s s' initial (meets_of_forall (fun _ _ => True) (fun _ _ => trivial) labels s) hrun

theorem run_append (first second : List ℓ) (s : σ) :
    run step s (first ++ second) = (run step s first).bind fun mid => run step mid second := by
  induction first generalizing s with
  | nil => rfl
  | cons label labels ih =>
    simp only [List.cons_append, run]
    cases step s label with
    | none => rfl
    | some next => exact ih next

theorem Meets.of_append (cond : σ → ℓ → Prop) (first second : List ℓ) (s mid : σ)
    (meets : Meets step cond s (first ++ second)) (hrun : run step s first = some mid) :
    Meets step cond s first ∧ Meets step cond mid second := by
  induction first generalizing s with
  | nil =>
    cases hrun
    exact ⟨trivial, meets⟩
  | cons label labels ih =>
    obtain ⟨hcond, hrest⟩ := meets
    cases hstep : step s label with
    | none =>
      simp only [run, hstep] at hrun
      contradiction
    | some next =>
      simp only [run, hstep] at hrun hrest
      have htail := ih next hrest hrun
      refine ⟨⟨hcond, ?_⟩, htail.2⟩
      rw [hstep]
      exact htail.1

theorem meets_of_split (cond : σ → ℓ → Prop) (labels : List ℓ) (s : σ)
    (hcond : ∀ before label after mid, labels = before ++ label :: after →
      run step s before = some mid → cond mid label) : Meets step cond s labels := by
  induction labels generalizing s with
  | nil => trivial
  | cons label labels ih =>
    refine ⟨hcond [] label labels s rfl rfl, ?_⟩
    cases hstep : step s label with
    | none => trivial
    | some next =>
      apply ih next
      intro before other after mid hsplit hrun
      apply hcond (label :: before) other after mid
      · rw [hsplit]
        rfl
      · simp only [run, hstep]
        exact hrun

/-- Two conditions that mean the same in every state of a run are met together. -/
theorem meets_congr (cond cond' : σ → ℓ → Prop) (Inv : σ → Prop)
    (preserved : ∀ s label s', Inv s → step s label = some s' → Inv s')
    (same : ∀ s label, Inv s → (cond s label ↔ cond' s label))
    (labels : List ℓ) (s : σ) (initial : Inv s) :
    Meets step cond s labels ↔ Meets step cond' s labels := by
  induction labels generalizing s with
  | nil => rfl
  | cons label labels ih =>
    apply and_congr (same s label initial)
    cases hstep : step s label with
    | none => rfl
    | some next => exact ih next (preserved s label next initial hstep)

/-- When a step keeps a property exactly if it meets `cond`, the property holds all along a
run exactly if all steps of the run meet `cond`. -/
theorem invariant_iff_meets (cond : σ → ℓ → Prop) (Inv : σ → Prop)
    (total : ∀ s label, ∃ s', step s label = some s')
    (kept : ∀ s label s', Inv s → step s label = some s' → (Inv s' ↔ cond s label))
    (labels : List ℓ) (s : σ) (initial : Inv s) :
    (∀ before mid, before <+: labels → run step s before = some mid → Inv mid) ↔
      Meets step cond s labels := by
  constructor
  · intro hinv
    apply meets_of_split
    intro before label after mid hsplit hrun
    obtain ⟨next, hstep⟩ := total mid label
    have hmid : Inv mid := hinv before mid ⟨label :: after, hsplit.symm⟩ hrun
    have hnext : Inv next := by
      apply hinv (before ++ [label]) next
      · exact ⟨after, by rw [hsplit, List.append_assoc, List.singleton_append]⟩
      · rw [run_append, hrun]
        simp only [Option.bind_some, run, hstep]
    exact (kept mid label next hmid hstep).mp hnext
  · rintro meets before mid ⟨after, rfl⟩ hrun
    have hbefore := (Meets.of_append cond before after s mid meets hrun).1
    exact run_invariant_of_meets cond Inv
      (fun s label s' hinv hcond hstep => (kept s label s' hinv hstep).mpr hcond)
      before s mid initial hbefore hrun

theorem run_trans (first second : List ℓ) (s mid s' : σ) (hfirst : run step s first = some mid)
    (hsecond : run step mid second = some s') : run step s (first ++ second) = some s' := by
  rw [run_append, hfirst]
  exact hsecond

theorem run_cons (label : ℓ) (labels : List ℓ) (s mid s' : σ) (hstep : step s label = some mid)
    (hrun : run step mid labels = some s') : run step s (label :: labels) = some s' := by
  rw [run, hstep]
  exact hrun

theorem run_single (label : ℓ) (s s' : σ) (hstep : step s label = some s') :
    run step s [label] = some s' :=
  run_cons label [] s s' s' hstep rfl

/-- When every step meeting `cond` is matched by a run of another system, so is every run. -/
theorem run_simulates {σ' ℓ' : Type*} {step' : σ' → ℓ' → Option σ'} (R : σ → σ' → Prop)
    (cond : σ → ℓ → Prop)
    (matched : ∀ s label next s', R s s' → cond s label → step s label = some next →
      ∃ labels next', run step' s' labels = some next' ∧ R next next')
    (labels : List ℓ) (s next : σ) (s' : σ') (related : R s s') (meets : Meets step cond s labels)
    (hrun : run step s labels = some next) :
    ∃ labels' next', run step' s' labels' = some next' ∧ R next next' := by
  induction labels generalizing s s' with
  | nil =>
    cases hrun
    exact ⟨[], s', rfl, related⟩
  | cons label labels ih =>
    obtain ⟨hcond, hrest⟩ := meets
    cases hstep : step s label with
    | none =>
      simp only [run, hstep] at hrun
      contradiction
    | some mid =>
      simp only [run, hstep] at hrun hrest
      obtain ⟨first, mid', hfirst, hmid⟩ := matched s label mid s' related hcond hstep
      obtain ⟨second, next', hsecond, hnext⟩ := ih mid mid' hmid hrest hrun
      exact ⟨first ++ second, next', run_trans first second s' mid' next' hfirst hsecond, hnext⟩

/-- A preorder that every step meeting `cond` goes up in, as long as `Inv`
holds, relates the ends of a run. -/
theorem run_monotone_of_meets (cond : σ → ℓ → Prop) (Inv : σ → Prop) (le : σ → σ → Prop)
    (refl : ∀ s, le s s) (trans : ∀ s₁ s₂ s₃, le s₁ s₂ → le s₂ s₃ → le s₁ s₃)
    (up : ∀ s label s', Inv s → cond s label → step s label = some s' → Inv s' ∧ le s s')
    (labels : List ℓ) (s s' : σ) (initial : Inv s) (meets : Meets step cond s labels)
    (hrun : run step s labels = some s') : le s s' := by
  induction labels generalizing s with
  | nil =>
    cases hrun
    exact refl _
  | cons label labels ih =>
    obtain ⟨hcond, hrest⟩ := meets
    cases hstep : step s label with
    | none =>
      simp only [run, hstep] at hrun
      contradiction
    | some next =>
      simp only [run, hstep] at hrun hrest
      obtain ⟨hnext, hle⟩ := up s label next initial hcond hstep
      exact trans s next s' hle (ih next hnext hrest hrun)

def outputs {ω : Type*} (step : σ → ℓ → Option σ) (emit : σ → ℓ → List ω) : σ → List ℓ → List ω
  | _, [] => []
  | s, label :: labels =>
    emit s label ++
      match step s label with
      | none => []
      | some s' => outputs step emit s' labels

section
variable {ω : Type*} {emit : σ → ℓ → List ω} (p : ω → Bool) (ok : ℓ → Prop) (Spent : σ → Prop)
  (silent : ∀ s label s', Spent s → ok label → step s label = some s' →
    Spent s' ∧ (emit s label).countP p = 0)
include silent

/-- From a state in which nothing of the kind `p` can be given out any more nothing is. -/
theorem countP_outputs_eq_zero (labels : List ℓ) (s s' : σ) (hspent : Spent s)
    (hok : ∀ label ∈ labels, ok label) (hrun : run step s labels = some s') :
    (outputs step emit s labels).countP p = 0 := by
  induction labels generalizing s with
  | nil => rfl
  | cons label labels ih =>
    obtain ⟨hlabel, hlabels⟩ := List.forall_mem_cons.mp hok
    cases hstep : step s label with
    | none =>
      simp only [run, hstep] at hrun
      contradiction
    | some next =>
      simp only [run, outputs, hstep, List.countP_append] at hrun ⊢
      obtain ⟨hnext, hnone⟩ := silent s label next hspent hlabel hstep
      rw [hnone, Nat.zero_add]
      exact ih next hnext hlabels hrun

/-- When a step that gives out something of the kind `p` does so once and for all, a run does so
at most once. -/
theorem countP_outputs_le_one (Armed : σ → Prop)
    (once : ∀ s label s', Armed s → ok label → step s label = some s' →
      Armed s' ∧ ((emit s label).countP p = 0 ∨ (emit s label).countP p ≤ 1 ∧ Spent s'))
    (labels : List ℓ) (s s' : σ) (harmed : Armed s) (hok : ∀ label ∈ labels, ok label)
    (hrun : run step s labels = some s') : (outputs step emit s labels).countP p ≤ 1 := by
  induction labels generalizing s with
  | nil => exact Nat.zero_le 1
  | cons label labels ih =>
    obtain ⟨hlabel, hlabels⟩ := List.forall_mem_cons.mp hok
    cases hstep : step s label with
    | none =>
      simp only [run, hstep] at hrun
      contradiction
    | some next =>
      simp only [run, outputs, hstep, List.countP_append] at hrun ⊢
      obtain ⟨hnext, hnone | ⟨hcount, hspent⟩⟩ := once s label next harmed hlabel hstep
      · rw [hnone, Nat.zero_add]
        exact ih next hnext hlabels hrun
      · rw [countP_outputs_eq_zero p ok Spent silent labels next s' hspent hlabels hrun]
        exact hcount

end

end Sylar.Lib
