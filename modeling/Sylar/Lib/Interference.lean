import Sylar.Lib.Locks

/-! Assertions of threads that take locks.

A relation says which changes a thread may make with the locks that it holds. What the other
threads may do is the same relation, with locks that go together with the own ones. -/
namespace Sylar.Lib

section
variable {L W α β ρ : Type}

def Compatible (held other : List (L × Mode)) : Prop :=
  ∀ lock mode mode', (lock, mode) ∈ held → (lock, mode') ∈ other → mode = .shared ∧ mode' = .shared

theorem Compatible.symm (held other : List (L × Mode)) (hboth : Compatible held other) :
    Compatible other held := fun lock mode mode' hmode hmode' =>
  (hboth lock mode' mode hmode' hmode).symm

theorem Compatible.mono (held fewer other : List (L × Mode)) (hboth : Compatible held other)
    (hsub : fewer ⊆ held) : Compatible fewer other := fun lock mode mode' hmode =>
  hboth lock mode mode' (hsub hmode)

theorem Compatible.not_exclusive (held other : List (L × Mode)) (lock : L)
    (hboth : Compatible held other) (hheld : lock ∈ held.map Prod.fst) :
    (lock, Mode.exclusive) ∉ other := by
  intro hexclusive
  obtain ⟨⟨lock', mode⟩, hmem, rfl⟩ := List.mem_map.mp hheld
  cases (hboth _ _ _ hmem hexclusive).2

/-- Every lock protects a part of the state, which changes only in threads that hold the lock alone;
`always` holds of all changes. -/
structure Respects (same : L → W → W → Prop) (always : W → W → Prop) (held : List (L × Mode))
    (w w' : W) : Prop where
  same : ∀ lock, (lock, .exclusive) ∉ held → same lock w w'
  always : always w w'

variable (guar : List (L × Mode) → W → W → Prop)

/-- The other threads keep the assertion while this one holds its locks. -/
def Stable (held : List (L × Mode)) (p : W → Prop) : Prop :=
  ∀ other w w', Compatible held other → guar other w w' → p w → p w'

def Persists (p : W → Prop) : Prop :=
  ∀ held w w', guar held w w' → p w → p w'

/-- From the assertion `pre`, with the locks `start`, the program makes allowed changes only and ends
with the locks `finish` and a result with `post`, whatever the other threads do meanwhile. -/
def Triple (start : List (L × Mode)) (pre : W → Prop) :
    Prog L W α → List (L × Mode) → (α → W → Prop) → Prop
  | .pure a, finish, post => start = finish ∧ ∀ w, pre w → post a w
  | .acquire lock mode rest, finish, post => ∃ mid : W → Prop, (∀ w, pre w → mid w) ∧
      Stable guar ((lock, mode) :: start) mid ∧ Triple ((lock, mode) :: start) mid rest finish post
  | .release lock rest, finish, post => ∃ mode others, ∃ mid : W → Prop,
      start = (lock, mode) :: others ∧ (∀ w, pre w → mid w) ∧ Stable guar others mid ∧
      Triple others mid rest finish post
  | .act effect rest, finish, post => ∀ w, pre w → guar start w (effect w) ∧ ∃ mid : W → Prop,
      mid (effect w) ∧ Stable guar start mid ∧ Triple start mid (rest w) finish post

variable {guar}

theorem Persists.stable (held : List (L × Mode)) (p : W → Prop) (hp : Persists guar p) :
    Stable guar held p := fun other w w' _ hguar => hp other w w' hguar

theorem Stable.and (held : List (L × Mode)) (p q : W → Prop) (hp : Stable guar held p)
    (hq : Stable guar held q) : Stable guar held fun w => p w ∧ q w :=
  fun other w w' hboth hguar hpq =>
    ⟨hp other w w' hboth hguar hpq.1, hq other w w' hboth hguar hpq.2⟩

theorem stable_of_held (same : L → W → W → Prop) (always : W → W → Prop) (held : List (L × Mode))
    (lock : L) (p : W → Prop) (hheld : lock ∈ held.map Prod.fst)
    (hp : ∀ w w', same lock w w' → p w → p w') : Stable (Respects same always) held p := by
  intro other w w' hboth hguar hpw
  exact hp w w' (hguar.same lock (hboth.not_exclusive _ _ lock hheld)) hpw

namespace Triple

theorem weaken (start finish : List (L × Mode)) (pre pre' : W → Prop) (p : Prog L W α)
    (post : α → W → Prop) (hp : Triple guar start pre p finish post)
    (hpre : ∀ w, pre' w → pre w) : Triple guar start pre' p finish post := by
  cases p with
  | pure a => exact ⟨hp.1, fun w hw => hp.2 w (hpre w hw)⟩
  | acquire lock mode rest =>
    obtain ⟨mid, hmid, hrest⟩ := hp
    exact ⟨mid, fun w hw => hmid w (hpre w hw), hrest⟩
  | release lock rest =>
    obtain ⟨mode, others, mid, hstart, hmid, hrest⟩ := hp
    exact ⟨mode, others, mid, hstart, fun w hw => hmid w (hpre w hw), hrest⟩
  | act effect rest => exact fun w hw => hp w (hpre w hw)

theorem bind (start mid finish : List (L × Mode)) (pre : W → Prop) (p : Prog L W α)
    (f : α → Prog L W β) (q : α → W → Prop) (post : β → W → Prop)
    (hp : Triple guar start pre p mid q) (hf : ∀ a, Triple guar mid (q a) (f a) finish post) :
    Triple guar start pre (p.bind f) finish post := by
  induction p generalizing start pre with
  | pure a =>
    obtain ⟨rfl, hpre⟩ := hp
    exact weaken _ _ _ _ _ _ (hf a) hpre
  | acquire lock mode rest ih =>
    obtain ⟨middle, hmiddle, hstable, hrest⟩ := hp
    exact ⟨middle, hmiddle, hstable, ih _ _ hrest⟩
  | release lock rest ih =>
    obtain ⟨mode, others, middle, hstart, hmiddle, hstable, hrest⟩ := hp
    exact ⟨mode, others, middle, hstart, hmiddle, hstable, ih _ _ hrest⟩
  | act effect rest ih =>
    intro w hw
    obtain ⟨hguar, middle, hmiddle, hstable, hrest⟩ := hp w hw
    exact ⟨hguar, middle, hmiddle, hstable, ih w _ _ hrest⟩

theorem strengthen (start finish : List (L × Mode)) (pre : W → Prop) (p : Prog L W α)
    (q post : α → W → Prop) (hp : Triple guar start pre p finish q)
    (hpost : ∀ a w, q a w → post a w) : Triple guar start pre p finish post := by
  induction p generalizing start pre with
  | pure a => exact ⟨hp.1, fun w hw => hpost a w (hp.2 w hw)⟩
  | acquire lock mode rest ih =>
    obtain ⟨mid, hmid, hstable, hrest⟩ := hp
    exact ⟨mid, hmid, hstable, ih _ _ hrest⟩
  | release lock rest ih =>
    obtain ⟨mode, others, mid, hstart, hmid, hstable, hrest⟩ := hp
    exact ⟨mode, others, mid, hstart, hmid, hstable, ih _ _ hrest⟩
  | act effect rest ih =>
    intro w hw
    obtain ⟨hguar, mid, hmid, hstable, hrest⟩ := hp w hw
    exact ⟨hguar, mid, hmid, hstable, ih w _ _ hrest⟩

theorem frame (start finish : List (L × Mode)) (pre fact : W → Prop) (p : Prog L W α)
    (post : α → W → Prop) (hp : Triple guar start pre p finish post)
    (hfact : Persists guar fact) :
    Triple guar start (fun w => pre w ∧ fact w) p finish fun a w => post a w ∧ fact w := by
  induction p generalizing start pre with
  | pure a => exact ⟨hp.1, fun w hw => ⟨hp.2 w hw.1, hw.2⟩⟩
  | acquire lock mode rest ih =>
    obtain ⟨mid, hmid, hstable, hrest⟩ := hp
    exact ⟨_, fun w hw => ⟨hmid w hw.1, hw.2⟩, hstable.and _ _ _ (hfact.stable _ _),
      ih _ _ hrest⟩
  | release lock rest ih =>
    obtain ⟨mode, others, mid, hstart, hmid, hstable, hrest⟩ := hp
    exact ⟨mode, others, _, hstart, fun w hw => ⟨hmid w hw.1, hw.2⟩,
      hstable.and _ _ _ (hfact.stable _ _), ih _ _ hrest⟩
  | act effect rest ih =>
    intro w hw
    obtain ⟨hguar, mid, hmid, hstable, hrest⟩ := hp w hw.1
    exact ⟨hguar, _, ⟨hmid, hfact _ _ _ hguar hw.2⟩, hstable.and _ _ _ (hfact.stable _ _),
      ih w _ _ hrest⟩

theorem read (start finish : List (L × Mode)) (pre : W → Prop) (g : W → β) (f : β → Prog L W α)
    (post : α → W → Prop)
    (hf : ∀ w, pre w → guar start w w ∧ ∃ mid : W → Prop, mid w ∧ Stable guar start mid ∧
      Triple guar start mid (f (g w)) finish post) :
    Triple guar start pre ((Prog.read g).bind f) finish post :=
  hf

theorem locked (lock : L) (mode : Mode) (held : List (L × Mode)) (pre : W → Prop)
    (body : Prog L W α) (post : α → W → Prop)
    (hpre : Stable guar ((lock, mode) :: held) pre) (hpost : ∀ a, Stable guar held (post a))
    (hbody : Triple guar ((lock, mode) :: held) pre body ((lock, mode) :: held) post) :
    Triple guar held pre (Prog.locked lock mode body) held post :=
  ⟨pre, fun _ hw => hw, hpre, bind _ _ _ _ _ _ _ _ hbody fun a =>
    ⟨mode, held, post a, rfl, fun _ hw => hw, hpost a, rfl, fun _ hw => hw⟩⟩

end Triple

variable (guar) (inv : W → Prop)

/-- A program that makes allowed changes only, in threads that hold the locks `needs` alone. -/
def Keeps (needs : List L) (p : Prog L W α) : Prop :=
  ∀ held, (∀ lock ∈ needs, (lock, Mode.exclusive) ∈ held) →
    Triple guar held inv p held fun _ => inv

variable {guar inv}

namespace Keeps
variable {needs : List L}

theorem pure (a : α) : Keeps guar inv needs (Prog.pure a : Prog L W α) :=
  fun _ _ => ⟨rfl, fun _ hw => hw⟩

theorem bind (p : Prog L W α) (f : α → Prog L W β) (hp : Keeps guar inv needs p)
    (hf : ∀ a, Keeps guar inv needs (f a)) : Keeps guar inv needs (p.bind f) :=
  fun held hneeds => Triple.bind held held held inv p f (fun _ => inv) (fun _ => inv) (hp held hneeds)
    fun a => hf a held hneeds

theorem mono (fewer : List L) (p : Prog L W α) (hp : Keeps guar inv fewer p)
    (hsub : fewer ⊆ needs) : Keeps guar inv needs p :=
  fun held hneeds => hp held fun lock hlock => hneeds lock (hsub hlock)

theorem act (effect : W → W) (rest : W → Prog L W α) (hinv : Persists guar inv)
    (hguar : ∀ held, (∀ lock ∈ needs, (lock, Mode.exclusive) ∈ held) → ∀ w, inv w →
      guar held w (effect w))
    (hrest : ∀ w, Keeps guar inv needs (rest w)) :
    Keeps guar inv needs (.act effect rest) := fun held hneeds w hw =>
  have hchange := hguar held hneeds w hw
  ⟨hchange, inv, hinv held w _ hchange hw, hinv.stable held inv, hrest w held hneeds⟩

theorem locked (lock : L) (body : Prog L W α) (hinv : Persists guar inv)
    (hbody : Keeps guar inv (lock :: needs) body) :
    Keeps guar inv needs (Prog.locked lock .exclusive body) := by
  intro held hneeds
  refine Triple.locked _ _ held inv body _ (hinv.stable _ inv) (fun _ => hinv.stable _ inv) ?_
  exact hbody _ (List.forall_mem_cons.mpr ⟨List.mem_cons_self, fun other hother =>
    List.mem_cons_of_mem _ (hneeds other hother)⟩)

theorem readLocked (lock : L) (body : Prog L W α) (hinv : Persists guar inv)
    (hbody : Keeps guar inv needs body) :
    Keeps guar inv needs (Prog.locked lock .shared body) := by
  intro held hneeds
  refine Triple.locked _ _ held inv body _ (hinv.stable _ inv) (fun _ => hinv.stable _ inv) ?_
  exact hbody _ fun other hother => List.mem_cons_of_mem _ (hneeds other hother)

theorem forEach (xs : List β) (body : β → Prog L W Unit)
    (hbody : ∀ x ∈ xs, Keeps guar inv needs (body x)) :
    Keeps guar inv needs (Prog.forEach xs body) := by
  induction xs with
  | nil => exact pure ()
  | cons x xs ih =>
    exact bind _ _ (hbody x List.mem_cons_self) fun _ =>
      ih fun y hy => hbody y (List.mem_cons_of_mem x hy)

theorem mapEach (xs : List β) (body : β → Prog L W α)
    (hbody : ∀ x ∈ xs, Keeps guar inv needs (body x)) :
    Keeps guar inv needs (Prog.mapEach xs body) := by
  induction xs with
  | nil => exact pure []
  | cons x xs ih =>
    refine bind _ _ (hbody x List.mem_cons_self) fun a => ?_
    exact bind _ _ (ih fun y hy => hbody y (List.mem_cons_of_mem x hy)) fun as => pure (a :: as)

end Keeps

/-- The threads hold locks that go together, and each is at an assertion from which its program ends
with its `post`. -/
structure Assured (guar : List (L × Mode) → W → W → Prop) (post : ρ → W → Prop)
    (s : Pool L W ρ) : Prop where
  compatible : ∀ (i j : Nat) (t u : Thread L W ρ), i ≠ j → s.threads[i]? = some t →
    s.threads[j]? = some u → Compatible t.held u.held
  threads : ∀ t ∈ s.threads, ∃ pre : W → Prop, pre s.world ∧ Stable guar t.held pre ∧
    Triple guar t.held pre t.prog [] post

theorem assured_start (guar : List (L × Mode) → W → W → Prop) (post : ρ → W → Prop)
    (pre : W → Prop) (world : W) (progs : List (Prog L W ρ)) (hworld : pre world)
    (hpre : Persists guar pre) (hprogs : ∀ p ∈ progs, Triple guar [] pre p [] post) :
    Assured guar post ⟨world, progs.map fun p => ⟨[], p⟩⟩ := by
  constructor
  · intro i j t u _ ht _ lock mode mode' hmode
    obtain ⟨p, -, rfl⟩ := List.mem_map.mp (List.mem_of_getElem? ht)
    cases hmode
  · intro t ht
    obtain ⟨p, hp, rfl⟩ := List.mem_map.mp ht
    exact ⟨pre, hworld, hpre.stable [] pre, hprogs p hp⟩

theorem Assured.result (guar : List (L × Mode) → W → W → Prop) (post : ρ → W → Prop)
    (s : Pool L W ρ) (hs : Assured guar post s) (t : Thread L W ρ) (r : ρ) (ht : t ∈ s.threads)
    (hdone : t.prog = .pure r) : post r s.world := by
  obtain ⟨pre, hpre, -, htriple⟩ := hs.threads t ht
  rw [hdone] at htriple
  exact htriple.2 _ hpre

variable [DecidableEq L]

theorem compatible_of_granted (threads : List (Thread L W ρ)) (lock : L) (mode : Mode)
    (held : List (L × Mode)) (u : Thread L W ρ) (hu : u ∈ threads)
    (hgranted : granted threads lock mode = true) (hboth : Compatible held u.held) :
    Compatible ((lock, mode) :: held) u.held := by
  intro other mode₁ mode₂ hmode₁ hmode₂
  rcases List.mem_cons.mp hmode₁ with heq | hold
  · obtain ⟨rfl, rfl⟩ := Prod.mk.inj heq
    cases mode₁ with
    | exclusive =>
      simp only [granted, List.all_eq_true, decide_eq_true_eq] at hgranted
      exact absurd rfl (hgranted u hu _ hmode₂)
    | shared =>
      simp only [granted, List.all_eq_true, decide_eq_true_eq] at hgranted
      have hother := hgranted u hu _ hmode₂
      cases mode₂ with
      | shared => exact ⟨rfl, rfl⟩
      | exclusive => exact absurd rfl hother
  · exact hboth other mode₁ mode₂ hold hmode₂

/-- What a step does to its thread: the locks still go together with those of the others, and the
state changes as the locks allow. -/
theorem next_assured (guar : List (L × Mode) → W → W → Prop) (post : ρ → W → Prop)
    (threads : List (Thread L W ρ)) (world world' : W) (t t' : Thread L W ρ) (pre : W → Prop)
    (hpre : pre world) (htriple : Triple guar t.held pre t.prog [] post)
    (hnext : t.next threads world = some (world', t')) :
    (∀ u ∈ threads, Compatible t.held u.held → Compatible t'.held u.held) ∧
      (world' = world ∨ guar t.held world world') ∧
      ∃ pre' : W → Prop, pre' world' ∧ Stable guar t'.held pre' ∧
        Triple guar t'.held pre' t'.prog [] post := by
  rw [Thread.next] at hnext
  split at hnext
  · cases hnext
  · rename_i lock mode rest hprog
    rw [hprog] at htriple
    obtain ⟨mid, hmid, hstable, hrest⟩ := htriple
    by_cases hgranted : granted threads lock mode = true
    · rw [if_pos hgranted] at hnext
      cases hnext
      refine ⟨fun u hu => ?_, .inl rfl, mid, hmid world hpre, hstable, hrest⟩
      exact compatible_of_granted threads lock mode t.held u hu hgranted
    · rw [if_neg hgranted] at hnext
      cases hnext
  · rename_i lock rest hprog
    rw [hprog] at htriple
    obtain ⟨mode, others, mid, hstart, hmid, hstable, hrest⟩ := htriple
    cases hnext
    have hheld : (t.held.eraseP fun held => decide (held.1 = lock)) = others := by
      rw [hstart, List.eraseP_cons_of_pos (by simp)]
    refine ⟨fun u _ hboth => hboth.mono _ _ _ List.eraseP_subset, .inl rfl, mid, hmid world hpre, ?_⟩
    simp only [hheld]
    exact ⟨hstable, hrest⟩
  · rename_i effect rest hprog
    rw [hprog] at htriple
    obtain ⟨hguar, mid, hmid, hstable, hrest⟩ := htriple world hpre
    cases hnext
    exact ⟨fun _ _ hboth => hboth, .inr hguar, mid, hmid, hstable, hrest⟩

/-- A step of a thread, beside the others: they keep their locks, which go together with those of
this one, and the state changes as this one's locks allow. -/
theorem step_assured (guar : List (L × Mode) → W → W → Prop) (post : ρ → W → Prop)
    (s s' : Pool L W ρ) (i : Nat) (hs : Assured guar post s) (hstep : s.step i = some s') :
    Assured guar post s' ∧ ∃ t, s.threads[i]? = some t ∧
      (s'.world = s.world ∨ guar t.held s.world s'.world) := by
  obtain ⟨t, t', ht, hnext, hthreads⟩ := step_cases s s' i hstep
  obtain ⟨pre, hpre, -, htriple⟩ := hs.threads t (List.mem_of_getElem? ht)
  obtain ⟨hcompatible, hworld, hthread⟩ :=
    next_assured guar post s.threads s.world s'.world t t' pre hpre htriple hnext
  have hset (j : Nat) (u : Thread L W ρ) (hu : s'.threads[j]? = some u) :
      (i = j ∧ u = t') ∨ i ≠ j ∧ s.threads[j]? = some u := by
    rw [hthreads, List.getElem?_set] at hu
    by_cases hij : i = j
    · rw [if_pos hij] at hu
      split at hu
      · exact .inl ⟨hij, (Option.some.inj hu).symm⟩
      · cases hu
    · rw [if_neg hij] at hu
      exact .inr ⟨hij, hu⟩
  refine ⟨⟨?_, ?_⟩, t, ht, hworld⟩
  · intro j k u v hjk hu hv
    rcases hset j u hu with ⟨rfl, rfl⟩ | ⟨hij, hold⟩
    · rcases hset k v hv with ⟨rfl, rfl⟩ | ⟨hik, hold⟩
      · exact absurd rfl hjk
      · exact hcompatible v (List.mem_of_getElem? hold) (hs.compatible i k t v hik ht hold)
    · rcases hset k v hv with ⟨rfl, rfl⟩ | ⟨hik, hold'⟩
      · have hboth := hcompatible u (List.mem_of_getElem? hold) (hs.compatible i j t u hij ht hold)
        exact hboth.symm
      · exact hs.compatible j k u v hjk hold hold'
  · intro u hu
    obtain ⟨j, hj⟩ := List.mem_iff_getElem?.mp hu
    rcases hset j u hj with ⟨rfl, rfl⟩ | ⟨hij, hold⟩
    · exact hthread
    · obtain ⟨pre', hpre', hstable', htriple'⟩ := hs.threads u (List.mem_of_getElem? hold)
      refine ⟨pre', ?_, hstable', htriple'⟩
      rcases hworld with hsame | hguar
      · rw [hsame]
        exact hpre'
      · exact hstable' t.held s.world s'.world (hs.compatible j i u t (Ne.symm hij) hold ht) hguar hpre'

theorem run_assured (guar : List (L × Mode) → W → W → Prop) (post : ρ → W → Prop)
    (s s' : Pool L W ρ) (schedule : List Nat) (hs : Assured guar post s)
    (hrun : run Pool.step s schedule = some s') : Assured guar post s' :=
  run_invariant (Assured guar post) (fun s i s' hs hstep => (step_assured guar post s s' i hs hstep).1)
    schedule s s' hs hrun

/-- While a thread holds a lock, in either mode, the steps of the other threads leave alone what the
lock protects. -/
theorem protected_of_held (same : L → W → W → Prop) (always : W → W → Prop)
    (post : ρ → W → Prop) (s s' : Pool L W ρ) (i j : Nat) (t : Thread L W ρ) (lock : L)
    (hs : Assured (Respects same always) post s) (hrefl : ∀ w, same lock w w) (hij : i ≠ j)
    (ht : s.threads[i]? = some t) (hheld : lock ∈ t.held.map Prod.fst)
    (hstep : s.step j = some s') : same lock s.world s'.world := by
  obtain ⟨-, u, hu, hsame | hguar⟩ := step_assured _ post s s' j hs hstep
  · rw [hsame]
    exact hrefl s.world
  · exact hguar.same lock ((hs.compatible i j t u hij ht hu).not_exclusive _ _ lock hheld)

end
end Sylar.Lib
