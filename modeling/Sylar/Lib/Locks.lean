import Mathlib.Logic.Hydra
import Sylar.Lib.Run

/-! Threads that take locks and share a state.

A program is a tree, because what it does next may depend on the state. The locks have ranks; a
thread that only takes locks of a lower rank than those it has cannot wait in a circle. -/
namespace Sylar.Lib

inductive Mode where
  | shared
  | exclusive
deriving DecidableEq

/-- A program with locks `L` on a state `W`. An `act` reads the state and changes it, in one step. -/
inductive Prog (L W α : Type) where
  | pure (a : α)
  | acquire (lock : L) (mode : Mode) (rest : Prog L W α)
  | release (lock : L) (rest : Prog L W α)
  | act (effect : W → W) (rest : W → Prog L W α)

namespace Prog
variable {L W α β γ : Type}

def bind : Prog L W α → (α → Prog L W β) → Prog L W β
  | .pure a, f => f a
  | .acquire lock mode rest, f => .acquire lock mode (rest.bind f)
  | .release lock rest, f => .release lock (rest.bind f)
  | .act effect rest, f => .act effect fun w => (rest w).bind f

instance monad : Monad (Prog L W) where
  pure := .pure
  bind := .bind

theorem bind_eq (p : Prog L W α) (f : α → Prog L W β) : p >>= f = p.bind f := rfl

def read (f : W → α) : Prog L W α := .act id fun w => .pure (f w)

def modify (f : W → W) : Prog L W Unit := .act f fun _ => .pure ()

def locked (lock : L) (mode : Mode) (body : Prog L W α) : Prog L W α :=
  .acquire lock mode (body.bind fun a => .release lock (.pure a))

def forEach (xs : List β) (body : β → Prog L W Unit) : Prog L W Unit :=
  match xs with
  | [] => .pure ()
  | x :: xs => (body x).bind fun _ => forEach xs body

def mapEach (xs : List β) (body : β → Prog L W α) : Prog L W (List α) :=
  match xs with
  | [] => .pure []
  | x :: xs => (body x).bind fun a => (mapEach xs body).bind fun as => .pure (a :: as)

def alone : Prog L W α → W → W × α
  | .pure a, w => (w, a)
  | .acquire _ _ rest, w => rest.alone w
  | .release _ rest, w => rest.alone w
  | .act effect rest, w => (rest w).alone (effect w)

theorem alone_bind (p : Prog L W α) (f : α → Prog L W β) (w : W) :
    (p.bind f).alone w = (f (p.alone w).2).alone (p.alone w).1 := by
  induction p generalizing w with
  | pure a => rfl
  | acquire lock mode rest ih => exact ih w
  | release lock rest ih => exact ih w
  | act effect rest ih => exact ih w (effect w)

theorem alone_locked (lock : L) (mode : Mode) (body : Prog L W α) (w : W) :
    (locked lock mode body).alone w = body.alone w :=
  alone_bind body _ w

def Done : Prog L W α → Prop
  | .pure _ => True
  | _ => False

inductive Rest : Prog L W α → Prog L W α → Prop where
  | acquire (lock : L) (mode : Mode) (rest : Prog L W α) : Rest rest (.acquire lock mode rest)
  | release (lock : L) (rest : Prog L W α) : Rest rest (.release lock rest)
  | act (effect : W → W) (rest : W → Prog L W α) (w : W) : Rest (rest w) (.act effect rest)

theorem rest_wellFounded : WellFounded (Rest : Prog L W α → Prog L W α → Prop) := by
  constructor
  intro p
  induction p with
  | pure a => exact ⟨_, fun q hq => nomatch hq⟩
  | acquire lock mode rest ih =>
    refine ⟨_, fun q hq => ?_⟩
    cases hq
    exact ih
  | release lock rest ih =>
    refine ⟨_, fun q hq => ?_⟩
    cases hq
    exact ih
  | act effect rest ih =>
    refine ⟨_, fun q hq => ?_⟩
    cases hq with
    | act effect rest w => exact ih w

end Prog

structure Thread (L W ρ : Type) where
  held : List (L × Mode)
  prog : Prog L W ρ

structure Pool (L W ρ : Type) where
  world : W
  threads : List (Thread L W ρ)

section
variable {L W ρ : Type} [DecidableEq L]

def granted (threads : List (Thread L W ρ)) (lock : L) : Mode → Bool
  | .exclusive => threads.all fun t => t.held.all fun held => decide (held.1 ≠ lock)
  | .shared => threads.all fun t => t.held.all fun held => decide (held ≠ (lock, .exclusive))

def Thread.next (threads : List (Thread L W ρ)) (world : W) (t : Thread L W ρ) :
    Option (W × Thread L W ρ) :=
  match t.prog with
  | .pure _ => none
  | .acquire lock mode rest =>
    if granted threads lock mode then some (world, ⟨(lock, mode) :: t.held, rest⟩) else none
  | .release lock rest =>
    some (world, ⟨t.held.eraseP fun held => decide (held.1 = lock), rest⟩)
  | .act effect rest => some (effect world, ⟨t.held, rest world⟩)

def Pool.step (s : Pool L W ρ) (i : Nat) : Option (Pool L W ρ) :=
  match s.threads[i]? with
  | none => none
  | some t => (t.next s.threads s.world).map fun found => ⟨found.1, s.threads.set i found.2⟩

end

section
variable {L W α β ρ : Type} (rank : L → Nat) (inv : W → Prop)

/-- Between holding `start` and holding `finish` the program takes locks below the ones it holds
only, releases the one it took last, and keeps the invariant of the state. -/
def Runs (start : List L) : Prog L W α → List L → Prop
  | .pure _, finish => start = finish
  | .acquire lock _ rest, finish =>
    (∀ held ∈ start, rank lock < rank held) ∧ Runs (lock :: start) rest finish
  | .release lock rest, finish => ∃ others, start = lock :: others ∧ Runs others rest finish
  | .act effect rest, finish => ∀ w, inv w → inv (effect w) ∧ Runs start (rest w) finish

/-- A program that takes locks below a rank only, and gives them back. -/
def Below (bound : Nat) (p : Prog L W α) : Prop :=
  ∀ start : List L, (∀ held ∈ start, bound ≤ rank held) → Runs rank inv start p start

variable {rank inv}

theorem Runs.bind (start mid finish : List L) (p : Prog L W α) (f : α → Prog L W β)
    (hp : Runs rank inv start p mid) (hf : ∀ a, Runs rank inv mid (f a) finish) :
    Runs rank inv start (p.bind f) finish := by
  induction p generalizing start with
  | pure a =>
    cases hp
    exact hf a
  | acquire lock mode rest ih => exact ⟨hp.1, ih _ hp.2⟩
  | release lock rest ih =>
    obtain ⟨others, hstart, hrest⟩ := hp
    exact ⟨others, hstart, ih others hrest⟩
  | act effect rest ih => exact fun w hw => ⟨(hp w hw).1, ih w start (hp w hw).2⟩

namespace Below
variable {bound : Nat}

theorem pure (a : α) : Below rank inv bound (Prog.pure a : Prog L W α) := fun _ _ => rfl

theorem bind (p : Prog L W α) (f : α → Prog L W β) (hp : Below rank inv bound p)
    (hf : ∀ a, Below rank inv bound (f a)) : Below rank inv bound (p.bind f) :=
  fun start hstart =>
    Runs.bind start start start p f (hp start hstart) fun a => hf a start hstart

theorem mono (lower : Nat) (p : Prog L W α) (hp : Below rank inv lower p) (hle : lower ≤ bound) :
    Below rank inv bound p :=
  fun start hstart => hp start fun held hheld => Nat.le_trans hle (hstart held hheld)

theorem act (effect : W → W) (rest : W → Prog L W α) (hkeep : ∀ w, inv w → inv (effect w))
    (hrest : ∀ w, inv w → Below rank inv bound (rest w)) :
    Below rank inv bound (.act effect rest) :=
  fun start hstart w hw => ⟨hkeep w hw, hrest w hw start hstart⟩

theorem read (f : W → α) : Below rank inv bound (Prog.read f : Prog L W α) :=
  act id _ (fun _ hw => hw) fun w _ => pure (f w)

theorem modify (f : W → W) (hkeep : ∀ w, inv w → inv (f w)) :
    Below rank inv bound (Prog.modify f : Prog L W Unit) :=
  act f _ hkeep fun _ _ => pure ()

theorem locked (lock : L) (mode : Mode) (body : Prog L W α) (hlt : rank lock < bound)
    (hbody : Below rank inv (rank lock) body) :
    Below rank inv bound (Prog.locked lock mode body) := by
  intro start hstart
  have habove : ∀ held ∈ start, rank lock < rank held := fun held hheld =>
    Nat.lt_of_lt_of_le hlt (hstart held hheld)
  refine ⟨habove, ?_⟩
  refine Runs.bind _ (lock :: start) _ _ _ (hbody _ ?_) fun a => ⟨start, rfl, rfl⟩
  intro held hheld
  rcases List.mem_cons.mp hheld with rfl | hother
  · exact Nat.le_refl _
  · exact Nat.le_of_lt (habove held hother)

theorem forEach (xs : List β) (body : β → Prog L W Unit)
    (hbody : ∀ x ∈ xs, Below rank inv bound (body x)) :
    Below rank inv bound (Prog.forEach xs body) := by
  induction xs with
  | nil => exact pure ()
  | cons x xs ih =>
    exact bind _ _ (hbody x List.mem_cons_self) fun _ =>
      ih fun y hy => hbody y (List.mem_cons_of_mem x hy)

theorem mapEach (xs : List β) (body : β → Prog L W α)
    (hbody : ∀ x ∈ xs, Below rank inv bound (body x)) :
    Below rank inv bound (Prog.mapEach xs body) := by
  induction xs with
  | nil => exact pure []
  | cons x xs ih =>
    refine bind _ _ (hbody x List.mem_cons_self) fun a => ?_
    exact bind _ _ (ih fun y hy => hbody y (List.mem_cons_of_mem x hy)) fun as => pure (a :: as)

end Below

/-- What the threads of a pool still do is in the order of the ranks, down to no lock. -/
structure Sound (rank : L → Nat) (inv : W → Prop) (s : Pool L W ρ) : Prop where
  world : inv s.world
  threads : ∀ t ∈ s.threads, Runs rank inv (t.held.map Prod.fst) t.prog []

variable (rank inv) in
/-- Calls that are each in the order of the ranks, in threads that hold nothing yet. -/
theorem sound_start (bound : Nat) (world : W) (progs : List (Prog L W ρ)) (hworld : inv world)
    (hprogs : ∀ p ∈ progs, Below rank inv bound p) :
    Sound rank inv ⟨world, progs.map fun p => ⟨[], p⟩⟩ := by
  refine ⟨hworld, ?_⟩
  intro t ht
  obtain ⟨p, hp, rfl⟩ := List.mem_map.mp ht
  exact hprogs p hp [] fun held hheld => absurd hheld List.not_mem_nil

variable [DecidableEq L]

theorem next_cases (threads : List (Thread L W ρ)) (world world' : W) (t t' : Thread L W ρ)
    (hnext : t.next threads world = some (world', t')) :
    (∃ lock mode rest, t.prog = .acquire lock mode rest ∧ world' = world ∧
      t' = ⟨(lock, mode) :: t.held, rest⟩) ∨
    (∃ lock rest, t.prog = .release lock rest ∧ world' = world ∧
      t' = ⟨t.held.eraseP fun held => decide (held.1 = lock), rest⟩) ∨
    ∃ effect rest, t.prog = .act effect rest ∧ world' = effect world ∧
      t' = ⟨t.held, rest world⟩ := by
  rw [Thread.next] at hnext
  split at hnext
  · cases hnext
  · rename_i lock mode rest hprog
    split at hnext
    · cases hnext
      exact .inl ⟨lock, mode, rest, hprog, rfl, rfl⟩
    · cases hnext
  · rename_i lock rest hprog
    cases hnext
    exact .inr (.inl ⟨lock, rest, hprog, rfl, rfl⟩)
  · rename_i effect rest hprog
    cases hnext
    exact .inr (.inr ⟨effect, rest, hprog, rfl, rfl⟩)

theorem step_cases (s s' : Pool L W ρ) (i : Nat) (hstep : s.step i = some s') :
    ∃ t t', s.threads[i]? = some t ∧ t.next s.threads s.world = some (s'.world, t') ∧
      s'.threads = s.threads.set i t' := by
  rw [Pool.step] at hstep
  cases ht : s.threads[i]? with
  | none =>
    rw [ht] at hstep
    cases hstep
  | some t =>
    rw [ht] at hstep
    obtain ⟨⟨world, t'⟩, hnext, rfl⟩ := Option.map_eq_some_iff.mp hstep
    exact ⟨t, t', rfl, hnext, rfl⟩

theorem step_sound (s s' : Pool L W ρ) (i : Nat) (hs : Sound rank inv s)
    (hstep : s.step i = some s') : Sound rank inv s' := by
  obtain ⟨t, t', ht, hnext, hthreads⟩ := step_cases s s' i hstep
  have hruns := hs.threads t (List.mem_of_getElem? ht)
  have hboth : inv s'.world ∧ Runs rank inv (t'.held.map Prod.fst) t'.prog [] := by
    rcases next_cases s.threads s.world s'.world t t' hnext with
      ⟨lock, mode, rest, hprog, hworld, rfl⟩ | ⟨lock, rest, hprog, hworld, rfl⟩ |
        ⟨effect, rest, hprog, hworld, rfl⟩
    · rw [hprog] at hruns
      rw [hworld]
      exact ⟨hs.world, hruns.2⟩
    · rw [hprog] at hruns
      obtain ⟨others, hheld, hrest⟩ := hruns
      obtain ⟨last, older, hlist, hlast, rfl⟩ := List.map_eq_cons_iff.mp hheld
      rw [hworld, hlist, List.eraseP_cons_of_pos (by simpa using hlast)]
      exact ⟨hs.world, hrest⟩
    · rw [hprog] at hruns
      rw [hworld]
      exact hruns s.world hs.world
  refine ⟨hboth.1, ?_⟩
  intro other hother
  rw [hthreads] at hother
  rcases List.mem_or_eq_of_mem_set hother with hold | rfl
  · exact hs.threads other hold
  · exact hboth.2

/-- A thread that cannot step, and has not ended, waits for a lock that a thread holds. -/
theorem waits (s : Pool L W ρ) (t : Thread L W ρ) (ht : t ∈ s.threads)
    (hstuck : ∀ i, s.step i = none) (hbusy : ¬ t.prog.Done) :
    ∃ lock mode rest, t.prog = .acquire lock mode rest ∧
      ∃ holder ∈ s.threads, lock ∈ holder.held.map Prod.fst := by
  obtain ⟨i, hi⟩ := List.mem_iff_getElem?.mp ht
  have hnone := hstuck i
  rw [Pool.step, hi, Option.map_eq_none_iff, Thread.next] at hnone
  split at hnone
  · rename_i a hprog
    rw [hprog] at hbusy
    exact absurd trivial hbusy
  · rename_i lock mode rest hprog
    refine ⟨lock, mode, rest, hprog, ?_⟩
    have hrefused : granted s.threads lock mode ≠ true := fun hgranted => by
      rw [if_pos hgranted] at hnone
      cases hnone
    cases mode with
    | shared =>
      simp only [granted, ne_eq, List.all_eq_true, decide_eq_true_eq, not_forall, not_not] at hrefused
      obtain ⟨holder, hholder, held, hheld, rfl⟩ := hrefused
      exact ⟨holder, hholder, List.mem_map_of_mem hheld⟩
    | exclusive =>
      simp only [granted, ne_eq, List.all_eq_true, decide_eq_true_eq, not_forall, not_not] at hrefused
      obtain ⟨holder, hholder, held, hheld, rfl⟩ := hrefused
      exact ⟨holder, hholder, List.mem_map_of_mem hheld⟩
  · cases hnone
  · cases hnone

/-- Nobody waits for ever: the lock that the holder waits for has a lower rank. -/
theorem done_of_stuck (s : Pool L W ρ) (hs : Sound rank inv s) (hstuck : ∀ i, s.step i = none) :
    ∀ t ∈ s.threads, t.prog.Done ∧ t.held = [] := by
  have hended (t : Thread L W ρ) (ht : t ∈ s.threads) (hdone : t.prog.Done) : t.held = [] := by
    have hruns := hs.threads t ht
    cases hprog : t.prog with
    | pure a =>
      rw [hprog] at hruns
      exact List.map_eq_nil_iff.mp hruns
    | acquire lock mode rest =>
      rw [hprog] at hdone
      cases hdone
    | release lock rest =>
      rw [hprog] at hdone
      cases hdone
    | act effect rest =>
      rw [hprog] at hdone
      cases hdone
  -- the induction is on the rank of the lock that is waited for
  have hnever (n : Nat) : ∀ t ∈ s.threads, ∀ lock mode rest, t.prog = .acquire lock mode rest →
      rank lock = n → ¬ ∃ holder ∈ s.threads, lock ∈ holder.held.map Prod.fst := by
    induction n using Nat.strong_induction_on with
    | h n ih =>
      rintro t ht lock mode rest hprog rfl ⟨holder, hholder, hheld⟩
      have hbusy : ¬ holder.prog.Done := by
        intro hdone
        rw [hended holder hholder hdone] at hheld
        cases hheld
      obtain ⟨lock', mode', rest', hprog', hwaits⟩ := waits s holder hholder hstuck hbusy
      have hruns := hs.threads holder hholder
      rw [hprog'] at hruns
      exact ih (rank lock') (hruns.1 lock hheld) holder hholder lock' mode' rest' hprog' rfl hwaits
  intro t ht
  by_cases hdone : t.prog.Done
  · exact ⟨hdone, hended t ht hdone⟩
  · obtain ⟨lock, mode, rest, hprog, hwaits⟩ := waits s t ht hstuck hdone
    exact absurd hwaits (hnever _ t ht lock mode rest hprog rfl)

theorem step_rest (s s' : Pool L W ρ) (i : Nat) (hstep : s.step i = some s') :
    Relation.CutExpand Prog.Rest (Multiset.ofList (s'.threads.map Thread.prog))
      (Multiset.ofList (s.threads.map Thread.prog)) := by
  obtain ⟨t, t', ht, hnext, hthreads⟩ := step_cases s s' i hstep
  have hrest : Prog.Rest t'.prog t.prog := by
    rcases next_cases s.threads s.world s'.world t t' hnext with
      ⟨lock, mode, rest, hprog, -, rfl⟩ | ⟨lock, rest, hprog, -, rfl⟩ |
        ⟨effect, rest, hprog, -, rfl⟩
    · rw [hprog]
      exact .acquire lock mode rest
    · rw [hprog]
      exact .release lock rest
    · rw [hprog]
      exact .act effect rest s.world
  obtain ⟨hlt, hget⟩ := List.getElem?_eq_some_iff.mp ht
  have hsplit : s.threads = s.threads.take i ++ t :: s.threads.drop (i + 1) := by
    rw [← hget, List.getElem_cons_drop, List.take_append_drop]
  have hset : s.threads.set i t' = s.threads.take i ++ t' :: s.threads.drop (i + 1) :=
    List.set_eq_take_append_cons_drop.trans (if_pos hlt)
  have hmove (u : Thread L W ρ) (before after : List (Thread L W ρ)) :
      Multiset.ofList ((before ++ u :: after).map Thread.prog) =
        Multiset.ofList ((before ++ after).map Thread.prog) + {u.prog} := by
    rw [List.map_append, List.map_cons, List.map_append, Multiset.coe_eq_coe.mpr List.perm_middle,
      ← Multiset.cons_coe, Multiset.add_comm, Multiset.singleton_add]
  rw [hthreads, hset, hmove]
  conv => rhs; rw [hsplit, hmove]
  exact Relation.cutExpand_add_single _ hrest

theorem no_infinite_run (run : Nat → Pool L W ρ) : ∃ n, ∀ i, (run n).step i ≠ some (run (n + 1)) := by
  have hwf : IsWellFounded (Multiset (Prog L W ρ)) (Relation.CutExpand Prog.Rest) :=
    ⟨Prog.rest_wellFounded.cutExpand⟩
  obtain ⟨n, hn⟩ := WellFounded.not_rel_apply_succ (r := Relation.CutExpand Prog.Rest)
    fun n => Multiset.ofList ((run n).threads.map Thread.prog)
  exact ⟨n, fun i hstep => hn (step_rest _ _ i hstep)⟩

variable (rank inv) in
/-- Whatever the schedule is, a run cannot stop before all calls have returned and all locks are
given back, and it cannot go on for ever. -/
theorem run_completes (s : Pool L W ρ) (hs : Sound rank inv s) :
    (∀ schedule s', run Pool.step s schedule = some s' → (∀ i, s'.step i = none) →
      ∀ t ∈ s'.threads, t.prog.Done ∧ t.held = []) ∧
    ∀ states : Nat → Pool L W ρ, states 0 = s →
      ∃ n, ∀ i, (states n).step i ≠ some (states (n + 1)) := by
  constructor
  · intro schedule s' hrun hstuck
    exact done_of_stuck s' (run_invariant (Sound rank inv) (fun s i s' => step_sound s s' i) schedule s
      s' hs hrun) hstuck
  · intro states _
    exact no_infinite_run states

end

end Sylar.Lib
