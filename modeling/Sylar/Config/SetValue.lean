import Mathlib.Data.List.Basic
import Sylar.Lib.Run

/-! `ConfigVar::setValue` of `config.h` in several threads.

The comparison and the listeners run under the read lock, which several threads hold at
once, and the assignment runs later under the write lock. Newest notifications stand
first. -/
namespace Sylar

/-- The keys of `m_cbs` in the order of the map. -/
structure Listeners where
  keys : List UInt64
  sorted : keys.Pairwise (· < ·)

inductive SetPc (α : Type) where
  | out
  | called (v : α)
  | notifying (v : α) (left : List UInt64)
  | notified (v : α)
deriving DecidableEq

structure Notification (α : Type) where
  key : UInt64
  thread : Nat
  oldValue : α
  newValue : α
deriving DecidableEq

structure ConfigVar (α : Type) where
  val : α
  cbs : Listeners
  threads : List (SetPc α)
  log : List (Notification α)

namespace ConfigVar
variable {α : Type}

inductive Label (α : Type) where
  | call (thread : Nat) (v : α)
  | compare (thread : Nat)
  | notify (thread : Nat)
  | unlock (thread : Nat)
  | assign (thread : Nat)
deriving DecidableEq

def start (val : α) (cbs : Listeners) (threads : Nat) : ConfigVar α where
  val := val
  cbs := cbs
  threads := List.replicate threads .out
  log := []

def goto (s : ConfigVar α) (thread : Nat) (pc : SetPc α) : ConfigVar α :=
  { s with threads := s.threads.set thread pc }

def pending : SetPc α → Option α
  | .out => none
  | .called _ => none
  | .notifying v _ => some v
  | .notified v => some v

def left : SetPc α → List UInt64
  | .notifying _ left => left
  | _ => []

def reading : SetPc α → Bool
  | .notifying _ _ => true
  | _ => false

def last (s : ConfigVar α) (key : UInt64) : Option (Notification α) :=
  s.log.find? fun notification => notification.key = key

section
variable [DecidableEq α]

def step (s : ConfigVar α) : Label α → Option (ConfigVar α)
  | .call thread v =>
    match s.threads[thread]? with
    | some .out => some (s.goto thread (.called v))
    | _ => none
  | .compare thread =>
    match s.threads[thread]? with
    | some (.called v) =>
      if v = s.val then some (s.goto thread .out)
      else some (s.goto thread (.notifying v s.cbs.keys))
    | _ => none
  | .notify thread =>
    match s.threads[thread]? with
    | some (.notifying v (key :: left)) =>
      let notification := { key := key, thread := thread, oldValue := s.val, newValue := v }
      some ({ s with log := notification :: s.log }.goto thread (.notifying v left))
    | _ => none
  | .unlock thread =>
    match s.threads[thread]? with
    | some (.notifying v []) => some (s.goto thread (.notified v))
    | _ => none
  | .assign thread =>
    match s.threads[thread]? with
    | some (.notified v) =>
      if s.threads.any reading then none else some ({ s with val := v }.goto thread .out)
    | _ => none

end

def Complete (s : ConfigVar α) : Prop :=
  ∀ pc ∈ s.threads, pc = .out

/-- A copy that each listener keeps, which starts as the initial value and takes the new
value of every notification, is the stored value. -/
def Mirrored (initial : α) (s : ConfigVar α) : Prop :=
  ∀ key ∈ s.cbs.keys, ((s.last key).map Notification.newValue).getD initial = s.val

/-- A thread that some listener heard last stores its value only when no call with another
value is still to be stored. -/
def InOrder (s : ConfigVar α) : Label α → Prop
  | .assign thread =>
    ∀ key ∈ s.cbs.keys, ∀ notification ∈ s.last key, notification.thread = thread →
      ∀ pc ∈ s.threads, ∀ v ∈ pending pc, v = notification.newValue
  | _ => True

instance InOrder.decidable [DecidableEq α] (s : ConfigVar α) (label : Label α) :
    Decidable (InOrder s label) :=
  match label with
  | .assign thread => List.decidableBAll (fun key => ∀ notification ∈ s.last key,
      notification.thread = thread →
        ∀ pc ∈ s.threads, ∀ v ∈ pending pc, v = notification.newValue) s.cbs.keys
  | .call _ _ => .isTrue trivial
  | .compare _ => .isTrue trivial
  | .notify _ => .isTrue trivial
  | .unlock _ => .isTrue trivial

instance Complete.decidable [DecidableEq α] (s : ConfigVar α) : Decidable s.Complete :=
  inferInstanceAs (Decidable (∀ pc ∈ s.threads, pc = .out))

instance Mirrored.decidable [DecidableEq α] (initial : α) (s : ConfigVar α) :
    Decidable (s.Mirrored initial) :=
  List.decidableBAll (fun key => ((s.last key).map Notification.newValue).getD initial = s.val)
    s.cbs.keys

/-- The call has told the listener its value and has not stored it. -/
def Told (key : UInt64) (pc : SetPc α) (v : α) : Prop :=
  pending pc = some v ∧ key ∉ left pc

/-- What a listener heard last is going to be stored by the thread that said it, or is stored
and every call that it heard of and that is not stored agrees. -/
structure Heard (initial : α) (s : ConfigVar α) (key : UInt64) : Prop where
  silent : s.last key = none →
    s.val = initial ∧ ∀ (thread : Nat) (pc : SetPc α) (v : α), s.threads[thread]? = some pc →
      ¬ Told key pc v
  spoken : ∀ notification, s.last key = some notification →
    (∃ pc, s.threads[notification.thread]? = some pc ∧ Told key pc notification.newValue) ∨
    (s.val = notification.newValue ∧
      ∀ (thread : Nat) (pc : SetPc α) (v : α), s.threads[thread]? = some pc →
        Told key pc v → v = notification.newValue)

structure Inv (initial : α) (s : ConfigVar α) : Prop where
  tails : ∀ (thread : Nat) (pc : SetPc α), s.threads[thread]? = some pc → left pc <:+ s.cbs.keys
  heard : ∀ key ∈ s.cbs.keys, Heard initial s key

/-- The steps of the program, one for each way out of `setValue`'s branches. -/
inductive Move (s : ConfigVar α) (thread : Nat) : SetPc α → SetPc α → Label α → ConfigVar α → Prop where
  | call (v : α) : Move s thread .out (.called v) (.call thread v) (s.goto thread (.called v))
  | unchanged : Move s thread (.called s.val) .out (.compare thread) (s.goto thread .out)
  | changed (v : α) : v ≠ s.val →
    Move s thread (.called v) (.notifying v s.cbs.keys) (.compare thread)
      (s.goto thread (.notifying v s.cbs.keys))
  | notify (v : α) (key : UInt64) (left : List UInt64) :
    Move s thread (.notifying v (key :: left)) (.notifying v left) (.notify thread)
      ({ s with log := ⟨key, thread, s.val, v⟩ :: s.log }.goto thread (.notifying v left))
  | unlock (v : α) :
    Move s thread (.notifying v []) (.notified v) (.unlock thread) (s.goto thread (.notified v))
  | assign (v : α) : s.threads.any reading = false →
    Move s thread (.notified v) .out (.assign thread) ({ s with val := v }.goto thread .out)

theorem step_cases [DecidableEq α] (s s' : ConfigVar α) (label : Label α)
    (hstep : s.step label = some s') :
    ∃ thread old new, s.threads[thread]? = some old ∧ Move s thread old new label s' := by
  cases label with
  | call thread v =>
    simp only [step] at hstep
    split at hstep
    · rename_i hpc
      cases hstep
      exact ⟨thread, _, _, hpc, .call v⟩
    · contradiction
  | compare thread =>
    simp only [step] at hstep
    split at hstep
    · rename_i v hpc
      split at hstep
      · rename_i heq
        cases hstep
        rw [heq] at hpc
        exact ⟨thread, _, _, hpc, .unchanged⟩
      · rename_i hne
        cases hstep
        exact ⟨thread, _, _, hpc, .changed v hne⟩
    · contradiction
  | notify thread =>
    simp only [step] at hstep
    split at hstep
    · rename_i v key left hpc
      cases hstep
      exact ⟨thread, _, _, hpc, .notify v key left⟩
    · contradiction
  | unlock thread =>
    simp only [step] at hstep
    split at hstep
    · rename_i v hpc
      cases hstep
      exact ⟨thread, _, _, hpc, .unlock v⟩
    · contradiction
  | assign thread =>
    simp only [step] at hstep
    split at hstep
    · rename_i v hpc
      split at hstep
      · contradiction
      · rename_i hreading
        cases hstep
        exact ⟨thread, _, _, hpc, .assign v (Bool.eq_false_iff.mpr hreading)⟩
    · contradiction

theorem threads_goto (s : ConfigVar α) (thread other : Nat) (old new pc : SetPc α)
    (hold : s.threads[thread]? = some old) (hpc : (s.goto thread new).threads[other]? = some pc) :
    (other = thread ∧ pc = new) ∨ (other ≠ thread ∧ s.threads[other]? = some pc) := by
  by_cases heq : other = thread
  · subst heq
    left
    rw [goto, List.getElem?_set_self (List.getElem?_eq_some_iff.mp hold).1] at hpc
    cases hpc
    exact ⟨rfl, rfl⟩
  · right
    rw [goto, List.getElem?_set_ne (Ne.symm heq)] at hpc
    exact ⟨heq, hpc⟩

theorem threads_goto_self (s : ConfigVar α) (thread : Nat) (old new : SetPc α)
    (hold : s.threads[thread]? = some old) : (s.goto thread new).threads[thread]? = some new :=
  List.getElem?_set_self (List.getElem?_eq_some_iff.mp hold).1

theorem threads_goto_other (s : ConfigVar α) (thread other : Nat) (new : SetPc α)
    (hne : other ≠ thread) : (s.goto thread new).threads[other]? = s.threads[other]? :=
  List.getElem?_set_ne (Ne.symm hne)

theorem Heard.quiet (initial : α) (s : ConfigVar α) (key : UInt64) (log : List (Notification α))
    (thread : Nat) (old new : SetPc α) (hold : s.threads[thread]? = some old)
    (hlast : ({ s with log := log }.goto thread new).last key = s.last key)
    (htold : ∀ v, Told key new v ↔ Told key old v) (hheard : Heard initial s key) :
    Heard initial ({ s with log := log }.goto thread new) key where
  silent := by
    intro hnone
    rw [hlast] at hnone
    obtain ⟨hval, hnobody⟩ := hheard.silent hnone
    refine ⟨hval, ?_⟩
    intro other pc v hpc htoldNew
    rcases threads_goto _ thread other old new pc hold hpc with ⟨rfl, rfl⟩ | ⟨-, hother⟩
    · exact hnobody other old v hold ((htold v).mp htoldNew)
    · exact hnobody other pc v hother htoldNew
  spoken := by
    intro notification hsome
    rw [hlast] at hsome
    rcases hheard.spoken notification hsome with ⟨pc, hpc, htoldOld⟩ | ⟨hval, hagree⟩
    · left
      by_cases heq : notification.thread = thread
      · rw [heq] at hpc ⊢
        rw [hold] at hpc
        cases hpc
        exact ⟨new, threads_goto_self _ thread old new hold, (htold _).mpr htoldOld⟩
      · exact ⟨pc, (threads_goto_other _ thread _ new heq).trans hpc, htoldOld⟩
    · right
      refine ⟨hval, ?_⟩
      intro other pc v hpc htoldNew
      rcases threads_goto _ thread other old new pc hold hpc with ⟨rfl, rfl⟩ | ⟨-, hother⟩
      · exact hagree other old v hold ((htold v).mp htoldNew)
      · exact hagree other pc v hother htoldNew

theorem Heard.notify (initial : α) (s : ConfigVar α) (key : UInt64) (thread : Nat) (v : α)
    (rest : List UInt64) (hold : s.threads[thread]? = some (.notifying v (key :: rest)))
    (hfresh : key ∉ rest) :
    Heard initial ({ s with log := ⟨key, thread, s.val, v⟩ :: s.log }.goto thread
      (.notifying v rest)) key where
  silent := by
    intro hnone
    simp [last, goto] at hnone
  spoken := by
    intro notification hsome
    simp [last, goto] at hsome
    subst hsome
    exact .inl ⟨_, threads_goto_self _ thread _ _ hold, rfl, hfresh⟩

theorem Heard.assign (initial : α) (s : ConfigVar α) (key : UInt64) (thread : Nat) (v : α)
    (hkey : key ∈ s.cbs.keys) (hold : s.threads[thread]? = some (.notified v))
    (horder : InOrder s (.assign thread)) (hheard : Heard initial s key) :
    Heard initial ({ s with val := v }.goto thread .out) key where
  silent := by
    intro hnone
    exact absurd ⟨rfl, List.not_mem_nil⟩ ((hheard.silent hnone).2 thread _ v hold)
  spoken := by
    intro notification hsome
    by_cases hlater : ∃ pc, s.threads[notification.thread]? = some pc ∧
        Told key pc notification.newValue ∧ notification.thread ≠ thread
    · obtain ⟨pc, hpc, htold, hne⟩ := hlater
      exact .inl ⟨pc, (threads_goto_other _ thread _ _ hne).trans hpc, htold⟩
    · right
      have hstored : v = notification.newValue ∧
          ∀ (other : Nat) (pc : SetPc α) (w : α), s.threads[other]? = some pc →
            Told key pc w → w = notification.newValue := by
        rcases hheard.spoken notification hsome with ⟨pc, hpc, htold⟩ | ⟨-, hagree⟩
        · have heq : notification.thread = thread := by
            by_contra hne
            exact hlater ⟨pc, hpc, htold, hne⟩
          have hall := horder key hkey notification hsome heq
          exact ⟨hall _ (List.mem_of_getElem? hold) v rfl,
            fun other pc w hother htold => hall pc (List.mem_of_getElem? hother) w htold.1⟩
        · exact ⟨hagree thread _ v hold ⟨rfl, List.not_mem_nil⟩, hagree⟩
      refine ⟨hstored.1, ?_⟩
      intro other pc w hpc htold
      rcases threads_goto _ thread other _ _ pc hold hpc with ⟨-, rfl⟩ | ⟨-, hother⟩
      · cases htold.1
      · exact hstored.2 other pc w hother htold

theorem Inv.tails_goto (initial : α) (s : ConfigVar α) (thread other : Nat) (old new pc : SetPc α)
    (hinv : Inv initial s) (hold : s.threads[thread]? = some old)
    (hnew : left new <:+ s.cbs.keys) (hpc : (s.goto thread new).threads[other]? = some pc) :
    left pc <:+ s.cbs.keys := by
  rcases threads_goto s thread other old new pc hold hpc with ⟨-, rfl⟩ | ⟨-, hother⟩
  · exact hnew
  · exact hinv.tails other pc hother

theorem Inv.quiet (initial : α) (s : ConfigVar α) (thread : Nat) (old new : SetPc α)
    (hinv : Inv initial s) (hold : s.threads[thread]? = some old)
    (hnew : left new <:+ s.cbs.keys)
    (htold : ∀ key ∈ s.cbs.keys, ∀ v, Told key new v ↔ Told key old v) :
    Inv initial (s.goto thread new) where
  tails := fun other pc => hinv.tails_goto initial s thread other old new pc hold hnew
  heard := fun key hkey =>
    (hinv.heard key hkey).quiet initial s key s.log thread old new hold rfl (htold key hkey)

theorem Inv.notify (initial : α) (s : ConfigVar α) (thread : Nat) (v : α) (key : UInt64)
    (rest : List UInt64) (hinv : Inv initial s)
    (hold : s.threads[thread]? = some (.notifying v (key :: rest))) :
    Inv initial ({ s with log := ⟨key, thread, s.val, v⟩ :: s.log }.goto thread
      (.notifying v rest)) := by
  have htail : key :: rest <:+ s.cbs.keys := hinv.tails thread _ hold
  have hnew : rest <:+ s.cbs.keys := (List.suffix_cons key rest).trans htail
  refine ⟨fun other pc => hinv.tails_goto initial s thread other _ _ pc hold hnew, ?_⟩
  intro other hother
  by_cases heq : other = key
  · subst heq
    apply Heard.notify initial s other thread v rest hold
    intro hmem
    have hbefore := (List.pairwise_cons.mp (s.cbs.sorted.sublist htail.sublist)).1 other hmem
    exact UInt64.lt_irrefl _ hbefore
  · apply (hinv.heard other hother).quiet initial s other _ thread _ _ hold
    · simp [last, goto, Ne.symm heq]
    · intro w
      simp [Told, pending, left, heq]

theorem step_inv [DecidableEq α] (initial : α) (s : ConfigVar α) (label : Label α)
    (s' : ConfigVar α) (hinv : Inv initial s) (horder : InOrder s label)
    (hstep : s.step label = some s') : Inv initial s' := by
  obtain ⟨thread, old, new, hold, hmove⟩ := step_cases s s' label hstep
  cases hmove with
  | call v =>
    apply hinv.quiet initial s thread _ (.called v) hold List.nil_suffix
    intro key hkey w
    simp [Told, pending]
  | unchanged =>
    apply hinv.quiet initial s thread _ .out hold List.nil_suffix
    intro key hkey w
    simp [Told, pending]
  | changed v hne =>
    apply hinv.quiet initial s thread _ _ hold (List.suffix_refl _)
    intro key hkey w
    simp [Told, pending, left, hkey]
  | notify v key rest => exact hinv.notify initial s thread v key rest hold
  | unlock v =>
    apply hinv.quiet initial s thread _ (.notified v) hold List.nil_suffix
    intro key hkey w
    simp [Told, pending, left]
  | assign v hreading =>
    refine ⟨fun other pc => hinv.tails_goto initial s thread other _ _ pc hold List.nil_suffix, ?_⟩
    intro key hkey
    exact (hinv.heard key hkey).assign initial s key thread v hkey hold horder

theorem start_inv (val : α) (cbs : Listeners) (threads : Nat) :
    Inv val (start val cbs threads) where
  tails := by
    intro thread pc hpc
    rw [(List.mem_replicate.mp (List.mem_of_getElem? hpc)).2]
    exact List.nil_suffix
  heard := by
    intro key hkey
    refine ⟨fun _ => ⟨rfl, ?_⟩, ?_⟩
    · intro thread pc v hpc htold
      rw [(List.mem_replicate.mp (List.mem_of_getElem? hpc)).2] at htold
      cases htold.1
    · intro notification hsome
      cases hsome

theorem Heard.mirrored (initial : α) (s : ConfigVar α) (key : UInt64) (hheard : Heard initial s key)
    (hcomplete : s.Complete) : ((s.last key).map Notification.newValue).getD initial = s.val := by
  cases hlast : s.last key with
  | none => exact (hheard.silent hlast).1.symm
  | some notification =>
    rcases hheard.spoken notification hlast with ⟨pc, hpc, htold⟩ | ⟨hval, -⟩
    · rw [hcomplete pc (List.mem_of_getElem? hpc)] at htold
      cases htold.1
    · exact hval.symm

/-- In every run whose stores are in order, the listeners agree with the variable whenever
all calls are complete. -/
theorem mirrored_of_inOrder [DecidableEq α] (val : α) (cbs : Listeners) (threads : Nat)
    (labels : List (Label α)) (s : ConfigVar α)
    (hmeets : Lib.Meets step InOrder (start val cbs threads) labels)
    (hrun : Lib.run step (start val cbs threads) labels = some s) (hcomplete : s.Complete) :
    s.Mirrored val := by
  have hinv : Inv val s := Lib.run_invariant_of_meets InOrder (Inv val) (step_inv val) labels _ s
    (start_inv val cbs threads) hmeets hrun
  intro key hkey
  exact (hinv.heard key hkey).mirrored val s key hcomplete

/-- Two setters that overlap and store in the order in which they notified. -/
theorem mirrored_of_inOrder_overlapping :
    ∃ s, Lib.run step (start 0 ⟨[1, 2], by decide⟩ 2)
        [.call 0 5, .call 1 7, .compare 0, .compare 1, .notify 0, .notify 1, .notify 0, .unlock 0,
         .notify 1, .unlock 1, .assign 0, .assign 1] = some s ∧
      s.Complete ∧ s.Mirrored 0 := by
  refine ⟨_, rfl, by decide, ?_⟩
  apply mirrored_of_inOrder 0 ⟨[1, 2], by decide⟩ 2
    [.call 0 5, .call 1 7, .compare 0, .compare 1, .notify 0, .notify 1, .notify 0, .unlock 0,
     .notify 1, .unlock 1, .assign 0, .assign 1]
  · decide
  · rfl
  · decide

/-- The second setter stores first, and the first one's value stays under the second one's
notification. -/
theorem mirrored_fails_out_of_order :
    ∃ s, Lib.run step (start 0 ⟨[1], by decide⟩ 2)
        [.call 0 5, .compare 0, .notify 0, .unlock 0, .call 1 7, .compare 1, .notify 1, .unlock 1,
         .assign 1, .assign 0] = some s ∧
      s.Complete ∧ ¬ s.Mirrored 0 :=
  ⟨_, rfl, by decide, by decide⟩

end ConfigVar
end Sylar
