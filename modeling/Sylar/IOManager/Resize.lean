import Sylar.IOManager.Sound

/-! `addEvent` in several threads. The size test holds the read lock,
`contextResize` holds the write lock, and the rest holds the mutex of the
context, so a thread may resize to a size that another thread has long left
behind. -/
namespace Sylar

inductive AddPc where
  | out
  | resizing (fd : Nat)
  | fetched (fd ptr : Nat)
deriving DecidableEq

structure Adders (φ κ : Type) where
  manager : IOManager φ κ
  pc : Nat → AddPc

namespace Adders
variable {φ κ : Type}

inductive Label (φ κ : Type) where
  | test (thread fd : Nat)
  | resize (thread : Nat)
  | register (thread : Nat) (event : Event) (cb : Option κ) (self : φ) (exec : Bool)
    (scheduler : Nat) (fails : Bool)
  | call (label : IOManager.Call φ κ)

def init (tickleFd : Nat) : Adders φ κ where
  manager := .new tickleFd
  pc := fun _ => .out

def goto (s : Adders φ κ) (thread : Nat) (pc : AddPc) : Adders φ κ :=
  { s with pc := fun t => if t = thread then pc else s.pc t }

def step (s : Adders φ κ) : Label φ κ → Option (Adders φ κ)
  | .test thread fd =>
    match s.pc thread with
    | .out =>
      match s.manager.fetch fd with
      | some ptr => some (s.goto thread (.fetched fd ptr))
      | none => some (s.goto thread (.resizing fd))
    | _ => none
  | .resize thread =>
    match s.pc thread with
    | .resizing fd =>
      let manager := s.manager.grow fd
      match manager.fetch fd with
      | some ptr => some ({ s with manager := manager }.goto thread (.fetched fd ptr))
      | none => none
    | _ => none
  | .register thread event cb self exec scheduler fails =>
    match s.pc thread with
    | .fetched fd ptr =>
      match s.manager.addEventLocked ptr fd event cb self exec scheduler fails with
      | .ok (_, manager) => some ({ s with manager := manager }.goto thread .out)
      | .error _ => none
    | _ => none
  | .call (.addEvent _ _ _ _ _ _ _) => none
  | .call label => (s.manager.step label).map fun manager => { s with manager := manager }

/-- Nobody has grown the table past the size that this thread asks for. -/
def Grows (s : Adders φ κ) : Label φ κ → Prop
  | .resize thread =>
    match s.pc thread with
    | .resizing fd => s.manager.fdContexts.length ≤ fd * 3 / 2
    | _ => True
  | _ => True

structure Sound (tickleFd : Nat) (s : Adders φ κ) : Prop where
  manager : IOManager.Sound tickleFd s.manager
  resizing : ∀ thread fd, s.pc thread = .resizing fd → 32 ≤ fd
  fetched : ∀ thread fd ptr, s.pc thread = .fetched fd ptr →
    ptr = fd ∧ fd < s.manager.heap.length

theorem Sound.length (tickleFd : Nat) (s : Adders φ κ) (hs : Sound tickleFd s) :
    s.manager.fdContexts.length = s.manager.heap.length := by
  rw [hs.manager.accounts.table, List.length_range]

theorem Sound.goto (tickleFd : Nat) (s : Adders φ κ) (hs : Sound tickleFd s) (thread : Nat)
    (pc : AddPc) (hresizing : ∀ fd, pc = .resizing fd → 32 ≤ fd)
    (hfetched : ∀ fd ptr, pc = .fetched fd ptr → ptr = fd ∧ fd < s.manager.heap.length) :
    Sound tickleFd (s.goto thread pc) := by
  constructor
  · exact hs.manager
  · intro other fd hpc
    by_cases heq : other = thread
    · simp only [Adders.goto, if_pos heq] at hpc
      exact hresizing fd hpc
    · simp only [Adders.goto, if_neg heq] at hpc
      exact hs.resizing other fd hpc
  · intro other fd ptr hpc
    by_cases heq : other = thread
    · simp only [Adders.goto, if_pos heq] at hpc
      exact hfetched fd ptr hpc
    · simp only [Adders.goto, if_neg heq] at hpc
      exact hs.fetched other fd ptr hpc

theorem Sound.with_manager (tickleFd : Nat) (s : Adders φ κ) (hs : Sound tickleFd s)
    (manager : IOManager φ κ) (hmanager : IOManager.Sound tickleFd manager)
    (hextends : s.manager.fdContexts <+: manager.fdContexts) :
    Sound tickleFd { s with manager := manager } := by
  have hle := hextends.length_le
  rw [hs.length tickleFd s, hmanager.accounts.table, List.length_range] at hle
  constructor
  · exact hmanager
  · exact hs.resizing
  · intro thread fd ptr hpc
    obtain ⟨heq, hlt⟩ := hs.fetched thread fd ptr hpc
    exact ⟨heq, Nat.lt_of_lt_of_le hlt hle⟩

theorem step_cases (s s' : Adders φ κ) (label : Label φ κ) (hstep : s.step label = some s') :
    (∃ thread fd, label = .test thread fd ∧
        ((∃ ptr, s.manager.fetch fd = some ptr ∧ s' = s.goto thread (.fetched fd ptr)) ∨
          s.manager.fetch fd = none ∧ s' = s.goto thread (.resizing fd))) ∨
      (∃ thread fd ptr, label = .resize thread ∧ s.pc thread = .resizing fd ∧
        (s.manager.grow fd).fetch fd = some ptr ∧
        s' = { s with manager := s.manager.grow fd }.goto thread (.fetched fd ptr)) ∨
      (∃ thread event cb self exec scheduler fails fd ptr result manager,
        label = .register thread event cb self exec scheduler fails ∧
        s.pc thread = .fetched fd ptr ∧
        s.manager.addEventLocked ptr fd event cb self exec scheduler fails =
          .ok (result, manager) ∧
        s' = { s with manager := manager }.goto thread .out) ∨
      ∃ call manager, label = .call call ∧ s.manager.step call = some manager ∧
        s' = { s with manager := manager } := by
  cases label with
  | test thread fd =>
    simp only [step] at hstep
    split at hstep
    · split at hstep
      · rename_i ptr hfetch
        cases hstep
        exact .inl ⟨thread, fd, rfl, .inl ⟨ptr, hfetch, rfl⟩⟩
      · rename_i hfetch
        cases hstep
        exact .inl ⟨thread, fd, rfl, .inr ⟨hfetch, rfl⟩⟩
    · cases hstep
  | resize thread =>
    simp only [step] at hstep
    split at hstep
    · rename_i fd hpc
      split at hstep
      · rename_i ptr hfetch
        cases hstep
        exact .inr (.inl ⟨thread, fd, ptr, rfl, hpc, hfetch, rfl⟩)
      · cases hstep
    · cases hstep
  | register thread event cb self exec scheduler fails =>
    simp only [step] at hstep
    split at hstep
    · rename_i fd ptr hpc
      split at hstep
      · rename_i result manager hok
        cases hstep
        exact .inr (.inr (.inl ⟨thread, event, cb, self, exec, scheduler, fails, fd, ptr, result,
          manager, rfl, hpc, hok, rfl⟩))
      · cases hstep
    · cases hstep
  | call label =>
    cases label with
    | addEvent fd event cb self exec scheduler fails => cases hstep
    | _ =>
      obtain ⟨manager, hmanager, rfl⟩ := Option.map_eq_some_iff.mp hstep
      exact .inr (.inr (.inr ⟨_, manager, rfl, hmanager, rfl⟩))

theorem step_sound (tickleFd : Nat) (s : Adders φ κ) (label : Label φ κ) (s' : Adders φ κ)
    (hs : Sound tickleFd s) (hgrows : s.Grows label) (hstep : s.step label = some s') :
    Sound tickleFd s' ∧ s.manager.fdContexts <+: s'.manager.fdContexts := by
  rcases step_cases s s' label hstep with
    ⟨thread, fd, rfl, ⟨ptr, hfetch, rfl⟩ | ⟨hfetch, rfl⟩⟩ |
    ⟨thread, fd, ptr, rfl, hpc, hfetch, rfl⟩ |
    ⟨thread, event, cb, self, exec, scheduler, fails, fd, ptr, result, manager, rfl, hpc, hok,
      rfl⟩ |
    ⟨call, manager, rfl, hmanager, rfl⟩
  · refine ⟨hs.goto tickleFd s thread _ (fun _ h => nomatch h) ?_, List.prefix_rfl⟩
    intro fd' ptr' hpc
    cases hpc
    obtain ⟨heq, ctx, hctx⟩ := IOManager.heap_of_fetch s.manager hs.manager.accounts fd ptr hfetch
    exact ⟨heq, (List.getElem?_eq_some_iff.mp hctx).1⟩
  · refine ⟨hs.goto tickleFd s thread _ ?_ (fun _ _ h => nomatch h), List.prefix_rfl⟩
    intro fd' hpc
    cases hpc
    have hout := List.getElem?_eq_none_iff.mp hfetch
    rw [hs.length tickleFd s] at hout
    exact Nat.le_trans hs.manager.size hout
  · simp only [Grows, hpc] at hgrows
    rw [hs.length tickleFd s] at hgrows
    have hfd := hs.resizing thread fd hpc
    obtain ⟨hlength, hgrown⟩ := IOManager.grow_sound tickleFd s.manager hs.manager fd hgrows
    refine ⟨?_, hgrown.table⟩
    apply (hs.with_manager tickleFd s _ hgrown.sound hgrown.table).goto
    · exact fun _ h => nomatch h
    · intro fd' ptr' hpc'
      cases hpc'
      refine ⟨IOManager.fetch_eq _ hgrown.sound.accounts fd ptr hfetch, ?_⟩
      simp only [hlength]
      omega
  · obtain ⟨rfl, hlt⟩ := hs.fetched thread fd ptr hpc
    rcases IOManager.addEventLocked_sound tickleFd s.manager hs.manager ptr event cb self exec
        scheduler fails hlt with herror | ⟨_, added, hadded, hafter⟩
    · rw [herror] at hok
      cases hok
    · rw [hadded] at hok
      cases hok
      refine ⟨?_, hafter.table⟩
      apply (hs.with_manager tickleFd s manager hafter.sound hafter.table).goto
      · exact fun _ h => nomatch h
      · exact fun _ _ h => nomatch h
  · have hafter := IOManager.step_sound tickleFd s.manager call manager hs.manager hmanager
    exact ⟨hs.with_manager tickleFd s manager hafter.sound hafter.table, hafter.table⟩

theorem init_sound (tickleFd : Nat) : Sound tickleFd (init tickleFd : Adders φ κ) :=
  ⟨IOManager.new_sound tickleFd, (fun _ _ h => nomatch h), (fun _ _ _ h => nomatch h)⟩

theorem grows_of_extends (s s' : Adders φ κ) (label : Label φ κ) (hstep : s.step label = some s')
    (hextends : s.manager.fdContexts <+: s'.manager.fdContexts) : s.Grows label := by
  cases label with
  | resize thread =>
    rcases step_cases s s' _ hstep with
      ⟨_, _, h, _⟩ | ⟨thread', fd, ptr, h, hpc, hfetch, rfl⟩ |
      ⟨_, _, _, _, _, _, _, _, _, _, _, h, _⟩ | ⟨_, _, h, _⟩
    · cases h
    · cases h
      simp only [Grows, hpc]
      by_contra hshrinks
      have hle := hextends.length_le
      simp only [goto, IOManager.grow, IOManager.contextResize] at hle
      rw [if_pos (by omega)] at hle
      simp only [List.length_take] at hle
      omega
    · cases h
    · cases h
  | _ => trivial

theorem reachable_of_issued (tickleFd : Nat) (s : Adders φ κ) (hs : Sound tickleFd s)
    (w : Waiter φ κ) (hissued : w ∈ s.manager.issued) :
    w ∈ s.manager.scheduled.map Prod.snd ∨ w ∈ s.manager.dropped ∨
      ∃ ptr ctx, s.manager.fetch w.fd = some ptr ∧ s.manager.heap[ptr]? = some ctx ∧
        ctx.events &&& w.event.mask ≠ 0 ∧ ctx.waiter w.event = some w := by
  have haccounts := hs.manager.accounts
  have hplace := haccounts.custody.mem_iff.mpr hissued
  rw [List.mem_append, List.mem_append] at hplace
  rcases hplace with hregistered | hscheduled | hdropped
  · right
    right
    obtain ⟨ctx, hctx, hw⟩ := List.mem_flatMap.mp hregistered
    obtain ⟨ptr, hptr⟩ := List.mem_iff_getElem?.mp hctx
    have hwaiter : ∃ event, ctx.waiter event = some w := by
      unfold FdContext.waiters at hw
      rw [List.mem_append, Option.mem_toList, Option.mem_toList] at hw
      rcases hw with hread | hwrite
      · exact ⟨.read, hread⟩
      · exact ⟨.write, hwrite⟩
    obtain ⟨event, hevent⟩ := hwaiter
    have hfields : w.fd = ptr ∧ w.event = event := by
      obtain ⟨task, _, heq⟩ := Option.map_eq_some_iff.mp hevent
      rw [← heq]
      exact ⟨haccounts.fd ptr ctx hptr, rfl⟩
    have hset : ctx.events &&& event.mask ≠ 0 := by
      intro hclear
      have hblank := (haccounts.consistent ptr ctx hptr).blank event hclear
      rw [FdContext.waiter, hblank.task_eq_none] at hevent
      cases hevent
    refine ⟨ptr, ctx, ?_, hptr, ?_, ?_⟩
    · rw [hfields.1]
      exact IOManager.fetch_of_lt s.manager haccounts ptr (List.getElem?_eq_some_iff.mp hptr).1
    · rw [hfields.2]
      exact hset
    · rw [hfields.2]
      exact hevent
  · exact .inl hscheduled
  · exact .inr (.inl hdropped)

/-- The table only ever grows at its end if and only if every resize meets
`Grows`; and then whatever a completed `addEvent` registered is found by the
lookup of `delEvent`, `cancelEvent` and `cancelAll` until it is handed over or
dropped. -/
theorem contexts_kept_iff_grows (tickleFd : Nat) (labels : List (Label φ κ)) (s : Adders φ κ)
    (hrun : Lib.run step (init tickleFd) labels = some s) :
    ((∀ before between after earlier later, labels = before ++ (between ++ after) →
        Lib.run step (init tickleFd) before = some earlier →
        Lib.run step earlier between = some later →
        earlier.manager.fdContexts <+: later.manager.fdContexts) ↔
      Lib.Meets step Grows (init tickleFd) labels) ∧
    (Lib.Meets step Grows (init tickleFd) labels →
      ∀ w ∈ s.manager.issued, w ∈ s.manager.scheduled.map Prod.snd ∨ w ∈ s.manager.dropped ∨
        ∃ ptr ctx, s.manager.fetch w.fd = some ptr ∧ s.manager.heap[ptr]? = some ctx ∧
          ctx.events &&& w.event.mask ≠ 0 ∧ ctx.waiter w.event = some w) := by
  have hpreserved : ∀ (s : Adders φ κ) label s', Sound tickleFd s → s.Grows label →
      s.step label = some s' → Sound tickleFd s' :=
    fun s label s' hs hgrows hstep => (step_sound tickleFd s label s' hs hgrows hstep).1
  refine ⟨⟨?_, ?_⟩, ?_⟩
  · intro hkept
    apply Lib.meets_of_split
    intro before label after earlier hsplit hbefore
    have hwhole := hrun
    rw [hsplit, Lib.run_append, hbefore, Option.bind_some] at hwhole
    cases hstep : earlier.step label with
    | none =>
      simp only [Lib.run, hstep] at hwhole
      cases hwhole
    | some later =>
      apply grows_of_extends earlier later label hstep
      apply hkept before [label] after earlier later hsplit hbefore
      simp only [Lib.run, hstep]
  · intro hmeets before between after earlier later hsplit hbefore hbetween
    rw [hsplit] at hmeets
    obtain ⟨hfirst, hrest⟩ := hmeets.of_append _ before (between ++ after) _ earlier hbefore
    have hmid := (hrest.of_append _ between after earlier later hbetween).1
    have hearlier := Lib.run_invariant_of_meets Grows (Sound tickleFd) hpreserved before
      (init tickleFd) earlier (init_sound tickleFd) hfirst hbefore
    exact Lib.run_monotone_of_meets Grows (Sound tickleFd)
      (fun s s' => s.manager.fdContexts <+: s'.manager.fdContexts) (fun _ => List.prefix_rfl)
      (fun _ _ _ h₁ h₂ => h₁.trans h₂) (step_sound tickleFd) between earlier later hearlier hmid
      hbetween
  · intro hmeets w hissued
    have hs := Lib.run_invariant_of_meets Grows (Sound tickleFd) hpreserved labels
      (init tickleFd) s (init_sound tickleFd) hmeets hrun
    exact reachable_of_issued tickleFd s hs w hissued

/-- Two growers in the order of their descriptors: both waiters stay in reach. -/
theorem contexts_kept_iff_grows_ascending :
    ∃ s : Adders Nat Nat,
      Lib.run step (init 5) [.test 0 33, .test 1 36, .resize 0, .resize 1,
        .register 1 .read none 1 true 0 false, .register 0 .read none 2 true 0 false] = some s ∧
        ∀ w ∈ s.manager.issued, w ∈ s.manager.scheduled.map Prod.snd ∨ w ∈ s.manager.dropped ∨
          ∃ ptr ctx, s.manager.fetch w.fd = some ptr ∧ s.manager.heap[ptr]? = some ctx ∧
            ctx.events &&& w.event.mask ≠ 0 ∧ ctx.waiter w.event = some w := by
  obtain ⟨s, hrun⟩ : ∃ s : Adders Nat Nat,
      Lib.run step (init 5) [.test 0 33, .test 1 36, .resize 0, .resize 1,
        .register 1 .read none 1 true 0 false, .register 0 .read none 2 true 0 false] = some s :=
    Option.isSome_iff_exists.mp (by decide)
  refine ⟨s, hrun, (contexts_kept_iff_grows 5 _ s hrun).2 ?_⟩
  refine ⟨trivial, trivial, ?_, ?_, trivial, trivial, trivial⟩
  · exact (by decide : (32 : Nat) ≤ 33 * 3 / 2)
  · exact (by decide : (49 : Nat) ≤ 36 * 3 / 2)

/-- Thread 0 has tested the table for descriptor 33; thread 1 grows it for 52
and registers there; the resize of thread 0 then drops the context of 52. -/
theorem addEvent_shrinks_table :
    (Lib.run step (init 5 : Adders Nat Nat) [.test 0 33, .test 1 52, .resize 1,
        .register 1 .read none 1 true 0 false]).map
        (fun s => (s.manager.fdContexts.length, s.manager.fetch 52)) = some (78, some 52) ∧
      (Lib.run step (init 5 : Adders Nat Nat) [.test 0 33, .test 1 52, .resize 1,
        .register 1 .read none 1 true 0 false, .resize 0]).map
        (fun s => (s.manager.fdContexts.length, s.manager.fetch 52,
          s.manager.issued.map Waiter.fd, s.manager.registered.map Waiter.fd,
          (s.manager.cancelEvent 52 .read false).toOption.map Prod.fst)) =
        some (49, none, [52], [52], some false) := by
  decide

end Adders
end Sylar
