import Sylar.IOManager.Events
import Sylar.Lib.Run
import Sylar.Lib.Slots

/-! The counter, the masks with their contexts, and the kernel's table are three
records of one fact. `Accounts` ties the first two together and says where every
waiter is; `Mirrored` ties the masks to the kernel. Inside an operation the
kernel's table is ahead of the mask, so the two are kept apart. -/
namespace Sylar

variable {φ κ : Type}

def bitsSet (mask : Mask) : Nat :=
  (List.range 32).countP mask.getLsbD

namespace EventContext

def Armed (entry : EventContext φ κ) : Prop :=
  entry.scheduler.isSome = true ∧ entry.cb.isSome = !entry.fiber.isSome

def Blank (entry : EventContext φ κ) : Prop :=
  entry.scheduler = none ∧ entry.fiber = none ∧ entry.cb = none

theorem Blank.task_eq_none (entry : EventContext φ κ) (hblank : entry.Blank) :
    entry.task = none := by
  simp [task, hblank.2.1, hblank.2.2]

theorem Armed.exists_task (entry : EventContext φ κ) (harmed : entry.Armed) :
    ∃ task, entry.task = some task := by
  unfold task
  cases hcb : entry.cb with
  | some cb => exact ⟨.cb cb, rfl⟩
  | none =>
    have hfiber := harmed.2
    rw [hcb] at hfiber
    obtain ⟨fiber, hfiber⟩ := Option.isSome_iff_exists.mp (by simpa using hfiber.symm)
    exact ⟨.fiber fiber, by rw [hfiber]; rfl⟩

end EventContext

def KnownMask (mask : Mask) : Prop :=
  mask = 0x0#32 ∨ mask = 0x1#32 ∨ mask = 0x4#32 ∨ mask = 0x5#32

theorem KnownMask.clear (mask : Mask) (event : Event) (hknown : KnownMask mask)
    (hset : mask &&& event.mask ≠ 0) :
    KnownMask (mask &&& ~~~event.mask) ∧ bitsSet (mask &&& ~~~event.mask) + 1 = bitsSet mask ∧
      (mask &&& ~~~event.mask) &&& event.mask = 0 ∧
      ∀ other, other ≠ event → (mask &&& ~~~event.mask) &&& other.mask = mask &&& other.mask := by
  unfold KnownMask at *
  rcases hknown with rfl | rfl | rfl | rfl <;> cases event <;>
    first
      | exact absurd (by decide) hset
      | refine ⟨by decide, by decide, by decide, ?_⟩
        intro other hne
        cases other <;> first | contradiction | decide

theorem KnownMask.insert (mask : Mask) (event : Event) (hknown : KnownMask mask)
    (hclear : mask &&& event.mask = 0) :
    KnownMask (mask ||| event.mask) ∧ bitsSet (mask ||| event.mask) = bitsSet mask + 1 ∧
      (mask ||| event.mask) &&& event.mask ≠ 0 ∧
      ∀ other, other ≠ event → (mask ||| event.mask) &&& other.mask = mask &&& other.mask := by
  unfold KnownMask at *
  rcases hknown with rfl | rfl | rfl | rfl <;> cases event <;>
    first
      | exact absurd hclear (by decide)
      | refine ⟨by decide, by decide, by decide, ?_⟩
        intro other hne
        cases other <;> first | contradiction | decide

namespace FdContext

structure Consistent (ctx : FdContext φ κ) : Prop where
  known : KnownMask ctx.events
  armed : ∀ event, ctx.events &&& event.mask ≠ 0 → (ctx.getContext event).Armed
  blank : ∀ event, ctx.events &&& event.mask = 0 → (ctx.getContext event).Blank

def waiters (ctx : FdContext φ κ) : List (Waiter φ κ) :=
  (ctx.waiter .read).toList ++ (ctx.waiter .write).toList

@[simp] theorem getContext_setContext (ctx : FdContext φ κ) (event : Event)
    (value : EventContext φ κ) : (ctx.setContext event value).getContext event = value := by
  cases event <;> rfl

theorem getContext_setContext_ne (ctx : FdContext φ κ) (event other : Event)
    (value : EventContext φ κ) (hne : other ≠ event) :
    (ctx.setContext event value).getContext other = ctx.getContext other := by
  cases event <;> cases other <;> first | contradiction | rfl

@[simp] theorem setContext_fd (ctx : FdContext φ κ) (event : Event) (value : EventContext φ κ) :
    (ctx.setContext event value).fd = ctx.fd := by
  cases event <;> rfl

@[simp] theorem setContext_events (ctx : FdContext φ κ) (event : Event)
    (value : EventContext φ κ) : (ctx.setContext event value).events = ctx.events := by
  cases event <;> rfl

/-- `after` is `ctx` with the bit and the context of `event` taken out. -/
structure Cleared (ctx : FdContext φ κ) (event : Event) (after : FdContext φ κ) : Prop where
  fd : after.fd = ctx.fd
  events : after.events = ctx.events &&& ~~~event.mask
  blank : (after.getContext event).Blank
  other : ∀ other, other ≠ event → after.getContext other = ctx.getContext other

/-- `after` is `ctx` with the bit of `event` set and its context filled in. -/
structure Filled (ctx : FdContext φ κ) (event : Event) (after : FdContext φ κ) : Prop where
  fd : after.fd = ctx.fd
  events : after.events = ctx.events ||| event.mask
  armed : (after.getContext event).Armed
  other : ∀ other, other ≠ event → after.getContext other = ctx.getContext other

theorem waiters_perm_of_agree (more less : FdContext φ κ) (event : Event) (w : Waiter φ κ)
    (hmore : more.waiter event = some w) (hless : less.waiter event = none)
    (hother : ∀ other, other ≠ event → more.waiter other = less.waiter other) :
    more.waiters.Perm (w :: less.waiters) := by
  unfold waiters
  cases event with
  | read =>
    rw [hmore, hless, hother .write (by decide)]
    exact List.Perm.refl _
  | write =>
    rw [hmore, hless, hother .read (by decide), Option.toList_none, List.append_nil]
    exact List.perm_append_singleton w _

theorem Cleared.consistent (ctx after : FdContext φ κ) (event : Event) (hctx : ctx.Consistent)
    (hset : ctx.events &&& event.mask ≠ 0) (hcleared : Cleared ctx event after) :
    after.Consistent := by
  obtain ⟨hknown, _, hgone, hrest⟩ := KnownMask.clear ctx.events event hctx.known hset
  rw [← hcleared.events] at hknown hgone hrest
  constructor
  · exact hknown
  · intro other hother
    have hne : other ≠ event := by
      rintro rfl
      exact hother hgone
    rw [hcleared.other other hne]
    rw [hrest other hne] at hother
    exact hctx.armed other hother
  · intro other hother
    by_cases heq : other = event
    · rw [heq]
      exact hcleared.blank
    · rw [hcleared.other other heq]
      rw [hrest other heq] at hother
      exact hctx.blank other hother

theorem Cleared.waiters_perm (ctx after : FdContext φ κ) (event : Event) (w : Waiter φ κ)
    (hwaiter : ctx.waiter event = some w) (hcleared : Cleared ctx event after) :
    ctx.waiters.Perm (w :: after.waiters) := by
  apply waiters_perm_of_agree ctx after event w hwaiter
  · unfold waiter
    rw [EventContext.Blank.task_eq_none _ hcleared.blank]
    rfl
  · intro other hne
    unfold waiter
    rw [hcleared.other other hne, hcleared.fd]

theorem Filled.consistent (ctx after : FdContext φ κ) (event : Event) (hctx : ctx.Consistent)
    (hclear : ctx.events &&& event.mask = 0) (hfilled : Filled ctx event after) :
    after.Consistent := by
  obtain ⟨hknown, _, hset, hrest⟩ := KnownMask.insert ctx.events event hctx.known hclear
  rw [← hfilled.events] at hknown hset hrest
  constructor
  · exact hknown
  · intro other hother
    by_cases heq : other = event
    · rw [heq]
      exact hfilled.armed
    · rw [hfilled.other other heq]
      rw [hrest other heq] at hother
      exact hctx.armed other hother
  · intro other hother
    have hne : other ≠ event := by
      rintro rfl
      exact hset hother
    rw [hfilled.other other hne]
    rw [hrest other hne] at hother
    exact hctx.blank other hother

theorem Filled.waiters_perm (ctx after : FdContext φ κ) (event : Event) (w : Waiter φ κ)
    (hctx : ctx.Consistent) (hclear : ctx.events &&& event.mask = 0)
    (hwaiter : after.waiter event = some w) (hfilled : Filled ctx event after) :
    after.waiters.Perm (w :: ctx.waiters) := by
  apply waiters_perm_of_agree after ctx event w hwaiter
  · unfold waiter
    rw [EventContext.Blank.task_eq_none _ (hctx.blank event hclear)]
    rfl
  · intro other hne
    unfold waiter
    rw [hfilled.other other hne, hfilled.fd]

theorem triggerEvent_spec (ctx : FdContext φ κ) (event : Event) (hctx : ctx.Consistent) :
    (ctx.events &&& event.mask = 0 ∧ ctx.triggerEvent event = .error .assertion) ∨
      ctx.events &&& event.mask ≠ 0 ∧ ∃ scheduler w after,
        ctx.triggerEvent event = .ok ([(scheduler, w)], after) ∧
          ctx.waiter event = some w ∧ Cleared ctx event after := by
  by_cases hset : ctx.events &&& event.mask = 0
  · exact .inl ⟨hset, by simp [triggerEvent, hset]⟩
  · right
    have harmed := hctx.armed event hset
    obtain ⟨scheduler, hscheduler⟩ := Option.isSome_iff_exists.mp harmed.1
    obtain ⟨task, htask⟩ := harmed.exists_task
    refine ⟨hset, scheduler, ⟨(ctx.getContext event).ticket, ctx.fd, event, task⟩, ?_⟩
    refine ⟨_, by simp only [triggerEvent, if_neg hset, hscheduler, waiter, htask]; rfl, ?_, ?_⟩
    · simp [waiter, htask]
    · constructor
      · exact setContext_fd ctx event _
      · rfl
      · have hxor := harmed.2
        cases hcb : (ctx.getContext event).cb with
        | some cb =>
          rw [hcb] at hxor
          have hfiber : (ctx.getContext event).fiber = none := by simpa using hxor.symm
          cases event <;> exact ⟨rfl, hfiber, rfl⟩
        | none => cases event <;> exact ⟨rfl, rfl, rfl⟩
      · intro other hne
        exact getContext_setContext_ne ctx event other _ hne

theorem resetContext_cleared (ctx : FdContext φ κ) (event : Event) :
    Cleared ctx event
      ({ ctx with events := ctx.events &&& ~~~event.mask }.resetContext event) := by
  constructor
  · exact setContext_fd _ event _
  · exact setContext_events _ event _
  · unfold resetContext
    rw [getContext_setContext]
    exact ⟨rfl, rfl, rfl⟩
  · intro other hne
    unfold resetContext
    rw [getContext_setContext_ne _ event other _ hne]
    cases other <;> rfl

end FdContext

namespace IOManager

def registered (s : IOManager φ κ) : List (Waiter φ κ) :=
  s.heap.flatMap FdContext.waiters

structure Accounts (s : IOManager φ κ) : Prop where
  table : s.fdContexts = List.range s.heap.length
  fd : ∀ (ptr : Nat) (ctx : FdContext φ κ), s.heap[ptr]? = some ctx → ctx.fd = ptr
  consistent : ∀ (ptr : Nat) (ctx : FdContext φ κ), s.heap[ptr]? = some ctx → ctx.Consistent
  pending : s.pendingEventCount = ((s.heap.map fun ctx => bitsSet ctx.events).sum : Nat)
  tickets : s.issued.map Waiter.ticket = List.range s.issued.length
  custody : (s.registered ++ (s.scheduled.map Prod.snd ++ s.dropped)).Perm s.issued

/-- The kernel holds the mask of every descriptor but that of the pipe, which
`addEvent` cannot get hold of. -/
structure Mirrored (tickleFd : Nat) (s : IOManager φ κ) : Prop where
  tickle : s.epoll tickleFd = some ⟨EPOLLIN ||| EPOLLET, tickleFd⟩
  quiet : ∀ ctx, s.heap[tickleFd]? = some ctx → ctx.events = 0
  other : ∀ fd, fd ≠ tickleFd → s.epoll fd =
    match s.heap[fd]? with
    | none => none
    | some ctx => if ctx.events = 0 then none else some ⟨EPOLLET ||| ctx.events, fd⟩

/-- Every fiber that waits in a context of `s'` waited there in `s`, unless it is
`allowed` to be new. -/
def Gains (allowed : Nat → Event → φ → Prop) (s s' : IOManager φ κ) : Prop :=
  ∀ (ptr : Nat) (ctx' : FdContext φ κ) (event : Event) (fiber : φ), s'.heap[ptr]? = some ctx' →
    (ctx'.getContext event).fiber = some fiber →
    allowed ptr event fiber ∨
      ∃ ctx, s.heap[ptr]? = some ctx ∧ (ctx.getContext event).fiber = some fiber

def NoFiber (_ : Nat) (_ : Event) (_ : φ) : Prop :=
  False

/-- An operation has rewritten the context at `ptr`, which now has `events`. -/
structure Updated (s : IOManager φ κ) (ptr : Nat) (events : Mask) (s' : IOManager φ κ) :
    Prop where
  accounts : Accounts s'
  kernel : s'.epoll = s.epoll
  table : s'.fdContexts = s.fdContexts
  there : ∃ ctx, s'.heap[ptr]? = some ctx ∧ ctx.events = events
  other : ∀ other : Nat, other ≠ ptr → s'.heap[other]? = s.heap[other]?
  gains : Gains NoFiber s s'

theorem Gains.refl (allowed : Nat → Event → φ → Prop) (s : IOManager φ κ) : Gains allowed s s :=
  fun _ ctx' _ _ hctx hfiber => .inr ⟨ctx', hctx, hfiber⟩

theorem Gains.trans (allowed : Nat → Event → φ → Prop) (s s₁ s₂ : IOManager φ κ)
    (h₁ : Gains allowed s s₁) (h₂ : Gains allowed s₁ s₂) : Gains allowed s s₂ := by
  intro ptr ctx event fiber hctx hfiber
  rcases h₂ ptr ctx event fiber hctx hfiber with hallowed | ⟨mid, hmid, hmidFiber⟩
  · exact .inl hallowed
  · exact h₁ ptr mid event fiber hmid hmidFiber

theorem Gains.set (allowed : Nat → Event → φ → Prop) (s s' : IOManager φ κ) (ptr : Nat)
    (ctx after : FdContext φ κ) (hctx : s.heap[ptr]? = some ctx)
    (hheap : s'.heap = s.heap.set ptr after)
    (hfibers : ∀ event fiber, (after.getContext event).fiber = some fiber →
      allowed ptr event fiber ∨ (ctx.getContext event).fiber = some fiber) :
    Gains allowed s s' := by
  intro other current event fiber hcurrent hfiber
  rw [hheap] at hcurrent
  by_cases heq : ptr = other
  · subst heq
    rw [List.getElem?_set_self (List.getElem?_eq_some_iff.mp hctx).1] at hcurrent
    cases hcurrent
    rcases hfibers event fiber hfiber with hallowed | hold
    · exact .inl hallowed
    · exact .inr ⟨ctx, hctx, hold⟩
  · rw [List.getElem?_set_ne heq] at hcurrent
    exact .inr ⟨current, hcurrent, hfiber⟩

theorem Gains.clear (s s' : IOManager φ κ) (ptr : Nat) (event : Event) (ctx after : FdContext φ κ)
    (hctx : s.heap[ptr]? = some ctx) (hheap : s'.heap = s.heap.set ptr after)
    (hcleared : FdContext.Cleared ctx event after) : Gains NoFiber s s' := by
  apply Gains.set NoFiber s s' ptr ctx after hctx hheap
  intro other fiber hfiber
  by_cases heq : other = event
  · rw [heq, hcleared.blank.2.1] at hfiber
    cases hfiber
  · rw [hcleared.other other heq] at hfiber
    exact .inr hfiber

theorem fetch_eq (s : IOManager φ κ) (hs : Accounts s) (fd ptr : Nat)
    (hfetch : s.fetch fd = some ptr) : ptr = fd := by
  unfold fetch at hfetch
  rw [hs.table] at hfetch
  obtain ⟨hlt, heq⟩ := List.getElem?_eq_some_iff.mp hfetch
  rw [List.getElem_range] at heq
  exact heq.symm

theorem Accounts.heap_set (s : IOManager φ κ) (hs : Accounts s) (ptr : Nat)
    (ctx after : FdContext φ κ) (hctx : s.heap[ptr]? = some ctx) (hfd : after.fd = ctx.fd)
    (hafter : after.Consistent) :
    (∀ (other : Nat) (current : FdContext φ κ),
        (s.heap.set ptr after)[other]? = some current → current.fd = other) ∧
      ∀ (other : Nat) (current : FdContext φ κ),
        (s.heap.set ptr after)[other]? = some current → current.Consistent := by
  have hlt : ptr < s.heap.length := (List.getElem?_eq_some_iff.mp hctx).1
  constructor
  · intro other current hcurrent
    by_cases heq : ptr = other
    · subst heq
      rw [List.getElem?_set_self hlt] at hcurrent
      cases hcurrent
      rw [hfd]
      exact hs.fd ptr ctx hctx
    · rw [List.getElem?_set_ne heq] at hcurrent
      exact hs.fd other current hcurrent
  · intro other current hcurrent
    by_cases heq : ptr = other
    · subst heq
      rw [List.getElem?_set_self hlt] at hcurrent
      cases hcurrent
      exact hafter
    · rw [List.getElem?_set_ne heq] at hcurrent
      exact hs.consistent other current hcurrent

theorem Accounts.clear (s : IOManager φ κ) (hs : Accounts s) (ptr : Nat) (event : Event)
    (ctx after : FdContext φ κ) (w : Waiter φ κ) (hctx : s.heap[ptr]? = some ctx)
    (hset : ctx.events &&& event.mask ≠ 0) (hwaiter : ctx.waiter event = some w)
    (hcleared : FdContext.Cleared ctx event after) (scheduled : List (Nat × Waiter φ κ))
    (dropped : List (Waiter φ κ))
    (hlogs : (scheduled.map Prod.snd ++ dropped).Perm
      (w :: (s.scheduled.map Prod.snd ++ s.dropped))) :
    Accounts { s.store ptr after with
      pendingEventCount := s.pendingEventCount - 1
      scheduled := scheduled
      dropped := dropped } := by
  have hconsistent := hs.consistent ptr ctx hctx
  have hafter := hcleared.consistent ctx after event hconsistent hset
  have hbits := (KnownMask.clear ctx.events event hconsistent.known hset).2.1
  rw [← hcleared.events] at hbits
  have hheap := hs.heap_set s ptr ctx after hctx hcleared.fd hafter
  constructor
  · simpa [store] using hs.table
  · exact hheap.1
  · exact hheap.2
  · have hsum := Lib.sum_map_set (fun ctx => bitsSet ctx.events) s.heap ptr ctx after hctx
    have hpending := hs.pending
    simp only [store]
    omega
  · exact hs.tickets
  · classical
    rw [List.perm_iff_count]
    intro v
    have hmoved := (Lib.flatMap_set_perm FdContext.waiters s.heap ptr ctx after hctx).count_eq v
    have hwaiters := (hcleared.waiters_perm ctx after event w hwaiter).count_eq v
    have hcustody := hs.custody.count_eq v
    have hlogs := hlogs.count_eq v
    simp only [registered, store, List.count_append, List.count_cons] at *
    omega

theorem Accounts.fill (s : IOManager φ κ) (hs : Accounts s) (ptr : Nat) (event : Event)
    (ctx after : FdContext φ κ) (w : Waiter φ κ) (hctx : s.heap[ptr]? = some ctx)
    (hclear : ctx.events &&& event.mask = 0) (hwaiter : after.waiter event = some w)
    (hticket : w.ticket = s.issued.length) (hfilled : FdContext.Filled ctx event after) :
    Accounts (s.register ptr after w) := by
  have hconsistent := hs.consistent ptr ctx hctx
  have hafter := hfilled.consistent ctx after event hconsistent hclear
  have hbits := (KnownMask.insert ctx.events event hconsistent.known hclear).2.1
  rw [← hfilled.events] at hbits
  have hheap := hs.heap_set s ptr ctx after hctx hfilled.fd hafter
  constructor
  · simpa [register, store] using hs.table
  · exact hheap.1
  · exact hheap.2
  · have hsum := Lib.sum_map_set (fun ctx => bitsSet ctx.events) s.heap ptr ctx after hctx
    have hpending := hs.pending
    simp only [register, store]
    omega
  · simp only [register]
    rw [List.map_append, hs.tickets, List.length_append, List.length_singleton, List.range_succ,
      List.map_singleton, hticket]
  · classical
    rw [List.perm_iff_count]
    intro v
    have hmoved := (Lib.flatMap_set_perm FdContext.waiters s.heap ptr ctx after hctx).count_eq v
    have hwaiters :=
      (hfilled.waiters_perm ctx after event w hconsistent hclear hwaiter).count_eq v
    have hcustody := hs.custody.count_eq v
    simp only [registered, register, store, List.count_append, List.count_cons, List.count_nil] at *
    omega

theorem Accounts.with_epoll (s : IOManager φ κ) (hs : Accounts s) (epoll : Nat → Option Interest) :
    Accounts { s with epoll := epoll } :=
  ⟨hs.table, hs.fd, hs.consistent, hs.pending, hs.tickets, hs.custody⟩

theorem store_there (s : IOManager φ κ) (ptr : Nat) (ctx after : FdContext φ κ)
    (hctx : s.heap[ptr]? = some ctx) : (s.store ptr after).heap[ptr]? = some after :=
  List.getElem?_set_self (List.getElem?_eq_some_iff.mp hctx).1

theorem store_other (s : IOManager φ κ) (ptr other : Nat) (after : FdContext φ κ)
    (hne : other ≠ ptr) : (s.store ptr after).heap[other]? = s.heap[other]? :=
  List.getElem?_set_ne hne.symm

theorem trigger_spec (s : IOManager φ κ) (hs : Accounts s) (ptr : Nat) (event : Event)
    (ctx : FdContext φ κ) (hctx : s.heap[ptr]? = some ctx) :
    (ctx.events &&& event.mask = 0 ∧ s.trigger ptr event = .error .assertion) ∨
      ctx.events &&& event.mask ≠ 0 ∧ ∃ s', s.trigger ptr event = .ok s' ∧
        Updated s ptr (ctx.events &&& ~~~event.mask) s' := by
  have hconsistent := hs.consistent ptr ctx hctx
  rcases ctx.triggerEvent_spec event hconsistent with
    ⟨hclear, herror⟩ | ⟨hset, scheduler, w, after, hok, hwaiter, hcleared⟩
  · left
    refine ⟨hclear, ?_⟩
    simp only [trigger, hctx, herror]
  · right
    refine ⟨hset, _, by simp only [trigger, hctx, hok]; rfl, ?_⟩
    constructor
    · apply hs.clear s ptr event ctx after w hctx hset hwaiter hcleared
      rw [List.map_append, List.append_assoc]
      exact List.perm_middle
    · rfl
    · rfl
    · exact ⟨after, store_there s ptr ctx after hctx, hcleared.events⟩
    · intro other hne
      exact store_other s ptr other after hne
    · exact Gains.clear s _ ptr event ctx after hctx rfl hcleared

theorem Updated.trans (s s₁ s₂ : IOManager φ κ) (ptr : Nat) (first second : Mask)
    (h₁ : Updated s ptr first s₁) (h₂ : Updated s₁ ptr second s₂) : Updated s ptr second s₂ where
  accounts := h₂.accounts
  kernel := h₂.kernel.trans h₁.kernel
  table := h₂.table.trans h₁.table
  there := h₂.there
  other := fun other hne => (h₂.other other hne).trans (h₁.other other hne)
  gains := h₁.gains.trans NoFiber s s₁ s₂ h₂.gains

def cut (events tested : Mask) (event : Event) : Mask :=
  if tested &&& event.mask ≠ 0 then events &&& ~~~event.mask else events

theorem triggerIf_spec (s : IOManager φ κ) (hs : Accounts s) (ptr : Nat) (tested : Mask)
    (event : Event) (ctx : FdContext φ κ) (hctx : s.heap[ptr]? = some ctx) :
    s.triggerIf ptr tested event = .error .assertion ∨
      ∃ s', s.triggerIf ptr tested event = .ok s' ∧
        Updated s ptr (cut ctx.events tested event) s' := by
  unfold triggerIf cut
  by_cases htested : tested &&& event.mask ≠ 0
  · rw [if_pos htested, if_pos htested]
    rcases trigger_spec s hs ptr event ctx hctx with ⟨_, herror⟩ | ⟨_, hok⟩
    · exact .inl herror
    · exact .inr hok
  · rw [if_neg htested, if_neg htested]
    exact .inr ⟨s, rfl, hs, rfl, rfl, ⟨ctx, hctx, rfl⟩, fun _ _ => rfl, Gains.refl NoFiber s⟩

theorem cut_all (events : Mask) (hknown : KnownMask events) :
    cut (cut events events .read) (cut events events .read) .write = 0 := by
  unfold KnownMask at hknown
  rcases hknown with rfl | rfl | rfl | rfl <;> decide

theorem realEvents_known (reported : Mask) : KnownMask (realEvents reported) := by
  unfold realEvents KnownMask
  simp only
  generalize (if reported &&& (EPOLLERR ||| EPOLLHUP) ≠ 0 then reported ||| EPOLLIN ||| EPOLLOUT
    else reported) = widened
  by_cases hin : widened &&& EPOLLIN ≠ 0
  · by_cases hout : widened &&& EPOLLOUT ≠ 0
    · rw [if_pos hin, if_pos hout]
      decide
    · rw [if_pos hin, if_neg hout]
      decide
  · by_cases hout : widened &&& EPOLLOUT ≠ 0
    · rw [if_neg hin, if_pos hout]
      decide
    · rw [if_neg hin, if_neg hout]
      decide

theorem cut_real (events real : Mask) (hevents : KnownMask events) (hreal : KnownMask real) :
    cut (cut events real .read) real .write = events &&& ~~~real := by
  unfold KnownMask at *
  rcases hevents with rfl | rfl | rfl | rfl <;> rcases hreal with rfl | rfl | rfl | rfl <;> decide

theorem epollCtl_some (table after : Nat → Option Interest) (op : EpollOp) (fd : Nat)
    (interest : Interest) (fails : Bool)
    (hctl : epollCtl table op fd interest fails = some after) :
    (table fd).isSome = !(op == .add) ∧ after fd = (if op = .del then none else some interest) ∧
      ∀ other, other ≠ fd → after other = table other := by
  unfold epollCtl at hctl
  split at hctl
  · cases hctl
  · rename_i hnot
    rw [not_or] at hnot
    have hstatus : (table fd).isSome = !(op == .add) := by
      cases hthere : (table fd).isSome <;> cases hadd : (op == .add) <;> simp_all
    refine ⟨hstatus, ?_⟩
    cases op with
    | del =>
      cases hctl
      exact ⟨if_pos rfl, fun other hne => if_neg hne⟩
    | add =>
      cases hctl
      exact ⟨if_pos rfl, fun other hne => if_neg hne⟩
    | mod =>
      cases hctl
      exact ⟨if_pos rfl, fun other hne => if_neg hne⟩

theorem Mirrored.set (tickleFd : Nat) (s s' : IOManager φ κ) (fd : Nat) (ctx : FdContext φ κ)
    (hm : Mirrored tickleFd s) (hne : fd ≠ tickleFd) (hctx : s'.heap[fd]? = some ctx)
    (hheap : ∀ other : Nat, other ≠ fd → s'.heap[other]? = s.heap[other]?)
    (hepoll : ∀ other, other ≠ fd → s'.epoll other = s.epoll other)
    (hfd : s'.epoll fd =
      if ctx.events = 0 then none else some ⟨EPOLLET ||| ctx.events, fd⟩) :
    Mirrored tickleFd s' := by
  constructor
  · rw [hepoll tickleFd hne.symm]
    exact hm.tickle
  · intro current hcurrent
    rw [hheap tickleFd hne.symm] at hcurrent
    exact hm.quiet current hcurrent
  · intro other hother
    by_cases heq : other = fd
    · subst heq
      rw [hfd, hctx]
    · rw [hepoll other heq, hheap other heq]
      exact hm.other other hother

theorem Mirrored.disarm (tickleFd : Nat) (s s' : IOManager φ κ) (fd : Nat) (ctx : FdContext φ κ)
    (left : Mask) (fails : Bool) (epoll : Nat → Option Interest) (hm : Mirrored tickleFd s)
    (hctx : s.heap[fd]? = some ctx) (hevents : ctx.events ≠ 0)
    (hctl : s.interestCtl fd fd left fails = some epoll)
    (hupdated : Updated { s with epoll := epoll } fd left s') : Mirrored tickleFd s' := by
  have hne : fd ≠ tickleFd := by
    rintro rfl
    exact hevents (hm.quiet ctx hctx)
  obtain ⟨_, hthere, hother⟩ := epollCtl_some s.epoll epoll _ fd _ fails hctl
  obtain ⟨after, hafter, hleft⟩ := hupdated.there
  apply hm.set tickleFd s s' fd after hne hafter hupdated.other
  · intro other hne'
    rw [hupdated.kernel]
    exact hother other hne'
  · rw [hupdated.kernel]
    change epoll fd = _
    rw [hthere, hleft]
    by_cases hzero : left = 0
    · simp [hzero]
    · simp [BitVec.or_comm left]

end IOManager
end Sylar
