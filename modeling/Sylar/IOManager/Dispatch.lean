import Sylar.IOManager.Accounting

/-! What `idle()` triggers for one reported mask.

The two tests before `triggerEvent` look at the widened mask and not at what is registered, so
a direction that was reported, or is taken for reported because of an error, but is not
registered runs into the assertion of `triggerEvent`. -/
namespace Sylar

variable {φ κ : Type}

def dueEvents (registered real : Mask) : List Event :=
  [Event.read, Event.write].filter fun event => registered &&& real &&& event.mask ≠ 0

def Covers (registered real : Mask) : Prop :=
  real &&& ~~~registered = 0

namespace IOManager

/-- Exactly the events of `due` have been triggered, each once: their waiters went to their
schedulers and left the count. -/
structure Triggers (s : IOManager φ κ) (ctx : FdContext φ κ) (due : List Event)
    (s' : IOManager φ κ) : Prop where
  handed : ∃ gained, s'.scheduled = s.scheduled ++ gained ∧
    gained.map (fun entry => entry.2.event) = due ∧
    ∀ entry ∈ gained, ctx.waiter entry.2.event = some entry.2 ∧
      (ctx.getContext entry.2.event).scheduler = some entry.1
  pending : s'.pendingEventCount = s.pendingEventCount - due.length

theorem Triggers.none (s : IOManager φ κ) (ctx : FdContext φ κ) : Triggers s ctx [] s := by
  refine ⟨⟨[], (List.append_nil _).symm, rfl, ?_⟩, (Int.sub_zero _).symm⟩
  intro entry hentry
  cases hentry

theorem Triggers.append (s s₁ s₂ : IOManager φ κ) (ctx after : FdContext φ κ)
    (first second : List Event) (h₁ : Triggers s ctx first s₁) (h₂ : Triggers s₁ after second s₂)
    (hsame : ∀ event ∈ second, after.getContext event = ctx.getContext event)
    (hfd : after.fd = ctx.fd) : Triggers s ctx (first ++ second) s₂ := by
  obtain ⟨gained₁, hscheduled₁, hevents₁, hwaiters₁⟩ := h₁.handed
  obtain ⟨gained₂, hscheduled₂, hevents₂, hwaiters₂⟩ := h₂.handed
  refine ⟨⟨gained₁ ++ gained₂, ?_, ?_, ?_⟩, ?_⟩
  · rw [hscheduled₂, hscheduled₁, List.append_assoc]
  · rw [List.map_append, hevents₁, hevents₂]
  · intro entry hentry
    rcases List.mem_append.mp hentry with hfirst | hsecond
    · exact hwaiters₁ entry hfirst
    · have hevent : entry.2.event ∈ second := hevents₂ ▸ List.mem_map_of_mem hsecond
      have hwaiter := hwaiters₂ entry hsecond
      rw [FdContext.waiter, hsame _ hevent, hfd] at hwaiter
      exact hwaiter
  · rw [h₂.pending, h₁.pending, List.length_append]
    omega

theorem triggerEvent_scheduler (ctx after : FdContext φ κ) (event : Event) (scheduler : Nat)
    (w : Waiter φ κ) (hok : ctx.triggerEvent event = .ok ([(scheduler, w)], after)) :
    (ctx.getContext event).scheduler = some scheduler := by
  unfold FdContext.triggerEvent at hok
  split at hok
  · cases hok
  · dsimp only at hok
    split at hok
    · cases hok
    · rename_i found hfound
      rw [hfound]
      have hhanded := congrArg Prod.fst (Except.ok.inj hok)
      cases hwaiter : ctx.waiter event with
      | none =>
        rw [hwaiter] at hhanded
        cases hhanded
      | some other =>
        rw [hwaiter] at hhanded
        cases hhanded
        rfl

theorem event_of_waiter (ctx : FdContext φ κ) (event : Event) (w : Waiter φ κ)
    (hwaiter : ctx.waiter event = some w) : w.event = event := by
  obtain ⟨task, -, rfl⟩ := Option.map_eq_some_iff.mp hwaiter
  rfl

structure Tested (ctx : FdContext φ κ) (tested : Mask) (event : Event) (after : FdContext φ κ) :
    Prop where
  fd : after.fd = ctx.fd
  events : after.events = cut ctx.events tested event
  consistent : after.Consistent
  other : ∀ other, other ≠ event → after.getContext other = ctx.getContext other

theorem triggerIf_exact (s : IOManager φ κ) (ptr : Nat) (ctx : FdContext φ κ)
    (hctx : s.heap[ptr]? = some ctx) (hconsistent : ctx.Consistent) (tested : Mask)
    (event : Event) :
    (tested &&& event.mask ≠ 0 ∧ ctx.events &&& event.mask = 0 ∧
      s.triggerIf ptr tested event = .error .assertion) ∨
    ((tested &&& event.mask ≠ 0 → ctx.events &&& event.mask ≠ 0) ∧
      ∃ s' after, s.triggerIf ptr tested event = .ok s' ∧
        Triggers s ctx (if tested &&& event.mask ≠ 0 then [event] else []) s' ∧
        s'.heap[ptr]? = some after ∧ Tested ctx tested event after) := by
  unfold triggerIf
  by_cases htested : tested &&& event.mask ≠ 0
  · rw [if_pos htested, if_pos htested]
    rcases ctx.triggerEvent_spec event hconsistent with
      ⟨hclear, herror⟩ | ⟨hset, scheduler, w, after, hok, hwaiter, hcleared⟩
    · left
      refine ⟨htested, hclear, ?_⟩
      simp only [trigger, hctx, herror]
    · right
      have htrigger : s.trigger ptr event = .ok { s.store ptr after with
          pendingEventCount := s.pendingEventCount - 1
          scheduled := s.scheduled ++ [(scheduler, w)] } := by
        simp only [trigger, hctx, hok]
      refine ⟨fun _ => hset, _, after, htrigger, ⟨?_, rfl⟩, store_there s ptr ctx after hctx, ?_⟩
      · refine ⟨[(scheduler, w)], rfl, ?_, ?_⟩
        · rw [List.map_singleton, event_of_waiter ctx event w hwaiter]
        · intro entry hentry
          obtain rfl := List.mem_singleton.mp hentry
          rw [event_of_waiter ctx event w hwaiter]
          exact ⟨hwaiter, triggerEvent_scheduler ctx after event scheduler w hok⟩
      · refine ⟨hcleared.fd, ?_, hcleared.consistent ctx after event hconsistent hset, hcleared.other⟩
        rw [hcleared.events, cut, if_pos htested]
  · right
    refine ⟨fun h => absurd h htested, s, ctx, ?_, ?_, hctx, rfl, ?_, hconsistent, fun _ _ => rfl⟩
    · rw [if_neg htested]
    · rw [if_neg htested]
      exact Triggers.none s ctx
    · rw [cut, if_neg htested]

theorem tested_eq_due (registered real : Mask) (hregistered : KnownMask registered)
    (hreal : KnownMask real) (hcovers : Covers registered real) :
    (if real &&& Event.read.mask ≠ 0 then [Event.read] else []) ++
      (if real &&& Event.write.mask ≠ 0 then [Event.write] else []) =
        dueEvents registered real := by
  unfold Covers at hcovers
  unfold KnownMask at *
  rcases hregistered with rfl | rfl | rfl | rfl <;> rcases hreal with rfl | rfl | rfl | rfl <;>
    first
      | exact absurd hcovers (by decide)
      | decide

theorem covers_iff (registered real : Mask) (hregistered : KnownMask registered)
    (hreal : KnownMask real) :
    Covers registered real ↔ ∀ event : Event, real &&& event.mask ≠ 0 →
      registered &&& event.mask ≠ 0 := by
  unfold Covers
  unfold KnownMask at *
  have hboth : (∀ event : Event, real &&& event.mask ≠ 0 → registered &&& event.mask ≠ 0) ↔
      (real &&& Event.read.mask ≠ 0 → registered &&& Event.read.mask ≠ 0) ∧
        (real &&& Event.write.mask ≠ 0 → registered &&& Event.write.mask ≠ 0) := by
    constructor
    · intro hall
      exact ⟨hall .read, hall .write⟩
    · rintro ⟨hread, hwrite⟩ event
      cases event with
      | read => exact hread
      | write => exact hwrite
  rw [hboth]
  rcases hregistered with rfl | rfl | rfl | rfl <;> rcases hreal with rfl | rfl | rfl | rfl <;>
    decide

theorem dueEvents_eq_nil_iff (registered real : Mask) (hregistered : KnownMask registered)
    (hreal : KnownMask real) : dueEvents registered real = [] ↔ registered &&& real = 0 := by
  unfold KnownMask at *
  rcases hregistered with rfl | rfl | rfl | rfl <;> rcases hreal with rfl | rfl | rfl | rfl <;>
    decide

theorem cut_read_write (registered real : Mask) (hregistered : KnownMask registered) :
    cut registered real .read &&& Event.write.mask = registered &&& Event.write.mask := by
  unfold cut
  unfold KnownMask at hregistered
  split
  · rcases hregistered with rfl | rfl | rfl | rfl <;> decide
  · rfl

theorem eq_clear_of_disjoint (registered real : Mask) (hregistered : KnownMask registered)
    (hreal : KnownMask real) (hnone : registered &&& real = 0) :
    registered = registered &&& ~~~real := by
  unfold KnownMask at *
  rcases hregistered with rfl | rfl | rfl | rfl <;> rcases hreal with rfl | rfl | rfl | rfl <;>
    first
      | exact absurd hnone (by decide)
      | decide

/-- What `idle()` should do for one context and one reported mask. -/
def DispatchesDue (s : IOManager φ κ) (ptr : Nat) (ctx : FdContext φ κ) (reported : Mask)
    (fails : Bool) : Prop :=
  ∃ s', s.dispatch ptr reported fails = .ok s' ∧
    Triggers s ctx (dueEvents ctx.events (realEvents reported)) s' ∧
    ∃ after, s'.heap[ptr]? = some after ∧ after.events = ctx.events &&& ~~~realEvents reported

section
variable (s : IOManager φ κ) (ptr : Nat) (ctx : FdContext φ κ) (hctx : s.heap[ptr]? = some ctx)
  (hconsistent : ctx.Consistent) (real : Mask) (hreal : KnownMask real)
include hctx hconsistent hreal

theorem triggerBoth_ok (hcovers : Covers ctx.events real) :
    ∃ s₁ s₂ after, s.triggerIf ptr real .read = .ok s₁ ∧ s₁.triggerIf ptr real .write = .ok s₂ ∧
      Triggers s ctx (dueEvents ctx.events real) s₂ ∧ s₂.heap[ptr]? = some after ∧
      after.events = ctx.events &&& ~~~real := by
  have hall := (covers_iff ctx.events real hconsistent.known hreal).mp hcovers
  obtain ⟨htested, hclear, -⟩ | ⟨-, s₁, ctx₁, hok₁, htriggers₁, hctx₁, hthere₁⟩ :=
    triggerIf_exact s ptr ctx hctx hconsistent real .read
  · exact absurd hclear (hall .read htested)
  obtain ⟨htested, hclear, -⟩ | ⟨-, s₂, ctx₂, hok₂, htriggers₂, hctx₂, hthere₂⟩ :=
    triggerIf_exact s₁ ptr ctx₁ hctx₁ hthere₁.consistent real .write
  · rw [hthere₁.events, cut_read_write _ _ hconsistent.known] at hclear
    exact absurd hclear (hall .write htested)
  refine ⟨s₁, s₂, ctx₂, hok₁, hok₂, ?_, hctx₂, ?_⟩
  · rw [← tested_eq_due ctx.events real hconsistent.known hreal hcovers]
    apply htriggers₁.append s s₁ s₂ ctx ctx₁ _ _ htriggers₂ _ hthere₁.fd
    intro event hevent
    apply hthere₁.other
    split at hevent
    · rw [List.mem_singleton.mp hevent]
      exact Event.noConfusion
    · cases hevent
  · rw [hthere₂.events, hthere₁.events, cut_real ctx.events real hconsistent.known hreal]

theorem triggerBoth_fails (hcovers : ¬ Covers ctx.events real) :
    s.triggerIf ptr real .read = .error .assertion ∨
      ∃ s₁, s.triggerIf ptr real .read = .ok s₁ ∧
        s₁.triggerIf ptr real .write = .error .assertion := by
  obtain ⟨-, -, herror⟩ | ⟨hread, s₁, ctx₁, hok₁, -, hctx₁, hthere₁⟩ :=
    triggerIf_exact s ptr ctx hctx hconsistent real .read
  · exact .inl herror
  obtain ⟨-, -, herror⟩ | ⟨hwrite, -⟩ :=
    triggerIf_exact s₁ ptr ctx₁ hctx₁ hthere₁.consistent real .write
  · exact .inr ⟨s₁, hok₁, herror⟩
  rw [hthere₁.events, cut_read_write _ _ hconsistent.known] at hwrite
  refine absurd ((covers_iff ctx.events real hconsistent.known hreal).mpr ?_) hcovers
  intro event
  cases event with
  | read => exact hread
  | write => exact hwrite

end

/-- `idle()` triggers what it should exactly when there is nothing to trigger, or when every
event of `real_events` is registered and `epoll_ctl` succeeds. -/
theorem dispatchesDue_iff (s : IOManager φ κ) (ptr : Nat) (ctx : FdContext φ κ)
    (hctx : s.heap[ptr]? = some ctx) (hconsistent : ctx.Consistent) (reported : Mask)
    (fails : Bool) :
    DispatchesDue s ptr ctx reported fails ↔
      ctx.events &&& realEvents reported = 0 ∨
      (Covers ctx.events (realEvents reported) ∧
        (s.interestCtl ptr ctx.fd (ctx.events &&& ~~~realEvents reported) fails).isSome) := by
  have hreal := realEvents_known reported
  have hdue := dueEvents_eq_nil_iff ctx.events (realEvents reported) hconsistent.known hreal
  unfold DispatchesDue dispatch
  generalize realEvents reported = real at *
  simp only [hctx]
  by_cases hnone : ctx.events &&& real = 0
  · rw [if_pos hnone]
    refine iff_of_true ⟨s, rfl, ?_, ctx, hctx, ?_⟩ (.inl hnone)
    · rw [hdue.mpr hnone]
      exact Triggers.none s ctx
    · exact eq_clear_of_disjoint ctx.events real hconsistent.known hreal hnone
  · rw [if_neg hnone]
    simp only [hnone, false_or]
    cases hctl : s.interestCtl ptr ctx.fd (ctx.events &&& ~~~real) fails with
    | none =>
      refine iff_of_false ?_ (by simp)
      rintro ⟨s', hok, htriggers, -⟩
      cases hok
      obtain ⟨gained, hscheduled, hevents, -⟩ := htriggers.handed
      have hempty : gained = [] := List.self_eq_append_right.mp hscheduled
      rw [hempty] at hevents
      exact hnone (hdue.mp hevents.symm)
    | some epoll =>
      by_cases hcovers : Covers ctx.events real
      · obtain ⟨s₁, s₂, after, hok₁, hok₂, htriggers, hafter, hevents⟩ :=
          triggerBoth_ok { s with epoll := epoll } ptr ctx hctx hconsistent real hreal hcovers
        refine iff_of_true ⟨s₂, ?_, ⟨htriggers.handed, htriggers.pending⟩, after, hafter, hevents⟩
          ⟨hcovers, rfl⟩
        simp only [hok₁, hok₂]
      · refine iff_of_false ?_ (fun h => hcovers h.1)
        rintro ⟨s', hok, -⟩
        rcases triggerBoth_fails { s with epoll := epoll } ptr ctx hctx hconsistent real hreal hcovers
          with herror | ⟨s₁, hok₁, herror⟩
        · simp only [herror] at hok
          cases hok
        · simp only [hok₁, herror] at hok
          cases hok

def readingContext : FdContext Nat Nat where
  fd := 7
  read := { scheduler := some 0, fiber := some 1, cb := none, ticket := 0 }
  write := .empty
  events := Event.read.mask

theorem readingContext_consistent : readingContext.Consistent where
  known := .inr (.inl rfl)
  armed := by
    intro event hset
    cases event with
    | read => exact ⟨rfl, rfl⟩
    | write => exact absurd (by decide) hset
  blank := by
    intro event hclear
    cases event with
    | read => exact absurd hclear (by decide)
    | write => exact ⟨rfl, rfl, rfl⟩

def readingManager : IOManager Nat Nat where
  fdContexts := [0]
  heap := [readingContext]
  epoll fd := if fd = 7 then some ⟨EPOLLET ||| EPOLLIN, 0⟩ else none
  pendingEventCount := 1
  issued := []
  scheduled := []
  dropped := []

theorem dispatchesDue_iff_readable :
    DispatchesDue readingManager 0 readingContext EPOLLIN false :=
  (dispatchesDue_iff readingManager 0 readingContext rfl readingContext_consistent EPOLLIN false).mpr
    (.inr ⟨by unfold Covers; decide, by decide⟩)

/-- The peer resets the connection: the error is widened to both directions, and the one that
nobody waits for ends in the assertion. -/
theorem reset_fires_assertion :
    readingManager.dispatch 0 EPOLLERR false = .error .assertion ∧
      ¬ DispatchesDue readingManager 0 readingContext EPOLLERR false := by
  have hdispatch : readingManager.dispatch 0 EPOLLERR false = .error .assertion := rfl
  refine ⟨hdispatch, ?_⟩
  rintro ⟨s', hok, -⟩
  rw [hdispatch] at hok
  cases hok

end IOManager
end Sylar
