import Sylar.IOManager.Accounting

/-! Every operation on the events keeps the accounts, whatever the kernel
answers, and so does every run of them. -/
namespace Sylar.IOManager

variable {φ κ : Type}

structure Sound (tickleFd : Nat) (s : IOManager φ κ) : Prop where
  size : 32 ≤ s.heap.length
  accounts : Accounts s
  mirrored : Mirrored tickleFd s

/-- What every operation but `addEvent` leaves as it is. -/
structure Kept (tickleFd : Nat) (s s' : IOManager φ κ) : Prop where
  sound : Sound tickleFd s'
  table : s'.fdContexts = s.fdContexts
  gains : Gains NoFiber s s'

/-- What every operation does: the table grows at its end, and only an `allowed`
fiber comes to wait. -/
structure After (tickleFd : Nat) (allowed : Nat → Event → φ → Prop) (s s' : IOManager φ κ) :
    Prop where
  sound : Sound tickleFd s'
  table : s.fdContexts <+: s'.fdContexts
  gains : Gains allowed s s'

theorem Gains.mono (allowed : Nat → Event → φ → Prop) (s s' : IOManager φ κ)
    (hgains : Gains NoFiber s s') : Gains allowed s s' := by
  intro ptr ctx event fiber hctx hfiber
  exact .inr ((hgains ptr ctx event fiber hctx hfiber).resolve_left id)

theorem Kept.after (tickleFd : Nat) (allowed : Nat → Event → φ → Prop) (s s' : IOManager φ κ)
    (hkept : Kept tickleFd s s') : After tickleFd allowed s s' :=
  ⟨hkept.sound, hkept.table ▸ List.prefix_rfl, hkept.gains.mono allowed s s'⟩

/-- The fiber that `addEvent` registers when it is given no callback. -/
def Registers (fd : Nat) (event : Event) (cb : Option κ) (self : φ) (ptr : Nat) (other : Event)
    (fiber : φ) : Prop :=
  cb = none ∧ ptr = fd ∧ other = event ∧ fiber = self

theorem Kept.refl (tickleFd : Nat) (s : IOManager φ κ) (hs : Sound tickleFd s) :
    Kept tickleFd s s :=
  ⟨hs, rfl, Gains.refl NoFiber s⟩

theorem Sound.disarm (tickleFd : Nat) (s s' : IOManager φ κ) (fd : Nat) (ctx : FdContext φ κ)
    (left : Mask) (fails : Bool) (epoll : Nat → Option Interest) (hs : Sound tickleFd s)
    (hctx : s.heap[fd]? = some ctx) (hevents : ctx.events ≠ 0)
    (hctl : s.interestCtl fd fd left fails = some epoll)
    (hupdated : Updated { s with epoll := epoll } fd left s') : Kept tickleFd s s' := by
  refine ⟨⟨?_, hupdated.accounts, ?_⟩, hupdated.table, hupdated.gains⟩
  · have hlength := congrArg List.length hupdated.table
    rw [hupdated.accounts.table] at hlength
    simp only [hs.accounts.table, List.length_range] at hlength
    rw [hlength]
    exact hs.size
  · exact hs.mirrored.disarm tickleFd s s' fd ctx left fails epoll hctx hevents hctl hupdated

theorem fetch_of_lt (s : IOManager φ κ) (hs : Accounts s) (fd : Nat) (hlt : fd < s.heap.length) :
    s.fetch fd = some fd := by
  unfold fetch
  rw [hs.table, List.getElem?_range hlt]

theorem heap_of_fetch (s : IOManager φ κ) (hs : Accounts s) (fd ptr : Nat)
    (hfetch : s.fetch fd = some ptr) : ptr = fd ∧ ∃ ctx, s.heap[fd]? = some ctx := by
  refine ⟨fetch_eq s hs fd ptr hfetch, ?_⟩
  unfold fetch at hfetch
  rw [hs.table] at hfetch
  have hlt := (List.getElem?_eq_some_iff.mp hfetch).1
  rw [List.length_range] at hlt
  exact ⟨s.heap[fd], List.getElem?_eq_getElem hlt⟩

private theorem ne_zero_of_and_ne_zero (mask bit : Mask) (hset : mask &&& bit ≠ 0) : mask ≠ 0 := by
  rintro rfl
  exact hset (BitVec.zero_and)

theorem delEvent_sound (tickleFd : Nat) (s : IOManager φ κ) (hs : Sound tickleFd s) (fd : Nat)
    (event : Event) (fails : Bool) :
    ∃ result s', s.delEvent fd event fails = .ok (result, s') ∧
      Kept tickleFd s s' := by
  unfold delEvent
  cases hfetch : s.fetch fd with
  | none => exact ⟨false, s, rfl, .refl tickleFd s hs⟩
  | some ptr =>
    obtain ⟨rfl, ctx, hctx⟩ := heap_of_fetch s hs.accounts fd ptr hfetch
    simp only [hctx]
    by_cases hset : ctx.events &&& event.mask = 0
    · exact ⟨false, s, by rw [if_pos hset], .refl tickleFd s hs⟩
    · rw [if_neg hset]
      cases hctl : s.interestCtl ptr ptr (ctx.events &&& ~~~event.mask) fails with
      | none => exact ⟨false, s, rfl, .refl tickleFd s hs⟩
      | some epoll =>
        have hconsistent := hs.accounts.consistent ptr ctx hctx
        obtain ⟨task, htask⟩ := (hconsistent.armed event hset).exists_task
        have hwaiter : ctx.waiter event =
            some ⟨(ctx.getContext event).ticket, ctx.fd, event, task⟩ := by
          unfold FdContext.waiter
          rw [htask]
          rfl
        have hcleared := ctx.resetContext_cleared event
        have hupdated : Updated { s with epoll := epoll } ptr (ctx.events &&& ~~~event.mask)
            { s.store ptr ({ ctx with events := ctx.events &&& ~~~event.mask }.resetContext event)
              with
              epoll := epoll
              pendingEventCount := s.pendingEventCount - 1
              dropped := s.dropped ++ (ctx.waiter event).toList } := by
          constructor
          · apply (hs.accounts.with_epoll s epoll).clear _ ptr event ctx _ _ hctx hset hwaiter
              hcleared
            rw [hwaiter, ← List.append_assoc]
            exact List.perm_append_singleton _ _
          · rfl
          · rfl
          · exact ⟨_, store_there s ptr ctx _ hctx, hcleared.events⟩
          · intro other hne
            exact store_other s ptr other _ hne
          · exact Gains.clear _ _ ptr event ctx _ hctx rfl hcleared
        refine ⟨true, _, rfl, ?_⟩
        exact hs.disarm tickleFd s _ ptr ctx _ fails epoll hctx
          (ne_zero_of_and_ne_zero _ _ hset) hctl hupdated

theorem interestCtl_present (tickleFd : Nat) (s : IOManager φ κ) (hm : Mirrored tickleFd s)
    (fd : Nat) (ctx : FdContext φ κ) (left : Mask) (hctx : s.heap[fd]? = some ctx)
    (hevents : ctx.events ≠ 0) : ∃ epoll, s.interestCtl fd fd left false = some epoll := by
  have hne : fd ≠ tickleFd := by
    rintro rfl
    exact hevents (hm.quiet ctx hctx)
  have hthere := hm.other fd hne
  simp only [hctx, if_neg hevents] at hthere
  have hpresent : (s.epoll fd).isSome = true := by rw [hthere]; rfl
  unfold interestCtl epollCtl
  by_cases hleft : left ≠ 0
  · rw [if_pos hleft, hpresent]
    exact ⟨_, rfl⟩
  · rw [if_neg hleft, hpresent]
    exact ⟨_, rfl⟩

theorem cancelEvent_cases (tickleFd : Nat) (s : IOManager φ κ) (hs : Sound tickleFd s) (fd : Nat)
    (event : Event) (fails : Bool) :
    (s.cancelEvent fd event fails = .ok (false, s) ∧
      (fails = true ∨ ∀ ctx, s.heap[fd]? = some ctx → ctx.events &&& event.mask = 0)) ∨
    ∃ ctx epoll s', s.heap[fd]? = some ctx ∧ ctx.events &&& event.mask ≠ 0 ∧
      s.interestCtl fd fd (ctx.events &&& ~~~event.mask) fails = some epoll ∧
      s.cancelEvent fd event fails = .ok (true, s') ∧
      Updated { s with epoll := epoll } fd (ctx.events &&& ~~~event.mask) s' := by
  unfold cancelEvent
  cases hfetch : s.fetch fd with
  | none =>
    refine .inl ⟨rfl, .inr ?_⟩
    intro ctx hctx
    rw [fetch_of_lt s hs.accounts fd (List.getElem?_eq_some_iff.mp hctx).1] at hfetch
    cases hfetch
  | some ptr =>
    obtain ⟨rfl, ctx, hctx⟩ := heap_of_fetch s hs.accounts fd ptr hfetch
    simp only [hctx]
    by_cases hset : ctx.events &&& event.mask = 0
    · refine .inl ⟨if_pos hset, .inr ?_⟩
      intro current hcurrent
      cases hcurrent
      exact hset
    · rw [if_neg hset]
      cases hctl : s.interestCtl ptr ptr (ctx.events &&& ~~~event.mask) fails with
      | none =>
        refine .inl ⟨rfl, .inl ?_⟩
        by_contra hnot
        obtain ⟨epoll, hpresent⟩ := interestCtl_present tickleFd s hs.mirrored ptr ctx
          (ctx.events &&& ~~~event.mask) hctx (ne_zero_of_and_ne_zero _ _ hset)
        rw [Bool.eq_false_iff.mpr hnot, hpresent] at hctl
        cases hctl
      | some epoll =>
        rcases trigger_spec { s with epoll := epoll } (hs.accounts.with_epoll s epoll) ptr event
            ctx hctx with ⟨hclear, _⟩ | ⟨_, s', hok, hupdated⟩
        · exact absurd hclear hset
        · refine .inr ⟨ctx, epoll, s', rfl, hset, hctl, ?_, hupdated⟩
          simp only [hok]
          rfl

theorem cancelEvent_sound (tickleFd : Nat) (s : IOManager φ κ) (hs : Sound tickleFd s) (fd : Nat)
    (event : Event) (fails : Bool) :
    ∃ result s', s.cancelEvent fd event fails = .ok (result, s') ∧
      Kept tickleFd s s' := by
  rcases cancelEvent_cases tickleFd s hs fd event fails with
    ⟨hok, _⟩ | ⟨ctx, epoll, s', hctx, hset, hctl, hok, hupdated⟩
  · exact ⟨false, s, hok, .refl tickleFd s hs⟩
  · refine ⟨true, s', hok, ?_⟩
    exact hs.disarm tickleFd s s' fd ctx _ fails epoll hctx (ne_zero_of_and_ne_zero _ _ hset) hctl
      hupdated

theorem cancelEvent_clears (tickleFd : Nat) (s s' : IOManager φ κ) (hs : Sound tickleFd s)
    (fd : Nat) (event : Event) (result : Bool) (ctx : FdContext φ κ)
    (hok : s.cancelEvent fd event false = .ok (result, s')) (hctx : s'.heap[fd]? = some ctx) :
    ctx.events &&& event.mask = 0 := by
  rcases cancelEvent_cases tickleFd s hs fd event false with
    ⟨hsame, hfails | hclear⟩ | ⟨before, epoll, after, hbefore, hset, _, hafter, hupdated⟩
  · cases hfails
  · rw [hsame] at hok
    cases hok
    exact hclear ctx hctx
  · rw [hafter] at hok
    cases hok
    obtain ⟨current, hcurrent, hleft⟩ := hupdated.there
    rw [hcurrent] at hctx
    cases hctx
    rw [hleft]
    exact (KnownMask.clear before.events event
      (hs.accounts.consistent fd before hbefore).known hset).2.2.1

theorem cancelAll_sound (tickleFd : Nat) (s : IOManager φ κ) (hs : Sound tickleFd s) (fd : Nat)
    (fails : Bool) :
    s.cancelAll fd fails = .error .assertion ∨
      ∃ result s', s.cancelAll fd fails = .ok (result, s') ∧
      Kept tickleFd s s' := by
  unfold cancelAll
  cases hfetch : s.fetch fd with
  | none => exact .inr ⟨false, s, rfl, .refl tickleFd s hs⟩
  | some ptr =>
    obtain ⟨rfl, ctx, hctx⟩ := heap_of_fetch s hs.accounts fd ptr hfetch
    simp only [hctx]
    by_cases hzero : ctx.events = 0
    · exact .inr ⟨false, s, by rw [if_pos hzero], .refl tickleFd s hs⟩
    · rw [if_neg hzero]
      cases hctl : epollCtl s.epoll .del ptr ⟨0, ptr⟩ fails with
      | none => exact .inr ⟨false, s, rfl, .refl tickleFd s hs⟩
      | some epoll =>
        have hctl' : s.interestCtl ptr ptr 0 fails = some epoll := by
          rw [← hctl]
          rfl
        rcases triggerIf_spec { s with epoll := epoll } (hs.accounts.with_epoll s epoll) ptr
            ctx.events .read ctx hctx with herror | ⟨s₁, hok₁, hupdated₁⟩
        · simp only [herror]
          exact .inl trivial
        · obtain ⟨ctx₁, hctx₁, hevents₁⟩ := hupdated₁.there
          simp only [hok₁, hctx₁]
          rcases triggerIf_spec s₁ hupdated₁.accounts ptr ctx₁.events .write ctx₁ hctx₁ with
            herror | ⟨s₂, hok₂, hupdated₂⟩
          · simp only [herror]
            exact .inl trivial
          · simp only [hok₂]
            have hupdated := hupdated₁.trans _ s₁ s₂ ptr _ _ hupdated₂
            rw [hevents₁, cut_all ctx.events (hs.accounts.consistent ptr ctx hctx).known] at hupdated
            obtain ⟨ctx₂, hctx₂, hevents₂⟩ := hupdated.there
            right
            refine ⟨true, s₂, by simp [hctx₂, hevents₂], ?_⟩
            exact hs.disarm tickleFd s s₂ ptr ctx 0 fails epoll hctx hzero hctl' hupdated

theorem dispatch_sound (tickleFd : Nat) (s : IOManager φ κ) (hs : Sound tickleFd s) (ptr : Nat)
    (reported : Mask) (fails : Bool) (hptr : ptr < s.heap.length) :
    s.dispatch ptr reported fails = .error .assertion ∨
      ∃ s', s.dispatch ptr reported fails = .ok s' ∧
        Kept tickleFd s s' := by
  unfold dispatch
  have hctx : s.heap[ptr]? = some s.heap[ptr] := List.getElem?_eq_getElem hptr
  generalize s.heap[ptr] = ctx at hctx
  have hreal := realEvents_known reported
  generalize realEvents reported = real at hreal
  simp only [hctx, hs.accounts.fd ptr ctx hctx]
  by_cases hnone : ctx.events &&& real = 0
  · exact .inr ⟨s, by rw [if_pos hnone], .refl tickleFd s hs⟩
  · rw [if_neg hnone]
    cases hctl : s.interestCtl ptr ptr (ctx.events &&& ~~~real) fails with
    | none => exact .inr ⟨s, rfl, .refl tickleFd s hs⟩
    | some epoll =>
      rcases triggerIf_spec { s with epoll := epoll } (hs.accounts.with_epoll s epoll) ptr real
          .read ctx hctx with herror | ⟨s₁, hok₁, hupdated₁⟩
      · simp only [herror]
        exact .inl trivial
      · obtain ⟨ctx₁, hctx₁, hevents₁⟩ := hupdated₁.there
        simp only [hok₁]
        rcases triggerIf_spec s₁ hupdated₁.accounts ptr real .write ctx₁ hctx₁ with
          herror | ⟨s₂, hok₂, hupdated₂⟩
        · exact .inl herror
        · have hupdated := hupdated₁.trans _ s₁ s₂ ptr _ _ hupdated₂
          rw [hevents₁, cut_real ctx.events real (hs.accounts.consistent ptr ctx hctx).known hreal]
            at hupdated
          refine .inr ⟨s₂, hok₂, ?_⟩
          exact hs.disarm tickleFd s s₂ ptr ctx _ fails epoll hctx
            (ne_zero_of_and_ne_zero _ _ hnone) hctl hupdated

/-- The context that `addEvent` leaves, for a callback or for the running fiber. -/
theorem filled_setContext (ctx : FdContext φ κ) (event : Event) (entry : EventContext φ κ)
    (harmed : entry.Armed) :
    FdContext.Filled ctx event
      (({ ctx with events := ctx.events ||| event.mask } : FdContext φ κ).setContext event
        entry) := by
  constructor
  · exact FdContext.setContext_fd _ event _
  · exact FdContext.setContext_events _ event _
  · rw [FdContext.getContext_setContext]
    exact harmed
  · intro other hne
    rw [FdContext.getContext_setContext_ne _ event other _ hne]
    cases other <;> rfl

theorem waiter_setContext (ctx : FdContext φ κ) (event : Event) (entry : EventContext φ κ)
    (task : Task φ κ) (htask : entry.task = some task) :
    (ctx.setContext event entry).waiter event = some ⟨entry.ticket, ctx.fd, event, task⟩ := by
  unfold FdContext.waiter
  rw [FdContext.getContext_setContext, FdContext.setContext_fd, htask]
  rfl

theorem register_sound (tickleFd : Nat) (s : IOManager φ κ) (hs : Sound tickleFd s) (fd : Nat)
    (event : Event) (ctx : FdContext φ κ) (epoll : Nat → Option Interest)
    (entry : EventContext φ κ) (task : Task φ κ) (hne : fd ≠ tickleFd)
    (hctx : s.heap[fd]? = some ctx) (hclear : ctx.events &&& event.mask = 0)
    (hthere : epoll fd = some ⟨EPOLLET ||| ctx.events ||| event.mask, fd⟩)
    (hother : ∀ other, other ≠ fd → epoll other = s.epoll other)
    (harmed : entry.Armed) (htask : entry.task = some task)
    (hticket : entry.ticket = s.issued.length) :
    Sound tickleFd (({ s with epoll := epoll } : IOManager φ κ).register fd
      (({ ctx with events := ctx.events ||| event.mask } : FdContext φ κ).setContext event entry)
      ⟨s.issued.length, fd, event, task⟩) := by
  have hfilled := filled_setContext ctx event entry harmed
  constructor
  · simpa [register, store] using hs.size
  · apply (hs.accounts.with_epoll s epoll).fill _ fd event ctx _ _ hctx hclear _ rfl hfilled
    rw [waiter_setContext _ event entry task htask, hticket, hs.accounts.fd fd ctx hctx]
  · have hinsert := KnownMask.insert ctx.events event
      (hs.accounts.consistent fd ctx hctx).known hclear
    apply hs.mirrored.set tickleFd s _ fd
      (({ ctx with events := ctx.events ||| event.mask } : FdContext φ κ).setContext event entry) hne
    · exact store_there s fd ctx _ hctx
    · intro other hne'
      exact store_other s fd other _ hne'
    · exact hother
    · rw [hfilled.events, if_neg (ne_zero_of_and_ne_zero _ _ hinsert.2.2.1), ← BitVec.or_assoc]
      exact hthere

theorem register_gains (s : IOManager φ κ) (fd : Nat) (event : Event) (cb : Option κ) (self : φ)
    (ctx : FdContext φ κ) (epoll : Nat → Option Interest) (entry : EventContext φ κ)
    (w : Waiter φ κ) (hctx : s.heap[fd]? = some ctx)
    (hentry : ∀ fiber, entry.fiber = some fiber → cb = none ∧ fiber = self) :
    Gains (Registers fd event cb self) s (({ s with epoll := epoll } : IOManager φ κ).register fd
      (({ ctx with events := ctx.events ||| event.mask } : FdContext φ κ).setContext event entry)
      w) := by
  apply Gains.set _ s _ fd ctx _ hctx rfl
  intro other fiber hfiber
  by_cases heq : other = event
  · subst heq
    rw [FdContext.getContext_setContext] at hfiber
    obtain ⟨hcb, hself⟩ := hentry fiber hfiber
    exact .inl ⟨hcb, rfl, rfl, hself⟩
  · rw [FdContext.getContext_setContext_ne _ event other _ heq] at hfiber
    cases other <;> exact .inr hfiber

theorem addEventLocked_sound (tickleFd : Nat) (s : IOManager φ κ) (hs : Sound tickleFd s)
    (fd : Nat) (event : Event) (cb : Option κ) (self : φ) (exec : Bool) (scheduler : Nat)
    (fails : Bool) (hfd : fd < s.heap.length) :
    s.addEventLocked fd fd event cb self exec scheduler fails = .error .assertion ∨
      ∃ result s', s.addEventLocked fd fd event cb self exec scheduler fails = .ok (result, s') ∧
        After tickleFd (Registers fd event cb self) s s' := by
  have hctx : s.heap[fd]? = some s.heap[fd] := List.getElem?_eq_getElem hfd
  generalize s.heap[fd] = ctx at hctx
  unfold addEventLocked
  simp only [hctx]
  by_cases hset : ctx.events &&& event.mask ≠ 0
  · rw [if_pos hset]
    exact .inl rfl
  · rw [if_neg hset]
    rw [not_not] at hset
    cases hctl : epollCtl s.epoll (if ctx.events ≠ 0 then EpollOp.mod else .add) fd
        ⟨EPOLLET ||| ctx.events ||| event.mask, fd⟩ fails with
    | none => exact .inr ⟨-1, s, rfl, hs, List.prefix_rfl, Gains.refl _ s⟩
    | some epoll =>
      simp only
      have hblank := (hs.accounts.consistent fd ctx hctx).blank event hset
      have hentry : ({ ctx with events := ctx.events ||| event.mask } : FdContext φ κ).getContext
          event = ctx.getContext event := by
        cases event <;> rfl
      rw [hentry, hblank.1, hblank.2.1, hblank.2.2]
      obtain ⟨hstatus, hthere, hother⟩ := epollCtl_some s.epoll epoll _ fd _ fails hctl
      -- the pipe is in the kernel's table with no event of its own, so ADD fails for it
      have hne : fd ≠ tickleFd := by
        rintro rfl
        rw [hs.mirrored.quiet ctx hctx, hs.mirrored.tickle] at hstatus
        cases hstatus
      have hadded : epoll fd = some ⟨EPOLLET ||| ctx.events ||| event.mask, fd⟩ := by
        rw [hthere]
        split <;> rfl
      cases cb with
      | some cb =>
        right
        simp only [Option.isSome_none, Option.isNone_some, Bool.false_eq_true, or_self, false_and,
          if_false]
        refine ⟨0, _, rfl, ?_, List.prefix_rfl,
          register_gains s fd event (some cb) self ctx epoll _ _ hctx (fun _ h => nomatch h)⟩
        exact register_sound tickleFd s hs fd event ctx epoll _ (.cb cb) hne hctx hset hadded hother
          ⟨rfl, rfl⟩ rfl rfl
      | none =>
        cases exec with
        | false => exact .inl (by simp)
        | true =>
          right
          simp only [Option.isSome_none, Option.isNone_none, Bool.false_eq_true, or_self, and_false,
            Bool.true_eq_false, if_false]
          refine ⟨0, _, rfl, ?_, List.prefix_rfl,
            register_gains s fd event none self ctx epoll _ _ hctx
              (fun _ h => ⟨rfl, (Option.some.inj h).symm⟩)⟩
          exact register_sound tickleFd s hs fd event ctx epoll _ (.fiber self) hne hctx hset hadded
            hother ⟨rfl, rfl⟩ rfl rfl

/-- The heap once `contextResize` has filled a larger table. -/
def grown (heap : List (FdContext φ κ)) (size : Nat) : List (FdContext φ κ) :=
  heap ++ (List.range' heap.length (size - heap.length)).map .new

theorem grown_getElem? (heap : List (FdContext φ κ)) (size ptr : Nat)
    (hsize : heap.length ≤ size) :
    (grown heap size)[ptr]? =
      if ptr < heap.length then heap[ptr]? else if ptr < size then some (.new ptr) else none := by
  unfold grown
  rw [List.getElem?_append]
  split
  · rfl
  · rw [List.getElem?_map]
    split
    · rw [List.getElem?_range' (by omega)]
      simp only [Option.map_some, Nat.one_mul]
      rw [Nat.add_sub_of_le (by omega)]
    · rw [List.getElem?_eq_none (by rw [List.length_range']; omega)]
      rfl

theorem grown_cases (heap : List (FdContext φ κ)) (size ptr : Nat) (ctx : FdContext φ κ)
    (hsize : heap.length ≤ size) (hctx : (grown heap size)[ptr]? = some ctx) :
    heap[ptr]? = some ctx ∨ ctx = .new ptr := by
  rw [grown_getElem? heap size ptr hsize] at hctx
  split at hctx
  · exact .inl hctx
  · split at hctx
    · cases hctx
      exact .inr rfl
    · cases hctx

theorem new_consistent (fd : Nat) : (FdContext.new fd : FdContext φ κ).Consistent := by
  constructor
  · exact .inl rfl
  · intro event hset
    exact absurd BitVec.zero_and hset
  · intro event _
    cases event <;> exact ⟨rfl, rfl, rfl⟩

theorem Accounts.grow (s : IOManager φ κ) (size : Nat) (hs : Accounts s)
    (hsize : s.heap.length ≤ size) :
    Accounts { s with fdContexts := List.range size, heap := grown s.heap size } := by
  constructor
  · simp only [grown, List.length_append, List.length_map, List.length_range']
    rw [Nat.add_sub_of_le hsize]
  · intro ptr ctx hctx
    rcases grown_cases s.heap size ptr ctx hsize hctx with hold | rfl
    · exact hs.fd ptr ctx hold
    · rfl
  · intro ptr ctx hctx
    rcases grown_cases s.heap size ptr ctx hsize hctx with hold | rfl
    · exact hs.consistent ptr ctx hold
    · exact new_consistent ptr
  · have hzero : ∀ fd, bitsSet (FdContext.new fd : FdContext φ κ).events = 0 := by
      intro fd
      change bitsSet 0 = 0
      decide
    simp [grown, hs.pending, Function.comp_def, hzero]
  · exact hs.tickets
  · have hnone : ∀ fd, (FdContext.new fd : FdContext φ κ).waiters = [] := fun _ => rfl
    have hcustody := hs.custody
    simp only [registered, grown, List.flatMap_append, List.flatMap_map, hnone] at hcustody ⊢
    rw [List.flatMap_eq_nil_iff.mpr (fun _ _ => rfl), List.append_nil]
    exact hcustody

theorem Mirrored.grow (tickleFd : Nat) (s : IOManager φ κ) (size : Nat)
    (hm : Mirrored tickleFd s) (hsize : s.heap.length ≤ size) :
    Mirrored tickleFd { s with fdContexts := List.range size, heap := grown s.heap size } := by
  constructor
  · exact hm.tickle
  · intro ctx hctx
    rcases grown_cases s.heap size tickleFd ctx hsize hctx with hold | rfl
    · exact hm.quiet ctx hold
    · rfl
  · intro fd hne
    have hother := hm.other fd hne
    simp only [grown_getElem? s.heap size fd hsize]
    rw [hother]
    by_cases hlt : fd < s.heap.length
    · rw [if_pos hlt]
    · rw [if_neg hlt, List.getElem?_eq_none (by omega)]
      by_cases hin : fd < size
      · rw [if_pos hin]
        rfl
      · rw [if_neg hin]

theorem contextResize_grow (s : IOManager φ κ) (size : Nat) (hs : Accounts s)
    (hsize : s.heap.length ≤ size) :
    s.contextResize size = { s with fdContexts := List.range size, heap := grown s.heap size } ∧
      s.fdContexts <+: List.range size := by
  have hlength : s.fdContexts.length = s.heap.length := by rw [hs.table, List.length_range]
  have hrange : List.range size =
      List.range s.heap.length ++ List.range' s.heap.length (size - s.heap.length) := by
    have happend := @List.range'_append_1 0 s.heap.length (size - s.heap.length)
    rw [Nat.zero_add, Nat.add_sub_of_le hsize] at happend
    rw [List.range_eq_range', List.range_eq_range', happend]
  constructor
  · unfold contextResize
    rw [hlength]
    by_cases hle : size ≤ s.heap.length
    · have heq : size = s.heap.length := Nat.le_antisymm hle hsize
      rw [if_pos hle, hrange, hs.table, heq]
      simp [grown, List.take_of_length_le]
    · rw [if_neg hle, hrange, hs.table]
      rfl
  · rw [hrange, hs.table]
    exact List.prefix_append _ _

theorem new_sound (tickleFd : Nat) : Sound tickleFd (new tickleFd : IOManager φ κ) := by
  let start : IOManager φ κ :=
    { fdContexts := []
      heap := []
      epoll := fun fd => if fd = tickleFd then some ⟨EPOLLIN ||| EPOLLET, tickleFd⟩ else none
      pendingEventCount := 0
      issued := []
      scheduled := []
      dropped := [] }
  have haccounts : Accounts start := by
    constructor <;> simp [start, registered]
  have hmirrored : Mirrored tickleFd start := by
    constructor
    · simp [start]
    · intro ctx hctx
      simp [start] at hctx
    · intro fd hne
      simp [start, hne]
  have hnew : new tickleFd = start.contextResize 32 := rfl
  rw [hnew, (contextResize_grow start 32 haccounts (Nat.zero_le 32)).1]
  refine ⟨?_, haccounts.grow start 32 (Nat.zero_le 32), hmirrored.grow tickleFd start 32
    (Nat.zero_le 32)⟩
  simp [start, grown]

theorem grow_sound (tickleFd : Nat) (s : IOManager φ κ) (hs : Sound tickleFd s) (fd : Nat)
    (hfd : s.heap.length ≤ fd * 3 / 2) :
    (s.grow fd).heap.length = fd * 3 / 2 ∧ After tickleFd NoFiber s (s.grow fd) := by
  obtain ⟨heq, hextends⟩ := contextResize_grow s (fd * 3 / 2) hs.accounts hfd
  have haccounts := hs.accounts.grow s (fd * 3 / 2) hfd
  have hmirrored := hs.mirrored.grow tickleFd s (fd * 3 / 2) hfd
  unfold grow
  rw [heq]
  have hlength : (grown s.heap (fd * 3 / 2)).length = fd * 3 / 2 := by
    simp only [grown, List.length_append, List.length_map, List.length_range']
    omega
  have hsize := hs.size
  refine ⟨hlength, ⟨by simp only [hlength]; omega, haccounts, hmirrored⟩, hextends, ?_⟩
  intro ptr ctx event fiber hctx hfiber
  rcases grown_cases s.heap (fd * 3 / 2) ptr ctx hfd hctx with hold | rfl
  · exact .inr ⟨ctx, hold, hfiber⟩
  · cases event <;> cases hfiber

theorem addEvent_sound (tickleFd : Nat) (s : IOManager φ κ) (hs : Sound tickleFd s) (fd : Nat)
    (event : Event) (cb : Option κ) (self : φ) (exec : Bool) (scheduler : Nat) (fails : Bool) :
    s.addEvent fd event cb self exec scheduler fails = .error .assertion ∨
      ∃ result s', s.addEvent fd event cb self exec scheduler fails = .ok (result, s') ∧
        After tickleFd (Registers fd event cb self) s s' := by
  have hready : ∃ current : IOManager φ κ,
      (if s.fdContexts.length > fd then s else s.grow fd) = current ∧ fd < current.heap.length ∧
        After tickleFd NoFiber s current := by
    have hlength : s.fdContexts.length = s.heap.length := by
      rw [hs.accounts.table, List.length_range]
    by_cases hlt : s.fdContexts.length > fd
    · exact ⟨s, if_pos hlt, by omega, hs, List.prefix_rfl, Gains.refl NoFiber s⟩
    · have hsize := hs.size
      obtain ⟨hlen, hgrown⟩ := grow_sound tickleFd s hs fd (by omega)
      exact ⟨s.grow fd, if_neg hlt, by omega, hgrown⟩
  obtain ⟨current, hcurrent, hfd, hafter⟩ := hready
  simp only [addEvent, hcurrent, fetch_of_lt current hafter.sound.accounts fd hfd]
  rcases addEventLocked_sound tickleFd current hafter.sound fd event cb self exec scheduler fails
    hfd with herror | ⟨result, s', hok, hadded⟩
  · exact .inl herror
  · refine .inr ⟨result, s', hok, hadded.sound, hafter.table.trans hadded.table, ?_⟩
    exact (hafter.gains.mono _ s current).trans _ s current s' hadded.gains

theorem addEvent_fails (s s' : IOManager φ κ) (fd : Nat) (event : Event) (cb : Option κ) (self : φ)
    (exec : Bool) (scheduler : Nat) (result : Int)
    (hok : s.addEvent fd event cb self exec scheduler true = .ok (result, s')) : result = -1 := by
  unfold addEvent addEventLocked at hok
  generalize (if s.fdContexts.length > fd then s else s.grow fd) = current at hok
  simp only [epollCtl] at hok
  split at hok
  · cases hok
  · split at hok
    · cases hok
    · split at hok
      · cases hok
      · simp only [true_or, if_true] at hok
        cases hok
        rfl

inductive Call (φ κ : Type) where
  | addEvent (fd : Nat) (event : Event) (cb : Option κ) (self : φ) (exec : Bool) (scheduler : Nat)
    (fails : Bool)
  | delEvent (fd : Nat) (event : Event) (fails : Bool)
  | cancelEvent (fd : Nat) (event : Event) (fails : Bool)
  | cancelAll (fd : Nat) (fails : Bool)
  | dispatch (ptr : Nat) (reported : Mask) (fails : Bool)

def call (s : IOManager φ κ) : Call φ κ → Except IOFault (IOManager φ κ)
  | .addEvent fd event cb self exec scheduler fails =>
    (s.addEvent fd event cb self exec scheduler fails).map Prod.snd
  | .delEvent fd event fails => (s.delEvent fd event fails).map Prod.snd
  | .cancelEvent fd event fails => (s.cancelEvent fd event fails).map Prod.snd
  | .cancelAll fd fails => (s.cancelAll fd fails).map Prod.snd
  | .dispatch ptr reported fails => s.dispatch ptr reported fails

/-- A run goes on as long as no assertion fires. -/
def step (s : IOManager φ κ) (label : Call φ κ) : Option (IOManager φ κ) :=
  (s.call label).toOption

/-- `epoll_wait` reports only pointers that were given to the kernel. -/
def Call.Valid (s : IOManager φ κ) : Call φ κ → Prop
  | .dispatch ptr _ _ => ptr < s.heap.length
  | _ => True

def Call.Adds : Call φ κ → Nat → Event → φ → Prop
  | .addEvent fd event cb self _ _ _ => Registers fd event cb self
  | _ => NoFiber

theorem call_sound (tickleFd : Nat) (s : IOManager φ κ) (hs : Sound tickleFd s)
    (label : Call φ κ) (hvalid : label.Valid s) :
    s.call label = .error .assertion ∨
      ∃ s', s.call label = .ok s' ∧ After tickleFd label.Adds s s' := by
  cases label with
  | addEvent fd event cb self exec scheduler fails =>
    rcases addEvent_sound tickleFd s hs fd event cb self exec scheduler fails with
      herror | ⟨result, s', hok, hafter⟩
    · exact .inl (by simp only [call, herror]; rfl)
    · exact .inr ⟨s', by simp only [call, hok]; rfl, hafter⟩
  | delEvent fd event fails =>
    obtain ⟨result, s', hok, hkept⟩ := delEvent_sound tickleFd s hs fd event fails
    exact .inr ⟨s', by simp only [call, hok]; rfl, hkept.after tickleFd _ s s'⟩
  | cancelEvent fd event fails =>
    obtain ⟨result, s', hok, hkept⟩ := cancelEvent_sound tickleFd s hs fd event fails
    exact .inr ⟨s', by simp only [call, hok]; rfl, hkept.after tickleFd _ s s'⟩
  | cancelAll fd fails =>
    rcases cancelAll_sound tickleFd s hs fd fails with herror | ⟨result, s', hok, hkept⟩
    · exact .inl (by simp only [call, herror]; rfl)
    · exact .inr ⟨s', by simp only [call, hok]; rfl, hkept.after tickleFd _ s s'⟩
  | dispatch ptr reported fails =>
    rcases dispatch_sound tickleFd s hs ptr reported fails hvalid with herror | ⟨s', hok, hkept⟩
    · exact .inl herror
    · exact .inr ⟨s', hok, hkept.after tickleFd _ s s'⟩

theorem step_sound (tickleFd : Nat) (s : IOManager φ κ) (label : Call φ κ) (s' : IOManager φ κ)
    (hs : Sound tickleFd s) (hstep : s.step label = some s') :
    After tickleFd label.Adds s s' := by
  have hcall : s.call label = .ok s' := Lib.ok_of_toOption _ _ hstep
  have hvalid : label.Valid s := by
    cases label with
    | dispatch ptr reported fails =>
      by_contra hout
      have hnone : s.heap[ptr]? = none := List.getElem?_eq_none (Nat.le_of_not_lt hout)
      simp only [call, dispatch, hnone] at hcall
      cases hcall
    | _ => trivial
  rcases call_sound tickleFd s hs label hvalid with herror | ⟨after, hok, hafter⟩
  · rw [herror] at hcall
    cases hcall
  · rw [hok] at hcall
    cases hcall
    exact hafter

theorem run_sound (tickleFd : Nat) (labels : List (Call φ κ)) (s : IOManager φ κ)
    (hrun : Lib.run step (new tickleFd) labels = some s) : Sound tickleFd s := by
  apply Lib.run_invariant (Sound tickleFd) _ labels (new tickleFd) s (new_sound tickleFd) hrun
  intro before label after hbefore hstep
  exact (step_sound tickleFd before label after hbefore hstep).sound

theorem events_accounted_for (tickleFd : Nat) (labels : List (Call φ κ)) (s : IOManager φ κ)
    (hrun : Lib.run step (new tickleFd) labels = some s) :
    s.pendingEventCount = ((s.heap.map fun ctx => bitsSet ctx.events).sum : Nat) ∧
      (∀ ctx ∈ s.heap, ∀ event,
        if ctx.events &&& event.mask ≠ 0 then
          (ctx.getContext event).scheduler.isSome = true ∧
            (ctx.getContext event).cb.isSome = !(ctx.getContext event).fiber.isSome
        else
          (ctx.getContext event).scheduler = none ∧ (ctx.getContext event).fiber = none ∧
            (ctx.getContext event).cb = none) ∧
      (∀ fd ptr ctx, s.fetch fd = some ptr → s.heap[ptr]? = some ctx →
        if fd = tickleFd then
          ctx.events = 0 ∧ (s.epoll fd).map Interest.events = some (EPOLLIN ||| EPOLLET)
        else
          (s.epoll fd).map Interest.events =
            if ctx.events = 0 then none else some (EPOLLET ||| ctx.events)) ∧
      (s.issued.map Waiter.ticket).Nodup ∧
      (s.registered ++ (s.scheduled.map Prod.snd ++ s.dropped)).Perm s.issued ∧
      ∀ label : Call φ κ, s.call label ≠ .error .nullScheduler := by
  have hs := run_sound tickleFd labels s hrun
  refine ⟨hs.accounts.pending, ?_, ?_, ?_, hs.accounts.custody, ?_⟩
  · intro ctx hctx event
    obtain ⟨ptr, hptr⟩ := List.mem_iff_getElem?.mp hctx
    have hconsistent := hs.accounts.consistent ptr ctx hptr
    split
    · rename_i hset
      exact hconsistent.armed event hset
    · rename_i hclear
      rw [not_not] at hclear
      exact hconsistent.blank event hclear
  · intro fd ptr ctx hfetch hctx
    obtain rfl := fetch_eq s hs.accounts fd ptr hfetch
    split
    · rename_i heq
      subst heq
      rw [hs.mirrored.tickle]
      exact ⟨hs.mirrored.quiet ctx hctx, rfl⟩
    · rename_i hne
      rw [hs.mirrored.other ptr hne, hctx]
      simp only
      split <;> rfl
  · rw [hs.accounts.tickets]
    exact List.nodup_range
  · intro label hfault
    by_cases hvalid : label.Valid s
    · rcases call_sound tickleFd s hs label hvalid with herror | ⟨s', hok, _⟩
      · rw [herror] at hfault
        cases hfault
      · rw [hok] at hfault
        cases hfault
    · cases label with
      | dispatch ptr reported fails =>
        have hnone : s.heap[ptr]? = none := List.getElem?_eq_none (Nat.le_of_not_lt hvalid)
        simp only [call, dispatch, hnone] at hfault
        cases hfault
      | _ => exact hvalid trivial

/-- A waiter that is dispatched, one that is dropped, and one that `epoll_ctl`
keeps in place by failing. -/
theorem events_accounted_for_three_waiters :
    ∃ s : IOManager Nat Nat,
      Lib.run step (new 5)
        [.addEvent 7 .read none 1 true 0 false, .addEvent 7 .write (some 2) 1 true 0 false,
          .dispatch 7 EPOLLIN false, .delEvent 7 .write false, .addEvent 40 .read none 3 true 0 false,
          .cancelEvent 40 .read true] = some s ∧
        s.pendingEventCount = ((s.heap.map fun ctx => bitsSet ctx.events).sum : Nat) ∧
        (s.registered ++ (s.scheduled.map Prod.snd ++ s.dropped)).Perm s.issued := by
  obtain ⟨s, hrun⟩ : ∃ s : IOManager Nat Nat,
      Lib.run step (new 5)
        [.addEvent 7 .read none 1 true 0 false, .addEvent 7 .write (some 2) 1 true 0 false,
          .dispatch 7 EPOLLIN false, .delEvent 7 .write false, .addEvent 40 .read none 3 true 0 false,
          .cancelEvent 40 .read true] = some s :=
    Option.isSome_iff_exists.mp (by decide)
  have hall := events_accounted_for 5 _ s hrun
  exact ⟨s, hrun, hall.1, hall.2.2.2.2.1⟩

/-- The pipe is in the kernel's table from the start, its context has no event. -/
theorem tickle_fd_present_without_events :
    ((new 5 : IOManager Nat Nat).fetch 5).map
        (fun ptr => ((new 5 : IOManager Nat Nat).heap[ptr]?).map FdContext.events) =
      some (some 0) ∧
      ((new 5 : IOManager Nat Nat).epoll 5).map Interest.events =
        some (EPOLLIN ||| EPOLLET) := by
  decide

end Sylar.IOManager
