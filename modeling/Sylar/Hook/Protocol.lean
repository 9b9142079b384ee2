import Sylar.Hook.Timeout

/-! A fiber that is parked in a hooked call is guarded by its timer, as long as
the fiber does not register its event after the callback has cancelled it. -/
namespace Sylar.Hooked

variable {κ : Type}

theorem waiting_iff (tickleFd : Nat) (c : HookedCall) (s : Hooked κ)
    (hs : IOManager.Sound tickleFd s.events) :
    s.waiting c = true ↔ ∃ ctx, s.events.heap[c.fd]? = some ctx ∧
      (ctx.getContext c.event).fiber = some c.self := by
  unfold waiting
  cases hctx : s.events.heap[c.fd]? with
  | none =>
    have hfetch : s.events.fetch c.fd = none := by
      unfold IOManager.fetch
      rw [hs.accounts.table]
      exact List.getElem?_eq_none (by simpa using List.getElem?_eq_none_iff.mp hctx)
    simp [hfetch]
  | some ctx =>
    have hlt := (List.getElem?_eq_some_iff.mp hctx).1
    rw [IOManager.fetch_of_lt s.events hs.accounts c.fd hlt]
    simp only [Option.bind_some, hctx, decide_eq_true_eq, Option.some.injEq, exists_eq_left']
    apply and_iff_right_of_imp
    -- a context without the bit holds no fiber
    intro hfiber hclear
    have hblank := (hs.accounts.consistent c.fd ctx hctx).blank c.event hclear
    rw [hblank.2.1] at hfiber
    cases hfiber

theorem waiting_of_gains (tickleFd : Nat) (c : HookedCall) (s s' : Hooked κ)
    (allowed : Nat → Event → Nat → Prop) (hs : IOManager.Sound tickleFd s.events)
    (hs' : IOManager.Sound tickleFd s'.events)
    (hgains : IOManager.Gains allowed s.events s'.events)
    (hnot : ¬ allowed c.fd c.event c.self) (hclear : s.waiting c = false) :
    s'.waiting c = false := by
  rw [Bool.eq_false_iff] at hclear ⊢
  rw [Ne, waiting_iff tickleFd c _ hs']
  rw [Ne, waiting_iff tickleFd c _ hs] at hclear
  intro hwaits
  obtain ⟨ctx, hctx, hfiber⟩ := hwaits
  exact hclear ((hgains c.fd ctx c.event c.self hctx hfiber).resolve_left hnot)

/-- The invariant. A timer whose callback has run has marked the call, and a
marked call does not wait once the event is cancelled. -/
structure Protocol (tickleFd : Nat) (c : HookedCall) (s : Hooked κ) : Prop where
  queued : s.timers.Queued []
  sound : IOManager.Sound tickleFd s.events
  owned : ∀ timer, s.pc.timer = some timer → ∃ object, s.timers.object timer = some object ∧
    object.recurring = false ∧ (object.cb = some (.timeout timer) ∨ object.cb = none)
  armed : ∀ timer, s.pc.timer = some timer →
    timer ∈ s.timers.timers ∨ .timeout timer ∈ s.emitted ∨ s.cancelled = true
  caught : ∀ timer, s.pc.waits = some timer → s.cancelled = true → s.running = none →
    s.waiting c = false

theorem start_protocol (tickleFd : Nat) (c : HookedCall) (now : UInt64) :
    Protocol tickleFd c (start tickleFd now : Hooked κ) := by
  constructor
  · exact TimerManager.new_queued now
  · exact IOManager.new_sound tickleFd
  · intro timer htimer
    cases htimer
  · intro timer htimer
    cases htimer
  · intro timer hwaits
    cases hwaits

theorem Protocol.move (tickleFd : Nat) (c : HookedCall) (s : Hooked κ) (pc : HookPc)
    (hp : Protocol tickleFd c s) (htimer : ∀ timer, pc.timer = some timer → s.pc.timer = some timer)
    (hwaits : ∀ timer, pc.waits = some timer → s.pc.waits = some timer) :
    Protocol tickleFd c { s with pc := pc } where
  queued := hp.queued
  sound := hp.sound
  owned := fun timer hpc => hp.owned timer (htimer timer hpc)
  armed := fun timer hpc => hp.armed timer (htimer timer hpc)
  caught := fun timer hpc => hp.caught timer (hwaits timer hpc)

theorem Protocol.cancel (tickleFd : Nat) (c : HookedCall) (s : Hooked κ) (pc : HookPc) (ptr : Nat)
    (result : Bool) (timers : TimerManager Callback) (hp : Protocol tickleFd c s)
    (hok : s.timers.cancel ptr = .ok (result, timers)) (htimer : pc.timer = none)
    (hwaits : pc.waits = none) : Protocol tickleFd c { s with pc := pc, timers := timers } := by
  constructor
  · exact TimerManager.call_queued s.timers (.cancel ptr) timers hp.queued
      (by simp only [TimerManager.call, hok]; rfl)
  · exact hp.sound
  · intro timer hpc
    rw [htimer] at hpc
    cases hpc
  · intro timer hpc
    rw [htimer] at hpc
    cases hpc
  · intro timer hpc
    rw [hwaits] at hpc
    cases hpc

theorem Protocol.arm (tickleFd : Nat) (c : HookedCall) (s : Hooked κ) (ptr : Nat) (now : UInt64)
    (result : Bool) (timers : TimerManager Callback) (hp : Protocol tickleFd c s)
    (hok : s.timers.addTimer ptr c.timeout (.timeout ptr) false now = .ok (result, timers)) :
    Protocol tickleFd c { s with pc := .register ptr, timers := timers } := by
  have hqueued := TimerManager.call_queued s.timers
    (.addTimer ptr c.timeout (.timeout ptr) false now) timers hp.queued
    (by simp only [TimerManager.call, hok]; rfl)
  unfold TimerManager.addTimer at hok
  split at hok
  · cases hok
  · obtain rfl : _ = timers := congrArg Prod.snd (Except.ok.inj hok)
    constructor
    · exact hqueued
    · exact hp.sound
    · intro timer htimer
      obtain rfl : ptr = timer := Option.some.inj htimer
      rw [TimerManager.addTimerLocked_object]
      exact ⟨_, if_pos rfl, rfl, .inl rfl⟩
    · intro timer htimer
      obtain rfl : ptr = timer := Option.some.inj htimer
      left
      exact (TimerManager.mem_addTimerLocked _ ptr ptr).mpr (.inl rfl)
    · intro timer hwaits
      cases hwaits

theorem Protocol.addEvent (tickleFd : Nat) (c : HookedCall) (s : Hooked κ) (timer : Nat)
    (scheduler : Nat) (fails : Bool) (rt : Int) (events : IOManager Nat κ)
    (hp : Protocol tickleFd c s) (hcatches : Catches c s (.addEvent scheduler fails))
    (hpc : s.pc = .register timer)
    (hok : s.events.addEvent c.fd c.event none c.self true scheduler fails = .ok (rt, events)) :
    Protocol tickleFd c
      { s with
        pc := if rt = 0 then .yield timer s.events.issued.length else .failed timer
        events := events } := by
  have hsound : IOManager.Sound tickleFd events := by
    rcases IOManager.addEvent_sound tickleFd s.events hp.sound c.fd c.event none c.self true
      scheduler fails with herror | ⟨result, after, hafter, hkept⟩
    · rw [herror] at hok
      cases hok
    · rw [hafter] at hok
      cases hok
      exact hkept.sound
  have htimer : ∀ other, (if rt = 0 then HookPc.yield timer s.events.issued.length
      else .failed timer).timer = some other → s.pc.timer = some other := by
    intro other hother
    rw [hpc]
    split at hother <;> exact hother
  constructor
  · exact hp.queued
  · exact hsound
  · intro other hother
    exact hp.owned other (htimer other hother)
  · intro other hother
    exact hp.armed other (htimer other hother)
  · intro other hwaits hcancelled hrunning
    cases fails with
    | true =>
      rw [IOManager.addEvent_fails _ _ _ _ _ _ _ _ _ hok] at hwaits
      cases hwaits
    | false =>
      have hrunning' := hcatches rfl hcancelled
      rw [hrunning] at hrunning'
      cases hrunning'

theorem Protocol.expire (tickleFd : Nat) (c : HookedCall) (s : Hooked κ) (now : UInt64)
    (probe : Nat) (cbs : List (Option Callback)) (timers : TimerManager Callback)
    (hp : Protocol tickleFd c s) (hok : s.timers.listExpiredCb now probe = .ok (cbs, timers)) :
    Protocol tickleFd c { s with emitted := s.emitted ++ cbs.filterMap id, timers := timers } := by
  constructor
  · exact TimerManager.call_queued s.timers (.listExpiredCb now probe) timers hp.queued
      (by simp only [TimerManager.call, hok]; rfl)
  · exact hp.sound
  · intro timer htimer
    obtain ⟨object, hobject, hrecurring, hcb⟩ := hp.owned timer htimer
    obtain ⟨after, hafter, honce, hkept, _⟩ := TimerManager.listExpiredCb_oneShot s.timers timers
      now probe cbs timer object hp.queued hok hobject hrecurring
    refine ⟨after, hafter, honce, ?_⟩
    rcases hkept with hsame | hnone
    · rw [hsame]
      exact hcb
    · exact .inr hnone
  · intro timer htimer
    obtain ⟨object, hobject, hrecurring, hcb⟩ := hp.owned timer htimer
    obtain ⟨_, _, _, _, hleaves⟩ := TimerManager.listExpiredCb_oneShot s.timers timers
      now probe cbs timer object hp.queued hok hobject hrecurring
    rcases hp.armed timer htimer with hin | hemitted | hcancelled
    · rcases hleaves hin with hstays | hfired
      · exact .inl hstays
      · -- a timer in the set has its callback
        obtain ⟨object', hobject', hsome⟩ := (hp.queued.live timer).mpr (.inl hin)
        rw [hobject] at hobject'
        cases hobject'
        rcases hcb with htimeout | hnone
        · right
          left
          apply List.mem_append_right
          rw [List.mem_filterMap]
          exact ⟨object.cb, hfired, htimeout⟩
        · rw [hnone] at hsome
          cases hsome
    · exact .inr (.inl (List.mem_append_left _ hemitted))
    · exact .inr (.inr hcancelled)
  · exact hp.caught

theorem Protocol.callback (tickleFd : Nat) (c : HookedCall) (s s' : Hooked κ) (fired : Nat)
    (hp : Protocol tickleFd c s) (hstep : s.step c (.callback fired) = some s') :
    Protocol tickleFd c s' := by
  simp only [step] at hstep
  split at hstep
  · split at hstep
    · rename_i hidle
      cases hstep
      refine ⟨hp.queued, hp.sound, hp.owned, ?_, hp.caught⟩
      intro timer htimer
      rcases hidle with hcancelled | hreturned
      · exact .inr (.inr hcancelled)
      · simp only [hreturned] at htimer
        cases htimer
    · cases hstep
      refine ⟨hp.queued, hp.sound, hp.owned, ?_, ?_⟩
      · intro timer _
        exact .inr (.inr rfl)
      · intro timer _ _ hrunning
        cases hrunning
  · cases hstep

theorem Protocol.withEvents (tickleFd : Nat) (c : HookedCall) (s : Hooked κ)
    (running : Option Nat) (events : IOManager Nat κ) (hp : Protocol tickleFd c s)
    (hsound : IOManager.Sound tickleFd events)
    (hcaught : ∀ timer, s.pc.waits = some timer → s.cancelled = true → running = none →
      ({ s with events := events } : Hooked κ).waiting c = false) :
    Protocol tickleFd c { s with running := running, events := events } :=
  ⟨hp.queued, hsound, hp.owned, hp.armed, hcaught⟩

theorem Protocol.cancelEvent (tickleFd : Nat) (c : HookedCall) (s : Hooked κ) (fails result : Bool)
    (events : IOManager Nat κ) (hp : Protocol tickleFd c s)
    (hcatches : Catches c s (.cancelEvent fails))
    (hok : s.events.cancelEvent c.fd c.event fails = .ok (result, events)) :
    Protocol tickleFd c { s with running := none, events := events } := by
  obtain ⟨_, after, hafter, hkept⟩ := IOManager.cancelEvent_sound tickleFd s.events hp.sound c.fd
    c.event fails
  have heq := hok
  rw [hafter] at heq
  cases heq
  apply hp.withEvents tickleFd c s none events hkept.sound
  intro _ _ _ _
  cases fails with
  | true =>
    exact waiting_of_gains tickleFd c s { s with events := events } _ hp.sound hkept.sound
      hkept.gains id (hcatches rfl)
  | false =>
    rw [Bool.eq_false_iff, Ne, waiting_iff tickleFd c _ hkept.sound]
    intro hwaits
    obtain ⟨ctx, hctx, hfiber⟩ := hwaits
    have hclear := IOManager.cancelEvent_clears tickleFd s.events events hp.sound c.fd c.event
      result ctx hok hctx
    rw [((hkept.sound.accounts.consistent c.fd ctx hctx).blank c.event hclear).2.1] at hfiber
    cases hfiber

theorem Protocol.events (tickleFd : Nat) (c : HookedCall) (s : Hooked κ)
    (call : IOManager.Call Nat κ) (events : IOManager Nat κ) (hp : Protocol tickleFd c s)
    (hstrange : strange c call = true) (hstep : s.events.step call = some events) :
    Protocol tickleFd c { s with events := events } := by
  have hafter := IOManager.step_sound tickleFd s.events call events hp.sound hstep
  have hnot : ¬ call.Adds c.fd c.event c.self := by
    cases call with
    | addEvent fd event cb self exec scheduler fails =>
      intro hadds
      obtain ⟨rfl, _, _, hself⟩ := hadds
      exact of_decide_eq_true hstrange hself.symm
    | _ => exact id
  apply hp.withEvents tickleFd c s s.running events hafter.sound
  intro timer hwaits hcancelled hrunning
  exact waiting_of_gains tickleFd c s { s with events := events } _ hp.sound hafter.sound
    hafter.gains hnot (hp.caught timer hwaits hcancelled hrunning)

theorem Protocol.timers (tickleFd : Nat) (c : HookedCall) (s : Hooked κ)
    (call : TimerManager.Call Callback) (timers : TimerManager Callback)
    (hp : Protocol tickleFd c s) (hforeign : s.foreign call = true)
    (hok : s.timers.call call = .ok timers) : Protocol tickleFd c { s with timers := timers } := by
  have huntouched : ∀ timer, s.pc.timer = some timer →
      TimerManager.Untouched s.timers timers timer := by
    intro timer htimer
    apply TimerManager.call_untouched s.timers timers call timer hp.queued _ _ hok
    · rw [← htimer]
      cases call with
      | addTimer ptr ms cb recurring now =>
        cases cb with
        | other id => exact (of_decide_eq_true hforeign).symm
        | timeout _ => cases hforeign
      | listExpiredCb now probe => cases hforeign
      | getNextTimer now =>
        rw [htimer]
        exact fun h => nomatch h
      | _ => exact (of_decide_eq_true hforeign).symm
    · intro now probe heq
      rw [heq] at hforeign
      cases hforeign
  constructor
  · exact TimerManager.call_queued s.timers call timers hp.queued hok
  · exact hp.sound
  · intro timer htimer
    change ∃ object, timers.object timer = some object ∧ _
    rw [(huntouched timer htimer).object]
    exact hp.owned timer htimer
  · intro timer htimer
    change timer ∈ timers.timers ∨ _
    rw [(huntouched timer htimer).timers]
    exact hp.armed timer htimer
  · exact hp.caught

theorem fiberStep_protocol (tickleFd : Nat) (c : HookedCall) (s s' : Hooked κ)
    (label : HookLabel κ) (hp : Protocol tickleFd c s) (hcatches : Catches c s label)
    (hstep : s.fiberStep c label = some s') : Protocol tickleFd c s' := by
  cases label with
  | attempt blocked =>
    simp only [fiberStep] at hstep
    split at hstep
    · cases hstep
      apply hp.move tickleFd c s
      · intro timer htimer
        cases blocked <;> cases htimer
      · intro timer hwaits
        cases blocked <;> cases hwaits
    · cases hstep
  | arm ptr now =>
    simp only [fiberStep] at hstep
    split at hstep
    · rename_i hok
      cases hstep
      exact hp.arm tickleFd c s ptr now _ _ hok
    · cases hstep
  | addEvent scheduler fails =>
    simp only [fiberStep] at hstep
    split at hstep
    · rename_i hpc hok
      cases hstep
      exact hp.addEvent tickleFd c s _ scheduler fails _ _ hcatches hpc hok
    · cases hstep
  | yieldToHold =>
    simp only [fiberStep] at hstep
    split at hstep
    · rename_i hpc
      cases hstep
      apply hp.move tickleFd c s
      · intro timer htimer
        rw [hpc]
        exact htimer
      · intro timer hwaits
        rw [hpc]
        exact hwaits
    · cases hstep
  | resume =>
    simp only [fiberStep] at hstep
    split at hstep
    · rename_i hpc
      split at hstep
      · cases hstep
        apply hp.move tickleFd c s
        · intro timer htimer
          rw [hpc]
          exact htimer
        · intro timer hwaits
          cases hwaits
      · cases hstep
    · cases hstep
  | cancelTimer =>
    simp only [fiberStep] at hstep
    split at hstep
    · obtain ⟨⟨result, timers⟩, hok, rfl⟩ := Option.map_eq_some_iff.mp hstep
      exact hp.cancel tickleFd c s .checked _ result timers (Lib.ok_of_toOption _ _ hok) rfl rfl
    · obtain ⟨⟨result, timers⟩, hok, rfl⟩ := Option.map_eq_some_iff.mp hstep
      exact hp.cancel tickleFd c s .returned _ result timers (Lib.ok_of_toOption _ _ hok) rfl rfl
    · cases hstep
  | check =>
    simp only [fiberStep] at hstep
    split at hstep
    · cases hstep
      apply hp.move tickleFd c s
      · intro timer htimer
        split at htimer
        · cases htimer
        · split at htimer <;> cases htimer
      · intro timer hwaits
        split at hwaits
        · cases hwaits
        · split at hwaits <;> cases hwaits
    · cases hstep
  | _ => cases hstep

theorem step_protocol (tickleFd : Nat) (c : HookedCall) (s s' : Hooked κ) (label : HookLabel κ)
    (hp : Protocol tickleFd c s) (hcatches : Catches c s label)
    (hstep : s.step c label = some s') : Protocol tickleFd c s' := by
  cases label with
  | expire now probe =>
    obtain ⟨⟨cbs, timers⟩, hok, rfl⟩ := Option.map_eq_some_iff.mp hstep
    exact hp.expire tickleFd c s now probe cbs timers (Lib.ok_of_toOption _ _ hok)
  | callback timer => exact hp.callback tickleFd c s s' timer hstep
  | cancelEvent fails =>
    simp only [step] at hstep
    split at hstep
    · rename_i hok
      cases hstep
      exact hp.cancelEvent tickleFd c s fails _ _ hcatches hok
    · cases hstep
  | timers call =>
    simp only [step] at hstep
    split at hstep
    · rename_i hforeign
      obtain ⟨timers, hok, rfl⟩ := Option.map_eq_some_iff.mp hstep
      exact hp.timers tickleFd c s call timers hforeign (Lib.ok_of_toOption _ _ hok)
    · cases hstep
  | events call =>
    simp only [step] at hstep
    split at hstep
    · rename_i hstrange
      obtain ⟨events, hok, rfl⟩ := Option.map_eq_some_iff.mp hstep
      exact hp.events tickleFd c s call events hstrange hok
    · cases hstep
  | _ => exact fiberStep_protocol tickleFd c s s' _ hp hcatches hstep

/-- No timeout is lost along a run in which every callback catches the event. -/
theorem parked_guarded_by_timer (tickleFd : Nat) (now : UInt64) (c : HookedCall)
    (labels : List (HookLabel κ)) (s : Hooked κ) (timer ticket : Nat)
    (hcatches : Lib.Meets (step c) (Catches c) (start tickleFd now) labels)
    (hrun : Lib.run (step c) (start tickleFd now) labels = some s)
    (hparked : s.pc = .parked timer ticket) (hwaiting : s.waiting c = true) :
    timer ∈ s.timers.timers ∨ .timeout timer ∈ s.emitted ∨ s.running.isSome = true := by
  have hp : Protocol tickleFd c s :=
    Lib.run_invariant_of_meets (Catches c) (Protocol tickleFd c)
      (fun before label after hp hcatches hstep =>
        step_protocol tickleFd c before after label hp hcatches hstep)
      labels _ s (start_protocol tickleFd c now) hcatches hrun
  rcases hp.armed timer (by rw [hparked]; rfl) with hin | hemitted | hcancelled
  · exact .inl hin
  · exact .inr (.inl hemitted)
  · right
    right
    rw [Option.isSome_iff_ne_none]
    intro hrunning
    rw [hp.caught timer (by rw [hparked]; rfl) hcancelled hrunning] at hwaiting
    cases hwaiting

/-- `read` on descriptor 7 with a timeout of one second. -/
def shortRead : HookedCall where
  fd := 7
  event := .read
  self := 1
  timeout := 1000
  finite := by decide
  retries := true

theorem parked_guarded_by_timer_short_read :
    Lib.Meets (step shortRead) (Catches shortRead) (start 5 0 : Hooked Nat)
        [.attempt true, .arm 8 0, .addEvent 0 false, .yieldToHold, .expire 1000 9] ∧
      ∃ s : Hooked Nat,
        Lib.run (step shortRead) (start 5 0)
            [.attempt true, .arm 8 0, .addEvent 0 false, .yieldToHold, .expire 1000 9] = some s ∧
          s.pc = .parked 8 0 ∧ s.waiting shortRead = true ∧ s.timers.timers = [] ∧
          (8 ∈ s.timers.timers ∨ .timeout 8 ∈ s.emitted ∨ s.running.isSome = true) := by
  have hcatches : Lib.Meets (step shortRead) (Catches shortRead) (start 5 0 : Hooked Nat)
      [.attempt true, .arm 8 0, .addEvent 0 false, .yieldToHold, .expire 1000 9] := by decide
  obtain ⟨s, hrun⟩ : ∃ s : Hooked Nat,
      Lib.run (step shortRead) (start 5 0)
        [.attempt true, .arm 8 0, .addEvent 0 false, .yieldToHold, .expire 1000 9] = some s :=
    Option.isSome_iff_exists.mp (by decide)
  have hstate : (Lib.run (step shortRead) (start 5 0 : Hooked Nat)
      [.attempt true, .arm 8 0, .addEvent 0 false, .yieldToHold, .expire 1000 9]).map
      (fun s => (s.pc, s.waiting shortRead, s.timers.timers)) = some (.parked 8 0, true, []) := by
    decide
  rw [hrun] at hstate
  simp only [Option.map_some, Option.some.injEq, Prod.mk.injEq] at hstate
  obtain ⟨hpc, hwaiting, htimers⟩ := hstate
  exact ⟨hcatches, s, hrun, hpc, hwaiting, htimers,
    parked_guarded_by_timer 5 0 shortRead _ s 8 0 hcatches hrun hpc hwaiting⟩

/-- The timer fires before the fiber has registered its event: `cancelEvent` finds
nothing to cancel, and the fiber parks for ever. -/
theorem timeout_lost_before_addEvent :
    (Lib.run (step shortRead) (start 5 0 : Hooked Nat)
      [.attempt true, .arm 8 0, .expire 1000 9, .callback 8, .cancelEvent false,
        .addEvent 0 false, .yieldToHold]).map
      (fun s => (s.pc, s.waiting shortRead, s.timers.timers, s.emitted, s.running)) =
    some (.parked 8 0, true, [], [], none) := by
  decide

end Sylar.Hooked
