import Sylar.Scheduler.Lifecycle

/-! What one worker does with the fiber of a slice, and so in every run: the branches of `run`
are followed from `swapIn` to the next head of the loop. -/
namespace Sylar.Lifecycle
variable {κ : Type}

namespace Scheduler

theorem ne_exec_of_sound (fiber : Fiber κ) (hsound : fiber.Sound) (hstack : fiber.stack = true) :
    fiber.state ≠ .exec := by
  intro hexec
  rw [Fiber.Sound, hexec, hstack] at hsound
  cases hsound

theorem live_of_sound (fiber : Fiber κ) (hsound : fiber.Sound) (hexec : fiber.state ≠ .exec)
    (hended : ¬ (fiber.state = .term ∨ fiber.state = .except)) : fiber.Live := by
  unfold Fiber.Sound at hsound
  cases hstate : fiber.state with
  | init =>
    rw [hstate] at hsound
    exact ⟨hsound.1, .inl ⟨hstate, hsound.2⟩⟩
  | hold =>
    rw [hstate] at hsound
    exact ⟨hsound.1, .inr ⟨.inl hstate, hsound.2⟩⟩
  | ready =>
    rw [hstate] at hsound
    exact ⟨hsound.1, .inr ⟨.inr hstate, hsound.2⟩⟩
  | term => exact absurd (.inl hstate) hended
  | except => exact absurd (.inr hstate) hended
  | exec => exact absurd hstate hexec

theorem swapIn_ok (s : Scheduler κ) (ptr : Nat) (role : Role) (fiber : Fiber κ)
    (hfiber : s.heap[ptr]? = some fiber) (hlive : fiber.Live)
    (hcore : s.Core none (exemptOf ptr role)) (hrole : s.RoleOk ptr role) :
    ∃ s', s.swapIn ptr role = .ok s' ∧ s'.Inv := by
  obtain ⟨hstack, hstates⟩ := hlive
  have hexec : fiber.state ≠ .exec := by
    rcases hstates with ⟨hstate, -⟩ | ⟨hstate | hstate, -⟩
    all_goals rw [hstate]; decide
  have hctx : fiber.ctx ≠ .finished := by
    rcases hstates with ⟨-, hctx⟩ | ⟨-, hctx⟩
    all_goals rw [hctx]; decide
  refine ⟨{ s with heap := s.heap.set ptr { fiber with state := .exec }, pc := .exec ptr role },
    ?_, ?_, hrole, ?_⟩
  · rw [swapIn, update_ok s ptr Fiber.swapIn fiber { fiber with state := .exec } hfiber
      (if_neg hexec)]
    rfl
  · apply hcore.set
    · intro other hne
      refine ⟨by simp, ?_⟩
      cases role with
      | cb => exact fun heq => hne (Option.some.inj heq).symm
      | fiber | idle => simp [exemptOf]
    · intro hne
      exact absurd rfl hne
    · rintro rfl
      exact ⟨hstack, by simp, (hcore.idle_at fiber hfiber).2.2⟩
    · intro hcb
      refine ⟨hstack, (hcore.cb_at ptr fiber hcb hfiber).imp_right ?_⟩
      rintro (hterm | hexcept | hnull)
      · simp [hterm] at hstates
      · simp [hexcept] at hstates
      · exact .inr (.inr hnull)
  · exact ⟨{ fiber with state := .exec }, getElem_set s ptr fiber _ hfiber, hstack, rfl, hctx⟩

theorem getState_of_eq (s : Scheduler κ) (ptr : Nat) (fiber : Fiber κ)
    (hfiber : s.heap[ptr]? = some fiber) : s.getState ptr = some fiber.state := by
  rw [getState, hfiber]
  rfl

theorem ended_iff (s : Scheduler κ) (ptr : Nat) (fiber : Fiber κ)
    (hfiber : s.heap[ptr]? = some fiber) :
    s.Ended ptr ↔ fiber.state = .term ∨ fiber.state = .except := by
  rw [Ended, getState_of_eq s ptr fiber hfiber, Option.some.injEq, Option.some.injEq]

theorem Core.recyclable {s : Scheduler κ} (h : s.Core none none) (ptr : Nat)
    (hptr : s.cbFiber = some ptr) : s.At ptr fun fiber => fiber.stack = true ∧
      (fiber.state = .init ∨ fiber.state = .term ∨ fiber.state = .except) := by
  obtain ⟨-, fiber, hfiber, hstack, hspent⟩ := h.cb ptr hptr
  refine ⟨fiber, hfiber, hstack, ?_⟩
  rcases hspent.resolve_left (by simp) with hterm | hexcept | ⟨hstart, -⟩
  · exact .inr (.inl hterm)
  · exact .inr (.inr hexcept)
  · -- at the head of `MainFunc`, and not being run
    have hsound := h.others ptr fiber hfiber (by simp)
    have hexec := ne_exec_of_sound fiber hsound hstack
    unfold Fiber.Sound at hsound
    cases hstate : fiber.state with
    | init => exact .inl rfl
    | term => exact .inr (.inl rfl)
    | except => exact .inr (.inr rfl)
    | hold | ready =>
      rw [hstate, hstart] at hsound
      cases hsound.2
    | exec => exact absurd hstate hexec

theorem reset_ok (fiber : Fiber κ) (cb : Option κ) (hstack : fiber.stack = true)
    (hstate : fiber.state = .init ∨ fiber.state = .term ∨ fiber.state = .except) :
    fiber.reset cb = .ok (fiber.renewed cb) := by
  rw [Fiber.reset, Fiber.renewed, hstack, if_neg (by decide), if_pos]
  rcases hstate with hinit | hterm | hexcept
  · exact .inr (.inr hinit)
  · exact .inl hterm
  · exact .inr (.inl hexcept)

theorem dispatchCb_ok (s : Scheduler κ) (cb : κ) (h : s.Core none none) :
    ∃ s', s.dispatchCb cb = .ok s' ∧ s'.Inv := by
  rw [dispatchCb]
  cases hptr : s.cbFiber with
  | some ptr =>
    obtain ⟨fiber, hfiber, hstack, hstate⟩ := h.recyclable ptr hptr
    have hreset := update_ok s ptr (Fiber.reset · (some cb)) fiber _ hfiber
      (reset_ok fiber (some cb) hstack hstate)
    have hcore :
        { s with heap := s.heap.set ptr (fiber.renewed (some cb)) }.Core none (some ptr) := by
      apply h.set
      · exact fun other _ => ⟨by simp, by simp⟩
      · exact fun _ => ⟨hstack, rfl⟩
      · exact fun hidle => absurd hidle (h.cb ptr hptr).1
      · exact fun _ => ⟨hstack, .inl rfl⟩
    obtain ⟨s', hswap, hinv⟩ := swapIn_ok _ ptr .cb (fiber.renewed (some cb))
      (getElem_set s ptr fiber _ hfiber)
      ⟨hstack, .inl ⟨rfl, rfl⟩⟩ hcore hptr
    refine ⟨s', ?_, hinv⟩
    simp only [hreset]
    exact hswap
  | none =>
    have hnew : (s.alloc (Fiber.create (some cb))).heap[s.heap.length]? =
        some (Fiber.create (some cb)) := List.getElem?_concat_length
    have hcore := h.alloc (Fiber.create (some cb)) ⟨rfl, rfl⟩
    apply swapIn_ok { s.alloc (Fiber.create (some cb)) with cbFiber := some s.heap.length }
      s.heap.length .cb _ hnew ⟨rfl, .inl ⟨rfl, rfl⟩⟩ _ rfl
    refine ⟨hcore.others, hcore.queue, hcore.idle, ?_⟩
    rintro ptr ⟨⟩
    refine ⟨?_, _, hnew, rfl, .inl rfl⟩
    intro heq
    obtain ⟨fiber, hfiber, -⟩ := h.idle
    obtain ⟨hlt, -⟩ := List.getElem?_eq_some_iff.mp hfiber
    exact Nat.lt_irrefl _ (heq ▸ hlt)

theorem dispatch_ok (s : Scheduler κ) (h : s.Inv)
    (hpc : s.pc = .nothing ∨ ∃ ft, s.pc = .taken ft) : ∃ s', s.dispatch = .ok s' ∧ s'.Inv := by
  unfold Inv at h
  rw [dispatch]
  rcases hpc with hpc | ⟨ft, hpc⟩
  · rw [hpc] at h ⊢
    obtain ⟨fiber, hfiber, hidles⟩ := h.idle
    have hstate := s.getState_of_eq s.idleFiber fiber hfiber
    simp only [hstate, Option.some.injEq]
    split
    · exact ⟨_, rfl, h.setPc .exited⟩
    · next hterm =>
      have hsound := h.others s.idleFiber fiber hfiber (by simp)
      have hexec := ne_exec_of_sound fiber hsound hidles.1
      have hlive := live_of_sound fiber hsound hexec fun hended => hended.elim hterm hidles.2.1
      exact swapIn_ok s s.idleFiber .idle fiber hfiber hlive h rfl
  · rw [hpc] at h ⊢
    obtain ⟨hcore, hft⟩ := h
    cases hlive : ft.fiber.filter (fun ptr => !decide (s.Ended ptr)) with
    | none =>
      cases hcb : ft.cb with
      | some cb =>
        simp only [hlive, hcb]
        exact s.dispatchCb_ok cb hcore
      | none =>
        simp only [hlive, hcb]
        exact ⟨_, rfl, hcore.setPc .head⟩
    | some ptr =>
      simp only [hlive]
      obtain ⟨hptr, hended⟩ := Option.filter_eq_some_iff.mp hlive
      obtain ⟨fiber, hfiber, hexec⟩ := hft ptr hptr
      rw [Bool.not_eq_true', decide_eq_false_iff_not, s.ended_iff ptr fiber hfiber] at hended
      have hlive := live_of_sound fiber (hcore.others ptr fiber hfiber (by simp)) hexec hended
      exact swapIn_ok s ptr .fiber fiber hfiber hlive hcore trivial

theorem leave_returned (fiber : Fiber κ) (outcome : Outcome) (h : fiber.Running) :
    (fiber.leave outcome).Returned := by
  obtain ⟨hstack, hexec, -⟩ := h
  cases outcome with
  | swapOut => exact ⟨hstack, by rw [Fiber.leave, hexec]; decide, .inr ⟨hexec, rfl⟩⟩
  | hold | ready | term | except => exact ⟨hstack, by simp [Fiber.leave], .inl ⟨hstack, rfl⟩⟩

theorem leave_idles (fiber : Fiber κ) (outcome : Outcome) (h : fiber.Idles)
    (houtcome : outcome ≠ .except) : (fiber.leave outcome).Idles := by
  cases outcome with
  | swapOut => exact ⟨h.1, h.2.1, by simp [Fiber.leave]⟩
  | hold | ready | term => exact ⟨h.1, by simp [Fiber.leave], by simp [Fiber.leave]⟩
  | except => exact absurd rfl houtcome

theorem exemptOf_ne (ptr other : Nat) (role : Role) (hne : other ≠ ptr) :
    exemptOf ptr role ≠ some other := by
  cases role with
  | cb => exact fun heq => hne (Option.some.inj heq).symm
  | fiber | idle => simp [exemptOf]

theorem some_ne (ptr other : Nat) (hne : other ≠ ptr) : some ptr ≠ some other :=
  fun heq => hne (Option.some.inj heq).symm

theorem slice_ok (s : Scheduler κ) (outcome : Outcome) (ptr : Nat) (role : Role) (fiber : Fiber κ)
    (h : s.Inv) (hpc : s.pc = .exec ptr role) (hfiber : s.heap[ptr]? = some fiber)
    (hidle : ¬ (ptr = s.idleFiber ∧ (outcome = .ready ∨ outcome = .except)))
    (hnull : fiber.ctx = .start → fiber.cb = none → outcome = .except) :
    ∃ s', s.slice outcome = .ok s' ∧ s'.Inv := by
  unfold Inv at h
  rw [hpc] at h
  obtain ⟨hcore, hrole, found, hfound, hrunning⟩ := h
  cases hfound.symm.trans hfiber
  have hslice : fiber.slice outcome = .ok (fiber.leave outcome) := by
    rw [Fiber.slice]
    cases hctx : fiber.ctx with
    | start =>
      apply if_neg
      rintro ⟨hnone, hne⟩
      exact hne (hnull hctx (Option.isNone_iff_eq_none.mp hnone))
    | suspended => rfl
    | finished => exact absurd hctx hrunning.2.2
  refine ⟨{ s with heap := s.heap.set ptr (fiber.leave outcome), pc := .returned ptr role },
    ?_, ?_, hrole, ?_⟩
  · rw [slice, hpc]
    simp only [if_neg hidle, update_ok s ptr (Fiber.slice · outcome) fiber _ hfiber hslice]
    rfl
  · apply hcore.set
    · exact fun other hne => ⟨some_ne ptr other hne, exemptOf_ne ptr other role hne⟩
    · exact fun hne => absurd rfl hne
    · rintro rfl
      exact leave_idles fiber outcome (hcore.idle_at fiber hfiber)
        fun hexcept => hidle ⟨rfl, .inr hexcept⟩
    · intro hcb
      refine ⟨(leave_returned fiber outcome hrunning).1,
        (hcore.cb_at ptr fiber hcb hfiber).imp_right ?_⟩
      rintro (hterm | hexcept | ⟨hstart, hnone⟩)
      · rw [hrunning.2.1] at hterm
        cases hterm
      · rw [hrunning.2.1] at hexcept
        cases hexcept
      · rw [hnull hstart hnone]
        exact .inr (.inl rfl)
  · exact ⟨_, getElem_set s ptr fiber _ hfiber, leave_returned fiber outcome hrunning⟩

def Settled (s : Scheduler κ) (ptr : Nat) : Prop :=
  s.At ptr fun fiber =>
    fiber.state = .ready ∧ ⟨some ptr, none, -1⟩ ∈ s.fibers ∨ fiber.state = .hold ∨
    fiber.state = .term ∨ fiber.state = .except ∨
    fiber.state = .init ∧ fiber.cb = none ∧ s.cbFiber = some ptr

theorem Core.release {s : Scheduler κ} {ptr : Nat} {exempt : Option Nat}
    (h : s.Core (some ptr) exempt) (fiber : Fiber κ) (hfiber : s.heap[ptr]? = some fiber)
    (hsound : fiber.Sound) (hexempt : exempt = none ∨ s.cbFiber = none) : s.Core none none := by
  refine ⟨?_, h.queue, h.idle, ?_⟩
  · intro other found hfound _
    by_cases heq : other = ptr
    · cases heq
      cases hfound.symm.trans hfiber
      exact hsound
    · exact h.others other found hfound (some_ne ptr other heq)
  · intro other hother
    rcases hexempt with rfl | hnone
    · exact h.cb other hother
    · rw [hnone] at hother
      cases hother

theorem Core.dropCb {s : Scheduler κ} {current exempt : Option Nat} (h : s.Core current exempt) :
    { s with cbFiber := none }.Core current exempt :=
  ⟨h.others, h.queue, h.idle, fun _ hnone => by cases hnone⟩

theorem hold_ok (s : Scheduler κ) (ptr : Nat) (role : Role) (fiber : Fiber κ)
    (hfiber : s.heap[ptr]? = some fiber) (hreturned : fiber.Returned)
    (hended : ¬ (fiber.state = .term ∨ fiber.state = .except))
    (hcore : s.Core (some ptr) (exemptOf ptr role)) (hcb : s.cbFiber = some ptr → role ≠ .cb)
    (hpc : s.pc = .head) : ∃ s', s.hold ptr = .ok s' ∧ s'.Inv ∧ s'.pc = .head ∧ s'.Settled ptr := by
  obtain ⟨hstack, hinit, hstates⟩ := hreturned
  have hctx : fiber.ctx = .suspended := by
    rcases hstates with hsound | ⟨-, hctx⟩
    · have hexec := ne_exec_of_sound fiber hsound hstack
      rcases live_of_sound fiber hsound hexec hended with ⟨-, ⟨hstate, -⟩ | ⟨-, hctx⟩⟩
      · exact absurd hstate hinit
      · exact hctx
    · exact hctx
  refine ⟨{ s with heap := s.heap.set ptr { fiber with state := .hold } },
    update_ok s ptr _ fiber _ hfiber rfl, ?_, hpc, _, getElem_set s ptr fiber _ hfiber,
    .inr (.inl rfl)⟩
  unfold Inv
  simp only [hpc]
  apply hcore.set
  · exact fun other hne => ⟨some_ne ptr other hne, exemptOf_ne ptr other role hne⟩
  · exact fun _ => ⟨hstack, hctx⟩
  · rintro rfl
    exact ⟨hstack, by simp, by simp [hctx]⟩
  · intro hptr
    rcases hcore.cb_at ptr fiber hptr hfiber with hexempt | hterm | hexcept | ⟨hstart, -⟩
    · cases role with
      | cb => exact absurd rfl (hcb hptr)
      | fiber | idle => simp [exemptOf] at hexempt
    · exact absurd (.inl hterm) hended
    · exact absurd (.inr hexcept) hended
    · rw [hctx] at hstart
      cases hstart

theorem sound_of_returned (fiber : Fiber κ) (h : fiber.Returned) (hexec : fiber.state ≠ .exec) :
    fiber.Sound :=
  h.2.2.resolve_right fun hboth => hexec hboth.1

theorem finish_ended (s : Scheduler κ) (ptr : Nat) (fiber : Fiber κ)
    (hfiber : s.heap[ptr]? = some fiber) (hreturned : fiber.Returned)
    (hended : fiber.state = .term ∨ fiber.state = .except) (hcore : s.Core (some ptr) none) :
    { s with pc := .head }.Inv ∧ { s with pc := .head }.Settled ptr := by
  have hsound : fiber.Sound := by
    apply sound_of_returned fiber hreturned
    rcases hended with hterm | hexcept
    · rw [hterm]
      decide
    · rw [hexcept]
      decide
  refine ⟨(hcore.release fiber hfiber hsound (.inl rfl)).setPc .head, fiber, hfiber, ?_⟩
  exact .inr (.inr (hended.imp_right .inl))

theorem finish_ready (s : Scheduler κ) (ptr : Nat) (fiber : Fiber κ) (exempt : Option Nat)
    (hfiber : s.heap[ptr]? = some fiber) (hreturned : fiber.Returned)
    (hready : fiber.state = .ready) (hcore : s.Core (some ptr) exempt)
    (hexempt : exempt = none ∨ s.cbFiber = none) :
    { s.scheduleNoLock ⟨some ptr, none, -1⟩ with pc := .head }.Inv ∧
      { s.scheduleNoLock ⟨some ptr, none, -1⟩ with pc := .head }.Settled ptr := by
  have hsound : fiber.Sound := by
    apply sound_of_returned fiber hreturned
    rw [hready]
    decide
  obtain ⟨hlt, -⟩ := List.getElem?_eq_some_iff.mp hfiber
  have hqueued := (hcore.release fiber hfiber hsound hexempt).schedule ⟨some ptr, none, -1⟩
    fun other hother => by cases hother; exact hlt
  refine ⟨hqueued.setPc .head, fiber, hfiber, .inl ⟨hready, ?_⟩⟩
  exact List.mem_append_right s.fibers List.mem_cons_self

theorem finish_ok (s : Scheduler κ) (ptr : Nat) (role : Role) (h : s.Inv)
    (hpc : s.pc = .returned ptr role) :
    ∃ s', s.finish = .ok s' ∧ s'.Inv ∧ s'.pc = .head ∧ s'.Settled ptr := by
  unfold Inv at h
  rw [hpc] at h
  obtain ⟨hcore, hrole, fiber, hfiber, hreturned⟩ := h
  have hstate := s.getState_of_eq ptr fiber hfiber
  have hiff := s.ended_iff ptr fiber hfiber
  rw [finish, hpc]
  cases role with
  | fiber =>
    simp only [hstate, hiff, Option.some.injEq]
    split
    · next hready =>
      obtain ⟨hinv, hsettled⟩ := finish_ready s ptr fiber _ hfiber hreturned hready hcore (.inl rfl)
      exact ⟨_, rfl, hinv, rfl, hsettled⟩
    · split
      · next hended =>
        obtain ⟨hinv, hsettled⟩ := finish_ended s ptr fiber hfiber hreturned hended hcore
        exact ⟨_, rfl, hinv, rfl, hsettled⟩
      · next hended =>
        exact hold_ok { s with pc := .head } ptr .fiber fiber hfiber hreturned hended
          (hcore.setPc .head) (fun _ => by decide) rfl
  | cb =>
    simp only [hstate, hiff, Option.some.injEq]
    split
    · next hready =>
      obtain ⟨hinv, hsettled⟩ := finish_ready { s with cbFiber := none } ptr fiber _ hfiber
        hreturned hready hcore.dropCb (.inr rfl)
      exact ⟨_, rfl, hinv, rfl, hsettled⟩
    · split
      · next hended =>
        refine ⟨{ s with heap := s.heap.set ptr (fiber.renewed none), pc := .head },
          update_ok { s with pc := .head } ptr (Fiber.reset · none) fiber _ hfiber
            (reset_ok fiber none hreturned.1 (.inr hended)), ?_, rfl, _,
          getElem_set s ptr fiber _ hfiber,
          .inr (.inr (.inr (.inr ⟨rfl, rfl, hrole⟩)))⟩
        apply hcore.set
        · exact fun other hne => ⟨some_ne ptr other hne, some_ne ptr other hne⟩
        · exact fun _ => ⟨hreturned.1, rfl⟩
        · exact fun hidle => absurd hidle (hcore.cb ptr hrole).1
        · exact fun _ => ⟨hreturned.1, .inr (.inr (.inr ⟨rfl, rfl⟩))⟩
      · next hended =>
        exact hold_ok { s with cbFiber := none, pc := .head } ptr .cb fiber hfiber hreturned hended
          (hcore.dropCb.setPc .head) (fun hnone => by cases hnone) rfl
  | idle =>
    simp only [hiff]
    split
    · next hended =>
      obtain ⟨hinv, hsettled⟩ := finish_ended s ptr fiber hfiber hreturned hended hcore
      exact ⟨_, rfl, hinv, rfl, hsettled⟩
    · next hended =>
      exact hold_ok { s with pc := .head } ptr .idle fiber hfiber hreturned hended
        (hcore.setPc .head) (fun _ => by decide) rfl

/-- A slice that is said to end in a way it cannot is no step; every other one is. -/
theorem slice_safe (s : Scheduler κ) (outcome : Outcome) (h : s.Inv) :
    s.slice outcome = .error .disabled ∨ ∃ s', s.slice outcome = .ok s' ∧ s'.Inv := by
  cases hpc : s.pc with
  | head | taken | nothing | returned | exited => exact .inl (by rw [slice, hpc])
  | exec ptr role =>
    have hinv := h
    unfold Inv at hinv
    rw [hpc] at hinv
    obtain ⟨-, -, fiber, hfiber, -⟩ := hinv
    by_cases hidle : ptr = s.idleFiber ∧ (outcome = .ready ∨ outcome = .except)
    · left
      rw [slice, hpc]
      exact if_pos hidle
    · by_cases hnull : fiber.ctx = .start ∧ fiber.cb = none ∧ outcome ≠ .except
      · left
        have hslice : fiber.slice outcome = .error .disabled := by
          rw [Fiber.slice, hnull.1]
          exact if_pos ⟨Option.isNone_iff_eq_none.mpr hnull.2.1, hnull.2.2⟩
        rw [slice, hpc]
        simp only [if_neg hidle, update, hfiber, hslice]
        rfl
      · right
        apply slice_ok s outcome ptr role fiber h hpc hfiber hidle
        intro hstart hnone
        by_contra hne
        exact hnull ⟨hstart, hnone, hne⟩

theorem step_safe (self : Int) (s : Scheduler κ) (label : Label κ) (h : s.Inv) :
    s.step self label = .error .disabled ∨ ∃ s', s.step self label = .ok s' ∧ s'.Inv := by
  cases label with
  | create cb => exact .inr ⟨_, rfl, h.alloc _ ⟨rfl, rfl⟩⟩
  | main => exact .inr ⟨_, rfl, h.alloc _ rfl⟩
  | scheduleFiber fiber thread =>
    rw [step]
    split
    · next hknown => exact .inr ⟨_, rfl, h.schedule _ hknown⟩
    · exact .inl rfl
  | scheduleCb cb thread =>
    exact .inr ⟨_, rfl, h.schedule _ fun ptr hptr => by cases hptr⟩
  | pick =>
    rw [step]
    cases hpc : s.pc with
    | head => exact .inr (pick_ok self s h hpc)
    | taken | nothing | exec | returned | exited => exact .inl rfl
  | dispatch =>
    rw [step]
    cases hpc : s.pc with
    | taken ft => exact .inr (s.dispatch_ok h (.inr ⟨ft, hpc⟩))
    | nothing => exact .inr (s.dispatch_ok h (.inl hpc))
    | head | exec | returned | exited => exact .inl (by rw [dispatch, hpc])
  | slice outcome => exact s.slice_safe outcome h
  | finish =>
    rw [step]
    cases hpc : s.pc with
    | returned ptr role =>
      obtain ⟨s', hfinish, hinv, -⟩ := s.finish_ok ptr role h hpc
      exact .inr ⟨s', hfinish, hinv⟩
    | head | taken | nothing | exec | exited => exact .inl (by rw [finish, hpc])

theorem run_inv (self : Int) (idle : κ) (labels : List (Label κ)) (s : Scheduler κ)
    (hrun : run self (start idle) labels = some s) : s.Inv := by
  apply Lib.run_invariant Inv _ labels (start idle) s _ hrun
  · intro s label s' hinv hstep
    have hok := Lib.ok_of_toOption _ _ hstep
    rcases step_safe self s label hinv with hdisabled | ⟨next, hnext, hnextInv⟩
    · rw [hdisabled] at hok
      cases hok
    · cases hnext.symm.trans hok
      exact hnextInv
  · refine ⟨?_, ?_, ⟨_, rfl, rfl, by simp [Fiber.create], fun _ => rfl⟩, ?_⟩
    · intro ptr fiber hfiber _
      cases List.mem_singleton.mp (List.mem_of_getElem? hfiber)
      exact ⟨rfl, rfl⟩
    · intro ft hft
      cases hft
    · intro ptr hptr
      cases hptr

theorem worker_step (self : Int) (s : Scheduler κ) (h : s.Inv) (hpc : s.pc ≠ .exited) :
    ∃ outcome, ∃ label ∈ [Label.pick, .dispatch, .slice outcome, .finish],
      ∃ s', s.step self label = .ok s' := by
  cases hat : s.pc with
  | head =>
    obtain ⟨s', hpick, -⟩ := pick_ok self s h hat
    exact ⟨.term, .pick, by simp, s', by rw [step, hat]; exact hpick⟩
  | taken ft =>
    obtain ⟨s', hdispatch, -⟩ := s.dispatch_ok h (.inr ⟨ft, hat⟩)
    exact ⟨.term, .dispatch, by simp, s', hdispatch⟩
  | nothing =>
    obtain ⟨s', hdispatch, -⟩ := s.dispatch_ok h (.inl hat)
    exact ⟨.term, .dispatch, by simp, s', hdispatch⟩
  | returned ptr role =>
    obtain ⟨s', hfinish, -⟩ := s.finish_ok ptr role h hat
    exact ⟨.term, .finish, by simp, s', hfinish⟩
  | exited => exact absurd hat hpc
  | exec ptr role =>
    have hinv := h
    unfold Inv at hinv
    rw [hat] at hinv
    obtain ⟨hcore, -, fiber, hfiber, -⟩ := hinv
    by_cases hnull : fiber.ctx = .start ∧ fiber.cb = none
    · have hidle : ptr ≠ s.idleFiber := by
        rintro rfl
        have hsome := (hcore.idle_at fiber hfiber).2.2 hnull.1
        rw [hnull.2] at hsome
        cases hsome
      obtain ⟨s', hslice, -⟩ := slice_ok s .except ptr role fiber h hat hfiber
        (fun hboth => hidle hboth.1) (fun _ _ => rfl)
      exact ⟨.except, .slice .except, by simp, s', hslice⟩
    · obtain ⟨s', hslice, -⟩ := slice_ok s .term ptr role fiber h hat hfiber (by simp)
        (fun hstart hnone => absurd ⟨hstart, hnone⟩ hnull)
      exact ⟨.term, .slice .term, by simp, s', hslice⟩

/-- In every run of the one worker no assertion fails and the worker never gets stuck; at the head
of the loop `cb_fiber` can be reset and no fiber with a stack is left in `EXEC`; and what a slice
has run is settled before the next one. -/
theorem life_cycle (self : Int) (idle : κ) (labels : List (Label κ)) (s : Scheduler κ)
    (hrun : run self (start idle) labels = some s) :
    (∀ label, s.step self label ≠ .error .assertion) ∧
    (s.pc = .head →
      (∀ ptr, s.cbFiber = some ptr → s.At ptr fun fiber =>
        fiber.state = .init ∨ fiber.state = .term ∨ fiber.state = .except) ∧
      ∀ (ptr : Nat) (fiber : Fiber κ), s.heap[ptr]? = some fiber → fiber.stack = true →
        fiber.state ≠ .exec) ∧
    (∀ ptr role, s.pc = .returned ptr role →
      ∃ s', s.step self .finish = .ok s' ∧ s'.pc = .head ∧ s'.Settled ptr) ∧
    (s.pc ≠ .exited → ∃ outcome, ∃ label ∈ [Label.pick, .dispatch, .slice outcome, .finish],
      ∃ s', s.step self label = .ok s') := by
  have hinv := run_inv self idle labels s hrun
  refine ⟨?_, ?_, ?_, worker_step self s hinv⟩
  · intro label hfault
    rcases step_safe self s label hinv with hdisabled | ⟨s', hok, -⟩
    · rw [hdisabled] at hfault
      cases hfault
    · rw [hok] at hfault
      cases hfault
  · intro hpc
    unfold Inv at hinv
    rw [hpc] at hinv
    constructor
    · intro ptr hptr
      obtain ⟨fiber, hfiber, -, hstate⟩ := hinv.recyclable ptr hptr
      exact ⟨fiber, hfiber, hstate⟩
    · intro ptr fiber hfiber hstack hexec
      exact ne_exec_of_sound fiber (hinv.others ptr fiber hfiber (by simp)) hstack hexec
  · intro ptr role hpc
    obtain ⟨s', hfinish, -, hhead, hsettled⟩ := s.finish_ok ptr role hinv hpc
    exact ⟨s', hfinish, hhead, hsettled⟩

/-- A callback schedules its own fiber twice and returns; the first of the two entries runs the
recycled fiber. -/
def staleRun : List (Label Nat) :=
  [.scheduleCb (some 1) (-1), .pick, .dispatch, .scheduleFiber (some 1) (-1),
    .scheduleFiber (some 1) 7, .slice .term, .finish, .pick, .dispatch, .slice .except]

theorem life_cycle_stale : ∃ s, run 7 (start 0) staleRun = some s ∧ s.cbFiber = some 1 ∧
    s.pc = .returned 1 .fiber ∧ ∃ s', s.step 7 .finish = .ok s' ∧ s'.pc = .head ∧ s'.Settled 1 :=
  ⟨_, rfl, rfl, rfl, (life_cycle 7 0 staleRun _ rfl).2.2.1 1 .fiber rfl⟩

end Scheduler
end Sylar.Lifecycle
