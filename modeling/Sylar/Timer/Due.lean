import Sylar.Timer.Expiry

/-! Which timers a call of `listExpiredCb` takes, and how often one is taken in a run.

The cut in the set is made with a new object of which only the time is known to matter: the
address breaks ties as the allocator likes, and the loop behind `lower_bound` evens that out. -/
namespace Sylar
namespace TimerManager
variable {κ : Type}

def due (m : TimerManager κ) (now : UInt64) : List Nat :=
  if (m.detectClockRollover now).1 then m.timers
  else m.timers.filter fun ptr => decide (m.next ptr ≤ now)

def callback (m : TimerManager κ) (ptr : Nat) : Option κ :=
  (m.object ptr).bind Timer.cb

/-- What a call at `now` adds to `cbs`, and what it leaves. -/
structure Expires (m : TimerManager κ) (now : UInt64) (cbs : List (Option κ))
    (m' : TimerManager κ) : Prop where
  callbacks : cbs = (m.due now).map m.callback
  sorted : Lib.Sorted (less m'.next) m'.timers
  timers : ∀ ptr, ptr ∈ m'.timers ↔ ptr ∈ m.timers ∧
    (ptr ∈ m.due now → ∃ timer, m.object ptr = some timer ∧ timer.recurring = true)
  objects : ∀ ptr, m'.object ptr =
    if ptr ∈ m.due now then (m.object ptr).map (rearm now) else m.object ptr

theorem filterMap_callback (m : TimerManager κ) (ptrs : List Nat)
    (hlive : ∀ ptr ∈ ptrs, ∃ timer, m.object ptr = some timer) :
    (ptrs.filterMap fun ptr => (m.object ptr).map Timer.cb) = ptrs.map m.callback := by
  rw [← List.filterMap_eq_map]
  apply List.filterMap_congr
  intro ptr hptr
  obtain ⟨timer, hobject⟩ := hlive ptr hptr
  simp [callback, hobject]

def Live (m : TimerManager κ) : Prop :=
  ∀ ptr ∈ m.timers, ∃ timer, m.object ptr = some timer

section
variable (m : TimerManager κ) (now : UInt64) (probe : Nat)
  (hsorted : Lib.Sorted (less m.next) m.timers)

include hsorted in
theorem next_le_of_sorted :
    m.timers.Pairwise fun ptr other => m.next ptr ≤ m.next other := by
  apply List.Pairwise.imp _ hsorted
  intro ptr other hless
  rcases (less_iff m.next ptr other).mp hless with hlt | ⟨heq, -⟩
  · exact UInt64.le_of_lt hlt
  · exact UInt64.le_of_eq heq

theorem listExpiredLocked_eq :
    m.listExpiredLocked now probe =
      let range := m.expired (m.detectClockRollover now).1 now probe
      let fired := fireAll
        { m with timers := m.timers.drop range.length, previouseTime := now } now range []
      if (m.detectClockRollover now).1 then .ok fired
      else
        match m.timers with
        | [] => .error .derefEnd
        | ptr :: _ => if m.next ptr > now then .ok ([], { m with previouseTime := now }) else .ok fired :=
  rfl

section
variable (hfresh : probe ∉ m.timers)
include hsorted hfresh

theorem expired_eq_due :
    m.expired (m.detectClockRollover now).1 now probe = m.due now := by
  unfold expired due
  split
  · rfl
  · let known := fun p => if p = probe then now else m.next p
    let below := fun ptr => less known ptr probe
    let level := fun ptr => decide (m.next ptr = now)
    have hknown : ∀ ptr ∈ m.timers, known ptr = m.next ptr :=
      fun ptr hptr => if_neg fun heq : ptr = probe => hfresh (heq ▸ hptr)
    have hbelow : ∀ ptr ∈ m.timers,
        (below ptr = true ↔ m.next ptr < now ∨ m.next ptr = now ∧ ptr < probe) := by
      intro ptr hptr
      have hprobe : known probe = now := if_pos rfl
      rw [less_iff, hknown ptr hptr, hprobe]
    have hdown : m.timers.Pairwise fun ptr other => below other = true → below ptr = true := by
      have hsorted' : Lib.Sorted (less known) m.timers := by
        apply Lib.Sorted.congr _ hsorted
        intro ptr hptr other hother
        unfold less
        rw [hknown ptr hptr, hknown other hother]
      apply List.Pairwise.imp _ hsorted'
      intro ptr other hless hother
      exact (less_comparator known).trans ptr other probe hless hother
    refine Lib.lowerBound_then_level below level _ m.timers hdown ?_ ?_
    · rw [Lib.dropWhile_eq_filter_not below m.timers hdown, List.pairwise_filter]
      apply List.Pairwise.imp_of_mem _ (next_le_of_sorted m hsorted)
      intro ptr other hptr hother hle habove _ hlevel
      simp only [level, decide_eq_true_eq] at hlevel ⊢
      rw [Bool.not_eq_true', ← Bool.not_eq_true, hbelow ptr hptr] at habove
      rw [hlevel] at hle
      rw [UInt64.le_iff_toNat_le] at hle
      rw [UInt64.lt_iff_toNat_lt] at habove
      rw [← UInt64.toNat_inj]
      omega
    · intro ptr hptr
      rw [Bool.eq_iff_iff, Bool.or_eq_true, hbelow ptr hptr]
      simp only [level, decide_eq_true_eq, UInt64.le_iff_toNat_le, UInt64.lt_iff_toNat_lt,
        ← UInt64.toNat_inj]
      omega

theorem listExpiredCb_eq (hnonempty : m.timers ≠ []) :
    m.listExpiredCb now probe =
      .ok (fireAll { m with timers := m.timers.drop (m.due now).length, previouseTime := now } now
        (m.due now) []) := by
  have hlocked := listExpiredLocked_eq m now probe
  rw [expired_eq_due m now probe hsorted hfresh] at hlocked
  rw [listExpiredCb, if_neg (by simpa using hnonempty), hlocked]
  dsimp only
  split
  · rfl
  · rename_i hrollover
    split
    · exact absurd ‹m.timers = []› hnonempty
    · rename_i first rest htimers
      split
      · rename_i hlate
        have hsome := next_le_of_sorted m hsorted
        rw [htimers, List.pairwise_cons] at hsome
        have hnone : m.due now = [] := by
          rw [due, if_neg hrollover, htimers, List.filter_eq_nil_iff]
          intro ptr hptr
          rw [decide_eq_true_eq, UInt64.le_iff_toNat_le]
          have hfirst : m.next first ≤ m.next ptr := by
            rcases List.mem_cons.mp hptr with rfl | hmem
            · exact UInt64.le_refl _
            · exact hsome.1 ptr hmem
          rw [UInt64.le_iff_toNat_le] at hfirst
          have hlt := UInt64.lt_iff_toNat_lt.mp hlate
          omega
        rw [hnone]
        rfl
      · rfl

theorem listExpiredCb_expires (hnonempty : m.timers ≠ []) (hlive : m.Live) :
    ∃ cbs m', m.listExpiredCb now probe = .ok (cbs, m') ∧ Expires m now cbs m' := by
  let taken := { m with timers := m.timers.drop (m.due now).length, previouseTime := now }
  have htake : m.due now = m.timers.take (m.due now).length := by
    have hexpired := expired_eq_take m (m.detectClockRollover now).1 now probe
    rw [expired_eq_due m now probe hsorted hfresh] at hexpired
    exact hexpired
  have hnodup := Lib.Sorted.nodup (less_comparator m.next) hsorted
  have happ : m.due now ++ taken.timers = m.timers := by
    nth_rewrite 1 [htake]
    exact List.take_append_drop _ _
  rw [← happ] at hnodup
  have hdistinct := (List.nodup_append.mp hnodup).1
  have hapart : ∀ ptr ∈ m.due now, ptr ∉ taken.timers := fun ptr hptr =>
    List.disjoint_of_nodup_append hnodup hptr
  have hrest : Lib.Sorted (less taken.next) taken.timers :=
    List.Pairwise.sublist (List.drop_sublist _ _) hsorted
  refine ⟨_, _, listExpiredCb_eq m now probe hsorted hfresh hnonempty, ?_, ?_, ?_, ?_⟩
  · rw [fireAll_callbacks taken now _ [] hdistinct, List.nil_append]
    apply filterMap_callback m
    intro ptr hptr
    apply hlive ptr
    rw [← happ]
    exact List.mem_append_left _ hptr
  · exact sorted_fireAll taken now _ [] hdistinct hrest hapart
  · intro ptr
    rw [mem_fireAll taken now _ [] ptr hdistinct, ← happ, List.mem_append]
    have hout := hapart ptr
    tauto
  · intro ptr
    exact fireAll_object taken now _ [] ptr hdistinct

end
end

/-- The callbacks that a body adds to `cbs`, each with the timer that it is taken from. -/
def emitted (m : TimerManager κ) (now : UInt64) (probe : Nat) : List (Nat × Option κ) :=
  match m.listExpiredLocked now probe with
  | .error _ => []
  | .ok (cbs, _) => (m.expired (m.detectClockRollover now).1 now probe).zip cbs

def isOf (ptr : Nat) (e : Nat × Option κ) : Bool :=
  e.1 = ptr

theorem listExpiredLocked_fired (m m' : TimerManager κ) (now : UInt64) (probe : Nat)
    (cbs : List (Option κ)) (hq : Queued m [])
    (hok : m.listExpiredLocked now probe = .ok (cbs, m')) :
    ∃ fired : List Nat, fired.Nodup ∧ (∀ ptr ∈ fired, ptr ∈ m.timers) ∧
      cbs = fired.map m.callback ∧
      m.emitted now probe = (fired.map fun ptr => (ptr, m.callback ptr)) ∧
      ∀ ptr, m'.object ptr =
        if ptr ∈ fired then (m.object ptr).map (rearm now) else m.object ptr := by
  simp only [emitted, hok]
  rcases listExpiredLocked_cases m m' now probe cbs hok with ⟨rfl, rfl⟩ | ⟨range, hrange, htake, hfire⟩
  · exact ⟨[], List.nodup_nil, (fun ptr hptr => nomatch hptr), rfl, List.zip_nil_right, fun ptr => rfl⟩
  · have hin : ∀ ptr ∈ range, ptr ∈ m.timers := by
      intro ptr hptr
      rw [htake] at hptr
      exact List.mem_of_mem_take hptr
    have hdistinct : range.Nodup := by
      rw [htake]
      exact hq.nodup.sublist (List.take_sublist _ _)
    let taken := { m with timers := m.timers.drop range.length, previouseTime := now }
    have hcbs := fireAll_callbacks taken now range [] hdistinct
    have hobject := fun ptr => fireAll_object taken now range [] ptr hdistinct
    rw [hfire] at hcbs hobject
    have hmap : cbs = range.map m.callback := by
      refine hcbs.trans (filterMap_callback m range ?_)
      intro ptr hptr
      obtain ⟨timer, hsome, -⟩ := (hq.live ptr).mpr (.inl (hin ptr hptr))
      exact ⟨timer, hsome⟩
    refine ⟨range, hdistinct, hin, hmap, ?_, hobject⟩
    rw [← hrange, hmap]
    exact List.map_prod_left_eq_zip.symm

/-- A timer that has its callback afterwards had one before. -/
def Inherits (m m' : TimerManager κ) (ptr : Nat) : Prop :=
  ∀ timer, m'.object ptr = some timer → timer.cb.isSome = true →
    ∃ before, m.object ptr = some before ∧ before.cb.isSome = true ∧
      before.recurring = timer.recurring

theorem inherits_of_eq (m m' : TimerManager κ) (ptr : Nat) (hsame : m'.object ptr = m.object ptr) :
    Inherits m m' ptr := by
  intro timer hobject hcb
  rw [hsame] at hobject
  exact ⟨timer, hobject, hcb, rfl⟩

theorem inherits_of_write (m m' : TimerManager κ) (ptr : Nat) (old new : Timer κ)
    (hold : m.object ptr = some old) (hnew : m'.object ptr = some new)
    (hcb : new.cb.isSome = true → old.cb.isSome = true) (hrecurring : old.recurring = new.recurring) :
    Inherits m m' ptr := by
  intro timer hobject hsome
  rw [hnew] at hobject
  cases hobject
  exact ⟨old, hold, hcb hsome, hrecurring⟩

theorem cancel_inherits (m m' : TimerManager κ) (ptr : Nat) (hok : m.call (.cancel ptr) = .ok m') :
    Inherits m m' ptr := by
  simp only [call, cancel] at hok
  split at hok
  · cases hok
  · rename_i old hold
    split at hok
    · split at hok
      · cases hok
      · cases hok
        apply inherits_of_write m _ ptr old { old with cb := none } hold (if_pos rfl) _ rfl
        intro hsome
        cases hsome
    · cases hok
      exact inherits_of_eq m m ptr rfl

theorem refresh_inherits (m m' : TimerManager κ) (ptr : Nat) (now : UInt64)
    (hok : m.call (.refresh ptr now) = .ok m') : Inherits m m' ptr := by
  simp only [call, refresh] at hok
  split at hok
  · cases hok
  · rename_i old hold
    split at hok
    · cases hok
      exact inherits_of_eq m m ptr rfl
    · split at hok
      · cases hok
        exact inherits_of_eq m m ptr rfl
      · cases hok
        exact inherits_of_write m _ ptr old { old with next := now + old.ms } hold (if_pos rfl) id rfl

theorem reset_inherits (m m' : TimerManager κ) (ptr : Nat) (ms : UInt64) (fromNow : Bool)
    (now : UInt64) (hok : m.call (.reset ptr ms fromNow now) = .ok m') : Inherits m m' ptr := by
  simp only [call, reset] at hok
  split at hok
  · cases hok
  · rename_i old hold
    split at hok
    · cases hok
      exact inherits_of_eq m m ptr rfl
    · split at hok
      · cases hok
        exact inherits_of_eq m m ptr rfl
      · split at hok
        · cases hok
          exact inherits_of_eq m m ptr rfl
        · cases hok
          let start := if fromNow then now else old.next - old.ms
          apply inherits_of_write m _ ptr old { old with ms := ms, next := start + ms } hold _ id rfl
          rw [addTimerLocked_object]
          exact if_pos rfl

theorem release_inherits (m m' : TimerManager κ) (ptr : Nat) (hok : m.call (.release ptr) = .ok m') :
    Inherits m m' ptr := by
  simp only [call, release] at hok
  split at hok
  · cases hok
  · cases hok
    intro timer hobject _
    have hnone : none = some timer := (if_pos rfl).symm.trans hobject
    cases hnone

theorem call_inherits (m m' : TimerManager κ) (label : Call κ) (ptr : Nat) (hq : Queued m [])
    (hnot : ∀ now probe, label ≠ .listExpiredCb now probe)
    (hkeeps : ∀ ms cb recurring now, label ≠ .addTimer ptr ms cb recurring now)
    (hok : m.call label = .ok m') : Inherits m m' ptr := by
  by_cases htimer : label.timer = some ptr
  · cases label with
    | addTimer other ms cb recurring now =>
      cases htimer
      exact absurd rfl (hkeeps ms cb recurring now)
    | cancel other =>
      cases htimer
      exact cancel_inherits m m' ptr hok
    | refresh other now =>
      cases htimer
      exact refresh_inherits m m' ptr now hok
    | reset other ms fromNow now =>
      cases htimer
      exact reset_inherits m m' ptr ms fromNow now hok
    | release other =>
      cases htimer
      exact release_inherits m m' ptr hok
    | getNextTimer now => cases htimer
    | listExpiredCb now probe => cases htimer
  · exact inherits_of_eq m m' ptr (call_untouched m m' label ptr hq htimer hnot hok).object

def OneShot (m : TimerManager κ) (ptr : Nat) : Prop :=
  ∀ timer, m.object ptr = some timer → timer.cb.isSome = true → timer.recurring = false

theorem countP_emitted (m m' : TimerManager κ) (now : UInt64) (probe : Nat) (cbs : List (Option κ))
    (ptr : Nat) (hq : Queued m []) (hok : m.listExpiredLocked now probe = .ok (cbs, m')) :
    (m.emitted now probe).countP (isOf ptr) = 0 ∧
        m'.object ptr = m.object ptr ∨
      (m.emitted now probe).countP (isOf ptr) ≤ 1 ∧ ptr ∈ m.timers ∧
        m'.object ptr = (m.object ptr).map (rearm now) := by
  obtain ⟨fired, hdistinct, hin, -, hemitted, hafter⟩ :=
    listExpiredLocked_fired m m' now probe cbs hq hok
  have hcount : (m.emitted now probe).countP (isOf ptr) = fired.count ptr := by
    rw [hemitted, List.countP_map]
    apply List.countP_congr
    intro other _
    simp [isOf]
  rw [hcount, hafter ptr]
  by_cases hfired : ptr ∈ fired
  · rw [if_pos hfired]
    exact .inr ⟨List.nodup_iff_count_le_one.mp hdistinct ptr, hin ptr hfired, rfl⟩
  · rw [if_neg hfired]
    exact .inl ⟨List.count_eq_zero.mpr hfired, rfl⟩

theorem listExpiredLocked_spent (m m' : TimerManager κ) (now : UInt64) (probe : Nat)
    (cbs : List (Option κ)) (ptr : Nat) (hq : Queued m []) (hspent : ¬ m.Carries ptr)
    (hok : m.listExpiredLocked now probe = .ok (cbs, m')) :
    ¬ m'.Carries ptr ∧ (m.emitted now probe).countP (isOf ptr) = 0 := by
  rcases countP_emitted m m' now probe cbs ptr hq hok with ⟨hnone, hsame⟩ | ⟨-, hin, -⟩
  · refine ⟨?_, hnone⟩
    unfold Carries
    rw [hsame]
    exact hspent
  · exact absurd ((hq.live ptr).mpr (.inl hin)) hspent

theorem listExpiredLocked_oneShot (m m' : TimerManager κ) (now : UInt64) (probe : Nat)
    (cbs : List (Option κ)) (ptr : Nat) (hq : Queued m []) (honce : m.OneShot ptr)
    (hok : m.listExpiredLocked now probe = .ok (cbs, m')) :
    m'.OneShot ptr ∧
      ((m.emitted now probe).countP (isOf ptr) = 0 ∨
        (m.emitted now probe).countP (isOf ptr) ≤ 1 ∧ ¬ m'.Carries ptr) := by
  rcases countP_emitted m m' now probe cbs ptr hq hok with ⟨hnone, hsame⟩ | ⟨hcount, hin, hfired⟩
  · refine ⟨?_, .inl hnone⟩
    unfold OneShot
    rw [hsame]
    exact honce
  · obtain ⟨timer, hobject, hcb⟩ := (hq.live ptr).mpr (.inl hin)
    have hleft : m'.object ptr = some { timer with cb := none } := by
      rw [hfired, hobject, Option.map_some, rearm, honce timer hobject hcb, if_neg Bool.false_ne_true]
    constructor
    · intro timer' hobject' hcb'
      rw [hleft] at hobject'
      cases hobject'
      cases hcb'
    · refine .inr ⟨hcount, ?_⟩
      rintro ⟨timer', hobject', hcb'⟩
      rw [hleft] at hobject'
      cases hobject'
      cases hcb'

theorem addTimer_oneShot (m m' : TimerManager κ) (ptr : Nat) (ms : UInt64) (cb : κ) (now : UInt64)
    (hok : m.call (.addTimer ptr ms cb false now) = .ok m') : m'.OneShot ptr := by
  simp only [call, addTimer] at hok
  split at hok
  · cases hok
  · cases hok
    intro timer hobject _
    rw [addTimerLocked_object] at hobject
    have hsame : some _ = some timer := (if_pos rfl).symm.trans hobject
    cases hsame
    rfl

theorem cancel_spent (m m' : TimerManager κ) (ptr : Nat) (hok : m.cancel ptr = .ok (true, m')) :
    ¬ m'.Carries ptr := by
  simp only [cancel] at hok
  split at hok
  · cases hok
  · rename_i old _
    split at hok
    · split at hok
      · cases hok
      · cases hok
        rintro ⟨timer, hobject, hcb⟩
        have hsame : some { old with cb := none } = some timer := (if_pos rfl).symm.trans hobject
        cases hsame
        cases hcb
    · cases hok

end TimerManager

namespace Expiry
variable {κ : Type}

def emits (s : Expiry κ) : Label κ → List (Nat × Option κ)
  | .body thread probe =>
    match s.tested thread with
    | none => []
    | some now => s.manager.emitted now probe
  | _ => []

def Label.KeepsAddress (ptr : Nat) (label : Label κ) : Prop :=
  ∀ ms cb recurring now, label ≠ .call (.addTimer ptr ms cb recurring now)

theorem keepsAddress_call (ptr : Nat) (call : TimerManager.Call κ) :
    (Label.call call).KeepsAddress ptr ↔
      ∀ ms cb recurring now, call ≠ .addTimer ptr ms cb recurring now := by
  simp [Label.KeepsAddress]

/-- What a step does to the timers and what it adds: it is a call, or the body of `listExpiredCb`,
or leaves the timers alone. -/
theorem step_manager (s s' : Expiry κ) (label : Label κ) (hstep : s.step label = some s') :
    (∃ call, label = .call call ∧ (∀ now probe, call ≠ .listExpiredCb now probe) ∧
        s.manager.call call = .ok s'.manager ∧ s.emits label = []) ∨
      (s'.manager = s.manager ∧ s.emits label = []) ∨
      ∃ now probe cbs, s.manager.listExpiredLocked now probe = .ok (cbs, s'.manager) ∧
        s.emits label = s.manager.emitted now probe := by
  cases label with
  | call call =>
    obtain ⟨hnot, hcall, -⟩ := step_call s s' call hstep
    exact .inl ⟨call, rfl, hnot, hcall, rfl⟩
  | test thread now =>
    rcases step_test s s' thread now hstep with rfl | ⟨-, rfl⟩
    · exact .inr (.inl ⟨rfl, rfl⟩)
    · exact .inr (.inl ⟨rfl, rfl⟩)
  | body thread probe =>
    obtain ⟨now, htested, hcases⟩ := step_body s s' thread probe hstep
    have hemits : s.emits (.body thread probe) = s.manager.emitted now probe := by
      simp only [emits, htested]
    rcases hcases with ⟨fault, hfault, rfl⟩ | ⟨cbs, manager, hok, rfl⟩
    · refine .inr (.inl ⟨rfl, ?_⟩)
      rw [hemits, TimerManager.emitted, hfault]
    · exact .inr (.inr ⟨now, probe, cbs, hok, hemits⟩)

theorem step_queued (s : Expiry κ) (label : Label κ) (s' : Expiry κ)
    (hq : TimerManager.Queued s.manager []) (hstep : s.step label = some s') :
    TimerManager.Queued s'.manager [] := by
  rcases step_manager s s' label hstep with
    ⟨call, -, -, hcall, -⟩ | ⟨hsame, -⟩ | ⟨now, probe, cbs, hok, -⟩
  · exact TimerManager.call_queued s.manager call s'.manager hq hcall
  · rw [hsame]
    exact hq
  · exact TimerManager.listExpiredLocked_queued s.manager now probe cbs s'.manager hq hok

theorem step_spent (ptr : Nat) (s : Expiry κ) (label : Label κ) (s' : Expiry κ)
    (hspent : TimerManager.Queued s.manager [] ∧ ¬ s.manager.Carries ptr)
    (hkeeps : label.KeepsAddress ptr) (hstep : s.step label = some s') :
    (TimerManager.Queued s'.manager [] ∧ ¬ s'.manager.Carries ptr) ∧
      (s.emits label).countP (TimerManager.isOf ptr) = 0 := by
  obtain ⟨hq, hspent⟩ := hspent
  have hq' := step_queued s label s' hq hstep
  rcases step_manager s s' label hstep with
    ⟨call, rfl, hnot, hcall, hnone⟩ | ⟨hsame, hnone⟩ | ⟨now, probe, cbs, hok, hemits⟩
  · rw [hnone]
    rw [keepsAddress_call] at hkeeps
    refine ⟨⟨hq', ?_⟩, rfl⟩
    have hinherits := TimerManager.call_inherits s.manager s'.manager call ptr hq hnot hkeeps hcall
    rintro ⟨timer, hobject, hcb⟩
    obtain ⟨before, hbefore, hsome, -⟩ := hinherits timer hobject hcb
    exact hspent ⟨before, hbefore, hsome⟩
  · rw [hnone, hsame]
    exact ⟨⟨hq, hspent⟩, rfl⟩
  · rw [hemits]
    obtain ⟨hspent', hnone⟩ :=
      TimerManager.listExpiredLocked_spent s.manager s'.manager now probe cbs ptr hq hspent hok
    exact ⟨⟨hq', hspent'⟩, hnone⟩

theorem step_oneShot (ptr : Nat) (s : Expiry κ) (label : Label κ) (s' : Expiry κ)
    (honce : TimerManager.Queued s.manager [] ∧ s.manager.OneShot ptr)
    (hkeeps : label.KeepsAddress ptr) (hstep : s.step label = some s') :
    (TimerManager.Queued s'.manager [] ∧ s'.manager.OneShot ptr) ∧
      ((s.emits label).countP (TimerManager.isOf ptr) = 0 ∨
        (s.emits label).countP (TimerManager.isOf ptr) ≤ 1 ∧
          TimerManager.Queued s'.manager [] ∧ ¬ s'.manager.Carries ptr) := by
  obtain ⟨hq, honce⟩ := honce
  have hq' := step_queued s label s' hq hstep
  rcases step_manager s s' label hstep with
    ⟨call, rfl, hnot, hcall, hnone⟩ | ⟨hsame, hnone⟩ | ⟨now, probe, cbs, hok, hemits⟩
  · rw [hnone]
    rw [keepsAddress_call] at hkeeps
    refine ⟨⟨hq', ?_⟩, .inl rfl⟩
    have hinherits := TimerManager.call_inherits s.manager s'.manager call ptr hq hnot hkeeps hcall
    intro timer hobject hcb
    obtain ⟨before, hbefore, hsome, hrecurring⟩ := hinherits timer hobject hcb
    rw [← hrecurring]
    exact honce before hbefore hsome
  · rw [hnone, hsame]
    exact ⟨⟨hq, honce⟩, .inl rfl⟩
  · rw [hemits]
    obtain ⟨honce', hcount⟩ :=
      TimerManager.listExpiredLocked_oneShot s.manager s'.manager now probe cbs ptr hq honce hok
    exact ⟨⟨hq', honce'⟩, hcount.imp_right fun hfired => ⟨hfired.1, hq', hfired.2⟩⟩

theorem init_queued (start : UInt64) (labels : List (Label κ)) (s : Expiry κ)
    (hrun : Lib.run step (init start) labels = some s) : TimerManager.Queued s.manager [] :=
  Lib.run_invariant (fun s : Expiry κ => TimerManager.Queued s.manager []) step_queued labels
    (init start) s (TimerManager.new_queued start) hrun

/-- A call of `listExpiredCb` takes the callbacks of exactly the timers that have expired, in the
order of the set, and re-arms the recurring ones; so in every run, whatever the threads and the
clock do, a one-shot timer gives out its callback at most once, and not at all once it has been
cancelled. -/
theorem listExpiredCb_exact_and_once :
    (∀ (m : TimerManager κ) (now : UInt64) (probe : Nat), m.timers ≠ [] →
      Lib.Sorted (TimerManager.less m.next) m.timers → m.Live → probe ∉ m.timers →
      ∃ cbs m', m.listExpiredCb now probe = .ok (cbs, m') ∧ m.Expires now cbs m') ∧
    (∀ (start : UInt64) (labels : List (Label κ)) (s : Expiry κ) (thread probe : Nat) (now : UInt64)
      (cbs : List (Option κ)) (m' : TimerManager κ),
      Lib.run step (init start) labels = some s → s.tested thread = some now →
      s.manager.listExpiredLocked now probe = .ok (cbs, m') →
      (s.emits (.body thread probe)).map Prod.snd = cbs) ∧
    ∀ (start : UInt64) (before after : List (Label κ)) (ptr : Nat) (ms : UInt64) (cb : κ)
      (now : UInt64) (r s t : Expiry κ), Lib.run step (init start) before = some r →
      r.step (.call (.addTimer ptr ms cb false now)) = some s → Lib.run step s after = some t →
      (∀ label ∈ after, label.KeepsAddress ptr) →
      (Lib.outputs step emits s after).countP (TimerManager.isOf ptr) ≤ 1 ∧
        ∀ (mid rest : List (Label κ)) (u v : Expiry κ), after = mid ++ .call (.cancel ptr) :: rest →
          Lib.run step s mid = some u → u.manager.cancel ptr = .ok (true, v.manager) →
          u.step (.call (.cancel ptr)) = some v →
          ∀ e ∈ Lib.outputs step emits v rest, e.1 ≠ ptr := by
  refine ⟨?_, ?_, ?_⟩
  · intro m now probe hnonempty hsorted hlive hfresh
    exact TimerManager.listExpiredCb_expires m now probe hsorted hfresh hnonempty hlive
  · intro start labels s thread probe now cbs m' hrun htested hok
    obtain ⟨fired, -, -, hcbs, hemitted, -⟩ := TimerManager.listExpiredLocked_fired s.manager m' now
      probe cbs (init_queued start labels s hrun) hok
    simp only [emits, htested]
    rw [hemitted, hcbs, List.map_map]
    rfl
  · intro start before after ptr ms cb now r s t hbefore hadd hafter hkeeps
    have hq := step_queued r _ s (init_queued start before r hbefore) hadd
    have honce := TimerManager.addTimer_oneShot r.manager s.manager ptr ms cb now
      (step_call r s _ hadd).2.1
    refine ⟨?_, ?_⟩
    · exact Lib.countP_outputs_le_one _ (Label.KeepsAddress ptr) _ (step_spent ptr) _
        (step_oneShot ptr) after s t ⟨hq, honce⟩ hkeeps hafter
    · rintro mid rest u v rfl hmid hcancel hstep e he heq
      have hqu := Lib.run_invariant (fun s : Expiry κ => TimerManager.Queued s.manager []) step_queued
        mid s u hq hmid
      have hspent := TimerManager.cancel_spent u.manager v.manager ptr hcancel
      have hrest : Lib.run step v rest = some t := by
        rw [Lib.run_append, hmid, Option.bind_some, Lib.run, hstep] at hafter
        exact hafter
      have hnone := Lib.countP_outputs_eq_zero (TimerManager.isOf ptr) (Label.KeepsAddress ptr) _
        (step_spent ptr) rest v t ⟨step_queued u _ v hqu hstep, hspent⟩
        (fun label hlabel => hkeeps label (List.mem_append_right _ (List.mem_cons_of_mem _ hlabel))) hrest
      exact List.countP_eq_zero.mp hnone e he (decide_eq_true heq)

def twoTimers : TimerManager Nat where
  object ptr :=
    if ptr = 8 then some ⟨false, 5, 1005, some 0⟩
    else if ptr = 16 then some ⟨true, 0, 1005, some 1⟩
    else none
  timers := [8, 16]
  tickled := false
  previouseTime := 1000
  writes := []

theorem listExpiredCb_exact_and_once_two_timers :
    (∃ cbs m', twoTimers.listExpiredCb 1005 12 = .ok (cbs, m') ∧ twoTimers.Expires 1005 cbs m') ∧
      ∃ s t : Expiry Nat,
        (init 1000).step (.call (.addTimer 8 5 0 false 1000)) = some s ∧
        Lib.run step s [.test 0 1005, .body 0 12, .test 1 1010] = some t ∧
        (Lib.outputs step emits s [.test 0 1005, .body 0 12, .test 1 1010]).countP
          (TimerManager.isOf 8) ≤ 1 := by
  obtain ⟨s, hadd⟩ : ∃ s : Expiry Nat,
      (init 1000).step (.call (.addTimer 8 5 0 false 1000)) = some s :=
    Option.isSome_iff_exists.mp (by decide)
  obtain ⟨t, hafter⟩ : ∃ t : Expiry Nat,
      Lib.run step s [.test 0 1005, .body 0 12, .test 1 1010] = some t := by
    have hboth : (Lib.run step (init 1000 : Expiry Nat) [.call (.addTimer 8 5 0 false 1000),
        .test 0 1005, .body 0 12, .test 1 1010]).isSome = true := by decide
    rw [Lib.run, hadd] at hboth
    exact Option.isSome_iff_exists.mp hboth
  have hlive : twoTimers.Live := by
    intro ptr hptr
    apply Option.isSome_iff_exists.mp
    revert ptr
    decide
  obtain ⟨hexact, -, honce⟩ := @listExpiredCb_exact_and_once Nat
  refine ⟨hexact twoTimers 1005 12 (by decide) (by decide) hlive (by decide), s, t, hadd, hafter, ?_⟩
  refine (honce 1000 [] _ 8 5 0 1000 (init 1000) s t rfl hadd hafter ?_).1
  intro label hlabel ms cb recurring now heq
  subst heq
  simp at hlabel

end Expiry
end Sylar
