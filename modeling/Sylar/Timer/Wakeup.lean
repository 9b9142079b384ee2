import Sylar.Timer.Due

/-! The wait that `getNextTimer` computes, against what `listExpiredCb` finds after it.

One takes the difference to the first timer, the other searches the whole set: they agree since
the set is ordered by `m_next`, and to the millisecond. -/
namespace Sylar
namespace TimerManager
variable {κ : Type}

/-- The wait is what is missing to the first timer; the subtraction never wraps. -/
theorem toNat_getNextTimer (m : TimerManager κ) (now : UInt64) (first : Nat) (rest : List Nat)
    (htimers : m.timers = first :: rest) :
    (m.getNextTimer now).1.toNat = (m.next first).toNat - now.toNat := by
  have hnext : (m.getNextTimer now).1 = if now ≥ m.next first then 0 else m.next first - now := by
    simp only [getNextTimer, htimers]
    rfl
  rw [hnext]
  split
  · rename_i hlate
    have hle := UInt64.le_iff_toNat_le.mp hlate
    change 0 = _
    omega
  · rename_i hearly
    have hlt := UInt64.lt_iff_toNat_lt.mp (UInt64.not_le.mp hearly)
    rw [UInt64.toNat_sub_of_le _ _ (UInt64.le_iff_toNat_le.mpr (Nat.le_of_lt hlt))]

theorem getNextTimer_keeps (m : TimerManager κ) (now : UInt64) :
    (m.getNextTimer now).2.timers = m.timers ∧ (m.getNextTimer now).2.object = m.object := by
  unfold getNextTimer
  dsimp only
  split
  · exact ⟨rfl, rfl⟩
  · exact ⟨rfl, rfl⟩

theorem next_congr (m m' : TimerManager κ) (hobjects : m.object = m'.object) : m.next = m'.next := by
  funext ptr
  simp only [next, hobjects]

section
variable (m : TimerManager κ) (now : UInt64) (hforward : (m.detectClockRollover now).1 = false)
  (first : Nat) (rest : List Nat) (htimers : m.timers = first :: rest)
include hforward htimers

theorem due_eq_nil (hsorted : Lib.Sorted (less m.next) m.timers) (hearly : now < m.next first) :
    m.due now = [] := by
  have hsome := next_le_of_sorted m hsorted
  rw [htimers, List.pairwise_cons] at hsome
  have hlt := UInt64.lt_iff_toNat_lt.mp hearly
  rw [due, if_neg (by rw [hforward]; exact Bool.false_ne_true), htimers, List.filter_eq_nil_iff]
  intro ptr hptr
  rw [decide_eq_true_eq, UInt64.le_iff_toNat_le]
  rcases List.mem_cons.mp hptr with rfl | hmem
  · omega
  · have hfirst := UInt64.le_iff_toNat_le.mp (hsome.1 ptr hmem)
    omega

theorem first_mem_due (hlate : m.next first ≤ now) : first ∈ m.due now := by
  rw [due, if_neg (by rw [hforward]; exact Bool.false_ne_true), htimers, List.mem_filter]
  exact ⟨List.mem_cons_self, decide_eq_true hlate⟩

end
end TimerManager

namespace Expiry
variable {κ : Type}

/-- `getNextTimer` at `now` says how long nothing expires: as long as the timers stay as they are
and the clock does not roll over, `listExpiredCb` takes nothing before `now + wait`, and from then
on it takes the callback of a timer. -/
theorem listExpiredCb_after_getNextTimer (start : UInt64) (labels : List (Label κ)) (s : Expiry κ)
    (hrun : Lib.run step (init start) labels = some s) (hnonempty : s.manager.timers ≠ [])
    (now wait : UInt64) (asked : TimerManager κ)
    (hwait : s.manager.getNextTimer now = (wait, asked)) (m : TimerManager κ)
    (htimers : m.timers = asked.timers) (hobjects : m.object = asked.object) (later : UInt64)
    (hforward : (m.detectClockRollover later).1 = false) (probe : Nat)
    (hfresh : m.object probe = none) (hle : now ≤ later) :
    (later.toNat < now.toNat + wait.toNat →
      ∃ m', m.listExpiredCb later probe = .ok ([], m') ∧ m'.timers = m.timers ∧
        m'.object = m.object) ∧
    (now.toNat + wait.toNat ≤ later.toNat →
      ∃ cbs m', m.listExpiredCb later probe = .ok (cbs, m') ∧ ∃ cb, some cb ∈ cbs) := by
  have hq := init_queued start labels s hrun
  obtain ⟨first, rest, hfirst⟩ := List.exists_cons_of_ne_nil hnonempty
  have htoNat := TimerManager.toNat_getNextTimer s.manager now first rest hfirst
  have hasked := s.manager.getNextTimer_keeps now
  rw [hwait] at htoNat hasked
  rw [hasked.1] at htimers
  rw [hasked.2] at hobjects
  have hnext := TimerManager.next_congr m s.manager hobjects
  have hsorted : Lib.Sorted (TimerManager.less m.next) m.timers := by
    rw [hnext, htimers]
    exact hq.sorted
  have hcarries : ∀ ptr ∈ m.timers, ∃ timer, m.object ptr = some timer ∧ timer.cb.isSome = true := by
    intro ptr hptr
    rw [hobjects]
    exact (hq.live ptr).mpr (.inl (htimers ▸ hptr))
  have hlive : m.Live := fun ptr hptr => (hcarries ptr hptr).imp fun timer h => h.1
  have hprobe : probe ∉ m.timers := by
    intro hmem
    obtain ⟨timer, hsome⟩ := hlive probe hmem
    rw [hfresh] at hsome
    cases hsome
  have hmfirst : m.timers = first :: rest := htimers.trans hfirst
  have hmne : m.timers ≠ [] := hmfirst ▸ List.cons_ne_nil first rest
  have hnow := UInt64.le_iff_toNat_le.mp hle
  rw [← hnext] at htoNat
  dsimp only at htoNat
  constructor
  · intro hbefore
    have hearly : later < m.next first := by
      rw [UInt64.lt_iff_toNat_lt]
      omega
    refine ⟨{ m with previouseTime := later }, ?_, rfl, rfl⟩
    rw [TimerManager.listExpiredCb_eq m later probe hsorted hprobe hmne,
      TimerManager.due_eq_nil m later hforward first rest hmfirst hsorted hearly]
    rfl
  · intro hafter
    have hlate : m.next first ≤ later := by
      rw [UInt64.le_iff_toNat_le]
      omega
    obtain ⟨cbs, m', hcall, hexpires⟩ :=
      TimerManager.listExpiredCb_expires m later probe hsorted hprobe hmne hlive
    obtain ⟨timer, hobject, hcb⟩ := hcarries first (hmfirst ▸ List.mem_cons_self)
    obtain ⟨cb, hcb⟩ := Option.isSome_iff_exists.mp hcb
    refine ⟨cbs, m', hcall, cb, ?_⟩
    rw [hexpires.callbacks, List.mem_map]
    refine ⟨first, TimerManager.first_mem_due m later hforward first rest hmfirst hlate, ?_⟩
    rw [TimerManager.callback, hobject, Option.bind_some, hcb]

/-- A timer for 1005, asked about at 1000: nothing at 1004, one callback at 1005. -/
theorem listExpiredCb_after_getNextTimer_five_ms :
    ∃ s asked, Lib.run step (init 1000 : Expiry Nat) [.call (.addTimer 8 5 0 false 1000)] = some s ∧
      s.manager.getNextTimer 1000 = (5, asked) ∧
      (∃ m', asked.listExpiredCb 1004 12 = .ok ([], m') ∧ m'.timers = asked.timers ∧
        m'.object = asked.object) ∧
      ∃ cbs m', asked.listExpiredCb 1005 12 = .ok (cbs, m') ∧ ∃ cb, some cb ∈ cbs := by
  have hrun := @listExpiredCb_after_getNextTimer Nat 1000
    [.call (.addTimer 8 5 0 false 1000)] _ rfl (by decide) 1000 5 _ rfl _ rfl rfl
  exact ⟨_, _, rfl, rfl, (hrun 1004 (by decide) 12 rfl (by decide)).1 (by decide),
    (hrun 1005 (by decide) 12 rfl (by decide)).2 (by decide)⟩

end Expiry
end Sylar
