import Mathlib.Data.List.Induction
import Mathlib.Logic.Function.Basic
import Sylar.Lib.Run

/-! `fd_manager.h` and `fd_manager.cc`.

A `FdCtx::ptr` is the index of its object in `heap`. The kernel's side of a
descriptor is whether it is a socket and its file status flags; `fstat` fails on a
descriptor that is not open. -/
namespace Sylar

abbrev Flags := BitVec 32

def O_NONBLOCK : Flags := 0x800#32

structure Descriptor where
  isSocket : Bool
  flags : Flags
deriving DecidableEq

abbrev Kernel := Nat → Option Descriptor

namespace Kernel

/-- `fcntl_f(fd, F_GETFL)`, which is `-1` on a descriptor that is not open. -/
def getfl (kernel : Kernel) (fd : Nat) : Flags :=
  match kernel fd with
  | none => ~~~0
  | some descriptor => descriptor.flags

def setfl (kernel : Kernel) (fd : Nat) (arg : Flags) : Kernel :=
  match kernel fd with
  | none => kernel
  | some descriptor => Function.update kernel fd (some { descriptor with flags := arg })

def fionbio (kernel : Kernel) (fd : Nat) (v : Int) : Kernel :=
  kernel.setfl fd
    (if v = 0 then kernel.getfl fd &&& ~~~O_NONBLOCK else kernel.getfl fd ||| O_NONBLOCK)

end Kernel

structure FdCtx where
  isInit : Bool
  isSocket : Bool
  sysNonblock : Bool
  userNonblock : Bool
  isClosed : Bool
  fd : Nat
  recvTimeout : UInt64
  sendTimeout : UInt64
deriving DecidableEq

/-- `FdCtx(fd)` with its call of `init()`: a socket is switched to non-blocking. -/
def FdCtx.new (kernel : Kernel) (fd : Nat) : FdCtx × Kernel :=
  let isSocket := (kernel fd).any Descriptor.isSocket
  let flags := kernel.getfl fd
  ({ isInit := (kernel fd).isSome
     isSocket := isSocket
     sysNonblock := isSocket
     userNonblock := false
     isClosed := false
     fd := fd
     recvTimeout := ~~~0
     sendTimeout := ~~~0 },
    if isSocket ∧ flags &&& O_NONBLOCK = 0 then kernel.setfl fd (flags ||| O_NONBLOCK) else kernel)

structure FdManager where
  datas : List (Option Nat)
  heap : List FdCtx

/-- The use of an index that `m_datas` does not have. -/
inductive FdFault where
  | outOfRange
deriving DecidableEq, Repr

inductive FdCall where
  | get (fd : Nat) (autoCreate : Bool) (kernel : Kernel)
  | del (fd : Nat)

def FdCall.fd : FdCall → Nat
  | .get fd _ _ => fd
  | .del fd => fd

namespace FdManager

def new : FdManager where
  datas := List.replicate 64 none
  heap := []

/-- The part of `get` under the write lock. -/
def create (m : FdManager) (fd : Nat) (kernel : Kernel) :
    Except FdFault (Option Nat × FdManager × Kernel) :=
  let (ctx, kernel) := FdCtx.new kernel fd
  if fd < m.datas.length then
    .ok (some m.heap.length,
      { datas := m.datas.set fd (some m.heap.length), heap := m.heap ++ [ctx] }, kernel)
  else .error .outOfRange

def get (m : FdManager) (fd : Nat) (autoCreate : Bool) (kernel : Kernel) :
    Except FdFault (Option Nat × FdManager × Kernel) :=
  if m.datas.length ≤ fd then
    if autoCreate = false then .ok (none, m, kernel) else m.create fd kernel
  else
    match m.datas[fd]? with
    | none => .error .outOfRange
    | some slot =>
      if slot.isSome ∨ autoCreate = false then .ok (slot, m, kernel) else m.create fd kernel

def del (m : FdManager) (fd : Nat) : Except FdFault FdManager :=
  if m.datas.length ≤ fd then .ok m
  else if fd < m.datas.length then .ok { m with datas := m.datas.set fd none }
  else .error .outOfRange

/-- One call and what it returns; `del` returns nothing. -/
def call (m : FdManager) : FdCall → Except FdFault (Option Nat × FdManager)
  | .get fd autoCreate kernel =>
    (m.get fd autoCreate kernel).map fun (result, m, _) => (result, m)
  | .del fd => (m.del fd).map fun m => (none, m)

def step (m : FdManager) (label : FdCall) : Option FdManager :=
  (m.call label).toOption.map Prod.snd

def lookup (m : FdManager) (fd : Nat) : Option Nat :=
  (m.datas[fd]?).join

/-- A partial map from descriptors to contexts: what each call answers, and the map
after it. -/
inductive MapStep (map : Nat → Option Nat) : FdCall → Option Nat → (Nat → Option Nat) → Prop where
  | found (fd ptr : Nat) (autoCreate : Bool) (kernel : Kernel) : map fd = some ptr →
    MapStep map (.get fd autoCreate kernel) (some ptr) map
  | absent (fd : Nat) (kernel : Kernel) : map fd = none →
    MapStep map (.get fd false kernel) none map
  | created (fd ptr : Nat) (kernel : Kernel) : map fd = none → (∀ other, map other ≠ some ptr) →
    MapStep map (.get fd true kernel) (some ptr) (Function.update map fd (some ptr))
  | deleted (fd : Nat) : MapStep map (.del fd) none (Function.update map fd none)

def answer (before : List FdCall) (label : FdCall) : Option (Option Nat) :=
  (Lib.run step new before).bind fun m => (m.call label).toOption.map Prod.fst

def Held (before : List FdCall) (fd : Nat) : Prop :=
  ∃ first kernel rest, before = first ++ .get fd true kernel :: rest ∧ .del fd ∉ rest

structure IsPartialMap (calls : List FdCall) : Prop where
  inRange : Lib.Meets step (fun m label => ∃ after, m.call label = .ok after) new calls
  explained : ∀ before label rest m, calls = before ++ label :: rest →
    Lib.run step new before = some m →
    ∃ result m', m.call label = .ok (result, m') ∧ MapStep m.lookup label result m'.lookup
  kept : ∀ before fd kernel between autoCreate kernel' rest,
    calls = before ++ .get fd true kernel :: (between ++ .get fd autoCreate kernel' :: rest) →
    .del fd ∉ between →
    ∃ ptr, answer before (.get fd true kernel) = some (some ptr) ∧
      answer (before ++ .get fd true kernel :: between) (.get fd autoCreate kernel') =
        some (some ptr)
  created : ∀ before fd kernel rest, calls = before ++ .get fd true kernel :: rest →
    ∃ ptr, answer before (.get fd true kernel) = some (some ptr)
  null : ∀ before fd kernel rest, calls = before ++ .get fd false kernel :: rest →
    (answer before (.get fd false kernel) = some none ↔ ¬ Held before fd)
  others : ∀ before label rest fd kernel, calls = before ++ label :: rest → fd ≠ label.fd →
    answer (before ++ [label]) (.get fd false kernel) = answer before (.get fd false kernel)

/-- Nothing is created for a descriptor that the table of 64 has no slot for. -/
def Fits : FdCall → Prop
  | .get fd autoCreate _ => autoCreate = true → fd < 64
  | .del _ => True

/-- Each slot of the table is empty or holds a context made for its descriptor. -/
structure WellFormed (m : FdManager) : Prop where
  length : m.datas.length = 64
  owned : ∀ fd ptr, m.lookup fd = some ptr → ∃ ctx, m.heap[ptr]? = some ctx ∧ ctx.fd = fd

theorem lookup_new (fd : Nat) : new.lookup fd = none := by
  show ((List.replicate 64 (none : Option Nat))[fd]?).join = none
  rw [List.getElem?_replicate]
  split <;> rfl

theorem new_wellFormed : new.WellFormed where
  length := List.length_replicate
  owned := by
    intro fd ptr hlookup
    rw [lookup_new] at hlookup
    contradiction

theorem lookup_set (m : FdManager) (heap : List FdCtx) (fd : Nat) (slot : Option Nat)
    (hfd : fd < m.datas.length) :
    lookup { datas := m.datas.set fd slot, heap := heap } =
      Function.update m.lookup fd slot := by
  funext other
  by_cases heq : other = fd
  · subst heq
    simp [lookup, hfd]
  · rw [Function.update_of_ne heq]
    simp [lookup, List.getElem?_set_ne (Ne.symm heq)]

theorem WellFormed.fresh (m : FdManager) (hm : m.WellFormed) (fd : Nat) :
    m.lookup fd ≠ some m.heap.length := by
  intro hlookup
  obtain ⟨ctx, hctx, -⟩ := hm.owned fd _ hlookup
  simp at hctx

theorem WellFormed.set (m : FdManager) (hm : m.WellFormed) (fd : Nat) (ctx : FdCtx)
    (hfd : fd < m.datas.length) (hctx : ctx.fd = fd) :
    WellFormed { datas := m.datas.set fd (some m.heap.length), heap := m.heap ++ [ctx] } where
  length := by
    rw [List.length_set]
    exact hm.length
  owned := by
    intro other ptr hlookup
    rw [lookup_set m _ fd _ hfd] at hlookup
    by_cases heq : other = fd
    · subst heq
      rw [Function.update_self] at hlookup
      cases hlookup
      exact ⟨ctx, by simp, hctx⟩
    · rw [Function.update_of_ne heq] at hlookup
      obtain ⟨old, hold, hfdOld⟩ := hm.owned other ptr hlookup
      refine ⟨old, ?_, hfdOld⟩
      rw [List.getElem?_append_left (List.getElem?_eq_some_iff.mp hold).1]
      exact hold

theorem WellFormed.reset (m : FdManager) (hm : m.WellFormed) (fd : Nat)
    (hfd : fd < m.datas.length) : WellFormed { m with datas := m.datas.set fd none } where
  length := by
    rw [List.length_set]
    exact hm.length
  owned := by
    intro other ptr hlookup
    rw [lookup_set m _ fd _ hfd] at hlookup
    by_cases heq : other = fd
    · subst heq
      simp at hlookup
    · rw [Function.update_of_ne heq] at hlookup
      exact hm.owned other ptr hlookup

theorem lookup_out (m : FdManager) (fd : Nat) (hfd : m.datas.length ≤ fd) : m.lookup fd = none := by
  simp [lookup, hfd]

theorem create_spec (m : FdManager) (fd : Nat) (kernel : Kernel) (hfd : fd < m.datas.length) :
    m.create fd kernel = .ok (some m.heap.length,
      { datas := m.datas.set fd (some m.heap.length)
        heap := m.heap ++ [(FdCtx.new kernel fd).1] }, (FdCtx.new kernel fd).2) :=
  if_pos hfd

theorem get_found (m : FdManager) (fd ptr : Nat) (autoCreate : Bool) (kernel : Kernel)
    (hlookup : m.lookup fd = some ptr) : m.get fd autoCreate kernel = .ok (some ptr, m, kernel) := by
  have hin : ¬ m.datas.length ≤ fd := by
    intro hout
    rw [lookup_out m fd hout] at hlookup
    contradiction
  have hslot : m.datas[fd]? = some (some ptr) := Option.join_eq_some_iff.mp hlookup
  unfold get
  rw [if_neg hin, hslot]
  simp

theorem get_absent (m : FdManager) (fd : Nat) (autoCreate : Bool) (kernel : Kernel)
    (hlookup : m.lookup fd = none) :
    m.get fd autoCreate kernel =
      if autoCreate = false then .ok (none, m, kernel) else m.create fd kernel := by
  unfold get
  by_cases hout : m.datas.length ≤ fd
  · rw [if_pos hout]
  · rw [if_neg hout]
    have hslot : m.datas[fd]? = some none := by
      rw [List.getElem?_eq_getElem (Nat.lt_of_not_le hout)]
      rw [lookup, List.getElem?_eq_getElem (Nat.lt_of_not_le hout)] at hlookup
      exact congrArg some hlookup
    rw [hslot]
    simp

theorem call_spec (m : FdManager) (label : FdCall) (hm : m.WellFormed) (hfits : Fits label) :
    ∃ result m', m.call label = .ok (result, m') ∧ m'.WellFormed ∧
      MapStep m.lookup label result m'.lookup := by
  cases label with
  | get fd autoCreate kernel =>
    cases hlookup : m.lookup fd with
    | some ptr =>
      refine ⟨some ptr, m, ?_, hm, .found fd ptr autoCreate kernel hlookup⟩
      simp only [call, get_found m fd ptr autoCreate kernel hlookup]
      rfl
    | none =>
      cases autoCreate with
      | false =>
        refine ⟨none, m, ?_, hm, .absent fd kernel hlookup⟩
        simp only [call, get_absent m fd false kernel hlookup]
        rfl
      | true =>
        have hfd : fd < m.datas.length := by
          rw [hm.length]
          exact hfits rfl
        refine ⟨some m.heap.length, _, ?_, hm.set m fd (FdCtx.new kernel fd).1 hfd rfl, ?_⟩
        · simp only [call, get_absent m fd true kernel hlookup, create_spec m fd kernel hfd]
          rfl
        · rw [lookup_set m _ fd _ hfd]
          exact .created fd _ kernel hlookup (hm.fresh m)
  | del fd =>
    by_cases hout : m.datas.length ≤ fd
    · refine ⟨none, m, ?_, hm, ?_⟩
      · simp only [call, del, if_pos hout]
        rfl
      · have hsame : Function.update m.lookup fd none = m.lookup := by
          rw [← lookup_out m fd hout]
          exact Function.update_eq_self fd m.lookup
        have hdeleted := @MapStep.deleted m.lookup fd
        rw [hsame] at hdeleted
        exact hdeleted
    · have hfd := Nat.lt_of_not_le hout
      refine ⟨none, { m with datas := m.datas.set fd none }, ?_, hm.reset m fd hfd, ?_⟩
      · simp only [call, del, if_neg hout, if_pos hfd]
        rfl
      · rw [lookup_set m _ fd _ hfd]
        exact .deleted fd

/-- The table never grows, so creating a context past its end faults. -/
theorem fits_of_call (m : FdManager) (label : FdCall) (after : Option Nat × FdManager)
    (hm : m.WellFormed) (hcall : m.call label = .ok after) : Fits label := by
  cases label with
  | del fd => trivial
  | get fd autoCreate kernel =>
    intro htrue
    subst htrue
    by_contra hfd
    have hout : m.datas.length ≤ fd := by
      rw [hm.length]
      exact Nat.le_of_not_lt hfd
    have hfault : m.create fd kernel = .error .outOfRange := if_neg (Nat.not_lt.mpr hout)
    simp only [call, get_absent m fd true kernel (lookup_out m fd hout), hfault] at hcall
    cases hcall

theorem step_eq (m m' : FdManager) (label : FdCall) (result : Option Nat)
    (hcall : m.call label = .ok (result, m')) : m.step label = some m' := by
  rw [step, hcall]
  rfl

theorem call_of_step (m m' : FdManager) (label : FdCall) (hstep : m.step label = some m') :
    ∃ result, m.call label = .ok (result, m') := by
  obtain ⟨⟨result, after⟩, hcall, rfl⟩ := Option.map_eq_some_iff.mp hstep
  exact ⟨result, Lib.ok_of_toOption _ _ hcall⟩

theorem step_wellFormed (m : FdManager) (label : FdCall) (m' : FdManager) (hm : m.WellFormed)
    (hstep : m.step label = some m') : m'.WellFormed := by
  obtain ⟨result, hcall⟩ := call_of_step m m' label hstep
  obtain ⟨_, _, hcall', hwell, -⟩ := call_spec m label hm (fits_of_call m label _ hm hcall)
  rw [hcall] at hcall'
  cases hcall'
  exact hwell

theorem run_wellFormed (calls : List FdCall) (m : FdManager)
    (hrun : Lib.run step new calls = some m) : m.WellFormed :=
  Lib.run_invariant WellFormed step_wellFormed calls new m new_wellFormed hrun

theorem run_of_fits (calls : List FdCall) (m : FdManager) (hm : m.WellFormed)
    (hfits : ∀ label ∈ calls, Fits label) : ∃ m', Lib.run step m calls = some m' := by
  induction calls generalizing m with
  | nil => exact ⟨m, rfl⟩
  | cons label labels ih =>
    obtain ⟨result, next, hcall, hnext, -⟩ :=
      call_spec m label hm (hfits label List.mem_cons_self)
    obtain ⟨m', hrun⟩ := ih next hnext fun other hother =>
      hfits other (List.mem_cons_of_mem _ hother)
    refine ⟨m', ?_⟩
    simp only [Lib.run, step_eq m next label result hcall]
    exact hrun

theorem MapStep.frame (map map' : Nat → Option Nat) (label : FdCall) (result : Option Nat)
    (hstep : MapStep map label result map') (fd : Nat) (hfd : fd ≠ label.fd) :
    map' fd = map fd := by
  cases hstep with
  | found => rfl
  | absent => rfl
  | created => exact Function.update_of_ne hfd _ _
  | deleted => exact Function.update_of_ne hfd _ _

theorem MapStep.stays (map map' : Nat → Option Nat) (label : FdCall) (result : Option Nat)
    (hstep : MapStep map label result map') (fd ptr : Nat) (hmap : map fd = some ptr)
    (hkeep : label ≠ .del fd) : map' fd = some ptr := by
  by_cases hfd : fd = label.fd
  · cases hstep with
    | found => exact hmap
    | absent => exact hmap
    | created other _ _ hnone =>
      cases hfd
      exact absurd (hnone.symm.trans hmap) (by simp)
    | deleted other =>
      cases hfd
      exact absurd rfl hkeep
  · rw [hstep.frame map map' label result fd hfd]
    exact hmap

theorem step_explained (m m' : FdManager) (label : FdCall) (hm : m.WellFormed)
    (hstep : m.step label = some m') : ∃ result, MapStep m.lookup label result m'.lookup := by
  obtain ⟨result, hcall⟩ := call_of_step m m' label hstep
  obtain ⟨_, _, hcall', -, hmapStep⟩ := call_spec m label hm (fits_of_call m label _ hm hcall)
  rw [hcall] at hcall'
  cases hcall'
  exact ⟨result, hmapStep⟩

theorem run_last (before : List FdCall) (label : FdCall) (m : FdManager)
    (hrun : Lib.run step new (before ++ [label]) = some m) :
    ∃ mid, Lib.run step new before = some mid ∧ mid.step label = some m := by
  rw [Lib.run_append] at hrun
  obtain ⟨mid, hmid, hlast⟩ := Option.bind_eq_some_iff.mp hrun
  refine ⟨mid, hmid, ?_⟩
  cases hstep : mid.step label with
  | none =>
    simp only [Lib.run, hstep] at hlast
    contradiction
  | some next =>
    simp only [Lib.run, hstep] at hlast
    exact hlast

theorem held_append (before : List FdCall) (label : FdCall) (fd : Nat) :
    Held (before ++ [label]) fd ↔
      (∃ kernel, label = .get fd true kernel) ∨ (label ≠ .del fd ∧ Held before fd) := by
  constructor
  · rintro ⟨first, kernel, rest, hsplit, hkeep⟩
    cases rest using List.reverseRecOn with
    | nil =>
      obtain ⟨-, hlast⟩ := List.append_inj' hsplit rfl
      cases hlast
      exact .inl ⟨kernel, rfl⟩
    | append_singleton rest last =>
      rw [← List.cons_append, ← List.append_assoc] at hsplit
      obtain ⟨hbefore, hlast⟩ := List.append_inj' hsplit rfl
      cases hlast
      rw [List.mem_append, List.mem_singleton, not_or] at hkeep
      exact .inr ⟨Ne.symm hkeep.2, first, kernel, rest, hbefore, hkeep.1⟩
  · rintro (⟨kernel, rfl⟩ | ⟨hkeep, first, kernel, rest, rfl, hrest⟩)
    · exact ⟨before, kernel, [], rfl, List.not_mem_nil⟩
    · refine ⟨first, kernel, rest ++ [label], ?_, ?_⟩
      · rw [List.append_assoc, List.cons_append]
      · rw [List.mem_append, List.mem_singleton, not_or]
        exact ⟨hrest, Ne.symm hkeep⟩

theorem run_stays (between : List FdCall) (m m' : FdManager) (hm : m.WellFormed)
    (hrun : Lib.run step m between = some m') (fd ptr : Nat) (hmap : m.lookup fd = some ptr)
    (hkeep : .del fd ∉ between) : m'.lookup fd = some ptr := by
  induction between generalizing m with
  | nil =>
    cases hrun
    exact hmap
  | cons label labels ih =>
    cases hstep : m.step label with
    | none =>
      simp only [Lib.run, hstep] at hrun
      contradiction
    | some next =>
      simp only [Lib.run, hstep] at hrun
      rw [List.mem_cons, not_or] at hkeep
      obtain ⟨result, hmapStep⟩ := step_explained m next label hm hstep
      apply ih next (step_wellFormed m label next hm hstep) hrun
      · exact hmapStep.stays _ _ label result fd ptr hmap (Ne.symm hkeep.1)
      · exact hkeep.2

theorem MapStep.get_true (map map' : Nat → Option Nat) (fd : Nat) (kernel : Kernel)
    (result : Option Nat) (hstep : MapStep map (.get fd true kernel) result map') :
    ∃ ptr, result = some ptr ∧ map' fd = some ptr := by
  cases hstep with
  | found _ ptr _ _ hmap => exact ⟨ptr, rfl, hmap⟩
  | created _ ptr => exact ⟨ptr, rfl, Function.update_self fd _ _⟩

theorem MapStep.get_false (map map' : Nat → Option Nat) (fd : Nat) (kernel : Kernel)
    (result : Option Nat) (hstep : MapStep map (.get fd false kernel) result map') :
    result = map fd := by
  cases hstep with
  | found _ _ _ _ hmap => exact hmap.symm
  | absent _ _ hmap => exact hmap.symm

theorem MapStep.origin (map map' : Nat → Option Nat) (label : FdCall) (result : Option Nat)
    (hstep : MapStep map label result map') (fd ptr : Nat) (hmap : map' fd = some ptr) :
    (∃ kernel, label = .get fd true kernel) ∨
      (label ≠ .del fd ∧ ∃ old, map fd = some old) := by
  by_cases hfd : fd = label.fd
  · cases hstep with
    | found other old autoCreate kernel hold =>
      cases hfd
      exact .inr ⟨by simp, old, hold⟩
    | absent other kernel hnone =>
      cases hfd
      exact absurd (hnone.symm.trans hmap) (by simp)
    | created other _ kernel =>
      cases hfd
      exact .inl ⟨kernel, rfl⟩
    | deleted other =>
      cases hfd
      exact absurd ((Function.update_self other _ _).symm.trans hmap) (by simp)
  · right
    rw [hstep.frame _ _ label result fd hfd] at hmap
    refine ⟨?_, ptr, hmap⟩
    intro hdel
    rw [hdel] at hfd
    exact hfd rfl

theorem held_iff (before : List FdCall) (m : FdManager)
    (hrun : Lib.run step new before = some m) (fd : Nat) :
    Held before fd ↔ ∃ ptr, m.lookup fd = some ptr := by
  induction before using List.reverseRecOn generalizing m with
  | nil =>
    cases hrun
    rw [lookup_new]
    simp [Held]
  | append_singleton before label ih =>
    obtain ⟨mid, hmid, hstep⟩ := run_last before label m hrun
    have hm := run_wellFormed before mid hmid
    obtain ⟨result, hmapStep⟩ := step_explained mid m label hm hstep
    rw [held_append, ih mid hmid]
    constructor
    · rintro (⟨kernel, rfl⟩ | ⟨hkeep, ptr, hptr⟩)
      · obtain ⟨ptr, -, hptr⟩ := hmapStep.get_true _ _ fd kernel result
        exact ⟨ptr, hptr⟩
      · exact ⟨ptr, hmapStep.stays _ _ label result fd ptr hptr hkeep⟩
    · rintro ⟨ptr, hptr⟩
      exact hmapStep.origin _ _ label result fd ptr hptr

theorem answer_spec (before : List FdCall) (label : FdCall)
    (hfits : ∀ call ∈ before ++ [label], Fits call) :
    ∃ m result m', Lib.run step new before = some m ∧ m.call label = .ok (result, m') ∧
      answer before label = some result ∧ MapStep m.lookup label result m'.lookup := by
  obtain ⟨m, hrun⟩ := run_of_fits before new new_wellFormed fun call hcall =>
    hfits call (List.mem_append_left _ hcall)
  obtain ⟨result, m', hcall, -, hmapStep⟩ := call_spec m label (run_wellFormed before m hrun)
    (hfits label (List.mem_append_right _ List.mem_cons_self))
  refine ⟨m, result, m', hrun, hcall, ?_, hmapStep⟩
  rw [answer, hrun, Option.bind_some, hcall]
  rfl

theorem answer_get_false (before : List FdCall) (m : FdManager) (fd : Nat) (kernel : Kernel)
    (hrun : Lib.run step new before = some m) :
    answer before (.get fd false kernel) = some (m.lookup fd) := by
  obtain ⟨result, m', hcall, -, hmapStep⟩ := call_spec m (.get fd false kernel)
    (run_wellFormed before m hrun) (fun hfalse => absurd hfalse (by simp))
  rw [answer, hrun, Option.bind_some, hcall, ← hmapStep.get_false _ _ fd kernel result]
  rfl

theorem kept_of_fits (before between : List FdCall) (fd : Nat) (kernel kernel' : Kernel)
    (autoCreate : Bool) (hfits : ∀ call ∈ before ++ .get fd true kernel :: between, Fits call)
    (hkeep : .del fd ∉ between) :
    ∃ ptr, answer before (.get fd true kernel) = some (some ptr) ∧
      answer (before ++ .get fd true kernel :: between) (.get fd autoCreate kernel') =
        some (some ptr) := by
  obtain ⟨m, result, mid, hrun, hcall, hanswer, hmapStep⟩ := answer_spec before
    (.get fd true kernel) fun call hcall => hfits call (by
      rw [List.mem_append, List.mem_singleton] at hcall
      rw [List.mem_append, List.mem_cons]
      exact hcall.imp_right .inl)
  obtain ⟨ptr, rfl, hptr⟩ := hmapStep.get_true _ _ fd kernel result
  obtain ⟨last, hlast⟩ := run_of_fits _ new new_wellFormed hfits
  have hsplit := hlast
  rw [Lib.run_append, hrun, Option.bind_some] at hsplit
  simp only [Lib.run, step_eq m mid _ _ hcall] at hsplit
  have hstay := run_stays between mid last
    (step_wellFormed m _ mid (run_wellFormed before m hrun) (step_eq m mid _ _ hcall))
    hsplit fd ptr hptr hkeep
  refine ⟨ptr, hanswer, ?_⟩
  rw [answer, hlast, Option.bind_some, call, get_found last fd ptr autoCreate kernel' hstay]
  rfl

theorem null_iff (before : List FdCall) (fd : Nat) (kernel : Kernel)
    (hfits : ∀ call ∈ before, Fits call) :
    answer before (.get fd false kernel) = some none ↔ ¬ Held before fd := by
  obtain ⟨m, hrun⟩ := run_of_fits before new new_wellFormed hfits
  rw [answer_get_false before m fd kernel hrun, held_iff before m hrun fd]
  cases m.lookup fd <;> simp

theorem others_of_fits (before : List FdCall) (label : FdCall) (fd : Nat) (kernel : Kernel)
    (hfits : ∀ call ∈ before ++ [label], Fits call) (hfd : fd ≠ label.fd) :
    answer (before ++ [label]) (.get fd false kernel) = answer before (.get fd false kernel) := by
  obtain ⟨m', hrun'⟩ := run_of_fits _ new new_wellFormed hfits
  obtain ⟨m, hrun, hstep⟩ := run_last before label m' hrun'
  obtain ⟨result, hmapStep⟩ := step_explained m m' label (run_wellFormed before m hrun) hstep
  rw [answer_get_false _ m' fd kernel hrun', answer_get_false before m fd kernel hrun,
    hmapStep.frame _ _ label result fd hfd]

theorem fits_of_inRange (calls : List FdCall) (m : FdManager) (hm : m.WellFormed)
    (hmeets : Lib.Meets step (fun m label => ∃ after, m.call label = .ok after) m calls) :
    ∀ label ∈ calls, Fits label := by
  induction calls generalizing m with
  | nil =>
    intro label hlabel
    cases hlabel
  | cons head tail ih =>
    obtain ⟨⟨⟨result, next⟩, hcall⟩, hrest⟩ := hmeets
    rw [step_eq m next head result hcall] at hrest
    intro label hlabel
    rcases List.mem_cons.mp hlabel with rfl | htail
    · exact fits_of_call m label _ hm hcall
    · exact ih next (step_wellFormed m head next hm (step_eq m next head result hcall)) hrest
        label htail

/-- The manager is a partial map exactly as long as no call creates a context for a
descriptor from 64 on. -/
theorem isPartialMap_iff_fits (calls : List FdCall) :
    IsPartialMap calls ↔ ∀ label ∈ calls, Fits label := by
  constructor
  · intro hmap
    exact fits_of_inRange calls new new_wellFormed hmap.inRange
  · intro hfits
    have hfront (before rest : List FdCall) (hsplit : calls = before ++ rest) :
        ∀ label ∈ before, Fits label := fun label hlabel =>
      hfits label (hsplit ▸ List.mem_append_left rest hlabel)
    have hupto (before rest : List FdCall) (label : FdCall)
        (hsplit : calls = before ++ label :: rest) :
        ∀ call ∈ before ++ [label], Fits call :=
      hfront (before ++ [label]) rest (by simp [hsplit])
    exact {
      inRange := by
        apply Lib.meets_of_split
        intro before label rest mid hsplit hrun
        obtain ⟨m, result, m', hrun', hcall, -, -⟩ :=
          answer_spec before label (hupto before rest label hsplit)
        rw [hrun] at hrun'
        cases hrun'
        exact ⟨_, hcall⟩
      explained := by
        intro before label rest mid hsplit hrun
        obtain ⟨m, result, m', hrun', hcall, -, hmapStep⟩ :=
          answer_spec before label (hupto before rest label hsplit)
        rw [hrun] at hrun'
        cases hrun'
        exact ⟨result, m', hcall, hmapStep⟩
      kept := by
        intro before fd kernel between autoCreate kernel' rest hsplit hkeep
        apply kept_of_fits before between fd kernel kernel' autoCreate _ hkeep
        exact hfront _ (.get fd autoCreate kernel' :: rest) (by simp [hsplit])
      created := by
        intro before fd kernel rest hsplit
        obtain ⟨m, result, m', -, -, hanswer, hmapStep⟩ :=
          answer_spec before _ (hupto before rest _ hsplit)
        obtain ⟨ptr, rfl, -⟩ := hmapStep.get_true _ _ fd kernel result
        exact ⟨ptr, hanswer⟩
      null := by
        intro before fd kernel rest hsplit
        exact null_iff before fd kernel (hfront before _ hsplit)
      others := by
        intro before label rest fd kernel hsplit hfd
        exact others_of_fits before label fd kernel (hupto before rest label hsplit) hfd }

/-- The sixty-fifth descriptor of a process. -/
theorem get_past_table_not_map :
    ¬ IsPartialMap [.get 64 true fun _ => some { isSocket := true, flags := 0 }] := by
  intro hmap
  obtain ⟨⟨after, hcall⟩, -⟩ := hmap.inRange
  have hfault : new.call (.get 64 true fun _ => some { isSocket := true, flags := 0 }) =
      .error .outOfRange := rfl
  rw [hfault] at hcall
  cases hcall

end FdManager
end Sylar
