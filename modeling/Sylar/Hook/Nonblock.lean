import Sylar.Fd.Manager

/-! The hooked `fcntl` and `ioctl` of `hook.cc` on the file status flags.

The kernel's `O_NONBLOCK` of a registered socket belongs to the scheduler, and the mode
that the user asked for is kept in the context. -/
namespace Sylar

def Flags.nonblock (flags : Flags) : Bool :=
  flags &&& O_NONBLOCK != 0

def Flags.others (flags : Flags) : Flags :=
  flags &&& ~~~O_NONBLOCK

theorem and_nonblock (flags : Flags) :
    flags &&& O_NONBLOCK = if flags.getLsbD 11 then O_NONBLOCK else 0 :=
  BitVec.and_twoPow flags 11

@[simp] theorem nonblock_or (flags : Flags) : Flags.nonblock (flags ||| O_NONBLOCK) = true := by
  unfold Flags.nonblock
  rw [BitVec.and_or_distrib_right]
  rw [and_nonblock flags]
  split <;> decide

@[simp] theorem nonblock_and_not (flags : Flags) :
    Flags.nonblock (flags &&& ~~~O_NONBLOCK) = false := by
  unfold Flags.nonblock
  rw [BitVec.and_assoc]
  simp

@[simp] theorem others_or (flags : Flags) :
    Flags.others (flags ||| O_NONBLOCK) = Flags.others flags := by
  unfold Flags.others
  rw [BitVec.and_or_distrib_right]
  simp

@[simp] theorem others_and_not (flags : Flags) :
    Flags.others (flags &&& ~~~O_NONBLOCK) = Flags.others flags := by
  unfold Flags.others
  rw [BitVec.and_assoc, BitVec.and_self]

structure Sockets where
  manager : FdManager
  kernel : Kernel

namespace Sockets

inductive Call where
  | setfl (fd : Nat) (arg : Flags)
  | getfl (fd : Nat)
  | fionbio (fd : Nat) (v : Int)
deriving DecidableEq

/-- `opened` is the kernel handing out a descriptor; `register` and `forget` are the
`get(fd, true)` of `socket` and `accept` and the `del(fd)` of `close`. -/
inductive Label where
  | opened (fd : Nat) (descriptor : Descriptor)
  | register (fd : Nat)
  | forget (fd : Nat)
  | call (call : Call)

def init : Sockets where
  manager := .new
  kernel := fun _ => none

/-- `get(fd)` followed by `!ctx || ctx->isClose() || !ctx->isSocket()`: the context, when
the call is not passed through. -/
def context (s : Sockets) (fd : Nat) : Option (Nat × FdCtx) :=
  match s.manager.get fd false s.kernel with
  | .ok (some ptr, _, _) =>
    match s.manager.heap[ptr]? with
    | some ctx => if ctx.isClosed ∨ ctx.isSocket = false then none else some (ptr, ctx)
    | none => none
  | _ => none

def setUserNonblock (s : Sockets) (ptr : Nat) (v : Bool) : Sockets :=
  { s with manager :=
    { s.manager with heap := s.manager.heap.modify ptr fun ctx => { ctx with userNonblock := v } } }

def fcntlSetfl (s : Sockets) (fd : Nat) (arg : Flags) : Sockets :=
  match s.context fd with
  | none => { s with kernel := s.kernel.setfl fd arg }
  | some (ptr, ctx) =>
    let s := s.setUserNonblock ptr (Flags.nonblock arg)
    let arg := if ctx.sysNonblock then arg ||| O_NONBLOCK else arg &&& ~~~O_NONBLOCK
    { s with kernel := s.kernel.setfl fd arg }

def fcntlGetfl (s : Sockets) (fd : Nat) : Flags :=
  let arg := s.kernel.getfl fd
  match s.context fd with
  | none => arg
  | some (_, ctx) => if ctx.userNonblock then arg ||| O_NONBLOCK else arg &&& ~~~O_NONBLOCK

def ioctlFionbio (s : Sockets) (d : Nat) (v : Int) : Sockets :=
  let userNonblock := v != 0
  match s.context d with
  | none => { s with kernel := s.kernel.fionbio d v }
  | some (ptr, _) =>
    let s := s.setUserNonblock ptr userNonblock
    { s with kernel := s.kernel.fionbio d v }

def perform (s : Sockets) : Call → Sockets
  | .setfl fd arg => s.fcntlSetfl fd arg
  | .getfl _ => s
  | .fionbio fd v => s.ioctlFionbio fd v

def register (s : Sockets) (fd : Nat) : Option Sockets :=
  match s.manager.get fd true s.kernel with
  | .ok (_, manager, kernel) => some { manager := manager, kernel := kernel }
  | .error _ => none

def step (s : Sockets) : Label → Option Sockets
  | .opened fd descriptor =>
    some { s with kernel := Function.update s.kernel fd (some descriptor) }
  | .register fd => s.register fd
  | .forget fd => (s.manager.del fd).toOption.map fun manager => { s with manager := manager }
  | .call call => some (s.perform call)

/-- The mode that a call asks for on a descriptor, or the one that was there. -/
def request (fd : Nat) (mode : Bool) : Call → Bool
  | .setfl other arg => if other = fd then Flags.nonblock arg else mode
  | .getfl _ => mode
  | .fionbio other v => if other = fd then v != 0 else mode

/-- The mode that a sequence of calls asks for last on a descriptor, which starts blocking. -/
def asked (fd : Nat) (calls : List Call) : Bool :=
  calls.foldl (request fd) false

/-- The kernel's flag is set, and `F_GETFL` reports `mode` for it and the kernel's value
for every other flag. -/
structure Separated (s : Sockets) (fd : Nat) (mode : Bool) : Prop where
  kernel : Flags.nonblock (s.kernel.getfl fd) = true
  user : Flags.nonblock (s.fcntlGetfl fd) = mode
  others : Flags.others (s.fcntlGetfl fd) = Flags.others (s.kernel.getfl fd)

theorem getfl_setfl (kernel : Kernel) (fd : Nat) (arg : Flags) (hopen : (kernel fd).isSome) :
    (kernel.setfl fd arg).getfl fd = arg := by
  obtain ⟨descriptor, hdescriptor⟩ := Option.isSome_iff_exists.mp hopen
  simp [Kernel.setfl, Kernel.getfl, hdescriptor]

theorem setfl_other (kernel : Kernel) (fd other : Nat) (arg : Flags) (hne : fd ≠ other) :
    kernel.setfl other arg fd = kernel fd := by
  unfold Kernel.setfl
  cases kernel other with
  | none => rfl
  | some descriptor => exact Function.update_of_ne hne _ _

theorem isSome_setfl (kernel : Kernel) (fd other : Nat) (arg : Flags) (hopen : (kernel fd).isSome) :
    (kernel.setfl other arg fd).isSome := by
  by_cases hne : fd = other
  · subst hne
    obtain ⟨descriptor, hdescriptor⟩ := Option.isSome_iff_exists.mp hopen
    simp [Kernel.setfl, hdescriptor]
  · rw [setfl_other kernel fd other arg hne]
    exact hopen

theorem getfl_congr (kernel kernel' : Kernel) (fd : Nat) (heq : kernel' fd = kernel fd) :
    kernel'.getfl fd = kernel.getfl fd := by
  simp only [Kernel.getfl, heq]

theorem context_eq_some_iff (s : Sockets) (fd ptr : Nat) (ctx : FdCtx) :
    s.context fd = some (ptr, ctx) ↔
      s.manager.lookup fd = some ptr ∧ s.manager.heap[ptr]? = some ctx ∧
        ctx.isClosed = false ∧ ctx.isSocket = true := by
  unfold context
  cases hlookup : s.manager.lookup fd with
  | none =>
    rw [FdManager.get_absent s.manager fd false s.kernel hlookup]
    simp
  | some found =>
    rw [FdManager.get_found s.manager fd found false s.kernel hlookup]
    dsimp only
    cases hheap : s.manager.heap[found]? with
    | none =>
      simp only [reduceCtorEq, false_iff]
      rintro ⟨hptr, hctx, -⟩
      cases hptr
      rw [hheap] at hctx
      contradiction
    | some ctx' =>
      simp only [Option.some.injEq]
      constructor
      · intro hsome
        split at hsome
        · cases hsome
        · rename_i husable
          cases hsome
          simpa [hheap] using husable
      · rintro ⟨rfl, hctx, hopen, hsocket⟩
        rw [hheap] at hctx
        cases hctx
        simp [hopen, hsocket]

@[simp] theorem context_kernel (s : Sockets) (kernel : Kernel) (fd : Nat) :
    context { s with kernel := kernel } fd = s.context fd := by
  ext ⟨ptr, ctx⟩
  rw [context_eq_some_iff, context_eq_some_iff]

theorem context_setUserNonblock (s : Sockets) (fd ptr target : Nat) (ctx : FdCtx) (v : Bool)
    (hctx : s.context fd = some (ptr, ctx)) :
    (s.setUserNonblock target v).context fd =
      some (ptr, if target = ptr then { ctx with userNonblock := v } else ctx) := by
  rw [context_eq_some_iff] at hctx ⊢
  refine ⟨hctx.1, ?_, ?_⟩
  · simp only [setUserNonblock, List.getElem?_modify, hctx.2.1]
    split <;> rfl
  · split
    · exact hctx.2.2
    · exact hctx.2.2

theorem wellFormed_setUserNonblock (s : Sockets) (ptr : Nat) (v : Bool)
    (hwell : s.manager.WellFormed) : (s.setUserNonblock ptr v).manager.WellFormed where
  length := hwell.length
  owned := by
    intro fd found hlookup
    obtain ⟨ctx, hctx, hfd⟩ := hwell.owned fd found hlookup
    simp only [setUserNonblock, List.getElem?_modify, hctx]
    split
    · exact ⟨_, rfl, hfd⟩
    · exact ⟨_, rfl, hfd⟩

theorem context_injective (s : Sockets) (hwell : s.manager.WellFormed) (fd other ptr : Nat)
    (ctx ctx' : FdCtx) (hfd : s.context fd = some (ptr, ctx))
    (hother : s.context other = some (ptr, ctx')) : fd = other := by
  rw [context_eq_some_iff] at hfd hother
  obtain ⟨ctx₁, hctx₁, hfd₁⟩ := hwell.owned fd ptr hfd.1
  obtain ⟨ctx₂, hctx₂, hfd₂⟩ := hwell.owned other ptr hother.1
  rw [hctx₁] at hctx₂
  cases hctx₂
  exact hfd₁.symm.trans hfd₂

structure Registered (s : Sockets) (fd : Nat) (mode : Bool) : Prop where
  wellFormed : s.manager.WellFormed
  opened : (s.kernel fd).isSome
  context : ∃ ptr ctx, s.context fd = some (ptr, ctx) ∧ ctx.sysNonblock = true ∧
    ctx.userNonblock = mode

/-- Setting a context's mode and then the kernel's flags: each call of the user is this, or
the second part of it alone. -/
theorem Registered.store (s : Sockets) (fd other ptr : Nat) (mode v : Bool) (ctx : FdCtx)
    (arg : Flags) (hreg : Registered s fd mode) (hctx : s.context other = some (ptr, ctx)) :
    Registered { s.setUserNonblock ptr v with kernel := s.kernel.setfl other arg } fd
      (if other = fd then v else mode) where
  wellFormed := wellFormed_setUserNonblock s ptr v hreg.wellFormed
  opened := isSome_setfl s.kernel fd other arg hreg.opened
  context := by
    obtain ⟨ptr', ctx', hctx', hsys, huser⟩ := hreg.context
    rw [context_kernel, context_setUserNonblock s fd ptr' ptr ctx' v hctx']
    by_cases hfd : other = fd
    · subst hfd
      rw [hctx] at hctx'
      cases hctx'
      simp [hsys]
    · have hptr : ptr ≠ ptr' := by
        intro heq
        subst heq
        exact hfd (context_injective s hreg.wellFormed other fd ptr ctx ctx' hctx hctx')
      simp [hptr, hfd, hsys, huser]

theorem Registered.passThrough (s : Sockets) (fd other : Nat) (mode v : Bool) (arg : Flags)
    (hreg : Registered s fd mode) (hnone : s.context other = none) :
    Registered { s with kernel := s.kernel.setfl other arg } fd
      (if other = fd then v else mode) where
  wellFormed := hreg.wellFormed
  opened := isSome_setfl s.kernel fd other arg hreg.opened
  context := by
    obtain ⟨ptr, ctx, hctx, hsys, huser⟩ := hreg.context
    have hfd : other ≠ fd := by
      intro heq
      rw [heq, hctx] at hnone
      contradiction
    rw [context_kernel, if_neg hfd]
    exact ⟨ptr, ctx, hctx, hsys, huser⟩

theorem perform_registered (s : Sockets) (fd : Nat) (mode : Bool) (call : Call)
    (hreg : Registered s fd mode) : Registered (s.perform call) fd (request fd mode call) := by
  cases call with
  | getfl other => exact hreg
  | setfl other arg =>
    simp only [perform, fcntlSetfl, request]
    cases hctx : s.context other with
    | none => exact hreg.passThrough s fd other mode _ arg hctx
    | some found => exact hreg.store s fd other found.1 mode _ found.2 _ hctx
  | fionbio other v =>
    simp only [perform, ioctlFionbio, request]
    cases hctx : s.context other with
    | none => exact hreg.passThrough s fd other mode _ _ hctx
    | some found => exact hreg.store s fd other found.1 mode _ found.2 _ hctx

theorem perform_getfl (s : Sockets) (fd : Nat) (mode : Bool) (call : Call)
    (hreg : Registered s fd mode) :
    (s.perform call).kernel.getfl fd =
      match call with
      | .setfl other arg => if other = fd then arg ||| O_NONBLOCK else s.kernel.getfl fd
      | .getfl _ => s.kernel.getfl fd
      | .fionbio other v =>
        if other = fd then
          if v = 0 then s.kernel.getfl fd &&& ~~~O_NONBLOCK else s.kernel.getfl fd ||| O_NONBLOCK
        else s.kernel.getfl fd := by
  obtain ⟨ptr, ctx, hctx, hsys, -⟩ := hreg.context
  cases call with
  | getfl other => rfl
  | setfl other arg =>
    by_cases hfd : other = fd
    · subst hfd
      simp only [perform, fcntlSetfl, hctx, hsys, if_true]
      exact getfl_setfl s.kernel other _ hreg.opened
    · simp only [perform, fcntlSetfl, if_neg hfd]
      split
      · exact getfl_congr _ _ fd (setfl_other s.kernel fd other _ (Ne.symm hfd))
      · exact getfl_congr _ _ fd (setfl_other s.kernel fd other _ (Ne.symm hfd))
  | fionbio other v =>
    by_cases hfd : other = fd
    · subst hfd
      simp only [perform, ioctlFionbio, hctx, if_true]
      exact getfl_setfl s.kernel other _ hreg.opened
    · simp only [perform, ioctlFionbio, if_neg hfd]
      split
      · exact getfl_congr _ _ fd (setfl_other s.kernel fd other _ (Ne.symm hfd))
      · exact getfl_congr _ _ fd (setfl_other s.kernel fd other _ (Ne.symm hfd))

/-- What `F_GETFL` reports is right for any kernel flag, so the kernel's flag decides. -/
theorem separated_iff (s : Sockets) (fd : Nat) (mode : Bool) (hreg : Registered s fd mode) :
    Separated s fd mode ↔ Flags.nonblock (s.kernel.getfl fd) = true := by
  obtain ⟨ptr, ctx, hctx, -, huser⟩ := hreg.context
  have hgetfl : s.fcntlGetfl fd =
      if mode then s.kernel.getfl fd ||| O_NONBLOCK else s.kernel.getfl fd &&& ~~~O_NONBLOCK := by
    simp only [fcntlGetfl, hctx, huser]
  constructor
  · exact Separated.kernel
  · intro hkernel
    refine ⟨hkernel, ?_, ?_⟩
    · rw [hgetfl]
      cases mode <;> simp
    · rw [hgetfl]
      cases mode <;> simp

theorem register_registered (s start : Sockets) (fd : Nat) (descriptor : Descriptor)
    (hwell : s.manager.WellFormed) (hopen : s.kernel fd = some descriptor)
    (hsocket : descriptor.isSocket = true) (hfresh : s.manager.lookup fd = none)
    (hregister : s.register fd = some start) :
    Registered start fd false ∧ Flags.nonblock (start.kernel.getfl fd) = true := by
  have hget := FdManager.get_absent s.manager fd true s.kernel hfresh
  by_cases hfd : fd < s.manager.datas.length
  · rw [FdManager.create_spec s.manager fd s.kernel hfd] at hget
    simp only [register, hget] at hregister
    cases hregister
    have hsome : (s.kernel fd).isSome := by
      rw [hopen]
      rfl
    have hany : (s.kernel fd).any Descriptor.isSocket = true := by
      rw [hopen]
      exact hsocket
    refine ⟨⟨hwell.set s.manager fd _ hfd rfl, ?_, ?_⟩, ?_⟩
    · simp only [FdCtx.new]
      split
      · exact isSome_setfl s.kernel fd fd _ hsome
      · exact hsome
    · refine ⟨s.manager.heap.length, (FdCtx.new s.kernel fd).1, ?_, hany, rfl⟩
      rw [context_eq_some_iff, FdManager.lookup_set s.manager _ fd _ hfd]
      refine ⟨Function.update_self fd _ _, ?_, rfl, hany⟩
      simp
    · simp only [FdCtx.new, hany, true_and]
      by_cases hblocking : s.kernel.getfl fd &&& O_NONBLOCK = 0
      · rw [if_pos hblocking, getfl_setfl s.kernel fd _ hsome]
        exact nonblock_or _
      · rw [if_neg hblocking]
        simpa [Flags.nonblock] using hblocking
  · have hfault : s.manager.create fd s.kernel = .error .outOfRange := if_neg hfd
    rw [hfault] at hget
    simp only [register, hget] at hregister
    contradiction

theorem wellFormed_perform (s : Sockets) (call : Call) (hwell : s.manager.WellFormed) :
    (s.perform call).manager.WellFormed := by
  cases call with
  | getfl fd => exact hwell
  | setfl fd arg =>
    simp only [perform, fcntlSetfl]
    split
    · exact hwell
    · exact wellFormed_setUserNonblock s _ _ hwell
  | fionbio fd v =>
    simp only [perform, ioctlFionbio]
    split
    · exact hwell
    · exact wellFormed_setUserNonblock s _ _ hwell

theorem step_manager (s : Sockets) (label : Label) (s' : Sockets) (hwell : s.manager.WellFormed)
    (hstep : s.step label = some s') : s'.manager.WellFormed := by
  cases label with
  | opened fd descriptor =>
    cases hstep
    exact hwell
  | register fd =>
    simp only [step, register] at hstep
    split at hstep
    · rename_i result manager kernel hget
      cases hstep
      apply FdManager.step_wellFormed s.manager (.get fd true s.kernel) manager hwell
      simp only [FdManager.step, FdManager.call, hget]
      rfl
    · contradiction
  | forget fd =>
    obtain ⟨manager, hdel, rfl⟩ := Option.map_eq_some_iff.mp hstep
    apply FdManager.step_wellFormed s.manager (.del fd) manager hwell
    simp only [FdManager.step, FdManager.call, Lib.ok_of_toOption _ _ hdel]
    rfl
  | call call =>
    cases hstep
    exact wellFormed_perform s call hwell

theorem run_registered (s : Sockets) (fd : Nat) (mode : Bool) (calls : List Call)
    (hreg : Registered s fd mode) :
    Registered (calls.foldl perform s) fd (calls.foldl (request fd) mode) := by
  induction calls generalizing s mode with
  | nil => exact hreg
  | cons call calls ih => exact ih _ _ (perform_registered s fd mode call hreg)

theorem run_nonblock (s : Sockets) (fd : Nat) (mode : Bool) (calls : List Call)
    (hreg : Registered s fd mode) (hkernel : Flags.nonblock (s.kernel.getfl fd) = true)
    (hcalls : .fionbio fd 0 ∉ calls) :
    Flags.nonblock ((calls.foldl perform s).kernel.getfl fd) = true := by
  induction calls generalizing s mode with
  | nil => exact hkernel
  | cons call calls ih =>
    rw [List.mem_cons, not_or] at hcalls
    apply ih _ _ (perform_registered s fd mode call hreg) _ hcalls.2
    rw [perform_getfl s fd mode call hreg]
    cases call with
    | getfl other => exact hkernel
    | setfl other arg =>
      dsimp only
      split
      · exact nonblock_or arg
      · exact hkernel
    | fionbio other v =>
      dsimp only
      split
      · rename_i hfd
        subst hfd
        rw [if_neg (fun hzero => hcalls.1 (by rw [hzero]))]
        exact nonblock_or _
      · exact hkernel

/-- From the registration of a socket on, the two modes stay apart in every state exactly as
long as nobody clears the flag through `ioctl`. -/
theorem separated_iff_no_fionbio_zero (before : List Label) (s start : Sockets) (fd : Nat)
    (descriptor : Descriptor) (hrun : Lib.run step init before = some s)
    (hopen : s.kernel fd = some descriptor) (hsocket : descriptor.isSocket = true)
    (hfresh : s.manager.lookup fd = none) (hregister : s.step (.register fd) = some start)
    (calls : List Call) :
    (∀ done rest, calls = done ++ rest → Separated (done.foldl perform start) fd (asked fd done)) ↔
      .fionbio fd 0 ∉ calls := by
  have hwell : s.manager.WellFormed :=
    Lib.run_invariant (fun s => s.manager.WellFormed) step_manager before init s
      FdManager.new_wellFormed hrun
  obtain ⟨hreg, hkernel⟩ :=
    register_registered s start fd descriptor hwell hopen hsocket hfresh hregister
  constructor
  · intro hseparated hmem
    obtain ⟨done, rest, rfl⟩ := List.append_of_mem hmem
    have hlast := hseparated (done ++ [.fionbio fd 0]) rest (by simp)
    have hflag := hlast.kernel
    rw [List.foldl_append, List.foldl_cons, List.foldl_nil,
      perform_getfl _ fd _ _ (run_registered start fd false done hreg)] at hflag
    simp at hflag
  · intro hcalls done rest hsplit
    apply (separated_iff _ fd _ (run_registered start fd false done hreg)).mpr
    apply run_nonblock start fd false done hreg hkernel
    intro hmem
    exact hcalls (hsplit ▸ List.mem_append_left rest hmem)

theorem separated_iff_no_fionbio_zero_mixed :
    ∃ start, Lib.run step init [.opened 3 { isSocket := true, flags := 2 }, .register 3] =
        some start ∧
      ∀ done rest, [.setfl 3 0x802#32, .getfl 3, .fionbio 3 1, .setfl 3 0] = done ++ rest →
        Separated (done.foldl perform start) 3 (asked 3 done) :=
  ⟨_, rfl, (separated_iff_no_fionbio_zero [.opened 3 { isSocket := true, flags := 2 }] _ _ 3
    { isSocket := true, flags := 2 } rfl rfl rfl rfl rfl _).mpr (by decide)⟩

/-- Asking for the blocking mode that the socket is in takes the flag from the kernel. -/
theorem fionbio_zero_clears_kernel_flag :
    ∃ start, Lib.run step init [.opened 3 { isSocket := true, flags := 2 }, .register 3] =
        some start ∧
      ¬ Separated ([.fionbio 3 0].foldl perform start) 3 (asked 3 [.fionbio 3 0]) := by
  refine ⟨_, rfl, ?_⟩
  intro hseparated
  exact absurd hseparated.kernel (by decide)

end Sockets
end Sylar
