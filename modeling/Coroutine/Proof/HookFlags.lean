import Coroutine.Lib.Run
import Coroutine.Spec.HookFlags

/-!
# The user's blocking mode and the kernel's

`fcntl(F_SETFL)` gives the kernel the mode of the system and remembers the user's;
`ioctl(FIONBIO)` remembers the user's and gives it to the kernel as well.

* `Hooked`: a socket in use stays one, and remembers what its user asked for last.
* `separated_iff`: its kernel flag stays set, and `F_GETFL` reports the user's mode,
  throughout a run exactly when no call of the run is `ioctl(FIONBIO, 0)`.
-/

namespace Coroutine

open Lib

/-! ## The flag -/

theorem hasNonblock_or (flags : CInt) : hasNonblock (flags ||| O_NONBLOCK) = true := by
  have habsorb : (flags ||| O_NONBLOCK) &&& O_NONBLOCK = O_NONBLOCK := by
    ext i hi
    rw [BitVec.getElem_and, BitVec.getElem_or]
    cases flags[i] <;> simp
  have hset : O_NONBLOCK ≠ 0 := by decide
  rw [hasNonblock, habsorb, bne_iff_ne]
  exact hset

theorem hasNonblock_and_not (flags : CInt) : hasNonblock (flags &&& ~~~ O_NONBLOCK) = false := by
  have hclear : flags &&& ~~~ O_NONBLOCK &&& O_NONBLOCK = 0 := by
    rw [BitVec.and_assoc, BitVec.and_comm (~~~ O_NONBLOCK), BitVec.and_not_self]
    exact BitVec.and_zero
  rw [hasNonblock, hclear, bne_self_eq_false]

namespace FlagRun

variable {C K : Type} {ops : FdCtxOps C} {kernel : FdKernel K} {s : FlagRun C K}

/-- **A socket in use**: its context is that of an open socket which the system has made
non-blocking, and has the mode asked for last. -/
structure Hooked (ops : FdCtxOps C) (s : FlagRun C K) (ctx : C) : Prop where
  found : s.fd.ctx = some ctx
  isClose : ops.isClose ctx = false
  isSocket : ops.isSocket ctx = true
  getSysNonblock : ops.getSysNonblock ctx = true
  asked : ∀ b, s.asked = some b → ops.getUserNonblock ctx = b

/-- A new user mode in the context. -/
theorem Hooked.set (hops : ops.Lawful) {ctx : C} (hs : s.Hooked ops ctx) (b : Bool) (file : K) :
    Hooked ops { fd := { ctx := some (ops.setUserNonblock ctx b), file := file }, asked := some b }
      (ops.setUserNonblock ctx b) := by
  refine ⟨rfl, ?_, ?_, ?_, ?_⟩
  · rw [hops.isClose_set, hs.isClose]
  · rw [hops.isSocket_set, hs.isSocket]
  · rw [hops.getSysNonblock_set, hs.getSysNonblock]
  · intro b' hb
    rw [hops.getUserNonblock_set]
    exact Option.some.inj hb

/-- `F_SETFL` on a socket in use sets the kernel's flag, whatever it is asked for. -/
theorem Hooked.fcntlSetfl (hops : ops.Lawful) {ctx : C} (hs : s.Hooked ops ctx) (arg : CInt) :
    (s.fd.fcntlSetfl ops kernel arg).2 =
      { ctx := some (ops.setUserNonblock ctx (hasNonblock arg))
        file := (kernel.F_SETFL s.fd.file (arg ||| O_NONBLOCK)).2 } := by
  have hsys : ops.getSysNonblock (ops.setUserNonblock ctx (hasNonblock arg)) = true := by
    rw [hops.getSysNonblock_set, hs.getSysNonblock]
  simp only [HookedFd.fcntlSetfl, hs.found, hs.isClose, hs.isSocket, hsys, Bool.not_true, Bool.or_self,
    Bool.false_eq_true, if_false, if_true]

/-- `FIONBIO` on a socket in use sets the kernel's flag as it is asked to. -/
theorem Hooked.ioctlFionbio {ctx : C} (hs : s.Hooked ops ctx) (v : CInt) :
    (s.fd.ioctlFionbio ops kernel v).2 =
      { ctx := some (ops.setUserNonblock ctx (v != 0)), file := (kernel.FIONBIO s.fd.file v).2 } := by
  simp only [HookedFd.ioctlFionbio, hs.found, hs.isClose, hs.isSocket, Bool.not_true, Bool.or_self,
    Bool.false_eq_true, if_false]

/-- **`F_GETFL` on a socket in use reports the user's mode.** -/
theorem Hooked.fcntlGetfl {ctx : C} (hs : s.Hooked ops ctx) :
    hasNonblock (s.fd.fcntlGetfl ops kernel) = ops.getUserNonblock ctx := by
  have hget : s.fd.fcntlGetfl ops kernel =
      if ops.getUserNonblock ctx then kernel.F_GETFL s.fd.file ||| O_NONBLOCK
      else kernel.F_GETFL s.fd.file &&& ~~~ O_NONBLOCK := by
    simp only [HookedFd.fcntlGetfl, hs.found, hs.isClose, hs.isSocket, Bool.not_true, Bool.or_self,
      Bool.false_eq_true, if_false]
  rw [hget]
  cases hmode : ops.getUserNonblock ctx with
  | true => exact hasNonblock_or _
  | false => exact hasNonblock_and_not _

/-- **A socket in use stays one.** -/
theorem step_hooked (hops : ops.Lawful) (c : FlagCall) (hs : ∃ ctx, s.Hooked ops ctx) :
    ∃ ctx, Hooked ops (step ops kernel s c) ctx := by
  obtain ⟨ctx, hs⟩ := hs
  cases c with
  | fcntlSetfl arg =>
    have hset := hs.set hops (hasNonblock arg) (kernel.F_SETFL s.fd.file (arg ||| O_NONBLOCK)).2
    refine ⟨ops.setUserNonblock ctx (hasNonblock arg), ?_⟩
    unfold step
    dsimp only [FlagCall.asks, Option.or]
    rw [hs.fcntlSetfl hops arg]
    exact hset
  | fcntlGetfl => exact ⟨ctx, hs.found, hs.isClose, hs.isSocket, hs.getSysNonblock, hs.asked⟩
  | ioctlFionbio v =>
    have hset := hs.set hops (v != 0) (kernel.FIONBIO s.fd.file v).2
    refine ⟨ops.setUserNonblock ctx (v != 0), ?_⟩
    unfold step
    dsimp only [FlagCall.asks, Option.or]
    rw [hs.ioctlFionbio v]
    exact hset

/-- **The modes are separated**: the kernel's flag is set, and `F_GETFL` reports what the user
asked for last. -/
def Separated (ops : FdCtxOps C) (kernel : FdKernel K) (s : FlagRun C K) : Prop :=
  kernel.nonblock s.fd.file = true ∧
    ∀ b, s.asked = some b → hasNonblock (s.fd.fcntlGetfl ops kernel) = b

/-- **One call.** -/
theorem step_separated_iff (hops : ops.Lawful) (hkernel : kernel.Lawful) {ctx : C}
    (hs : s.Hooked ops ctx) (hsep : s.Separated ops kernel) (c : FlagCall) :
    Separated ops kernel (step ops kernel s c) ↔ c ≠ .ioctlFionbio 0 := by
  -- the report is right after any call, so the kernel's flag decides
  obtain ⟨ctx', hs'⟩ := @step_hooked _ _ _ kernel _ hops c ⟨ctx, hs⟩
  have hreport : ∀ b, (step ops kernel s c).asked = some b →
      hasNonblock ((step ops kernel s c).fd.fcntlGetfl ops kernel) = b := by
    intro b hb
    rw [hs'.fcntlGetfl, hs'.asked b hb]
  have hflag : Separated ops kernel (step ops kernel s c) ↔
      kernel.nonblock (step ops kernel s c).fd.file = true :=
    ⟨fun h => h.1, fun h => ⟨h, hreport⟩⟩
  rw [hflag]
  cases c with
  | fcntlSetfl arg =>
    have hset : kernel.nonblock (step ops kernel s (.fcntlSetfl arg)).fd.file = true := by
      unfold step
      dsimp only
      rw [hs.fcntlSetfl hops arg, hkernel.nonblock_F_SETFL]
      exact hasNonblock_or arg
    exact ⟨fun _ => FlagCall.noConfusion, fun _ => hset⟩
  | fcntlGetfl => exact ⟨fun _ => FlagCall.noConfusion, fun _ => hsep.1⟩
  | ioctlFionbio v =>
    have hset : kernel.nonblock (step ops kernel s (.ioctlFionbio v)).fd.file = (v != 0) := by
      unfold step
      dsimp only
      rw [hs.ioctlFionbio v, hkernel.nonblock_FIONBIO]
    rw [hset, bne_iff_ne]
    exact ⟨fun hne h => hne (FlagCall.ioctlFionbio.inj h), fun hne h => hne (h ▸ rfl)⟩

/-- **When the user's mode and the kernel's stay separated.** -/
theorem separated_iff (hops : ops.Lawful) (hkernel : kernel.Lawful) {fd : HookedFd C K} {ctx : C}
    (hctx : fd.ctx = some ctx) (hopen : ops.isClose ctx = false) (hsocket : ops.isSocket ctx = true)
    (hsys : ops.getSysNonblock ctx = true) (hflag : kernel.nonblock fd.file = true)
    (cs : List FlagCall) :
    (∀ t ∈ trace (step ops kernel) { fd := fd, asked := none } cs, t.Separated ops kernel) ↔
      ∀ c ∈ cs, c ≠ .ioctlFionbio 0 := by
  have hstart : Hooked ops ({ fd := fd, asked := none } : FlagRun C K) ctx :=
    ⟨hctx, hopen, hsocket, hsys, fun b hb => by cases hb⟩
  have hsep : Separated ops kernel ({ fd := fd, asked := none } : FlagRun C K) :=
    ⟨hflag, fun b hb => by cases hb⟩
  have hrun := forall_trace_iff_of (I := fun s => ∃ ctx, Hooked ops s ctx)
    (fun _ c hs _ _ => step_hooked hops c hs)
    (fun s c hs hsep => step_separated_iff hops hkernel hs.choose_spec hsep c) cs ⟨ctx, hstart⟩ hsep
  rw [hrun, along_iff_forall]

/-! ## A socket on Linux -/

/-- The fields of `FdCtx`. -/
structure FdCtxFields where
  m_isSocket : Bool
  m_sysNonblock : Bool
  m_userNonblock : Bool
  m_isClosed : Bool

/-- `FdCtx` as a record. -/
def fdCtxOps : FdCtxOps FdCtxFields where
  isClose := (·.m_isClosed)
  isSocket := (·.m_isSocket)
  getSysNonblock := (·.m_sysNonblock)
  getUserNonblock := (·.m_userNonblock)
  setUserNonblock ctx v := { ctx with m_userNonblock := v }

/-- The flags that `F_SETFL` sets on Linux: `O_APPEND`, `O_NONBLOCK`, `O_ASYNC`, `O_DIRECT` and
`O_NOATIME`. -/
def settable : CInt := 0o1066000

/-- The flags of an open file on Linux. -/
def linux : FdKernel CInt where
  F_SETFL file arg := (0, file &&& ~~~ settable ||| arg &&& settable)
  F_GETFL file := file
  FIONBIO file v := (0, if v = 0 then file &&& ~~~ O_NONBLOCK else file ||| O_NONBLOCK)

theorem fdCtxOps_lawful : fdCtxOps.Lawful :=
  ⟨fun _ _ => rfl, fun _ _ => rfl, fun _ _ => rfl, fun _ _ => rfl⟩

theorem linux_lawful : linux.Lawful := by
  refine ⟨?_, ?_⟩
  · intro file arg
    have hkept : ~~~ settable &&& O_NONBLOCK = 0 := by decide
    have hset : settable &&& O_NONBLOCK = O_NONBLOCK := by decide
    have hflag : (file &&& ~~~ settable ||| arg &&& settable) &&& O_NONBLOCK = arg &&& O_NONBLOCK := by
      rw [BitVec.and_or_distrib_right, BitVec.and_assoc, BitVec.and_assoc, hkept, hset]
      simp
    show ((file &&& ~~~ settable ||| arg &&& settable) &&& O_NONBLOCK != 0) = hasNonblock arg
    rw [hflag, hasNonblock]
  · intro file v
    show hasNonblock (if v = 0 then file &&& ~~~ O_NONBLOCK else file ||| O_NONBLOCK) = (v != 0)
    by_cases hv : v = 0
    · rw [if_pos hv, hasNonblock_and_not, hv]
      rfl
    · rw [if_neg hv, hasNonblock_or]
      exact (bne_iff_ne.2 hv).symm

/-- A socket as the hooks leave it: non-blocking for the system, blocking for its user. -/
def newSocket : HookedFd FdCtxFields CInt where
  ctx := some { m_isSocket := true, m_sysNonblock := true, m_userNonblock := false, m_isClosed := false }
  file := O_NONBLOCK

theorem separated_iff_socket : (run (step fdCtxOps linux) { fd := newSocket, asked := none }
    [.fcntlSetfl 0, .ioctlFionbio 1, .fcntlGetfl]).Separated fdCtxOps linux :=
  (separated_iff fdCtxOps_lawful linux_lawful rfl rfl rfl rfl (by decide)
    [.fcntlSetfl 0, .ioctlFionbio 1, .fcntlGetfl]).2 (by decide) _ (run_mem_trace _ _)

/-- A user makes a socket blocking by `ioctl`, and so does the kernel. -/
theorem ioctl_blocks : ¬ ∀ t ∈ trace (step fdCtxOps linux) { fd := newSocket, asked := none }
    [.ioctlFionbio 0], t.Separated fdCtxOps linux := by
  intro h
  have hflag := (h _ (List.mem_cons_of_mem _ List.mem_cons_self)).1
  exact absurd hflag (by decide)

end FlagRun

end Coroutine
