import Mathlib.Logic.Function.Basic

/-!
# Blocking modes of a hooked descriptor (`hook.cc`)

The hooks of `fcntl` and `ioctl` that set and report `O_NONBLOCK`, for one descriptor; the
other commands and requests go to the kernel as they are. `FdCtx` and the kernel are not in
the source: `FdCtxOps` and `FdKernel` are what the hooks call, `Lawful` what they rely on.
-/

namespace Coroutine

/-- A C `int`. -/
abbrev CInt := BitVec 32

/-- `O_NONBLOCK`. -/
def O_NONBLOCK : CInt := 0o4000

/-- The flag `O_NONBLOCK` is among `flags`. -/
def hasNonblock (flags : CInt) : Bool := flags &&& O_NONBLOCK != 0

/-- What the hooks call of `FdCtx`. -/
structure FdCtxOps (C : Type) where
  isClose : C → Bool
  isSocket : C → Bool
  getSysNonblock : C → Bool
  getUserNonblock : C → Bool
  setUserNonblock : C → Bool → C

/-- **`FdCtx` returns the user's mode set last**, and setting it changes nothing else. -/
structure FdCtxOps.Lawful {C : Type} (ops : FdCtxOps C) : Prop where
  getUserNonblock_set : ∀ ctx v, ops.getUserNonblock (ops.setUserNonblock ctx v) = v
  isClose_set : ∀ ctx v, ops.isClose (ops.setUserNonblock ctx v) = ops.isClose ctx
  isSocket_set : ∀ ctx v, ops.isSocket (ops.setUserNonblock ctx v) = ops.isSocket ctx
  getSysNonblock_set : ∀ ctx v, ops.getSysNonblock (ops.setUserNonblock ctx v) = ops.getSysNonblock ctx

/-- `fcntl_f(fd, F_SETFL, arg)`, `fcntl_f(fd, F_GETFL)` and `ioctl_f(fd, FIONBIO, &v)`: what each
returns, and the open file afterwards. -/
structure FdKernel (K : Type) where
  F_SETFL : K → CInt → CInt × K
  F_GETFL : K → CInt
  FIONBIO : K → CInt → CInt × K

/-- The kernel's flag of the open file. -/
def FdKernel.nonblock {K : Type} (kernel : FdKernel K) (file : K) : Bool :=
  hasNonblock (kernel.F_GETFL file)

/-- **The kernel's calls set the flag as documented.** -/
structure FdKernel.Lawful {K : Type} (kernel : FdKernel K) : Prop where
  nonblock_F_SETFL : ∀ file arg, kernel.nonblock (kernel.F_SETFL file arg).2 = hasNonblock arg
  nonblock_FIONBIO : ∀ file v, kernel.nonblock (kernel.FIONBIO file v).2 = (v != 0)

/-- A descriptor: what `FdMgr::get(fd)` returns, and its open file. -/
structure HookedFd (C K : Type) where
  ctx : Option C
  file : K

namespace HookedFd

variable {C K : Type} (ops : FdCtxOps C) (kernel : FdKernel K)

/-- `fcntl(fd, F_SETFL, arg)`. -/
def fcntlSetfl (s : HookedFd C K) (arg : CInt) : CInt × HookedFd C K :=
  match s.ctx with
  | none => ((kernel.F_SETFL s.file arg).1, { s with file := (kernel.F_SETFL s.file arg).2 })
  | some ctx =>
    if ops.isClose ctx || !ops.isSocket ctx then
      ((kernel.F_SETFL s.file arg).1, { s with file := (kernel.F_SETFL s.file arg).2 })
    else
      let ctx := ops.setUserNonblock ctx (hasNonblock arg)
      let arg := if ops.getSysNonblock ctx then arg ||| O_NONBLOCK else arg &&& ~~~ O_NONBLOCK
      ((kernel.F_SETFL s.file arg).1, { ctx := some ctx, file := (kernel.F_SETFL s.file arg).2 })

/-- `fcntl(fd, F_GETFL)`. -/
def fcntlGetfl (s : HookedFd C K) : CInt :=
  let arg := kernel.F_GETFL s.file
  match s.ctx with
  | none => arg
  | some ctx =>
    if ops.isClose ctx || !ops.isSocket ctx then arg
    else if ops.getUserNonblock ctx then arg ||| O_NONBLOCK
    else arg &&& ~~~ O_NONBLOCK

/-- `ioctl(fd, FIONBIO, &v)`. -/
def ioctlFionbio (s : HookedFd C K) (v : CInt) : CInt × HookedFd C K :=
  let user_nonblock := v != 0
  match s.ctx with
  | none => ((kernel.FIONBIO s.file v).1, { s with file := (kernel.FIONBIO s.file v).2 })
  | some ctx =>
    if ops.isClose ctx || !ops.isSocket ctx then
      ((kernel.FIONBIO s.file v).1, { s with file := (kernel.FIONBIO s.file v).2 })
    else
      let ctx := ops.setUserNonblock ctx user_nonblock
      ((kernel.FIONBIO s.file v).1, { ctx := some ctx, file := (kernel.FIONBIO s.file v).2 })

end HookedFd

/-- A call of a user. -/
inductive FlagCall where
  | fcntlSetfl (arg : CInt)
  | fcntlGetfl
  | ioctlFionbio (v : CInt)
  deriving DecidableEq

/-- What the call asks for, if it sets the mode. -/
def FlagCall.asks : FlagCall → Option Bool
  | .fcntlSetfl arg => some (hasNonblock arg)
  | .fcntlGetfl => none
  | .ioctlFionbio v => some (v != 0)

/-- A descriptor with the mode that its user asked for last, which is not in the source. -/
structure FlagRun (C K : Type) where
  fd : HookedFd C K
  asked : Option Bool

/-- One call. -/
def FlagRun.step {C K : Type} (ops : FdCtxOps C) (kernel : FdKernel K) (s : FlagRun C K)
    (c : FlagCall) : FlagRun C K :=
  { fd :=
      match c with
      | .fcntlSetfl arg => (s.fd.fcntlSetfl ops kernel arg).2
      | .fcntlGetfl => s.fd
      | .ioctlFionbio v => (s.fd.ioctlFionbio ops kernel v).2
    asked := c.asks.or s.asked }

end Coroutine
