import Coroutine.Lib.Run
import Coroutine.Lib.OrdSet
import Coroutine.Spec.Base
import Coroutine.Spec.Timer
import Coroutine.Proof.TimerStore
import Coroutine.Spec.TimerThreads
import Coroutine.Proof.TimerThreads
import Coroutine.Spec.TimerLog
import Coroutine.Proof.TimerEffect
import Coroutine.Proof.TimerExpiry
import Coroutine.Proof.TimerScan
import Coroutine.Spec.TimerHandles
import Coroutine.Proof.TimerHandles
import Coroutine.Proof.TimerLife
import Coroutine.Proof.TimerEarly
import Coroutine.Proof.TimerFront
import Coroutine.Lib.Refine
import Coroutine.Spec.TimerService
import Coroutine.Spec.TimerWaiters
import Coroutine.Proof.TimerWaiters
import Coroutine.Spec.Event
import Coroutine.Proof.EventContext
import Coroutine.Proof.EventStore
import Coroutine.Proof.EventDispatch
import Coroutine.Lib.Ledger
import Coroutine.Proof.EventLedger
import Coroutine.Proof.EventThreads
import Coroutine.Spec.EventKernel
import Coroutine.Proof.EventMirror
import Coroutine.Spec.EventReady
import Coroutine.Spec.Scheduler
import Coroutine.Proof.SchedulerMoves
import Coroutine.Lib.Parties
import Coroutine.Proof.SchedulerCount
import Coroutine.Proof.SchedulerHands
import Coroutine.Proof.SchedulerFinished
import Coroutine.Spec.SchedulerParts
import Coroutine.Proof.SchedulerParts
import Coroutine.Proof.SchedulerQueue
import Coroutine.Proof.SchedulerSound
import Coroutine.Proof.SchedulerOnce
import Coroutine.Proof.SchedulerStop
import Coroutine.Proof.SchedulerStopping
import Coroutine.Spec.SchedulerPins
import Coroutine.Proof.SchedulerPins
import Coroutine.Proof.SchedulerStates
import Coroutine.Spec.SchedulerRecycle
import Coroutine.Proof.SchedulerRecycle
import Coroutine.Spec.FiberSwitch
import Coroutine.Proof.FiberSwitch
import Coroutine.Proof.TimerService
import Coroutine.Proof.IoChange
import Coroutine.Proof.IoWakeup
import Coroutine.Spec.IoThreads
import Coroutine.Proof.IoTimeout
import Coroutine.Proof.IoScheduler
import Coroutine.Proof.IoTimerFires
import Coroutine.Proof.SchedulerClosing
import Coroutine.Spec.IoStop
import Coroutine.Proof.IoStopChange
import Coroutine.Proof.IoStop
import Coroutine.Proof.IoAlike
import Coroutine.Lib.Fold
import Coroutine.Spec.LogFormat
import Coroutine.Spec.Log
import Coroutine.Proof.LogReload
import Coroutine.Proof.LogListener
import Coroutine.Spec.LogFormatters
import Coroutine.Proof.LogFormatters
import Coroutine.Spec.Config
import Coroutine.Proof.ConfigNotify
import Coroutine.Spec.HookFlags
import Coroutine.Proof.HookFlags
import Coroutine.Spec.HookIo
import Coroutine.Proof.EventWaiting
import Coroutine.Proof.EventReady
import Coroutine.Proof.HookIo
import Coroutine.Proof.HookWake
import Coroutine.Proof.HookTimeout
import Coroutine.Spec.HookCalls
import Coroutine.Proof.HookCalls
import Coroutine.Spec.HookConnect
import Coroutine.Proof.HookConnect
import Coroutine.Proof.EventAwaiting
import Coroutine.Proof.HookVerdict
import Coroutine.Spec.HookDuration
import Coroutine.Proof.HookDuration
import Coroutine.Proof.EventBounds
import Coroutine.Proof.EventManned
import Coroutine.Spec.LogFile
import Coroutine.Proof.LogFile
import Coroutine.Spec.LogRecover
import Coroutine.Proof.LogRecover
import Coroutine.Proof.LogPattern
import Coroutine.Proof.LogEscape
import Coroutine.Spec.Yaml
import Coroutine.Spec.LogYaml
import Coroutine.Proof.LogYaml
import Coroutine.Spec.LogPrint
import Coroutine.Lib.Locks
import Coroutine.Spec.LogLocks
import Coroutine.Proof.LogLocks
import Coroutine.Spec.LogService
import Coroutine.Proof.LogPrint
import Coroutine.Proof.LogService
import Coroutine.Spec.ConfigString
import Coroutine.Proof.ConfigString
import Coroutine.Lib.Container
import Coroutine.Spec.ConfigCast
import Coroutine.Proof.ConfigCast
import Coroutine.Spec.ConfigLoad
import Coroutine.Proof.ConfigLoad
import Coroutine.Spec.ConfigLookup
import Coroutine.Proof.ConfigLookup
import Coroutine.Spec.ConfigStore
import Coroutine.Proof.ConfigStore
import Coroutine.Spec.FiberLaw
import Coroutine.Proof.FiberLaw
import Coroutine.Spec.ThreadPool
import Coroutine.Proof.ThreadPool
import Coroutine.Proof.PoolScheduler
import Coroutine.Lib.Shared
import Coroutine.Spec.FiberLife
import Coroutine.Proof.FiberLife
import Coroutine.Proof.SchedulerLeak
import Coroutine.Lib.Fair
import Coroutine.Proof.SchedulerCallbacks
import Coroutine.Proof.SchedulerReturns
import Coroutine.Proof.SchedulerServed
