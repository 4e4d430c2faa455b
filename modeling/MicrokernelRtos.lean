import MicrokernelRtos.Library.LinkedPath
import MicrokernelRtos.Library.RingBuffer
import MicrokernelRtos.Library.PriorityInheritance
import MicrokernelRtos.Library.TransitionSystem
import MicrokernelRtos.Library.Tiling
import MicrokernelRtos.Library.RoundRobin
import MicrokernelRtos.Library.Chain
import MicrokernelRtos.Library.Agenda
import MicrokernelRtos.Library.WordMemory
import MicrokernelRtos.Library.Threads
import MicrokernelRtos.Library.Nesting
import MicrokernelRtos.KernelState
import MicrokernelRtos.Scheduler
import MicrokernelRtos.WaitList
import MicrokernelRtos.Blocking
import MicrokernelRtos.Mutex
import MicrokernelRtos.Semaphore
import MicrokernelRtos.MessageQueue
import MicrokernelRtos.Task
import MicrokernelRtos.SystemCalls
import MicrokernelRtos.Heap
import MicrokernelRtos.SoftTimer
import MicrokernelRtos.ContextSwitch
import MicrokernelRtos.Reset
import MicrokernelRtos.Interrupts
import MicrokernelRtos.Coherence.Frames
import MicrokernelRtos.Coherence.Mutexes
import MicrokernelRtos.Coherence.Shape
import MicrokernelRtos.Coherence.Waits
import MicrokernelRtos.Coherence.Rings
import MicrokernelRtos.Coherence.Calls
import MicrokernelRtos.Coherence.Boot
import MicrokernelRtos.Runs.Atomic
import MicrokernelRtos.Runs.Handover
import MicrokernelRtos.Runs.Boost
import MicrokernelRtos.Runs.Expiry
import MicrokernelRtos.Runs.IdleTask
import MicrokernelRtos.Runs.Structure
import MicrokernelRtos.Runs.Regions
import MicrokernelRtos.Runs.Wakeups
import MicrokernelRtos.Runs.MutualExclusion
import MicrokernelRtos.Runs.FailedLock
import MicrokernelRtos.Runs.Channel
import MicrokernelRtos.Runs.Timeout
import MicrokernelRtos.Runs.Inheritance
import MicrokernelRtos.Runs.Inversion
import MicrokernelRtos.Runs.Allocation
import MicrokernelRtos.Runs.Recovery
import MicrokernelRtos.Runs.FirstFit
import MicrokernelRtos.Runs.Coalescing
import MicrokernelRtos.Runs.TaskMemory
import MicrokernelRtos.Runs.Creation
import MicrokernelRtos.Runs.Accounting
import MicrokernelRtos.Runs.ReadyQueues
import MicrokernelRtos.Runs.WaitQueues
import MicrokernelRtos.Runs.Deletion
import MicrokernelRtos.Runs.Passes
import MicrokernelRtos.Runs.Preemption
import MicrokernelRtos.Runs.Progress
import MicrokernelRtos.Runs.Waiters
import MicrokernelRtos.Runs.Retries
import MicrokernelRtos.Runs.Board
import MicrokernelRtos.Runs.Contexts
import MicrokernelRtos.Runs.StackGuard
import MicrokernelRtos.Runs.Faultless
import MicrokernelRtos.Runs.ArrivalOrder
import MicrokernelRtos.Runs.Timers
import MicrokernelRtos.Runs.Draining
import MicrokernelRtos.Runs.Rearming
import MicrokernelRtos.Runs.OnTime
import MicrokernelRtos.Runs.Signals
import MicrokernelRtos.Runs.Turns
import MicrokernelRtos.Runs.ResponseTime
import MicrokernelRtos.Runs.Wraparound
import MicrokernelRtos.Runs.TimeSlice
