import RealtimeTools.Interleaving.System
import RealtimeTools.Interleaving.Monitor
import RealtimeTools.Interleaving.Handover
import RealtimeTools.Interleaving.History
import RealtimeTools.Interleaving.Observation
import RealtimeTools.Interleaving.Copying
import RealtimeTools.Interleaving.WaitFor
import RealtimeTools.Interleaving.RobustMutex
import RealtimeTools.Interleaving.WaitFree
import RealtimeTools.Interleaving.CriticalSection
import RealtimeTools.Interleaving.DataRace
import RealtimeTools.Sequential.Object
import RealtimeTools.Interleaving.AtomicObject
import RealtimeTools.Sequential.Heap
import RealtimeTools.Sequential.Fifo
import RealtimeTools.Sequential.Grid
import RealtimeTools.Publisher.Model
import RealtimeTools.Publisher.Delivery
import RealtimeTools.Publisher.Calls
import RealtimeTools.Publisher.Wakeup
import RealtimeTools.Publisher.Shutdown
import RealtimeTools.Publisher.Prediction
import RealtimeTools.Publisher.Realtime
import RealtimeTools.Publisher.Destructor
import RealtimeTools.GoalHandle.Handle
import RealtimeTools.GoalHandle.Termination
import RealtimeTools.GoalHandle.Transitions
import RealtimeTools.GoalHandle.Model
import RealtimeTools.GoalHandle.Sequential
import RealtimeTools.GoalHandle.Requests
import RealtimeTools.GoalHandle.FirstOutcome
import RealtimeTools.GoalHandle.Feedback
import RealtimeTools.GoalHandle.Realtime
import RealtimeTools.AsyncHandler.Params
import RealtimeTools.AsyncHandler.NodeParameters
import RealtimeTools.AsyncHandler.Model
import RealtimeTools.AsyncHandler.Effects
import RealtimeTools.AsyncHandler.Steps
import RealtimeTools.AsyncHandler.Worker
import RealtimeTools.AsyncHandler.Calls
import RealtimeTools.AsyncHandler.TriggerPaths
import RealtimeTools.AsyncHandler.Wakeup
import RealtimeTools.AsyncHandler.Waiters
import RealtimeTools.AsyncHandler.Triggers
import RealtimeTools.AsyncHandler.Cycles
import RealtimeTools.AsyncHandler.ReturnValues
import RealtimeTools.AsyncHandler.Failure
import RealtimeTools.AsyncHandler.Validity
import RealtimeTools.AsyncHandler.StopRequest
import RealtimeTools.AsyncHandler.Pausing
import RealtimeTools.AsyncHandler.InitialTrigger
import RealtimeTools.AsyncHandler.PauseEnds
import RealtimeTools.AsyncHandler.Periods
import RealtimeTools.AsyncHandler.Timed
import RealtimeTools.AsyncHandler.Overruns
import RealtimeTools.AsyncHandler.CatchUp
import RealtimeTools.AsyncHandler.Realtime
import RealtimeTools.AsyncHandler.Stopping
import RealtimeTools.AsyncHandler.Races
import RealtimeTools.AsyncHandler.Restart
import RealtimeTools.Buffer.Model
import RealtimeTools.Buffer.Register
import RealtimeTools.Buffer.Memory
import RealtimeTools.Buffer.Concurrent
import RealtimeTools.Buffer.Ownership
import RealtimeTools.Buffer.Linearization
import RealtimeTools.Buffer.Realtime
import RealtimeTools.Box.Model
import RealtimeTools.Box.Events
import RealtimeTools.Box.Exclusion
import RealtimeTools.Box.Linearization
import RealtimeTools.Box.Deadlock
import RealtimeTools.Box.Progress
import RealtimeTools.Queue.Model
import RealtimeTools.Queue.Atomicity
import RealtimeTools.Queue.Pushes
import RealtimeTools.Queue.SingleThread
import RealtimeTools.Queue.Traffic
import RealtimeTools.Mutex.Model
import RealtimeTools.Mutex.Robustness
import RealtimeTools.Helpers.Affinity
import RealtimeTools.AsyncHandler.Pinning
