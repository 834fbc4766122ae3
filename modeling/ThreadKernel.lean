import ThreadKernel.Kernel.Start
import ThreadKernel.Machine.Report
import ThreadKernel.Registry.Countdown
import ThreadKernel.Proofs.Table.Links
import ThreadKernel.Proofs.Table.Refresh
import ThreadKernel.Proofs.Table.Release
import ThreadKernel.Proofs.Table.Enqueue
import ThreadKernel.Proofs.Table.Handover
import ThreadKernel.Proofs.Table.Forget
import ThreadKernel.Proofs.Table.Consistency
import ThreadKernel.Proofs.Table.Donors
import ThreadKernel.Proofs.Kernel.Situated
import ThreadKernel.Proofs.Kernel.TableStep
import ThreadKernel.Proofs.Kernel.Wake
import ThreadKernel.Proofs.Kernel.Life
import ThreadKernel.Proofs.Kernel.Cycle
import ThreadKernel.Proofs.Kernel.Primitives
import ThreadKernel.Proofs.Machine.Orderly
import ThreadKernel.Proofs.Machine.Code
import ThreadKernel.Proofs.Machine.Run
import ThreadKernel.Proofs.Machine.Situations
import ThreadKernel.Proofs.Table.Silent
import ThreadKernel.Proofs.Machine.Dispatch
import ThreadKernel.Proofs.Kernel.Steady
import ThreadKernel.Proofs.Machine.Effects
import ThreadKernel.Proofs.Machine.Timers
import ThreadKernel.Proofs.Machine.Deadlock
import ThreadKernel.Proofs.Machine.Exclusion
import ThreadKernel.Proofs.Machine.Sleepers
import ThreadKernel.Proofs.Kernel.Faults
import ThreadKernel.Proofs.Machine.Faults
import ThreadKernel.Proofs.Machine.Frames
import ThreadKernel.Proofs.Table.References
import ThreadKernel.Proofs.Table.Walk
import ThreadKernel.Proofs.Table.Changes
import ThreadKernel.Proofs.Table.Propagation
import ThreadKernel.Proofs.Machine.Dozing
import ThreadKernel.Proofs.Alarm
import ThreadKernel.Proofs.Machine.Alarms
import ThreadKernel.Proofs.Machine.Interrupts
import ThreadKernel.Proofs.Machine.Naps
import ThreadKernel.Proofs.Kernel.Tenure
import ThreadKernel.Proofs.Machine.JoinQueues
import ThreadKernel.Proofs.Machine.Joins
import ThreadKernel.Proofs.Machine.Contexts
import ThreadKernel.Proofs.Kernel.Course
import ThreadKernel.Proofs.Machine.Edits
import ThreadKernel.Proofs.Machine.Holders
import ThreadKernel.Proofs.Table.Known
import ThreadKernel.Proofs.Kernel.Clearance
import ThreadKernel.Proofs.Machine.Clearance
import ThreadKernel.Proofs.Machine.Headway
import ThreadKernel.Proofs.Machine.Handlers
import ThreadKernel.Proofs.Machine.Moves
import ThreadKernel.Proofs.Machine.Effort
import ThreadKernel.Proofs.Machine.Descent
import ThreadKernel.Proofs.Machine.Economy
import ThreadKernel.Proofs.Lottery
import ThreadKernel.Proofs.Table.Frame
import ThreadKernel.Proofs.Table.Priorities
import ThreadKernel.Proofs.Table.Arrivals
import ThreadKernel.Proofs.Table.Service
import ThreadKernel.Proofs.WaitSet.History
import ThreadKernel.Proofs.Table.Portions
import ThreadKernel.Proofs.Table.RoundRobin
import ThreadKernel.Proofs.Clock
import ThreadKernel.Proofs.Machine.Wakeups
import ThreadKernel.Proofs.Registry
import ThreadKernel.Proofs.WakeSignal
import ThreadKernel.Proofs.Machine.Deliveries
import ThreadKernel.Proofs.Machine.Failures
import ThreadKernel.Proofs.Text
import ThreadKernel.Proofs.Config
import ThreadKernel.Proofs.Table.Footprint
import ThreadKernel.Proofs.Kernel.Spawn
import ThreadKernel.Proofs.Machine.Newcomers
