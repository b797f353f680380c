import Tinker.Scheduler.RoundRobin
import Tinker.Objects.Holding
import Tinker.Objects.PipeLinks
import Tinker.Objects.PipeSlots
import Tinker.Objects.PipeWaiters
import Tinker.Objects.Accounting
import Tinker.Objects.Inheritance
import Tinker.Scheduler.StackOrder
import Tinker.Kernel.Membership
import Tinker.Kernel.Running
import Tinker.Kernel.Isolation
import Tinker.Time.Clock
import Tinker.Console.Format
import Tinker.Objects.Names
import Tinker.Kernel.Wakeups
import Tinker.Collections.MapHistory
import Tinker.Process.ExitLoop
import Tinker.Objects.SharedDeletion
import Tinker.Objects.FailedCreation
import Tinker.Collections.ListHistory
import Tinker.Interrupt.Acknowledge
import Tinker.Process.SectionOrder
import Tinker.Memory.TablePointer
import Tinker.Process.PoolRegion
import Tinker.Image.Packing
import Tinker.Image.Loader
import Tinker.Objects.PoolReturn
import Tinker.Console.Numbers
import Tinker.Objects.RegistryRefinement
import Tinker.Kernel.ShmModels
