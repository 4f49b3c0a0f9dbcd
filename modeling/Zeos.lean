import Zeos.Keyboard.Stream
import Zeos.Sched.Idle
import Zeos.Sched.Overtaking
import Zeos.Sems.Sections
import Zeos.Sems.Bounded
import Zeos.Sched.Births
import Zeos.Sched.Shares
import Zeos.Sched.Sleep
import Zeos.Space.Protection
import Zeos.Space.Exceptions
import Zeos.Space.Leaks
import Zeos.Space.Directories
import Zeos.Space.Sharing
import Zeos.Space.UserMemory
import Zeos.Stats.Time
import Zeos.Space.Increments
import Zeos.Space.Failures
import Zeos.Space.Translations
import Zeos.Loading.RoundTrip
import Zeos.Space.Pool
import Zeos.Stats.Reports
import Zeos.Sems.Signals
import Zeos.Sems.Arrivals
import Zeos.Sched.Starvation
import Zeos.Stats.Gaps
import Zeos.Stats.Transitions
import Zeos.Switch.Gate
import Zeos.Switch.TaskSwitch
import Zeos.Switch.Contexts
import Zeos.Switch.Children
import Zeos.Switch.Wrappers
import Zeos.Console.Write
import Zeos.Console.Buffers
import Zeos.Console.Chunks
import Zeos.Console.Messages
import Zeos.Keyboard.Progress
import Zeos.ListCalls
import Zeos.Copying
import Zeos.Stats.Ticks
import Zeos.Libc
