import PikiwiNet.Basic
import PikiwiNet.Inbox
import PikiwiNet.Registry
import PikiwiNet.Consume
import PikiwiNet.Conn
import PikiwiNet.Idle
import PikiwiNet.Timers
import PikiwiNet.TimerRuns
import PikiwiNet.Facade
import PikiwiNet.Delay
import PikiwiNet.Stopped
import PikiwiNet.Affinity
import PikiwiNet.Wakeup
import PikiwiNet.Args
import PikiwiNet.Watches
import PikiwiNet.Send
