import InMemoryDB.Library.Runs
import InMemoryDB.Library.Delimited
import InMemoryDB.Library.Decimal
import InMemoryDB.Daemons.TimingWheel
import InMemoryDB.Core.LazyDeletion
import InMemoryDB.Core.Collections
import InMemoryDB.Network.Answers
import InMemoryDB.Persistence.LogOrder
import InMemoryDB.Persistence.Acknowledgement
import InMemoryDB.Persistence.Lifetime
import InMemoryDB.Persistence.TornLog
import InMemoryDB.Persistence.CleanShutdown
import InMemoryDB.Network.DepthLimit
import InMemoryDB.Network.Hysteresis
import InMemoryDB.Network.Framing
import InMemoryDB.Network.EventRuns
import InMemoryDB.Network.Admission
import InMemoryDB.Network.ProgramOrder
import InMemoryDB.Engine.HashMixing
import InMemoryDB.Engine.RouterWords
import InMemoryDB.Memory.PmrAllocator
import InMemoryDB.Core.ExpirationTime
import InMemoryDB.Library.Numerals
import InMemoryDB.Core.IntegerArguments
import InMemoryDB.Core.MemoryLimit
import InMemoryDB.Library.Switches
import InMemoryDB.Network.PubSubBroker
import InMemoryDB.Network.Publication
import InMemoryDB.Library.Calendar
import InMemoryDB.Daemons.CalendarQueue
import InMemoryDB.Daemons.Forgetting
import InMemoryDB.Library.Linearization
import InMemoryDB.Network.SerialOrder
import InMemoryDB.Library.Progress
import InMemoryDB.Network.Completion
import InMemoryDB.Persistence.Closing
import InMemoryDB.Persistence.CrashRecovery
import InMemoryDB.Library.TornText
import InMemoryDB.Persistence.CrashedLives
import InMemoryDB.Engine.Distribution
import InMemoryDB.Network.Broadcast
import InMemoryDB.Network.PlainMap
import InMemoryDB.Network.Growth
import InMemoryDB.Core.Grammar
import InMemoryDB.Network.Overtaking
import InMemoryDB.Network.RoundLength
import InMemoryDB.Network.ReactorThread
import InMemoryDB.Network.Output
