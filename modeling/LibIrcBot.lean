import LibIrcBot.Foundations.ObjectMemory
import LibIrcBot.Foundations.Ring
import LibIrcBot.Foundations.Outcome
import LibIrcBot.Foundations.Transitions
import LibIrcBot.Foundations.Chunks
import LibIrcBot.Containers.QueueFifo
import LibIrcBot.Events.Reentrancy
import LibIrcBot.Properties.ReceiveFraming
import LibIrcBot.Properties.ActiveTimer
import LibIrcBot.Properties.ChannelOwnership
import LibIrcBot.Properties.PendingWrite
import LibIrcBot.Properties.MessageSafety
import LibIrcBot.Properties.Isolation
import LibIrcBot.Properties.CommandLines
import LibIrcBot.Properties.LongMessages
import LibIrcBot.Properties.HandlerSelection
import LibIrcBot.Properties.FloodLimit
import LibIrcBot.Properties.DeadConnection
import LibIrcBot.Properties.UserEvents
import LibIrcBot.System.Deliveries
import LibIrcBot.Threads.ThreadPool
import LibIrcBot.Properties.PoolAccounting
import LibIrcBot.Properties.RefusedJobs
import LibIrcBot.Properties.LostStart
import LibIrcBot.Properties.WriteOrder
import LibIrcBot.Properties.ClosedDescriptors
import LibIrcBot.Properties.HandshakeOrder
import LibIrcBot.Properties.InterestSets
import LibIrcBot.Properties.TeardownOrder
import LibIrcBot.Properties.BlacklistBalance
import LibIrcBot.Containers.TableRefinement
import LibIrcBot.Containers.ListRefinement
import LibIrcBot.Properties.JobFifo
import LibIrcBot.Properties.ReadinessDispatch
import LibIrcBot.Properties.NameLists
import LibIrcBot.Properties.PrefixNicks
import LibIrcBot.Properties.ReceiveSafety
import LibIrcBot.Properties.LineFragments
import LibIrcBot.Properties.RefusedChannels
import LibIrcBot.Properties.CommandNames
import LibIrcBot.Properties.Parameters
import LibIrcBot.Properties.EventRegistrations
import LibIrcBot.Properties.SplitJoin
import LibIrcBot.Properties.BuiltStrings
import LibIrcBot.Properties.RealName
import LibIrcBot.Properties.Buckets
import LibIrcBot.Properties.SafeSizes
import LibIrcBot.Properties.SelectSets
import LibIrcBot.Properties.HandledData
import LibIrcBot.Properties.OrderlyShutdown
import LibIrcBot.Properties.Watchdogs
import LibIrcBot.Properties.WireOrder
import LibIrcBot.Parties.Members
import LibIrcBot.Parties.Agreement
import LibIrcBot.Parties.NickAgreement
import LibIrcBot.Daemon.Pidfiles
import LibIrcBot.Daemon.LaunchPipe
import LibIrcBot.Containers.TableIterator
import LibIrcBot.Properties.ConnectionModels
