import MessageBroker.ProgramTrees
import MessageBroker.ProofOutlines
import MessageBroker.ThreadPools
import MessageBroker.ByteStrings
import MessageBroker.WireMessages
import MessageBroker.WireCodec
import MessageBroker.BufferReads
import MessageBroker.OrderedSelection
import MessageBroker.MessageStore
import MessageBroker.BrokerState
import MessageBroker.SessionQueues
import MessageBroker.ClientRegistry
import MessageBroker.MessageHandlers
import MessageBroker.ServerJobs
import MessageBroker.OperationEffects
import MessageBroker.StoreInvariant
import MessageBroker.ThreadViews
import MessageBroker.SharedInvariant
import MessageBroker.QueueOutlines
import MessageBroker.RegistryOutlines
import MessageBroker.DeliveryOutlines
import MessageBroker.HandlerOutlines
import MessageBroker.ServerOutlines
import MessageBroker.RunInvariants
import MessageBroker.AcknowledgedDelivery
import MessageBroker.Recipients
import MessageBroker.NoLostMessages
import MessageBroker.LockDiscipline
import MessageBroker.HandOverOnce
import MessageBroker.AtMostOnce
import MessageBroker.RowLifecycle
import MessageBroker.LiveRows
import MessageBroker.StorageRoundTrip
import MessageBroker.Protocols
import MessageBroker.ProgramShapes
import MessageBroker.ThreadPhases
import MessageBroker.SequentialRuns
import MessageBroker.StandaloneSession
import MessageBroker.SessionConservation
import MessageBroker.SendLedger
import MessageBroker.SendQueue
import MessageBroker.ExclusiveSender
import MessageBroker.RegistryIndex
import MessageBroker.IndexCompleteness
import MessageBroker.AckRace
import MessageBroker.RoutePhases
import MessageBroker.ReplyRouting
import MessageBroker.CorrelationTable
import MessageBroker.OutgoingMessages
import MessageBroker.IsolatedRuns
import MessageBroker.AcceptBlocks
import MessageBroker.RetryPass
import MessageBroker.AckOutcomes
import MessageBroker.AckResolution
import MessageBroker.Shutdown
import MessageBroker.RegistrationBacklog
import MessageBroker.PairedReading
import MessageBroker.ReceiveLoop
import MessageBroker.Inactivity
import MessageBroker.AckTimeout
import MessageBroker.AckNotices
import MessageBroker.SendOwnership
import MessageBroker.SendPasses
import MessageBroker.FrameTriples
import MessageBroker.ClientAccounting
import MessageBroker.BacklogDelivery
import MessageBroker.BacklogOrder
import MessageBroker.MessageCounts
import MessageBroker.TransitionSystems
import MessageBroker.EventLoop
import MessageBroker.WorkerChains
import MessageBroker.LoopRefinement
import MessageBroker.LoopReceipts
import MessageBroker.LoopShutdown
import MessageBroker.LoopSends
import MessageBroker.MetricsExport
import MessageBroker.CarriedCopies
import MessageBroker.MessageOrigins
import MessageBroker.NumberTexts
import MessageBroker.CommandLine
import MessageBroker.UniversalClient
import MessageBroker.ClientCodec
import MessageBroker.ClientOutlines
import MessageBroker.Deployment
import MessageBroker.QueueBound
import MessageBroker.Restarts
import MessageBroker.SettledRows
import MessageBroker.Recovery
import MessageBroker.LoopOutage
