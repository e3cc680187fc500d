import Asterel.Security.ShellOperators
import Asterel.Security.CommandQuoting
import Asterel.Security.OptionValues
import Asterel.Security.RateRejections
import Asterel.Security.PairingPersistence
import Asterel.Security.PairingAttempts
import Asterel.Security.MarkerCollision
import Asterel.Security.Merkle
import Asterel.Security.ToolPolicy
import Asterel.Security.InjectionMisses
import Asterel.Transport.ReplayProtection
import Asterel.Transport.ReplayDurability
import Asterel.Transport.Coalescer
import Asterel.Runtime.SelfAmendment
import Asterel.Transport.RefusedRetry
import Asterel.Transport.WsConnections
import Asterel.Providers.ReliableProvider
import Asterel.Core.CrashRecovery
import Asterel.Core.DelegationSlots
import Asterel.Core.ToolOrchestrator
import Asterel.Utils.ReasoningHidden
import Asterel.Providers.SseBuffer
import Asterel.Providers.InternalBlocks
import Asterel.Providers.AnthropicStream
import Asterel.Providers.StreamingScrub
import Asterel.Providers.OpenAiReply
import Asterel.Memory.ActivationCache
import Asterel.Memory.Consolidation
import Asterel.Memory.Agreement
import Asterel.Memory.Contradiction
import Asterel.Memory.Archive
import Asterel.Platform.CronOccurrences
import Asterel.Security.DailyCost
import Asterel.Security.FindActions
import Asterel.Security.UrlValidation
import Asterel.Security.SecretKey
import Asterel.Transport.RoutingOrder
import Asterel.Memory.NotePromotion
import Asterel.Memory.WorkingPromotion
import Asterel.Core.LoopDetection
import Asterel.Core.Microcompaction
import Asterel.Providers.StreamSplices
import Asterel.Runtime.OperatorSessions
import Asterel.Security.PermissionReload
import Asterel.Security.ScrubTwice
import Asterel.Core.BracketArguments
import Asterel.Utils.Citations
import Asterel.Memory.WorkingMemory
import Asterel.Memory.ChunkSizes
import Asterel.Memory.PageRankReach
import Asterel.Security.AuthSelection
import Asterel.Security.AuthBookkeeping
import Asterel.Memory.EntityConservation
import Asterel.Memory.FalseMerges
import Asterel.Memory.ResolutionOrder
import Asterel.Platform.CronIntervals
import Asterel.Security.TrustReads
import Asterel.Platform.CronQueue
import Asterel.Core.WriteContainment
