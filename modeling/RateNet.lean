import RateNet.Algo.Checked
import RateNet.Algo.Direct
import RateNet.Algo.FixedWindow
import RateNet.Algo.Gcra
import RateNet.Algo.Lawful
import RateNet.Algo.SlidingCounter
import RateNet.Algo.SlidingLog
import RateNet.Algo.TokenBucket
import RateNet.Async.Wait
import RateNet.Clock.CoarseClock
import RateNet.Clock.CoarseReads
import RateNet.Core.KeyState
import RateNet.Core.Time
import RateNet.Lib.AddressBits
import RateNet.Lib.Buckets
import RateNet.Lib.CheckedArith
import RateNet.Lib.DenseIndex
import RateNet.Lib.Interleaving
import RateNet.Lib.Linearization
import RateNet.Lib.RateConversion
import RateNet.Lib.Runs
import RateNet.Lib.StructuredField
import RateNet.Lib.TimedUnits
import RateNet.Lib.VirtualScheduling
import RateNet.Net.ForwardedFor
import RateNet.Net.Headers
import RateNet.Net.Key
import RateNet.Net.Service
import RateNet.Proofs.Ageing
import RateNet.Proofs.BuiltLimiters
import RateNet.Proofs.CoarseLag
import RateNet.Proofs.CoarseLooseness
import RateNet.Proofs.ConcurrentTicks
import RateNet.Proofs.CounterBalance
import RateNet.Proofs.DirectWaits
import RateNet.Proofs.EvictionMeter
import RateNet.Proofs.ExactArithmetic
import RateNet.Proofs.FixedWindowEviction
import RateNet.Proofs.FixedWindowInterleaving
import RateNet.Proofs.FixedWindowReference
import RateNet.Proofs.FixedWindowWraps
import RateNet.Proofs.ForgetMode
import RateNet.Proofs.FrozenClock
import RateNet.Proofs.GcraEviction
import RateNet.Proofs.GcraInterleaving
import RateNet.Proofs.HonestRetries
import RateNet.Proofs.KeyNames
import RateNet.Proofs.KeyRenaming
import RateNet.Proofs.KeyedWaits
import RateNet.Proofs.Linearizable
import RateNet.Proofs.LockDiscipline
import RateNet.Proofs.LockedMeter
import RateNet.Proofs.LockedProgress
import RateNet.Proofs.LookAhead
import RateNet.Proofs.MapOfLimiters
import RateNet.Proofs.NoRoom
import RateNet.Proofs.PeekPromises
import RateNet.Proofs.PrefixKeys
import RateNet.Proofs.RecoveredKeys
import RateNet.Proofs.RecoveryContents
import RateNet.Proofs.RecoveryCover
import RateNet.Proofs.RecoveryHints
import RateNet.Proofs.RecoveryLedger
import RateNet.Proofs.RecoveryTime
import RateNet.Proofs.ResetRaces
import RateNet.Proofs.RestoreCycles
import RateNet.Proofs.RestoredKeys
import RateNet.Proofs.RetainWalk
import RateNet.Proofs.RetryAfter
import RateNet.Proofs.RoomSteps
import RateNet.Proofs.SaturatedLog
import RateNet.Proofs.ServedRequests
import RateNet.Proofs.ShardInvariant
import RateNet.Proofs.ShardSteps
import RateNet.Proofs.SketchTaint
import RateNet.Proofs.SlidingCounterWindows
import RateNet.Proofs.SlidingLogWindow
import RateNet.Proofs.Snapshots
import RateNet.Proofs.SpilledDeadlines
import RateNet.Proofs.StalledHand
import RateNet.Proofs.TrivialRequests
import RateNet.Proofs.TrustedProxies
import RateNet.Proofs.TruthfulHeaders
import RateNet.Proofs.UnboundedStore
import RateNet.Proofs.Waiting
import RateNet.Proofs.WarningCounts
import RateNet.Store.Builder
import RateNet.Store.Counters
import RateNet.Store.KeyPolicy
import RateNet.Store.Limiter
import RateNet.Store.Locks
import RateNet.Store.Recovery
import RateNet.Store.ShardMap
import RateNet.Store.Store
import RateNet.Store.Warnings
