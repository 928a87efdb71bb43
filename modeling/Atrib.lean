import Atrib.Lib.Run
import Atrib.Lib.SparseArray
import Atrib.Proofs.AnnotationSummaries
import Atrib.Proofs.AppendOnlyVerdict
import Atrib.Proofs.ArchiveEvidence
import Atrib.Proofs.ArchiveReplay
import Atrib.Proofs.AutoChains
import Atrib.Proofs.Bm25Paths
import Atrib.Proofs.BoundEntries
import Atrib.Proofs.Capabilities
import Atrib.Proofs.ChainComponents
import Atrib.Proofs.CheckpointPairs
import Atrib.Proofs.CommittedRecords
import Atrib.Proofs.Consistency
import Atrib.Proofs.CurrentState
import Atrib.Proofs.DelegationRevocations
import Atrib.Proofs.DelegationWalk
import Atrib.Proofs.Delivery
import Atrib.Proofs.DependencyWalk
import Atrib.Proofs.DpopReplay
import Atrib.Proofs.DpopWindow
import Atrib.Proofs.EntryRoundTrip
import Atrib.Proofs.Floors
import Atrib.Proofs.FlushWaits
import Atrib.Proofs.GossipReport
import Atrib.Proofs.GraphCache
import Atrib.Proofs.GraphOrder
import Atrib.Proofs.HandoffPolicy
import Atrib.Proofs.Inclusion
import Atrib.Proofs.LeafRanges
import Atrib.Proofs.LocalWalks
import Atrib.Proofs.MandateLimits
import Atrib.Proofs.MirrorIndex
import Atrib.Proofs.MirrorLines
import Atrib.Proofs.PairedEvidence
import Atrib.Proofs.PathTypes
import Atrib.Proofs.ProtectedPermits
import Atrib.Proofs.ProvedClaim
import Atrib.Proofs.PythonRecall
import Atrib.Proofs.QueuedRecords
import Atrib.Proofs.Receipts
import Atrib.Proofs.RecordGates
import Atrib.Proofs.RecordOwnership
import Atrib.Proofs.RevocationAuthor
import Atrib.Proofs.SessionConsistency
import Atrib.Proofs.SessionHops
import Atrib.Proofs.SettledRuns
import Atrib.Proofs.SettlementDeclared
import Atrib.Proofs.SettlementEligible
import Atrib.Proofs.SettlementOrder
import Atrib.Proofs.ShareConstraints
import Atrib.Proofs.Spellings
import Atrib.Proofs.StrandedJobs
import Atrib.Proofs.TileStability
import Atrib.Proofs.ToolIdentity
import Atrib.Proofs.TraceExact
import Atrib.Proofs.TraceWalks
import Atrib.Proofs.TreeRuns
import Atrib.Proofs.UnverifiedInfluence
import Atrib.Proofs.WitnessSafety
import Atrib.Proofs.WitnessThreshold
import Atrib.Proofs.WriteFailures
import Atrib.Proofs.WriteOrder
