import Decern.LineText
import Decern.JsonText
import Decern.SerdeValue
import Decern.JsonRoundTrip
import Decern.SerdeText
import Decern.SerdeRead
import Decern.RustText
import Decern.LedgerEntry
import Decern.LedgerRecord
import Decern.LedgerFiles
import Decern.Succession
import Decern.LedgerVerify
import Decern.LedgerAnchor
import Decern.LedgerOpen
import Decern.LedgerWriter
import Decern.LedgerRuns
import Decern.LedgerRecovery
import Decern.SegmentManifest
import Decern.SegmentLedger
import Decern.SegmentLayout
import Decern.SegmentRuns
import Decern.RecordSigner
import Decern.ShardedLedger
import Decern.ShardedPaths
import Decern.ShardedReturn
import Decern.AuthorityGraph
import Decern.HeadStoreCrash
import Decern.HeadStoreMemory
import Decern.MissionAgreement
import Decern.MissionBinding
import Decern.MissionHost
import Decern.MissionHostRuns
import Decern.BundleText
import Decern.BundleVerifier
import Decern.EvidenceAccepted
import Decern.AuthorityKernel
import Decern.AuthorityPolicies
import Decern.BoundedDelegation
import Decern.ContextPruning
import Decern.DecideNoninterference
import Decern.DecideSearch
import Decern.SearchAgreement
import Decern.AgentBadge
import Decern.GraphGrowth
import Decern.MintingChains
import Decern.MissionApproval
import Decern.MissionServer
import Decern.MissionServerRuns
import Decern.ShardListing
import Decern.ShardListingExact
import Decern.BreadthFirst
import Decern.ContextRemoval
import Decern.ContextUnion
import Decern.JsonFuel
import Decern.ReadWindows
import Decern.RevocationReach
import Decern.SignerSuccession
import Decern.PrefixReads
import Decern.ShardNames
import Decern.BundleArithmetic
import Decern.CommitmentBytes
import Decern.DecimalText
import Decern.DoubleBits
import Decern.HttpSignature
import Decern.NumberLayout
import Decern.SignatureBase
import Decern.CanonicalJson
import Decern.AgentTokens
import Decern.BoundTokens
import Decern.IssuerIsolation
import Decern.ProofSuite
import Decern.SuiteProven
import Decern.PostgresActor
import Decern.PostgresHosts
import Decern.PostgresProgress
import Decern.PostgresRuns
import Decern.PostgresCallers
import Decern.PostgresLedgers
import Decern.BatchEvaluation
import Decern.BatchExecution
import Decern.BatchLaw
import Decern.BatchAdmission
import Decern.BatchShards
import Decern.DecisionAudit
import Decern.FrozenPrefix
import Decern.SinglePrefix
import Decern.AuditProjection
import Decern.RecordedReads
