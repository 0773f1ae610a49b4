import Waxseal.Domain.Verify
import Waxseal.Contracts.AnchoringLiveness
import Waxseal.Adapters.CrashConsistency
import Waxseal.Log.Accounting
import Waxseal.Domain.Sealing
import Waxseal.Base.JsonRecords
import Waxseal.Domain.Membership
import Waxseal.Domain.Bond
import Waxseal.Contracts.Calldata
import Waxseal.Contracts.SigningDigest
import Waxseal.Log.Checkpoints
import Waxseal.Adapters.EvmAnchor
import Waxseal.Base.ForeignCode
import Waxseal.Contracts.BondedCheckpoints
import Waxseal.Domain.Handoff
import Waxseal.Domain.Segments
import Waxseal.Adapters.TrailFiles
import Waxseal.Log.GenuineTrail
import Waxseal.Sources.SegmentFiles
import Waxseal.Sources.Rotation
import Waxseal.Cli.Segments
import Waxseal.Sources.RotationSound
import Waxseal.Sources.SegmentReports
import Waxseal.Sources.OneTrail
import Waxseal.Sources.HonestSegments
import Waxseal.Sources.RotationCrash
import Waxseal.Base.SurrogatePairs
import Waxseal.Server.EnvelopeParsing
import Waxseal.Server.ChainStore
import Waxseal.Server.ChainStoreSound
import Waxseal.Domain.IncrementalMerkle
import Waxseal.Log.LiveAnchoring
import Waxseal.Base.JsonIndent
import Waxseal.Domain.Pinning
import Waxseal.Domain.Descriptor
import Waxseal.Contracts.FingerprintRegistry
import Waxseal.Domain.CrossCheck
import Waxseal.Adapters.RegistryReader
import Waxseal.Adapters.S3Backend
import Waxseal.Domain.Witnessing
import Waxseal.Cli.Pin
import Waxseal.Cli.PinRuns
import Waxseal.Cli.PinRaces
import Waxseal.Adapters.Attest
import Waxseal.Domain.Aggregates
import Waxseal.Log.HonestSeals
import Waxseal.Server.Receipts
import Waxseal.Server.Operators
import Waxseal.Server.Authorizing
import Waxseal.Server.DomainSeparation
import Waxseal.Server.Paging
import Waxseal.Server.PagingSound
import Waxseal.Domain.Liveness
import Waxseal.Adapters.EvmReader
import Waxseal.Server.ReceiptChecks
import Waxseal.Server.ReceiptLog
import Waxseal.Server.Acknowledging
import Waxseal.Adapters.Redactors
import Waxseal.Sources.OpenClaw
import Waxseal.Sources.OpenClawRuns
import Waxseal.Sources.OpenClawHistory
import Waxseal.Sources.OpenClawOrder
import Waxseal.Integrations.StdinHook
import Waxseal.Integrations.HookContract
import Waxseal.Domain.Evidence
import Waxseal.Domain.Report
import Waxseal.Cli.Report
import Waxseal.Cli.Agreement
import Waxseal.Log.Attestation
import Waxseal.Log.SealingGaps
import Waxseal.Adapters.Rfc3161Verify
import Waxseal.Adapters.IntegrityScan
import Waxseal.Adapters.LastLine
import Waxseal.Adapters.S3HeadHint
import Waxseal.Domain.Export
import Waxseal.Sources.SegmentOpening
import Waxseal.Server.EnvelopeLanguage
import Waxseal.Adapters.AnchorSidecar
import Waxseal.Adapters.AnchorSinks
import Waxseal.Adapters.AnchorHistory
import Waxseal.Domain.IsoTime
import Waxseal.Domain.Tickets
import Waxseal.Domain.PinText
import Waxseal.Domain.Receipts
import Waxseal.Domain.Bundles
import Waxseal.Server.WitnessStore
import Waxseal.Server.RemoteClient
import Waxseal.Server.CachedReads
import Waxseal.Integrations.SinkContract
import Waxseal.Domain.Cadence
import Waxseal.Domain.TimestampRequests
import Waxseal.Adapters.EvmArguments
import Waxseal.Sources.SegmentNaming
import Waxseal.Server.OperatorTables
import Waxseal.Server.OperatorStores
import Waxseal.Base.LockedAppends
import Waxseal.Base.JsonLineDigits
import Waxseal.Adapters.AnchorFiling
import Waxseal.Base.Regex
import Waxseal.Base.Substitution
import Waxseal.Adapters.SecretPatterns
import Waxseal.Adapters.RegexRedactor
import Waxseal.Base.SymbolicKeys
import Waxseal.Domain.TimestampTokens
import Waxseal.Log.AnchoredAggregates
import Waxseal.Log.SealedHistory
import Waxseal.Log.ForwardSecurity
import Waxseal.Cli.AnchorCheck
import Waxseal.Base.LatestWins
import Waxseal.Log.EvidenceTrail
import Waxseal.Adapters.SqlBackends
import Waxseal.Base.Delimiters
import Waxseal.Server.BodyLimit
import Waxseal.Server.ImportStore
import Waxseal.Adapters.SegmentArchive
