import Mirage.Analysis.ActivationPointer
import Mirage.Analysis.ByteBoundedLru
import Mirage.Analysis.CacheModels
import Mirage.Analysis.CapsuleBudget
import Mirage.Analysis.CapsuleIdentity
import Mirage.Analysis.ChainSelection
import Mirage.Analysis.ChangeReplay
import Mirage.Analysis.CheckpointDocument
import Mirage.Analysis.CheckpointRoundTrip
import Mirage.Analysis.CleanupJournal
import Mirage.Analysis.DiskBooks
import Mirage.Analysis.ExtentCommits
import Mirage.Analysis.ExtentHeads
import Mirage.Analysis.ExtentMapRefinement
import Mirage.Analysis.ExtentRoundTrip
import Mirage.Analysis.FetchPoolBounds
import Mirage.Analysis.FetchWindows
import Mirage.Analysis.FlightWaiters
import Mirage.Analysis.Frames
import Mirage.Analysis.JournalSequences
import Mirage.Analysis.LearnedHistory
import Mirage.Analysis.LeaseGateExclusion
import Mirage.Analysis.LeasePlan
import Mirage.Analysis.LeasePromises
import Mirage.Analysis.LedgerConsistency
import Mirage.Analysis.Names
import Mirage.Analysis.NamespaceDocuments
import Mirage.Analysis.NamespaceInvariant
import Mirage.Analysis.NamespaceSteps
import Mirage.Analysis.OperationLifecycle
import Mirage.Analysis.OwnershipTerms
import Mirage.Analysis.PackCodec
import Mirage.Analysis.PackRoundTrip
import Mirage.Analysis.PageSplits
import Mirage.Analysis.PinnedDescendants
import Mirage.Analysis.PublishBatches
import Mirage.Analysis.QueueOrder
import Mirage.Analysis.QuiesceReaders
import Mirage.Analysis.RangePlans
import Mirage.Analysis.Reclamation
import Mirage.Analysis.RenameExact
import Mirage.Analysis.RepositoryRecovery
import Mirage.Analysis.ReservationEnvelope
import Mirage.Analysis.SectorProofs
import Mirage.Analysis.SessionLeases
import Mirage.Analysis.ShareModes
import Mirage.Analysis.SophonChunks
import Mirage.Analysis.SophonReads
import Mirage.Analysis.TokenWindows
import Mirage.Analysis.UploadPieces
import Mirage.Analysis.VersionTransfer
