import Champy.CheckedExecution
import Champy.Primitives
import Champy.SequenceLocks
import Champy.CoinsCache
import Champy.CoinsCacheInvariant
import Champy.CoinsCacheRefinement
import Champy.CoinsCacheFlush
import Champy.CoinsCacheRuns
import Champy.Ledger
import Champy.StructuralStage
import Champy.BlockSpentOutputs
import Champy.BlockSpend
import Champy.BlockSpentOutputsJoin
import Champy.BlockLedger
import Champy.SnapshotSpendState
import Champy.SpendWorkspaceLaws
import Champy.BlockStaging
import Champy.SnapshotSpendLaws
import Champy.OneByOneSpend
import Champy.SegmentSpend
import Champy.SegmentPlan
import Champy.SegmentOverwriteCheck
import Champy.SegmentJoin
import Champy.SegmentValidation
import Champy.BlockConsensusPipeline
import Champy.SegmentSequential
import Champy.CoinSupply
import Champy.BlockSnapshot
import Champy.ByteFormats
import Champy.ProtocolCodec
import Champy.ProtocolRoundTrip
import Champy.CoreSerialization
import Champy.CodecAgreement
import Champy.SortedLists
import Champy.ValidationTransactions
import Champy.ValidationBlocks
import Champy.ContextualStage
import Champy.TransactionChecksAgreement
import Champy.BlockChecksAgreement
import Champy.BlockDownloadTracker
import Champy.ContextualChecksAgreement
import Champy.MultiWord
import Champy.ProofOfWork
import Champy.ValidationHeaders
import Champy.CompactTargets
import Champy.CoinSourceFailures
import Champy.DifficultyAgreement
import Champy.ValidationVerify
import Champy.FinalityCutoff
import Champy.AsmapInterpreter
import Champy.AsmapSafety
import Champy.BlockTree
import Champy.VersionBits
import Champy.VersionBitsCache
import Champy.HeadersSync
import Champy.HeadersSyncSafety
import Champy.ScriptValues
import Champy.SignatureEncodings
import Champy.TracedExecution
import Champy.ScriptInterpreter
import Champy.ScriptVerification
import Champy.SigOpBound
import Champy.SoftForkFlags
import Champy.MerkleMutation
import Champy.PartialMerkleTree
import Champy.PartialMerkleExtraction
import Champy.TxOutCompression
import Champy.TxOutCompressionRoundTrip
import Champy.SnapshotCommit
import Champy.SigopCostAgreement
import Champy.BlockSpendAccounting
import Champy.SegmentReplay
import Champy.LedgerTotals
import Champy.SegmentAccumulator
import Champy.BlockImport
import Champy.BlockImportOrder
import Champy.DeferredScriptChecks
import Champy.DifficultyTransitions
import Champy.MerklePaths
import Champy.MultisigScan
import Champy.ScriptNumbers
import Champy.AcceptedTipCommit
import Champy.CoinsViewWorkspace
import Champy.FeeFractions
import Champy.ReceivedTransactions
import Champy.BestChainStep
import Champy.SkipPointers
import Champy.MedianTimeView
