import OpsIndexer.Db.BalanceRuns
import OpsIndexer.Db.BlockUndo
import OpsIndexer.Db.LedgerRuns
import OpsIndexer.Db.PruneFloor
import OpsIndexer.Grpcserver.AddressFeeds
import OpsIndexer.Grpcserver.MethodIds
import OpsIndexer.Grpcserver.OffsetPages
import OpsIndexer.Grpcserver.RetainedReads
import OpsIndexer.Indexer.BalanceFlowRuns
import OpsIndexer.Indexer.BytecodeHash
import OpsIndexer.Indexer.CatchupCoverage
import OpsIndexer.Indexer.Confirmations
import OpsIndexer.Indexer.DailyThrottle
import OpsIndexer.Indexer.HeadRefinement
import OpsIndexer.Indexer.NFTRuns
import OpsIndexer.Indexer.PoolFlow
import OpsIndexer.Indexer.SpanRecount
import OpsIndexer.Indexer.StandardLinks
import OpsIndexer.Indexer.StartCheck
import OpsIndexer.Indexer.StringResults
import OpsIndexer.Indexer.TracedCreations
import OpsIndexer.Nodelookup.Lookup
import OpsIndexer.Opdeposits.FetcherRuns
import OpsIndexer.Rpc.BatchCall
import OpsIndexer.Indexer.ReceiptForks
