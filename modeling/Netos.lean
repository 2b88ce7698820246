import Netos.Lib.CString
import Netos.Lib.Cxx
import Netos.Lib.Machine
import Netos.Lib.PackedBits
import Netos.Core.StringUtils
import Netos.Core.Message
import Netos.Core.Config
import Netos.Network.Address
import Netos.Tables.BloomFilter
import Netos.Tables.BloomForms
import Netos.Tables.QueryTable
import Netos.Tables.ContentBfFallback
import Netos.Node.DataPipeline
import Netos.Node.RequestPipeline
import Netos.Node.DuplicateSuppression
import Netos.Network.UdpNetwork
import Netos.Tables.QueryBfAggregator
import Netos.Cache.RedisClient
import Netos.Cache.SharedSession
import Netos.Tables.QueryBfLedger
import Netos.System.FallbackRace
import Netos.Tables.ContentBfTable
import Netos.Tables.QueryBfLimiter
import Netos.Tables.SyncTable
import Netos.Network.UdpTransport
import Netos.Node.Node
import Netos.System.Network
import Netos.System.Provenance
import Netos.Lib.Flood
import Netos.System.Flooding
import Netos.Node.OwnRequests
import Netos.System.Answers
import Netos.Node.NodeRun
import Netos.Node.BloomDatagrams
import Netos.Lib.Incremental
import Netos.Lib.Resp
import Netos.Cache.RespSession
import Netos.Node.RejectedInput
import Netos.Tables.QueryBfRuns
import Netos.Node.QueryAnswers
import Netos.Node.LocalViews
import Netos.Node.ForwardQueue
import Netos.Node.ForwardRefinement
import Netos.Node.ForwardConservation
import Netos.Tables.QueryBfBounds
import Netos.Node.BatchIds
import Netos.Lib.FixedWindow
import Netos.Tables.QueryBfLimiterRuns
import Netos.Tables.FallbackDeadlines
import Netos.Tables.NeighborSelection
import Netos.Lib.Recency
import Netos.Node.RequestIds
import Netos.Tables.SyncTableLru
import Netos.Core.LoadConfig
import Netos.Node.TopologyReload
import Netos.Lib.Utf8
import Netos.Scripts.GenerateTopology
import Netos.Scripts.TopologyExport
import Netos.Tables.QueryTableAccounts
import Netos.Core.NeighborList
import Netos.Node.OutsideNumbers
import Netos.Core.EnvFile
import Netos.Node.KeyLedger
import Netos.Node.BoundedWaiting
import Netos.System.Pools
import Netos.System.Vocabulary
import Netos.System.Summaries
import Netos.System.RequestOnce
import Netos.System.Holdings
import Netos.System.Pulls
import Netos.System.Spread
import Netos.System.AtRest
import Netos.Node.ForwardDrain
import Netos.System.QueuedNetwork
