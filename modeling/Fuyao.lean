import Fuyao.Concurrency.Prog
import Fuyao.Concurrency.Proofs.ProgProofs
import Fuyao.Gather.Gather
import Fuyao.Gather.Proofs.GatherProofs
import Fuyao.Custody.Custody
import Fuyao.Custody.Proofs.CustodyProofs
import Fuyao.Cpp.Strings
import Fuyao.Cpp.Proofs.StringsProofs
import Fuyao.Base64.Base64
import Fuyao.Base64.Proofs.Base64Proofs
import Fuyao.MediaService.Types
import Fuyao.MediaService.Memcached
import Fuyao.MediaService.Utils
import Fuyao.MediaService.Proofs.UtilsProofs
import Fuyao.MediaService.World
import Fuyao.MediaService.ComposeReviewHandler
import Fuyao.MediaService.MovieIdHandler
import Fuyao.MediaService.ComposeReview
import Fuyao.MediaService.Composition
import Fuyao.MediaService.Proofs.CompositionProofs
import Fuyao.MediaService.Proofs.WorldProofs
import Fuyao.MediaService.Proofs.FootprintProofs
import Fuyao.MediaService.Session
import Fuyao.MediaService.Proofs.SessionProofs
import Fuyao.MediaService.Proofs.UploadProofs
import Fuyao.MediaService.Callers
import Fuyao.MediaService.Proofs.CallersProofs
import Fuyao.MediaService.Proofs.ComposeProofs
import Fuyao.MediaService.Proofs.RetryProofs
import Fuyao.MediaService.Provenance
import Fuyao.MediaService.Proofs.ProvenanceProofs
import Fuyao.MediaService.Proofs.ExpiryProofs
import Fuyao.MediaService.Pipeline
import Fuyao.MediaService.Proofs.PipelineProofs
import Fuyao.MediaService.Proofs.StoreProofs
import Fuyao.MediaService.Proofs.IsolationProofs
import Fuyao.MediaService.MovieCache
import Fuyao.MediaService.Proofs.MovieCacheProofs
import Fuyao.MediaService.Registration
import Fuyao.MediaService.Proofs.RegistrationProofs
import Fuyao.MediaService.ClientPool
import Fuyao.MediaService.Proofs.ClientPoolProofs
import Fuyao.Pheromone.PheromoneClient
import Fuyao.Pheromone.Proofs.PheromoneClientProofs
import Fuyao.MediaService.RatingHandler
import Fuyao.MediaService.Proofs.RatingProofs
import Fuyao.Cpp.Floats
import Fuyao.Cpp.Proofs.FloatsProofs
import Fuyao.Faas.Faas
import Fuyao.Faas.Proofs.FaasProofs
import Fuyao.Utils.PayloadSize
import Fuyao.FunctionChain.FunctionChain
import Fuyao.FunctionChain.Proofs.FunctionChainProofs
import Fuyao.Latency.Latency
import Fuyao.Finra.Validators
import Fuyao.Finra.MarginBalance
import Fuyao.Finra.Proofs.MarginBalanceProofs
import Fuyao.Benchmarks.Proofs.FailureProofs
import Fuyao.Concurrency.ThreadPool
import Fuyao.Concurrency.Proofs.ThreadPoolProofs
import Fuyao.FanOut.FanOut
import Fuyao.FanOut.Phases
import Fuyao.FanOut.Proofs.PhasesProofs
import Fuyao.FanOut.Proofs.FanOutProofs
import Fuyao.FanOut.Proofs.JoinProofs
import Fuyao.Concurrency.Stream
import Fuyao.Concurrency.Proofs.ContractProofs
import Fuyao.Concurrency.Proofs.StreamProofs
import Fuyao.MediaService.Entries
import Fuyao.MediaService.Proofs.EntriesProofs
import Fuyao.MediaService.Clients
import Fuyao.MediaService.Proofs.ClientsProofs
import Fuyao.MediaService.Proofs.CopiesProofs
import Fuyao.MediaService.Proofs.ReleaseProofs
import Fuyao.Rdma.Handshake
import Fuyao.Rdma.Proofs.HandshakeProofs
import Fuyao.Utils.Proofs.PayloadSizeProofs
import Fuyao.MediaService.Proofs.UniqueIdProofs
import Fuyao.Finra.TradeFormat
import Fuyao.Finra.Proofs.TradeFormatProofs
import Fuyao.Http.Socket
import Fuyao.Http.HttpParser
import Fuyao.Http.Proofs.SocketProofs
import Fuyao.Http.Proofs.HttpParserProofs
import Fuyao.Latency.Gateway
import Fuyao.Latency.Proofs.GatewayProofs
import Fuyao.RoundTrip.RoundTrip
import Fuyao.RoundTrip.Proofs.RoundTripProofs
import Fuyao.MediaService.RpcTrace
import Fuyao.MediaService.Proofs.RpcTraceProofs
import Fuyao.MediaService.ClientIds
import Fuyao.MediaService.Proofs.ClientIdsProofs
import Fuyao.Merge.Merge
import Fuyao.Merge.Proofs.MergeProofs
import Fuyao.Cpp.Containers
import Fuyao.Cpp.Proofs.ContainersProofs
import Fuyao.Anna.Lattices
import Fuyao.Anna.Proofs.LatticesProofs
import Fuyao.Anna.Proofs.RegistersProofs
import Fuyao.Batching.Batching
import Fuyao.Batching.Proofs.BatchingProofs
import Fuyao.Pheromone.BucketKey
import Fuyao.Pheromone.Triggers
import Fuyao.Pheromone.Proofs.TriggersProofs
import Fuyao.Pheromone.Proofs.RoundsProofs
import Fuyao.Pheromone.Proofs.BucketKeyProofs
import Fuyao.Pheromone.Proofs.RerunProofs
import Fuyao.Protobuf.Message
import Fuyao.Protobuf.Proofs.MessageProofs
import Fuyao.Protobuf.Wire
import Fuyao.Protobuf.Proofs.WireProofs
import Fuyao.Anna.Serialization
import Fuyao.Anna.Proofs.SerializationProofs
import Fuyao.Pheromone.Primitives
import Fuyao.Pheromone.Proofs.PrimitivesProofs
import Fuyao.Ledger.Ledger
import Fuyao.Ledger.Proofs.LedgerProofs
import Fuyao.Anna.KvsClient
import Fuyao.Anna.Proofs.KvsClientProofs
import Fuyao.Anna.Proofs.RequestsProofs
import Fuyao.Anna.Proofs.TimeoutsProofs
