import OptimumGateway.Enrollment.Enroll
import OptimumGateway.MessageRouter.AccelerateSlots
import OptimumGateway.MumP2P.Admission
import OptimumGateway.MumP2P.Construction
import OptimumGateway.MumP2P.ReadmitRace
import OptimumGateway.Enrollment.SingleCredential
import OptimumGateway.GossipsubGateway.MeshHandshake
import OptimumGateway.GossipsubGateway.SubscribeTopics
import OptimumGateway.Protocol.Attestation
import OptimumGateway.Protocol.GossipCodec
import OptimumGateway.Foundation.GoMap
import OptimumGateway.GossipsubGateway.NoEcho
import OptimumGateway.MessageRouter.AccelerateHistory
import OptimumGateway.Aggregator.SlotGate
import OptimumGateway.Aggregator.HostilePayloads
import OptimumGateway.Stream.ConnLimiter
import OptimumGateway.Stream.NoSilentGap
import OptimumGateway.Stream.TokenRefresh
import OptimumGateway.GossipsubGateway.StreamForks
import OptimumGateway.GossipsubGateway.MeshToCL
import OptimumGateway.GossipsubGateway.RefreshTopics
import OptimumGateway.Protocol.RPC
import OptimumGateway.Foundation.ByteReader
import OptimumGateway.Protocol.MessageID
import OptimumGateway.Protocol.ReqRespCodec
import OptimumGateway.GossipsubGateway.SubscriptionBooks
import OptimumGateway.GossipsubGateway.AggregatedOrder
import OptimumGateway.Auth.MintRace
import OptimumGateway.Enrollment.Reuse
import OptimumGateway.GossipsubGateway.LateCleanup
import OptimumGateway.Bootstrapper.BlockTelemetry
import OptimumGateway.GossipsubGateway.CLPeers
import OptimumGateway.Telemetry.TopicTracer
import OptimumGateway.Bootstrapper.BlockEvents
import OptimumGateway.Auth.NilBody
import OptimumGateway.MumP2P.TurnedAway
import OptimumGateway.MumP2P.TopicsKeeper
import OptimumGateway.Aggregator.PackedTopics
import OptimumGateway.GossipsubGateway.AdvertisedTopics
import OptimumGateway.MumP2P.Bootstrap
import OptimumGateway.Bootstrapper.HopTelemetry
import OptimumGateway.MessageRouter.AttestationFilter
import OptimumGateway.GossipsubGateway.ApprovedAttestations
import OptimumGateway.Bootstrapper.SlotTime
import OptimumGateway.MessageRouter.ValidatorChunks
import OptimumGateway.Auth.TokenReplay
import OptimumGateway.Telemetry.LokiShutdown
import OptimumGateway.Telemetry.BuildInfo
import OptimumGateway.Enrollment.CanonicalJWK
import OptimumGateway.Auth.RefreshLoop
import OptimumGateway.Stream.DropWindow
import OptimumGateway.Aggregator.Provenance
