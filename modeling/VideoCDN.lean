import VideoCDN.Http.Forwarding
import VideoCDN.Http.LengthField
import VideoCDN.Nameserver.LinkSemantics
import VideoCDN.Nameserver.NameBounds
import VideoCDN.Nameserver.NeighborAccess
import VideoCDN.Nameserver.QueueRun
import VideoCDN.Nameserver.RoundRobin
import VideoCDN.Nameserver.Serve
import VideoCDN.Proxy.BitrateChoice
import VideoCDN.Proxy.ChunkRewrite
import VideoCDN.Proxy.Dispatch
import VideoCDN.Proxy.EventLoopRun
import VideoCDN.Proxy.FieldBounds
import VideoCDN.Proxy.ManifestParsing
import VideoCDN.Proxy.ManifestRequest
import VideoCDN.Proxy.NolistUri
import VideoCDN.Proxy.Offsets
import VideoCDN.Proxy.PromptDelivery
import VideoCDN.Proxy.ResponseErrors
import VideoCDN.Proxy.ServerSocket
import VideoCDN.Proxy.SmoothedThroughput
import VideoCDN.Reference.Agreement
import VideoCDN.Reference.DijkstraDicts
import VideoCDN.Reference.LsaSelection
import VideoCDN.Reference.MessageFormat
import VideoCDN.Reference.QuestionCoders
import VideoCDN.Reference.ServerChoice
import VideoCDN.System.GeneratedTopology
import VideoCDN.Proxy.Adaptation
import VideoCDN.Reference.ProxyAgreement
import VideoCDN.Proxy.Relaying
import VideoCDN.System.TwoNameservers
import VideoCDN.Proxy.ChunkLog
import VideoCDN.Reference.AlphaTest
import VideoCDN.System.QueryLog
