import ArtdaqMu2e.ArtModules.ContainerRoundTrip
import ArtdaqMu2e.Data.EventHeader
import ArtdaqMu2e.Generators.Playback
import ArtdaqMu2e.Generators.Chain
import ArtdaqMu2e.Generators.ChainRequests
import ArtdaqMu2e.Generators.CRVReceiver
import ArtdaqMu2e.Generators.CRVDedup
import ArtdaqMu2e.Generators.CRVDelivery
import ArtdaqMu2e.Generators.CRVRestart
import ArtdaqMu2e.Generators.Mu2eSubEventReceiver
import ArtdaqMu2e.Generators.SubEventPackaging
import ArtdaqMu2e.Generators.SubRunRollover
import ArtdaqMu2e.Generators.STMReceiver
import ArtdaqMu2e.Generators.STMReadOut
import ArtdaqMu2e.Generators.OutOfOrder
import ArtdaqMu2e.Generators.CfoRequests
import ArtdaqMu2e.Generators.SubEventBatching
import ArtdaqMu2e.Generators.CRVNoRequestMode
import ArtdaqMu2e.Generators.CRVScan
import ArtdaqMu2e.Generators.SimFile
import ArtdaqMu2e.ArtModules.DTCEventVerifier
import ArtdaqMu2e.ArtModules.Mu2eRequestSender
import ArtdaqMu2e.ArtModules.TimeTracker
import ArtdaqMu2e.ArtModules.TimingRows
import ArtdaqMu2e.Lib.Query
import ArtdaqMu2e.ArtModules.FullEventTime
import ArtdaqMu2e.ArtModules.JobSummary
import ArtdaqMu2e.ArtModules.PayloadWalk
import ArtdaqMu2e.ArtModules.SlidingWindow
import ArtdaqMu2e.ArtModules.EventIDHandler
import ArtdaqMu2e.Generators.TimestampLaws
import ArtdaqMu2e.TransferPlugins.SingleNodeTransfer
import ArtdaqMu2e.Generators.STMSinks
import ArtdaqMu2e.Generators.STMReplay
import ArtdaqMu2e.Generators.STMRuns
import ArtdaqMu2e.Generators.ReceiverRestart
import ArtdaqMu2e.Generators.RestartRequests
import ArtdaqMu2e.Generators.SubEventTimestamps
import ArtdaqMu2e.System.RequestProtocol
import ArtdaqMu2e.System.RequestBound
import ArtdaqMu2e.Data.RawFile
import ArtdaqMu2e.Generators.RawOutput
import ArtdaqMu2e.ArtModules.DTCEventDump
import ArtdaqMu2e.System.RawRoundTrip
import ArtdaqMu2e.System.RawDumpExact
import ArtdaqMu2e.System.RequestedData
