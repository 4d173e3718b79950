import WebLinked.Base.Machine
import WebLinked.Base.Pool
import WebLinked.Core.SourceTable
import WebLinked.Core.HandOver
import WebLinked.Outputs.FfmpegProcess
import WebLinked.Base.Int64
import WebLinked.Base.Int32
import WebLinked.Base.CountedLoop
import WebLinked.Base.Buffer
import WebLinked.Core.BlitFrame
import WebLinked.Core.DrawnPixels
import WebLinked.Core.BlitCopies
import WebLinked.Core.BlitLaw
import WebLinked.Core.RecycleRing
import WebLinked.Outputs.DeckLinkPlayout
import WebLinked.Outputs.DeckLinkOutput
import WebLinked.Outputs.FrameOwnership
import WebLinked.Base.FloorCounters
import WebLinked.Outputs.SoundFeed
import WebLinked.Outputs.SoundLock
import WebLinked.Core.FrameClock
import WebLinked.Engine.ClockPause
import WebLinked.Outputs.StreamOutput
import WebLinked.Outputs.StreamThreads
import WebLinked.Outputs.StreamStop
import WebLinked.Outputs.StreamLifecycle
import WebLinked.Outputs.StreamSync
import WebLinked.Browser.BrowserSource
import WebLinked.Browser.Convergence
import WebLinked.Engine.StreamEntry
import WebLinked.Engine.OutputList
import WebLinked.Engine.RasterAgreement
import WebLinked.Core.PixelConvert
import WebLinked.Core.RotatedBlit
import WebLinked.Outputs.KmsOutput
import WebLinked.Engine.Repeats
import WebLinked.Base.Double
import WebLinked.Base.NumberText
import WebLinked.Core.FormatText
import WebLinked.Core.FormatRoundTrip
import WebLinked.Core.Json
import WebLinked.Control.ControlApi
import WebLinked.Control.Accepted
import WebLinked.Core.SourceNames
import WebLinked.Engine.SourceManager
import WebLinked.Engine.SourceRemovals
import WebLinked.Engine.SourceOrder
import WebLinked.Core.JsonText
import WebLinked.Base.Numeral
import WebLinked.Core.JsonRoundTrip
import WebLinked.Core.JsonDocument
import WebLinked.Core.SettingsRoundTrip
import WebLinked.Engine.OutputRequests
import WebLinked.Engine.RefusedChanges
import WebLinked.Base.Keyed
import WebLinked.Engine.OutputNames
import WebLinked.Engine.Configuration
import WebLinked.Engine.ApplyConfiguration
import WebLinked.Engine.SavedOutputs
import WebLinked.Engine.Uninterrupted
import WebLinked.Core.RecallLaws
import WebLinked.Core.ShowRoundTrip
import WebLinked.Engine.SlotCalls
import WebLinked.Engine.Generations
import WebLinked.Engine.GateSteps
import WebLinked.Engine.PlannedObject
import WebLinked.Engine.Conversions
import WebLinked.Engine.SharedConversions
import WebLinked.Engine.SlotStatus
import WebLinked.Core.StreamArgs
import WebLinked.Engine.StateReport
import WebLinked.Engine.WithoutUrls
import WebLinked.Engine.KeyedHistories
import WebLinked.Control.HttpServer
import WebLinked.Control.HttpFraming
import WebLinked.Control.LargeBodies
import WebLinked.Control.ControlUrl
import WebLinked.Control.OscServer
import WebLinked.Control.OscMessages
import WebLinked.Control.OscReadings
import WebLinked.Control.OscPackets
import WebLinked.Core.PlayoutSchedule
import WebLinked.Outputs.ScreenFrameRing
import WebLinked.Base.Circular
import WebLinked.Core.AudioFifo
import WebLinked.Core.AudioQueue
import WebLinked.Engine.AudioTick
import WebLinked.Core.AudioRoute
import WebLinked.Core.AudioRing
import WebLinked.Core.AudioRingRuns
import WebLinked.Core.AudioPriming
import WebLinked.Core.AudioRingReads
import WebLinked.Outputs.ClientReset
import WebLinked.Outputs.AudioDevice
import WebLinked.Outputs.DeviceDrift
import WebLinked.Core.ClockTicks
import WebLinked.Engine.AudioShares
import WebLinked.Core.SamplePositions
import WebLinked.Core.RouteOptions
import WebLinked.Core.RoutedStreams
import WebLinked.Core.UsableFormats
import WebLinked.Base.Utf8
import WebLinked.Core.InstanceNames
import WebLinked.Engine.RedactedUrls
import WebLinked.Control.QueryParameters
import WebLinked.Core.FormatGrammar
import WebLinked.Core.JsonGrammar
import WebLinked.Core.JsonReader
import WebLinked.Core.JsonAcceptance
import WebLinked.Core.JsonStrings
import WebLinked.Core.JsonUnicode
import WebLinked.Control.ErrorBodies
import WebLinked.Engine.ControlQueue
import WebLinked.Control.OscAddresses
import WebLinked.Core.UyvyLaw
import WebLinked.Outputs.PreviewOutput
import WebLinked.Diag.Redact
import WebLinked.App.CommandLine
import WebLinked.Core.FramePool
import WebLinked.Core.FramePlaces
import WebLinked.Browser.Paints
import WebLinked.Browser.PaintedFrames
import WebLinked.Control.Connections
import WebLinked.Control.ServerStop
import WebLinked.Core.SettingsFile
import WebLinked.App.Arguments
import WebLinked.Plugin.Request
import WebLinked.Plugin.Helper
import WebLinked.Plugin.Instances
import WebLinked.Diag.Log
import WebLinked.Outputs.KmsDevice
