import TokenStation.Eventstream.Reencoding
import TokenStation.Eventstream.Bursts
import TokenStation.Eventstream.JsonLexemes
import TokenStation.Conformance.Spelling
import TokenStation.Responses.Carrier
import TokenStation.Responses.Lifecycle
import TokenStation.Responses.SummaryParts
import TokenStation.Responses.SnapshotCarrier
import TokenStation.Responses.OneTurn
import TokenStation.Sse.MarkedFrames
import TokenStation.Sse.SplitterAgreement
import TokenStation.Anthropic.ThinkingBlocks
import TokenStation.Anthropic.Bracketing
import TokenStation.Chat.Batching
import TokenStation.Provider.ChunkIndependence
import TokenStation.Provider.StreamCloses
import TokenStation.Provider.TerminalGrammar
import TokenStation.Provider.GeminiBuffered
import TokenStation.Provider.ChatAgreement
import TokenStation.Provider.MessagesReadBack
import TokenStation.Provider.UsageSoundness
import TokenStation.Tasks.AtMostOnce
import TokenStation.Contracts.PathSafety
import TokenStation.Manifest.CountTokens
import TokenStation.Manifest.FixedDomain
import TokenStation.Manifest.EndpointRecovery
import TokenStation.Packages.Families
import TokenStation.Credentials.Lifetimes
import TokenStation.Credentials.ValueChannel
import TokenStation.Eventstream.ComponentFrames
import TokenStation.Eventstream.ConverseEnding
import TokenStation.Speech.ClientChoice
import TokenStation.Requests.ForcedTool
import TokenStation.Tasks.AcceptedTasks
import TokenStation.Media.Elision
import TokenStation.Media.Egress
import TokenStation.Media.DataUrls
import TokenStation.Provider.UsageFolding
import TokenStation.Chat.Response
import TokenStation.Chat.FrameGrammar
import TokenStation.Provider.StreamedOnce
import TokenStation.Signing.Timestamps
import TokenStation.Speech.Subtitles
import TokenStation.Images.ExactAmounts
import TokenStation.LocalWrite.Reports
import TokenStation.Media.Expansion
import TokenStation.Media.RenderTemplates
