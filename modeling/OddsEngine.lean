import OddsEngine.Lib.Checked
import OddsEngine.Lib.Cuts
import OddsEngine.Lib.Doubles
import OddsEngine.Lib.LittleEndian
import OddsEngine.Lib.BigEndian
import OddsEngine.Lib.Missing
import OddsEngine.Lib.Register
import OddsEngine.Lib.Scan
import OddsEngine.Lib.Source
import OddsEngine.Lib.Words
import OddsEngine.Lib.Json
import OddsEngine.Lib.Mixing
import OddsEngine.Lib.Frames
import OddsEngine.Lib.Delimited
import OddsEngine.Lib.LogWealth
import OddsEngine.Lib.Reserve
import OddsEngine.Lib.Shares
import OddsEngine.Lib.Powers
import OddsEngine.Lib.Base64
import OddsEngine.Lib.Sha1
import OddsEngine.Lib.RelativeError
import OddsEngine.Lib.Ring
import OddsEngine.Lib.Bisection
import OddsEngine.Lib.Bits
import OddsEngine.Lib.Herfindahl
import OddsEngine.Lib.Newton
import OddsEngine.Lib.Occurrence
import OddsEngine.Lib.Recurrence
import OddsEngine.Lib.Tally
import OddsEngine.Lib.WeightedMean
import OddsEngine.Lib.ErrorSummary
import OddsEngine.Proto.Messages
import OddsEngine.Proto.UdpFraming
import OddsEngine.Sim.FileSink
import OddsEngine.Sim.UdpSink
import OddsEngine.Sim.Bookmaker
import OddsEngine.Sim.Seeding
import OddsEngine.Sim.Generator
import OddsEngine.Sim.Quote
import OddsEngine.Sim.BookHistory
import OddsEngine.Sim.Simulation
import OddsEngine.Sim.FanoutSink
import OddsEngine.Sim.LatentMarket
import OddsEngine.Sim.SideFiles
import OddsEngine.Sim.SimulatorMain
import OddsEngine.Engine.BookTable
import OddsEngine.Engine.TableHistory
import OddsEngine.Engine.Devig
import OddsEngine.Engine.Command
import OddsEngine.Engine.DevigReal
import OddsEngine.Engine.Consensus
import OddsEngine.Engine.Kelly
import OddsEngine.Engine.CommandAtomic
import OddsEngine.Engine.ReplyJson
import OddsEngine.Engine.Market
import OddsEngine.Engine.ReplayHash
import OddsEngine.Engine.Run
import OddsEngine.Engine.Ticks
import OddsEngine.Engine.RejectedRecords
import OddsEngine.Engine.FairPrice
import OddsEngine.Engine.UnusableQuotes
import OddsEngine.Engine.Stakes
import OddsEngine.Engine.CommandLine
import OddsEngine.Engine.SessionReader
import OddsEngine.Engine.UdpSource
import OddsEngine.Engine.LiveFeed
import OddsEngine.Engine.LiveTicks
import OddsEngine.Engine.WsFrame
import OddsEngine.Engine.WsHandshake
import OddsEngine.Engine.WsServer
import OddsEngine.Engine.WsReading
import OddsEngine.Engine.WsRuns
import OddsEngine.Engine.WsChunks
import OddsEngine.Engine.WsRoundTrip
import OddsEngine.Engine.WsFragments
import OddsEngine.Engine.WsBacklog
import OddsEngine.Engine.WsOutput
import OddsEngine.Engine.WsReplies
import OddsEngine.Engine.Dashboard
import OddsEngine.Engine.SlotRecords
import OddsEngine.Engine.SessionFiles
import OddsEngine.Engine.BetLog
import OddsEngine.Engine.Staleness
import OddsEngine.Engine.HashedBytes
import OddsEngine.Engine.UdpHearing
import OddsEngine.Engine.UdpCounters
import OddsEngine.Engine.UdpAnnounces
import OddsEngine.Engine.KellyOptimal
import OddsEngine.Engine.ConsensusMean
import OddsEngine.Engine.ShinRoot
import OddsEngine.Engine.PowerRoot
import OddsEngine.Engine.DevigShares
import OddsEngine.Engine.DevigOrder
import OddsEngine.Engine.PowerBracket
import OddsEngine.Engine.ConsensusOrder
import OddsEngine.Engine.UdpGaps
import OddsEngine.Engine.UdpGrammar
import OddsEngine.Engine.HeaderValue
import OddsEngine.Engine.WsAcceptKey
import OddsEngine.Engine.CommandJson
import OddsEngine.Engine.KellySet
import OddsEngine.Engine.Output
import OddsEngine.Engine.RunTotals
import OddsEngine.Tools.ValidateDevig
import OddsEngine.Tools.OutcomeCount
import OddsEngine.Tools.VerifySession
import OddsEngine.Tools.GeneratedSessions
import OddsEngine.Tools.VerifiedReplay
import OddsEngine.Tools.WsCmd
import OddsEngine.Tools.TruthLookup
import OddsEngine.Tools.FeedCapture
import OddsEngine.Tools.SimulatedFiles
import OddsEngine.Tools.UdpListen
import OddsEngine.Tools.DevigScores
import OddsEngine.Tools.DevigRecovery
import OddsEngine.Analytics.AnalyzeBets
import OddsEngine.Analytics.BetLogChecks
import OddsEngine.Analytics.ClosingOdds
import OddsEngine.Analytics.JumpEpisodes
import OddsEngine.Analytics.BetTotals
import OddsEngine.Analytics.ScoredRuns
