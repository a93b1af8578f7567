import PiWebUi.Lib.JsString
import PiWebUi.Lib.JsNumber
import PiWebUi.NormalizedEvent
import PiWebUi.EventBroker.PayloadBudget
import PiWebUi.EventBroker.Delivery
import PiWebUi.EventBroker.Bounds
import PiWebUi.EventBroker.Gapless
import PiWebUi.EventBroker.JsonSize
import PiWebUi.Lib.Ledger
import PiWebUi.AdmissionProofs
import PiWebUi.AdmissionSnapshot
import PiWebUi.Lib.Hysteresis
import PiWebUi.AdmissionLag
import PiWebUi.AdmissionQuarantine
import PiWebUi.RunReceipts.RunReceiptStore
import PiWebUi.RunReceipts.RunCell
import PiWebUi.RunReceipts.RunReceiptManager
import PiWebUi.RunReceipts.RunEffects
import PiWebUi.RunReceipts.Cessation
import PiWebUi.RunReceipts.RunOrder
import PiWebUi.RunReceipts.Watchdog
import PiWebUi.Lib.JsonRoundTrip
import PiWebUi.Lib.Run
import PiWebUi.Lib.JsText
import PiWebUi.Watch.Manager
import PiWebUi.Watch.Routing
import PiWebUi.Watch.Spans
import PiWebUi.Watch.WakeBudget
import PiWebUi.Watch.Recovery
import PiWebUi.Watch.GenerationsProofs
import PiWebUi.DrainProofs
import PiWebUi.Goal.ContinueOnce
import PiWebUi.Goal.ContinueNote
import PiWebUi.Goal.GoalStall
import PiWebUi.Goal.ClaudeNudger
import PiWebUi.Goal.NudgeBudget
import PiWebUi.Lib.InFlight
import PiWebUi.Goal.BootSweep
import PiWebUi.Goal.AntigravityTurns
import PiWebUi.Lib.JsMap
import PiWebUi.Lib.Check
import PiWebUi.RunReceipts.FinalText
import PiWebUi.Completion.Schema
import PiWebUi.Completion.SchemaProofs
import PiWebUi.Completion.Parser
import PiWebUi.Completion.LastBlock
import PiWebUi.Completion.SessionTap
import PiWebUi.RunReceipts.StoredCompletion
import PiWebUi.RunReceipts.CompletionAccepted
import PiWebUi.Lib.LastWriter
import PiWebUi.Preferences.Convergence
import PiWebUi.Preferences.Exclusive
import PiWebUi.Preferences.Lossless
import PiWebUi.Preferences.Optimistic
import PiWebUi.Preferences.PrefsFile
import PiWebUi.Lib.FirstFree
import PiWebUi.Transcript.Chunks
import PiWebUi.Transcript.ClaudeReplay
import PiWebUi.Transcript.Replay
import PiWebUi.Transcript.Live
import PiWebUi.Talker.Conservation
import PiWebUi.Talker.OneRelease
import PiWebUi.Registry.Indexes
import PiWebUi.Registry.Saves
import PiWebUi.CommandCode.ProcessRunner
import PiWebUi.CommandCode.Launches
import PiWebUi.Lib.Utf8
import PiWebUi.Lib.JsonLine
import PiWebUi.CommandCode.EventJournal
import PiWebUi.CommandCode.JournalReplay
import PiWebUi.Pi.SessionPool
import PiWebUi.Pi.NoOrphans
import PiWebUi.Workers.WorkerPool
import PiWebUi.Workers.PoolSafety
import PiWebUi.CommandCode.Service
import PiWebUi.CommandCode.TurnMarkers
import PiWebUi.CommandCode.OneTurn
import PiWebUi.Speech.Arbiter
import PiWebUi.Speech.Ladder
import PiWebUi.Client.WebSocketClient
import PiWebUi.Client.Outbox
import PiWebUi.Client.JSONRPCClient
import PiWebUi.Client.Requests
import PiWebUi.Client.Reconnects
import PiWebUi.Lib.WriteChain
import PiWebUi.Notifications.NotificationManager
import PiWebUi.Notifications.Announced
import PiWebUi.Notifications.NotificationStore
import PiWebUi.Notifications.Retained
import PiWebUi.Notifications.OptInsKept
import PiWebUi.Voice.GeminiLiveBridge
import PiWebUi.Voice.OneProviderSession
import PiWebUi.Voice.ActivityMarkers
import PiWebUi.Voice.AnsweredOnce
import PiWebUi.Voice.VoiceSession
import PiWebUi.Voice.Lanes
import PiWebUi.Voice.Transcripts
import PiWebUi.Voice.LaneLifecycle
import PiWebUi.Lib.Interleave
import PiWebUi.Lib.RegExp
import PiWebUi.Talker.RelayNormalise
import PiWebUi.Talker.RelayConserved
import PiWebUi.Retention.PinExpiryManager
import PiWebUi.Retention.Claims
import PiWebUi.Retention.Correspondence
import PiWebUi.Talker.Restatement
import PiWebUi.Transcript.SubagentSummary
import PiWebUi.Transcript.PiHistory
import PiWebUi.Transcript.PiHistoryCalls
import PiWebUi.WebSocket.OutboundGovernor
import PiWebUi.CommandCode.NdjsonParser
import PiWebUi.CommandCode.ParserChunks
import PiWebUi.CommandCode.Snapshots
import PiWebUi.Pi.BudgetGuard
import PiWebUi.Pi.BudgetOnce
import PiWebUi.Pi.RunBudgets
import PiWebUi.Transcript.StreamTransport
import PiWebUi.Transcript.StreamedOnce
import PiWebUi.Lib.SafeInteger
import PiWebUi.CommandCode.EventAdapter
import PiWebUi.CommandCode.ParserCounts
import PiWebUi.CommandCode.SessionStore
import PiWebUi.CommandCode.Bookkeeping
import PiWebUi.VoiceLive.CaptureDsp
import PiWebUi.VoiceLive.CaptureBlocks
import PiWebUi.Lib.Eventually
import PiWebUi.VoiceLive.PlaybackSession
import PiWebUi.VoiceLive.PlaybackGapless
import PiWebUi.Lib.DepthFirst
import PiWebUi.Lib.Levels
import PiWebUi.Plan.PlanParser
import PiWebUi.Plan.References
import PiWebUi.Plan.Schedule
import PiWebUi.Claude.SteerStream
