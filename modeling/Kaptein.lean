import Kaptein.SubscribeRace
import Kaptein.Query
import Kaptein.WatchLoops
import Kaptein.Store
import Kaptein.Cli
import Kaptein.AuditTrail
import Kaptein.McpAudit
import Kaptein.Auth
import Kaptein.Noninterference
import Kaptein.Fuzzy
import Kaptein.ViewDef
import Kaptein.Tui
import Kaptein.TuiLoop
import Kaptein.Viewport
import Kaptein.Palette
import Kaptein.Refresh
import Kaptein.Forward
import Kaptein.Lib.JsonSchema
import Kaptein.Lib.Serde
import Kaptein.Loader
import Kaptein.Schema
import Kaptein.Guardrails
import Kaptein.CellOrder
import Kaptein.Config
import Kaptein.PlaneRows
import Kaptein.RowIdentity
import Kaptein.InformerRuns
import Kaptein.RedactLine
import Kaptein.LogKeys
import Kaptein.Lib.Regex
import Kaptein.RedactFrame
import Kaptein.FieldPaths
import Kaptein.NumericRules
import Kaptein.ForwardStore
import Kaptein.HalfClose
import Kaptein.Events
import Kaptein.EventMerge
import Kaptein.BlastRadius
import Kaptein.Diagnostics
import Kaptein.Lib.Rewrite
import Kaptein.LinePasses
import Kaptein.LineValues
import Kaptein.JsonLine
import Kaptein.ConditionRules
import Kaptein.Lib.Lcs
import Kaptein.Diff
import Kaptein.DiffScript
import Kaptein.Lib.Slices
import Kaptein.Lib.Tour
import Kaptein.Lib.History
import Kaptein.Hunks
import Kaptein.FuzzyRanks
import Kaptein.VersionGrammar
import Kaptein.KeyEffects
import Kaptein.JumpKeys
import Kaptein.JumpRow
import Kaptein.Extension
import Kaptein.KindCycle
import Kaptein.NavHistory
import Kaptein.BoundedWatch
import Kaptein.Lib.Ring
import Kaptein.WatchRing
import Kaptein.Lib.Lossy
import Kaptein.Exec
import Kaptein.Lib.Int64
import Kaptein.LookBack
import Kaptein.Lib.Json
import Kaptein.Lib.JsonText
import Kaptein.Logs
import Kaptein.AuditLog
import Kaptein.Wire
import Kaptein.Lib.Interleaving
import Kaptein.McpSession
import Kaptein.LiveView
import Kaptein.PrintedDiff
import Kaptein.ExtensionRuns
import Kaptein.Lib.SortFilter
import Kaptein.Startup
import Kaptein.Lib.PrivateCells
import Kaptein.Apply
import Kaptein.EditSession
import Kaptein.Polls
import Kaptein.Lib.ReadModifyWrite
import Kaptein.SharedForwards
import Kaptein.Get
import Kaptein.SecretView
