import XdebugFst.Lib.OrderedMap
import XdebugFst.Lib.Queues
import XdebugFst.Lib.Interleaving
import XdebugFst.Lib.History
import XdebugFst.Lib.Json
import XdebugFst.Lib.Throws
import XdebugFst.Lib.Repeats
import XdebugFst.Lib.MaximalRuns
import XdebugFst.Lib.Access
import XdebugFst.Lib.Loop
import XdebugFst.Lib.Text
import XdebugFst.Lib.Runs
import XdebugFst.Lib.Sweep
import XdebugFst.Lib.Trace
import XdebugFst.Lib.Bytes
import XdebugFst.Lib.Grouped
import XdebugFst.Core.LogicValue
import XdebugFst.Waveform.Backend
import XdebugFst.Waveform.PackedSelect
import XdebugFst.Waveform.SelectRefines
import XdebugFst.Waveform.ReadPaths
import XdebugFst.Waveform.FindSignal
import XdebugFst.Waveform.Hierarchy
import XdebugFst.Waveform.Fill
import XdebugFst.Window.Verify
import XdebugFst.Window.Verdict
import XdebugFst.Stream.Packets
import XdebugFst.Stream.Partition
import XdebugFst.Axi.Assemble
import XdebugFst.Axi.Pairing
import XdebugFst.Axi.Scan
import XdebugFst.Axi.Causality
import XdebugFst.Axi.Cursor
import XdebugFst.Axi.Analysis
import XdebugFst.Axi.TieOrder
import XdebugFst.Axi.Outstanding
import XdebugFst.Axi.ChannelStall
import XdebugFst.Axi.StallCycles
import XdebugFst.Apb.Scan
import XdebugFst.Apb.Unknown
import XdebugFst.Apb.Groups
import XdebugFst.Clock.Edges
import XdebugFst.DesignDb.Format
import XdebugFst.DesignDb.Binary
import XdebugFst.DesignDb.Safe
import XdebugFst.DesignDb.Convert
import XdebugFst.DesignDb.Image
import XdebugFst.DesignDb.Layout
import XdebugFst.DesignDb.RoundTrip
import XdebugFst.DesignDb.Lookup
import XdebugFst.DesignDb.Parity
import XdebugFst.Expr.Parse
import XdebugFst.Expr.Eval
import XdebugFst.Expr.Atoms
import XdebugFst.Expr.Select
import XdebugFst.Expr.Monotone
import XdebugFst.Expr.Literal
import XdebugFst.Session.Registry
import XdebugFst.Session.Lifecycle
import XdebugFst.Session.Frontend
import XdebugFst.Session.Touch
import XdebugFst.Session.Record
import XdebugFst.Session.Endpoint
import XdebugFst.Server.Dispatch
import XdebugFst.Server.StdioLoop
import XdebugFst.Trace.Names
import XdebugFst.Trace.Design
import XdebugFst.Trace.Sample
import XdebugFst.Trace.Readers
import XdebugFst.Trace.Drivers
import XdebugFst.Trace.Statements
import XdebugFst.Trace.QueryIndex
import XdebugFst.Trace.XOrigin
import XdebugFst.Trace.XOriginRun
import XdebugFst.Trace.XOriginCausal
import XdebugFst.Trace.XOriginHonest
import XdebugFst.Trace.XOriginStops
import XdebugFst.Trace.SourceText
import XdebugFst.Trace.Projection
import XdebugFst.Trace.EventTime
import XdebugFst.Trace.ActiveChain
import XdebugFst.Trace.ActiveChainTime
import XdebugFst.Stream.Unknown
import XdebugFst.Stream.Classify
import XdebugFst.Expr.Numbers
import XdebugFst.Expr.Render
import XdebugFst.Expr.Precedence
import XdebugFst.Expr.Shape
import XdebugFst.Waveform.Before
import XdebugFst.Stream.FieldFilter
import XdebugFst.Stream.Load
import XdebugFst.Stream.Stalls
import XdebugFst.Stream.Window
import XdebugFst.Stream.Query
import XdebugFst.Stream.Concatenation
import XdebugFst.Core.TreeDigest
import XdebugFst.Lib.Pieces
import XdebugFst.Lib.BlockBuffer
import XdebugFst.Lib.Sha256
import XdebugFst.Session.Removal
import XdebugFst.Clock.Handshake
import XdebugFst.Clock.SampledPulse
import XdebugFst.Lists.Samples
import XdebugFst.Lists.FirstChange
import XdebugFst.Lists.Export
import XdebugFst.Lists.Load
import XdebugFst.Core.Sha256
import XdebugFst.Expr.Normalize
import XdebugFst.Expr.HexDigits
import XdebugFst.Event.Bind
import XdebugFst.Event.FieldValues
import XdebugFst.Lib.Scans
import XdebugFst.Lib.Prune
import XdebugFst.Lib.Cuts
import XdebugFst.Lib.Explore
import XdebugFst.Window.Conditions
import XdebugFst.Clock.Counter
import XdebugFst.Trace.LoopPredicate
import XdebugFst.Trace.Temporaries
import XdebugFst.Trace.Executed
import XdebugFst.Trace.Environment
import XdebugFst.Signal.Changes
import XdebugFst.Signal.Anomaly
import XdebugFst.Signal.Statistics
import XdebugFst.Expr.Invariant
import XdebugFst.Expr.Serialize
import XdebugFst.Lib.Fields
import XdebugFst.Lib.Extremes
import XdebugFst.Lib.Tally
import XdebugFst.Lib.Joined
import XdebugFst.Trace.StateKey
import XdebugFst.Trace.Numerals
import XdebugFst.Trace.EventSearch
import XdebugFst.Waveform.SelectionCache
import XdebugFst.Waveform.SelectedBits
import XdebugFst.Event.Find
import XdebugFst.Event.Export
import XdebugFst.Protocol.TextResponse
import XdebugFst.Lib.JsonTree
import XdebugFst.Lib.Agreement
import XdebugFst.Lib.Closure
import XdebugFst.Lib.EditDistance
import XdebugFst.Lib.Channel
import XdebugFst.Lib.JsonSchema
import XdebugFst.Server.Redaction
import XdebugFst.Server.Secrets
import XdebugFst.Session.Transport
import XdebugFst.Server.EngineLoop
import XdebugFst.Schema.Pointer
import XdebugFst.Schema.Closure
import XdebugFst.Schema.Validator
import XdebugFst.Schema.Projection
import XdebugFst.Schema.Merge
import XdebugFst.Schema.ResponseValidation
import XdebugFst.Schema.ResponseCache
import XdebugFst.Protocol.Suggestions
import XdebugFst.Apb.Cursor
import XdebugFst.Lib.Disk
import XdebugFst.Lib.Levels
import XdebugFst.Session.AtomicFile
import XdebugFst.Waveform.Scopes
import XdebugFst.Axi.Latency
