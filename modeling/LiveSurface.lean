import LiveSurface.Library.Machine
import LiveSurface.Library.Bytes
import LiveSurface.Library.MapLog
import LiveSurface.Library.StoreProgram
import LiveSurface.Library.ReaderGate
import LiveSurface.Config.Store
import LiveSurface.Config.Register
import LiveSurface.Config.Seqlock
import LiveSurface.Map.Table
import LiveSurface.Map.Refinement
import LiveSurface.Map.Registry
import LiveSurface.Map.Storage
import LiveSurface.Ring.Model
import LiveSurface.Ring.Layout
import LiveSurface.Ring.Producer
import LiveSurface.Ring.Stream
import LiveSurface.Ring.Reader
import LiveSurface.Fexit.ShadowStack
import LiveSurface.Fexit.Execution
import LiveSurface.Program.Manager
import LiveSurface.Program.Frame
import LiveSurface.Program.Lifetime
import LiveSurface.Program.Links
import LiveSurface.Program.Accounting
import LiveSurface.Program.Dispatch
import LiveSurface.Program.Gate
import LiveSurface.Program.Exclusion
import LiveSurface.Program.Legacy
import LiveSurface.Program.Outside
import LiveSurface.Program.Linear
import LiveSurface.Map.Reset
import LiveSurface.Vm.Slots
import LiveSurface.Vm.Reload
import LiveSurface.Patch.Swap
import LiveSurface.Patch.Failure
import LiveSurface.Loader.Handoff
import LiveSurface.Loader.Ownership
import LiveSurface.Loader.KillSwitch
import LiveSurface.Control.Request
import LiveSurface.Control.Pairing
import LiveSurface.Control.Ceiling
import LiveSurface.Control.Attachment
import LiveSurface.Control.Refusal
import LiveSurface.Control.Message
import LiveSurface.Control.Handler
import LiveSurface.Loader.Release
import LiveSurface.Library.Layout
import LiveSurface.Metadata.Decode
import LiveSurface.Journal.Store
import LiveSurface.Journal.History
import LiveSurface.Journal.Replay
import LiveSurface.Journal.Delivery
import LiveSurface.Activity.Project
import LiveSurface.Activity.Combine
import LiveSurface.Activity.Stream
import LiveSurface.Activity.Observed
import LiveSurface.Window.Join
import LiveSurface.Window.Observation
import LiveSurface.Library.Probe
import LiveSurface.Tracker.Scope
import LiveSurface.Tracker.History
import LiveSurface.Candidate.Consume
import LiveSurface.Candidate.Grammar
import LiveSurface.Candidate.Recognise
import LiveSurface.Lifetime.State
import LiveSurface.Candidate.Extract
import LiveSurface.Candidate.Held
import LiveSurface.Candidate.Watch
import LiveSurface.Lifetime.Tables
import LiveSurface.Candidate.Fragments
import LiveSurface.Lifetime.Probe
import LiveSurface.Lifetime.Agreement
import LiveSurface.Lifetime.Accepted
import LiveSurface.Segment.Model
import LiveSurface.Segment.Once
import LiveSurface.Segment.Calm
import LiveSurface.Metadata.Opening
import LiveSurface.Metadata.Response
import LiveSurface.Metadata.Tls
import LiveSurface.Library.Early
import LiveSurface.Metadata.Session
import LiveSurface.Metadata.Method
import LiveSurface.Map.Typed
import LiveSurface.Metadata.Boundary
import LiveSurface.Metadata.Lifecycle
import LiveSurface.Metadata.Accepted
import LiveSurface.Metadata.Initialization
import LiveSurface.Ring.Claim
import LiveSurface.Ring.Hostile
import LiveSurface.Vm.Snapshot
import LiveSurface.Map.Bounds
import LiveSurface.Map.Readable
import LiveSurface.Library.Buffer
import LiveSurface.Relocation.Elf
import LiveSurface.Relocation.Btf
import LiveSurface.Relocation.Offset
import LiveSurface.Relocation.Relocate
import LiveSurface.Relocation.Frame
import LiveSurface.Library.Patches
import LiveSurface.Relocation.Plan
import LiveSurface.Relocation.Path
import LiveSurface.Relocation.Safety
import LiveSurface.Relocation.Repeat
import LiveSurface.Relocation.Fields
import LiveSurface.Vm.Symbols
import LiveSurface.Library.Checked
import LiveSurface.Target.Parse
import LiveSurface.Target.Sections
import LiveSurface.Target.Grammar
import LiveSurface.Library.Search
import LiveSurface.Target.Entries
import LiveSurface.Attribution.Join
import LiveSurface.Library.Topological
import LiveSurface.Trace.Declarations
import LiveSurface.Control.Handler
import LiveSurface.Loader.Release
import LiveSurface.Program.Whole
import LiveSurface.Target.File
import LiveSurface.Program.Recycled
import LiveSurface.Library.DepthFirst
import LiveSurface.Library.Longest
import LiveSurface.Budget.Cfg
import LiveSurface.Budget.Flow
import LiveSurface.Budget.Gate
import LiveSurface.BuildId.Notes
import LiveSurface.BuildId.Readers
import LiveSurface.Audit.Text
import LiveSurface.Library.Logline
import LiveSurface.Audit.Record
import LiveSurface.Library.Regex
import LiveSurface.Trace.Values
import LiveSurface.Trace.Codegen
import LiveSurface.Trace.Reads
import LiveSurface.Trace.Confined
import LiveSurface.Library.Automaton
import LiveSurface.Metadata.Number
import LiveSurface.Library.Lines
import LiveSurface.Probe.Signatures
import LiveSurface.Config.Document
import LiveSurface.Library.Struct
import LiveSurface.Probe.Layout
import LiveSurface.Probe.Generate
import LiveSurface.Ring.History
import LiveSurface.Ring.Dump
import LiveSurface.Admission.Exit
import LiveSurface.Displacement.Objdump
import LiveSurface.Displacement.Relocatable
import LiveSurface.Metadata.Reply
import LiveSurface.Drain.Json
import LiveSurface.Catalog.Build
import LiveSurface.Library.Bits
import LiveSurface.Catalog.Bitfields
import LiveSurface.Catalog.Select
