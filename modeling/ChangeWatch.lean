import ChangeWatch.CommandLine.Feed
import ChangeWatch.CommandLine.Invocation
import ChangeWatch.CommandLine.Program
import ChangeWatch.CommandLine.Reader
import ChangeWatch.CommandLine.Usage
import ChangeWatch.Disk.Basic
import ChangeWatch.Disk.Change
import ChangeWatch.Disk.Edit
import ChangeWatch.Disk.Fault
import ChangeWatch.Dispatch.Debouncer
import ChangeWatch.Dispatch.Desk
import ChangeWatch.Dispatch.Journal
import ChangeWatch.Duration
import ChangeWatch.Error
import ChangeWatch.Event.Context
import ChangeWatch.Event.Kind
import ChangeWatch.Event.Raw
import ChangeWatch.Handlers
import ChangeWatch.Main
import ChangeWatch.Number.Binary64
import ChangeWatch.Path
import ChangeWatch.Proofs.CommandLine.Settings
import ChangeWatch.Proofs.Disk.Apart
import ChangeWatch.Proofs.Disk.Descending
import ChangeWatch.Proofs.Disk.Following
import ChangeWatch.Proofs.Disk.Making
import ChangeWatch.Proofs.Disk.Place
import ChangeWatch.Proofs.Dispatch.Accepting
import ChangeWatch.Proofs.Dispatch.Bookkeeping
import ChangeWatch.Proofs.Dispatch.Bookkeeping.Jobs
import ChangeWatch.Proofs.Dispatch.Contention
import ChangeWatch.Proofs.Dispatch.Ledger
import ChangeWatch.Proofs.Dispatch.Shutdown
import ChangeWatch.Proofs.Dispatch.Windows
import ChangeWatch.Proofs.Event.Json
import ChangeWatch.Proofs.Event.Line
import ChangeWatch.Proofs.Path
import ChangeWatch.Proofs.Path.Behind
import ChangeWatch.Proofs.Path.Order
import ChangeWatch.Proofs.Service.Alone
import ChangeWatch.Proofs.Service.Elsewhere
import ChangeWatch.Proofs.Service.Refusing
import ChangeWatch.Proofs.Service.Registering
import ChangeWatch.Proofs.Service.Registry
import ChangeWatch.Proofs.Service.Renaming
import ChangeWatch.Proofs.Service.Roster
import ChangeWatch.Proofs.Service.Splitting
import ChangeWatch.Proofs.Service.Steps
import ChangeWatch.Proofs.Service.Streaming
import ChangeWatch.Proofs.Service.Translating
import ChangeWatch.Proofs.Service.Twins
import ChangeWatch.Proofs.Service.Waking
import ChangeWatch.Proofs.Settings.Accepting
import ChangeWatch.Proofs.Settings.RoundTrip
import ChangeWatch.Proofs.Strategy.Agenda
import ChangeWatch.Proofs.Strategy.Depth
import ChangeWatch.Proofs.Strategy.FileTarget
import ChangeWatch.Proofs.Strategy.Granting
import ChangeWatch.Proofs.Strategy.Links
import ChangeWatch.Proofs.Strategy.Listing
import ChangeWatch.Proofs.Strategy.Pickup
import ChangeWatch.Proofs.Strategy.Preparing
import ChangeWatch.Proofs.Strategy.Registration
import ChangeWatch.Proofs.Strategy.Sweep
import ChangeWatch.Proofs.Strategy.Walk
import ChangeWatch.Proofs.Text.Json
import ChangeWatch.Proofs.Text.Utf8
import ChangeWatch.Proofs.Toml.Documents
import ChangeWatch.Proofs.Toml.Grammar
import ChangeWatch.Proofs.Toml.Integers
import ChangeWatch.Proofs.Toml.Names
import ChangeWatch.Proofs.Toml.Numerals
import ChangeWatch.Proofs.Toml.Tables
import ChangeWatch.Proofs.Toml.Words
import ChangeWatch.Proofs.Toml.Written
import ChangeWatch.Proofs.Watch.Building
import ChangeWatch.Proofs.Watch.Coalescing
import ChangeWatch.Proofs.Watch.Coalescing.Stages
import ChangeWatch.Proofs.Watch.Control
import ChangeWatch.Proofs.Watch.Covering
import ChangeWatch.Proofs.Watch.Covering.Jobs
import ChangeWatch.Proofs.Watch.Covering.Stages
import ChangeWatch.Proofs.Watch.Covering.Threads
import ChangeWatch.Proofs.Watch.Delivering
import ChangeWatch.Proofs.Watch.Delivering.Owing
import ChangeWatch.Proofs.Watch.FileScope
import ChangeWatch.Proofs.Watch.Follows
import ChangeWatch.Proofs.Watch.Growing
import ChangeWatch.Proofs.Watch.Growing.Jobs
import ChangeWatch.Proofs.Watch.Growing.Threads
import ChangeWatch.Proofs.Watch.Growing.Walking
import ChangeWatch.Proofs.Watch.Lifecycle
import ChangeWatch.Proofs.Watch.Lifecycle.Calls
import ChangeWatch.Proofs.Watch.Lifecycle.Deeds
import ChangeWatch.Proofs.Watch.Lifecycle.FailFast
import ChangeWatch.Proofs.Watch.Lifecycle.Seen
import ChangeWatch.Proofs.Watch.Lifecycle.Teardown
import ChangeWatch.Proofs.Watch.Nodes
import ChangeWatch.Proofs.Watch.Notified
import ChangeWatch.Proofs.Watch.Outcomes
import ChangeWatch.Proofs.Watch.Overflow
import ChangeWatch.Proofs.Watch.PickingUp
import ChangeWatch.Proofs.Watch.Refusals
import ChangeWatch.Proofs.Watch.Resolving
import ChangeWatch.Proofs.Watch.Serving
import ChangeWatch.Proofs.Watch.Stopping
import ChangeWatch.Proofs.Watch.Stopping.Phases
import ChangeWatch.Proofs.Watch.Stopping.Underway
import ChangeWatch.Proofs.Watch.Trace
import ChangeWatch.Proofs.Watch.Unheard
import ChangeWatch.Proofs.Work.Setting
import ChangeWatch.Proofs.Work.Thread
import ChangeWatch.Service.Backend
import ChangeWatch.Service.Basic
import ChangeWatch.Service.Memory
import ChangeWatch.Service.Notifying
import ChangeWatch.Service.Registry
import ChangeWatch.Service.Report
import ChangeWatch.Settings.Basic
import ChangeWatch.Settings.Load
import ChangeWatch.Strategy.Basic
import ChangeWatch.Strategy.DirTree
import ChangeWatch.Strategy.FileTarget
import ChangeWatch.Text.Combining
import ChangeWatch.Text.Printable
import ChangeWatch.Text.Quoted
import ChangeWatch.Text.Utf8
import ChangeWatch.Toml.Reader
import ChangeWatch.Toml.Scalar
import ChangeWatch.Toml.Strings
import ChangeWatch.Toml.Table
import ChangeWatch.Toml.Value
import ChangeWatch.Watch.Basic
import ChangeWatch.Watch.Builder
import ChangeWatch.Watch.Loop
import ChangeWatch.Watch.Running
import ChangeWatch.Work.Executor
import ChangeWatch.Work.Pool
import ChangeWatch.Work.Scheduler
