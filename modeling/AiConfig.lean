import AiConfig.Lib.Fallible
import AiConfig.Lib.Sha256
import AiConfig.Lib.Timestamp
import AiConfig.Lib.LastWrite
import AiConfig.Lib.Transition
import AiConfig.Lib.UnionFind
import AiConfig.Lib.Worklist
import AiConfig.Sesh.Wire
import AiConfig.Sesh.Store.State
import AiConfig.Sesh.Store.Put
import AiConfig.Sesh.Store.View
import AiConfig.Sesh.Store.Step
import AiConfig.Sesh.Store.Execute
import AiConfig.Sesh.Store.Runs
import AiConfig.Sesh.Store.Poison
import AiConfig.Sesh.Store.Escalation
import AiConfig.Sesh.Store.Fingerprint
import AiConfig.Sesh.Ship.ShipFile
import AiConfig.Sesh.Ship.World
import AiConfig.Sesh.Ship.ExactlyOnce
import AiConfig.Sesh.Ship.Quiesce
import AiConfig.Sesh.Ship.Terminates
import AiConfig.Herder.Fleet.ShownOnce
import AiConfig.Sesh.Index.Parse
import AiConfig.Sesh.Index.Table
import AiConfig.Sesh.Index.Append
import AiConfig.Sesh.Index.Reindex
import AiConfig.Sesh.Index.Node
import AiConfig.Sesh.Index.Maintain
import AiConfig.Sesh.Index.Lines
import AiConfig.Sesh.Index.Registry
import AiConfig.Sesh.Index.Numbered
import AiConfig.Sesh.Index.Replay
import AiConfig.Sesh.Index.Survivors
import AiConfig.Sesh.Index.Chunks
import AiConfig.Herder.State.Store
import AiConfig.Herder.State.Rows
import AiConfig.Herder.State.Join
import AiConfig.Herder.State.History
import AiConfig.Herder.State.Cursor
import AiConfig.Herder.State.Horizon
import AiConfig.Herder.Web.StateSync
import AiConfig.Herder.Web.Page
import AiConfig.Herder.Web.NoEditLost
import AiConfig.Herder.Web.Clean
import AiConfig.Herder.Web.StaysDeleted
import AiConfig.Herder.Native.Sync
import AiConfig.Herder.Native.OutboxKept
import AiConfig.Herder.Markers.Repairs
import AiConfig.Herder.Members.Reconcile
import AiConfig.Herder.Agents.AppendKept
import AiConfig.Herder.Agents.SnapshotTail
import AiConfig.Herder.Agents.Sessions
import AiConfig.Herder.Agents.Incarnations
import AiConfig.Herder.Lanes.Runs
import AiConfig.Herder.Members.Settles
import AiConfig.Herder.Markers.Reading
import AiConfig.Herder.Spaces.Reorder
import AiConfig.Herder.Notes.Tabs
import AiConfig.Sesh.Surface.Branch
import AiConfig.Sesh.Surface.Document
import AiConfig.Sesh.Surface.Shown
import AiConfig.Lib.Matches
import AiConfig.Herder.Transcript.Fencing
import AiConfig.Herder.Transcript.Deliveries
import AiConfig.Herder.Observer.Tail
import AiConfig.Herder.Observer.Session
import AiConfig.Herder.Native.Transcript
import AiConfig.Herder.Native.Wakes
import AiConfig.Herder.Native.Pages
import AiConfig.Herder.Native.Attention
import AiConfig.Herder.Native.AlertedOnce
import AiConfig.Lib.Js
import AiConfig.Lib.Yaml
import AiConfig.Herder.Layout.Restored
import AiConfig.Herder.Transcript.Visible
import AiConfig.Herder.Native.Dock
import AiConfig.Herder.Native.Reconciled
import AiConfig.Herder.Web.FleetStream
import AiConfig.Herder.Files.Index
import AiConfig.Herder.Files.Fresh
import AiConfig.Herder.Git.Decoded
import AiConfig.Herder.Files.Checkouts
import AiConfig.Herder.Files.Watches
import AiConfig.Lib.Newest
import AiConfig.Herder.Transcript.ReplyEnds
import AiConfig.Herder.Transcript.Judged
import AiConfig.Herder.Transcript.Entries
import AiConfig.Herder.Web.EntryCache
import AiConfig.Herder.Transcript.Windows
import AiConfig.Mish.Runs
import AiConfig.Herder.Bus.TurnEnds
import AiConfig.Herder.Bus.Mirror
import AiConfig.Herder.Transcript.StreamKept
