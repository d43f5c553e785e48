import Lineage.Adjacency
import Lineage.ClassPath
import Lineage.CommandLine.Failure
import Lineage.CommandLine.Invocation
import Lineage.CommandLine.Run
import Lineage.Config
import Lineage.Decimal.Shortest
import Lineage.Descriptor
import Lineage.Diff
import Lineage.Edge
import Lineage.EditError
import Lineage.Files.Access
import Lineage.Files.Path
import Lineage.Files.Tree
import Lineage.Graph
import Lineage.Hierarchy.Ancestry
import Lineage.Hierarchy.Basic
import Lineage.Interchange
import Lineage.Json.Fault
import Lineage.Json.Numbers
import Lineage.Json.Printer
import Lineage.Json.Reader
import Lineage.Json.Record
import Lineage.Json.Skip
import Lineage.Json.Strings
import Lineage.Json.Value
import Lineage.Loading
import Lineage.Main
import Lineage.NameMap
import Lineage.NameSet
import Lineage.Network
import Lineage.Platform
import Lineage.Proofs.CommandLine.Configuration
import Lineage.Proofs.CommandLine.Report
import Lineage.Proofs.Consistency
import Lineage.Proofs.Descriptor
import Lineage.Proofs.Diff
import Lineage.Proofs.Files
import Lineage.Proofs.Graph
import Lineage.Proofs.Graph.Sorting
import Lineage.Proofs.Hierarchy.Ancestry
import Lineage.Proofs.Hierarchy.Components
import Lineage.Proofs.Hierarchy.Edges
import Lineage.Proofs.Hierarchy.Extent
import Lineage.Proofs.Hierarchy.Renaming
import Lineage.Proofs.Hierarchy.Trails
import Lineage.Proofs.Interchange
import Lineage.Proofs.Interchange.Descriptors
import Lineage.Proofs.Json.Grammar
import Lineage.Proofs.Json.Numbers
import Lineage.Proofs.Json.Reading
import Lineage.Proofs.Json.Records
import Lineage.Proofs.Json.Shapes
import Lineage.Proofs.Json.Skipping
import Lineage.Proofs.Json.Strings
import Lineage.Proofs.Json.Tokens
import Lineage.Proofs.Json.Values
import Lineage.Proofs.Loading
import Lineage.Proofs.Loading.Assembly
import Lineage.Proofs.Loading.Stopping
import Lineage.Proofs.Network
import Lineage.Proofs.Network.Graph
import Lineage.Proofs.Path
import Lineage.Proofs.Queueing
import Lineage.Proofs.Reachability
import Lineage.Proofs.Session.Amending
import Lineage.Proofs.Session.Asking
import Lineage.Proofs.Session.Atomicity
import Lineage.Proofs.Session.Commuting
import Lineage.Proofs.Session.Duality
import Lineage.Proofs.Session.Edges
import Lineage.Proofs.Session.Edits
import Lineage.Proofs.Session.Ending
import Lineage.Proofs.Session.Endpoints
import Lineage.Proofs.Session.Following
import Lineage.Proofs.Session.History
import Lineage.Proofs.Session.InPlace
import Lineage.Proofs.Session.Listing
import Lineage.Proofs.Session.Locality
import Lineage.Proofs.Session.Registration
import Lineage.Proofs.Session.Registry
import Lineage.Proofs.Session.Relations
import Lineage.Proofs.Session.Renaming
import Lineage.Proofs.Session.Replay
import Lineage.Proofs.Session.Run
import Lineage.Proofs.Session.Searches
import Lineage.Proofs.Session.SelfInheritance
import Lineage.Proofs.Session.Shadowing
import Lineage.Proofs.Session.Sorting
import Lineage.Proofs.Session.Soundness
import Lineage.Proofs.Session.Substitution
import Lineage.Proofs.Session.Subtypes
import Lineage.Proofs.Session.Undoing
import Lineage.Proofs.Session.Vertices
import Lineage.Proofs.Session.Walks
import Lineage.Proofs.Session.WalksInPlace
import Lineage.Proofs.Session.Worklist
import Lineage.Proofs.Sources
import Lineage.Proofs.SubtypeLinks
import Lineage.Registry
import Lineage.Session.Basic
import Lineage.Session.Edits
import Lineage.Session.Lifetime
import Lineage.SubtypeLinks
import Lineage.Text.Combining
import Lineage.Text.Parsed
import Lineage.Text.Quoted
import Lineage.Text.Unprintable
import Lineage.Text.Visible
import Lineage.Toml.Reader
import Lineage.Toml.Scalars
import Lineage.Toml.Strings
import Lineage.Toml.Table
import Lineage.Toml.Value
import Lineage.Vertex
import Lineage.Workspace
