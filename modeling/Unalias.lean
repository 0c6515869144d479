import Unalias.Text.Basic
import Unalias.Text.Blank
import Unalias.Text.WordChar
import Unalias.Text.Quoted
import Unalias.Route
import Unalias.Path.Basic
import Unalias.Path.Lineage
import Unalias.Path.Relative
import Unalias.Pattern.Basic
import Unalias.Pattern.Lemmas
import Unalias.Alias.Table
import Unalias.Statement.Scan
import Unalias.Change
import Unalias.Jsonc
import Unalias.Json.Reader
import Unalias.Settings.Location
import Unalias.Glob.Expansion
import Unalias.Discovery
import Unalias.Disk.Basic
import Unalias.Batch.Basic
import Unalias.Terminal
import Unalias.CommandLine.Session
import Unalias.Main
import Unalias.Proofs.Path.Normal
import Unalias.Proofs.Alias.Stem
import Unalias.Proofs.Specifier.Meaning
import Unalias.Proofs.Position
import Unalias.Proofs.Statement.Grammar
import Unalias.Proofs.Statement.Leftmost
import Unalias.Proofs.Change.Found
import Unalias.Proofs.Statement.Retarget
import Unalias.Proofs.Specifier.Letters
import Unalias.Proofs.Change.Again
import Unalias.Proofs.Batch.Plan
import Unalias.Proofs.Batch.Shelf
import Unalias.Proofs.Alias.Specific
import Unalias.Proofs.Batch.Report
import Unalias.Proofs.Batch.Rerun
import Unalias.Proofs.Disk.Tree
import Unalias.Proofs.Disk.Write
import Unalias.Proofs.Batch.Disk
import Unalias.Proofs.CommandLine.Outcome
import Unalias.Proofs.Json.Reading
import Unalias.Proofs.Jsonc.Sheet
import Unalias.Proofs.Jsonc.Plain
import Unalias.Proofs.Jsonc.Comments
import Unalias.Proofs.Settings.Loading
import Unalias.Proofs.Batch.DryRun
import Unalias.Proofs.Statement.LineEnd
import Unalias.Proofs.Change.Parts
import Unalias.Proofs.Alias.Order
import Unalias.Proofs.Alias.Admitted
import Unalias.Proofs.Alias.Exclusion
import Unalias.Proofs.Alias.Stars
import Unalias.Proofs.Path.Steps
import Unalias.Proofs.Path.Under
import Unalias.Proofs.Change.Relocated
import Unalias.Proofs.Batch.Accounts
import Unalias.Proofs.Batch.Independent
import Unalias.Proofs.Specifier.Canonical
import Unalias.Proofs.Change.Renamed
import Unalias.Proofs.Route.Onward
import Unalias.Proofs.Path.Shortest
import Unalias.Proofs.Specifier.Appended
import Unalias.Proofs.Change.Spliced
import Unalias.Proofs.Chain
import Unalias.Proofs.Json.Grammar
import Unalias.Proofs.Json.Accepted
import Unalias.Proofs.Json.Members
import Unalias.Proofs.Jsonc.Commas
import Unalias.Proofs.Settings.Shape
import Unalias.Proofs.Disk.Named
import Unalias.Proofs.Glob.Compiled
import Unalias.Proofs.Glob.Trail
import Unalias.Proofs.Glob.Segments
import Unalias.Proofs.Glob.Joined
import Unalias.Proofs.Discovery.Anchored
import Unalias.Proofs.Discovery.Distinct
import Unalias.Proofs.Discovery.Mirrored
import Unalias.Proofs.Disk.Joined
import Unalias.Proofs.Discovery.Rooted
import Unalias.Proofs.Discovery.Complete
import Unalias.Proofs.Discovery.Within
import Unalias.Proofs.Path.Ancestors
import Unalias.Proofs.Settings.Nearest
