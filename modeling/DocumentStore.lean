import DocumentStore.Collection.Basic
import DocumentStore.Collection.Candidates
import DocumentStore.Collection.Change
import DocumentStore.Collection.Cursor
import DocumentStore.Collection.IndexSet
import DocumentStore.Collection.Insert
import DocumentStore.Collection.Options
import DocumentStore.Collection.Retry
import DocumentStore.Database.Basic
import DocumentStore.Database.Registry
import DocumentStore.Database.Settings
import DocumentStore.Document.Names
import DocumentStore.Document.Path
import DocumentStore.Double.Basic
import DocumentStore.Double.Layout
import DocumentStore.Double.Rounding
import DocumentStore.Double.Shortest
import DocumentStore.Error
import DocumentStore.FieldTable
import DocumentStore.Ids.Snowflake
import DocumentStore.Ids.Source
import DocumentStore.Pattern.Anchor
import DocumentStore.Pattern.Basic
import DocumentStore.Pattern.NamedClass
import DocumentStore.Pattern.Node
import DocumentStore.Pattern.Parser
import DocumentStore.Pattern.Size
import DocumentStore.Pattern.Spans
import DocumentStore.Plan
import DocumentStore.Program
import DocumentStore.Proofs.Collection.Attempts
import DocumentStore.Proofs.Collection.Batches
import DocumentStore.Proofs.Collection.Changing
import DocumentStore.Proofs.Collection.Complaints
import DocumentStore.Proofs.Collection.Contending
import DocumentStore.Proofs.Collection.Cursors
import DocumentStore.Proofs.Collection.Dropping
import DocumentStore.Proofs.Collection.Entries
import DocumentStore.Proofs.Collection.Failures
import DocumentStore.Proofs.Collection.Fetching
import DocumentStore.Proofs.Collection.Housing
import DocumentStore.Proofs.Collection.Inserting
import DocumentStore.Proofs.Collection.Iterating
import DocumentStore.Proofs.Collection.Mirrors
import DocumentStore.Proofs.Collection.Operations
import DocumentStore.Proofs.Collection.Persistence
import DocumentStore.Proofs.Collection.Plans
import DocumentStore.Proofs.Collection.Progress
import DocumentStore.Proofs.Collection.Reading
import DocumentStore.Proofs.Collection.Refusals
import DocumentStore.Proofs.Collection.Scanning
import DocumentStore.Proofs.Collection.Standpoint
import DocumentStore.Proofs.Collection.Stopping
import DocumentStore.Proofs.Collection.StrategyReads
import DocumentStore.Proofs.Collection.Streaming
import DocumentStore.Proofs.Collection.Writing
import DocumentStore.Proofs.Database.Admission
import DocumentStore.Proofs.Database.Atomicity
import DocumentStore.Proofs.Database.Bindings
import DocumentStore.Proofs.Database.Closing
import DocumentStore.Proofs.Database.Conjunction
import DocumentStore.Proofs.Database.Contention
import DocumentStore.Proofs.Database.Coverage
import DocumentStore.Proofs.Database.CursorPipeline
import DocumentStore.Proofs.Database.Destruction
import DocumentStore.Proofs.Database.Effects
import DocumentStore.Proofs.Database.FindCost
import DocumentStore.Proofs.Database.IndexConsistency
import DocumentStore.Proofs.Database.InsertOutcomes
import DocumentStore.Proofs.Database.Integrity
import DocumentStore.Proofs.Database.Isolation
import DocumentStore.Proofs.Database.MapRefinement
import DocumentStore.Proofs.Database.Opening
import DocumentStore.Proofs.Database.PagedIteration
import DocumentStore.Proofs.Database.PartialFailure
import DocumentStore.Proofs.Database.PlanEquivalence
import DocumentStore.Proofs.Database.ReadCost
import DocumentStore.Proofs.Database.Redefinition
import DocumentStore.Proofs.Database.Registry
import DocumentStore.Proofs.Database.Runs
import DocumentStore.Proofs.Database.SettingErrors
import DocumentStore.Proofs.Database.Settings
import DocumentStore.Proofs.Database.SettingsLife
import DocumentStore.Proofs.Database.SortedCursors
import DocumentStore.Proofs.Database.UpdateThenFind
import DocumentStore.Proofs.Database.Worlds
import DocumentStore.Proofs.Document.Assigning
import DocumentStore.Proofs.Document.Chains
import DocumentStore.Proofs.Document.Fields
import DocumentStore.Proofs.Document.Names
import DocumentStore.Proofs.Document.Paths
import DocumentStore.Proofs.Document.Updates
import DocumentStore.Proofs.Double.Exact
import DocumentStore.Proofs.Double.Nearest
import DocumentStore.Proofs.Double.Rounding
import DocumentStore.Proofs.Ids.Increasing
import DocumentStore.Proofs.Program.Checks
import DocumentStore.Proofs.Program.Counting
import DocumentStore.Proofs.Program.Finishing
import DocumentStore.Proofs.Program.Handing
import DocumentStore.Proofs.Program.Interference
import DocumentStore.Proofs.Program.Mirroring
import DocumentStore.Proofs.Program.Refusing
import DocumentStore.Proofs.Program.Regimes
import DocumentStore.Proofs.Program.Sharing
import DocumentStore.Proofs.Query.IndexedValues
import DocumentStore.Proofs.Query.Literals
import DocumentStore.Proofs.Query.Meaning
import DocumentStore.Proofs.Serial.Formats
import DocumentStore.Proofs.Serial.Interchange
import DocumentStore.Proofs.Serial.Reading
import DocumentStore.Proofs.Serial.Scalars
import DocumentStore.Proofs.Serial.Tagged
import DocumentStore.Proofs.Sorting
import DocumentStore.Proofs.Store.Commits
import DocumentStore.Proofs.Store.KeyBlocks
import DocumentStore.Proofs.Store.KeyOrder
import DocumentStore.Proofs.Store.Ownership
import DocumentStore.Proofs.Store.Scans
import DocumentStore.Proofs.Store.TableContents
import DocumentStore.Proofs.Store.Versions
import DocumentStore.Proofs.Store.Watching
import DocumentStore.Proofs.Value.Equality
import DocumentStore.Proofs.Value.Nesting
import DocumentStore.Proofs.Value.Numbers
import DocumentStore.Proofs.Value.Order
import DocumentStore.Query.Basic
import DocumentStore.Query.Criterion
import DocumentStore.Serial.Compact
import DocumentStore.Serial.Json
import DocumentStore.Serial.Tagged
import DocumentStore.Sorting
import DocumentStore.Store.Batch
import DocumentStore.Store.Key
import DocumentStore.Store.Layout
import DocumentStore.Store.Memory
import DocumentStore.Store.Scan
import DocumentStore.Store.Table
import DocumentStore.Store.Watched
import DocumentStore.Text.Blank
import DocumentStore.Text.CharSet
import DocumentStore.Text.Folding
import DocumentStore.Text.Graphic
import DocumentStore.Text.Hex
import DocumentStore.Text.Quoted
import DocumentStore.Text.Utf8
import DocumentStore.Text.Word
import DocumentStore.Update
import DocumentStore.Value.Basic
import DocumentStore.Value.Conversion
import DocumentStore.Value.Kind
import DocumentStore.Value.Order
import DocumentStore.Value.Text
