import EagerLoad.Bounds
import EagerLoad.Cache.Key
import EagerLoad.Cache.Request
import EagerLoad.Cache.Store
import EagerLoad.Cache.Unreliable
import EagerLoad.Config
import EagerLoad.Decimal.Binary64
import EagerLoad.Decimal.Reading
import EagerLoad.Decimal.Shortest
import EagerLoad.Digest.Blake3
import EagerLoad.Entity
import EagerLoad.Entity.Selection
import EagerLoad.Entity.Tagged
import EagerLoad.Error
import EagerLoad.Filter.Basic
import EagerLoad.Filter.Call
import EagerLoad.Filter.Draft
import EagerLoad.Filter.Tagged
import EagerLoad.Json.Basic
import EagerLoad.Json.Parser
import EagerLoad.Json.Printer
import EagerLoad.Json.Reading
import EagerLoad.Localization
import EagerLoad.Notice
import EagerLoad.Ordered
import EagerLoad.Output
import EagerLoad.Plan.Basic
import EagerLoad.Plan.Compile
import EagerLoad.Plan.Template
import EagerLoad.Query.Call
import EagerLoad.Query.Tagged
import EagerLoad.Query.Terminal
import EagerLoad.Relation.Basic
import EagerLoad.Relation.Keyed
import EagerLoad.Relation.Request
import EagerLoad.Relation.Source
import EagerLoad.Relation.Subquery
import EagerLoad.Relation.Tagged
import EagerLoad.Row
import EagerLoad.Row.Decode
import EagerLoad.Row.Merge
import EagerLoad.Run.Execution
import EagerLoad.Run.Fallback
import EagerLoad.Run.Observer
import EagerLoad.Run.Script
import EagerLoad.Run.State
import EagerLoad.Sql.Dialect
import EagerLoad.Sql.Draft
import EagerLoad.Sql.Identifier
import EagerLoad.Sql.Placeholder
import EagerLoad.Sql.Value
import EagerLoad.Text.Blank
import EagerLoad.Text.Occurrence
import EagerLoad.Time.Duration
import EagerLoad.Time.Instant
import EagerLoad.Uuid
import EagerLoad.Proofs.Filter.Truth
import EagerLoad.Proofs.Sql.Scan
import EagerLoad.Proofs.Sql.Tidy
import EagerLoad.Proofs.Sql.Draft
import EagerLoad.Proofs.Sql.Written
import EagerLoad.Proofs.Filter.Values
import EagerLoad.Proofs.Relation.Values
import EagerLoad.Proofs.Filter.Written
import EagerLoad.Proofs.Relation.Written
import EagerLoad.Proofs.Plan.Values
import EagerLoad.Proofs.Plan.Written
import EagerLoad.Proofs.Plan.Split
import EagerLoad.Proofs.Plan.Binding
import EagerLoad.Proofs.Row.Maps
import EagerLoad.Proofs.Row.Merge
import EagerLoad.Proofs.Run.Fetch
import EagerLoad.Proofs.Plan.Parts
import EagerLoad.Proofs.Run.Split
import EagerLoad.Proofs.Relation.Keyed
import EagerLoad.Proofs.Plan.BaseOnly
import EagerLoad.Proofs.Plan.Keys
import EagerLoad.Proofs.Plan.Lookups
import EagerLoad.Proofs.Row.Groups
import EagerLoad.Proofs.Run.Attempt
import EagerLoad.Proofs.Run.Database
import EagerLoad.Proofs.Run.Loading
import EagerLoad.Proofs.Run.Fallback
import EagerLoad.Proofs.Text
import EagerLoad.Proofs.Cache.Store
import EagerLoad.Proofs.Cache.Key
import EagerLoad.Proofs.Run.Caches
import EagerLoad.Proofs.Run.Cached
import EagerLoad.Proofs.Run.Interleaving
import EagerLoad.Proofs.Sql.Words
import EagerLoad.Proofs.Sql.Worded
import EagerLoad.Proofs.Sql.Numbered
import EagerLoad.Proofs.Sql.WordedDraft
import EagerLoad.Proofs.Filter.Worded
import EagerLoad.Proofs.Relation.Worded
import EagerLoad.Proofs.Plan.Scope
import EagerLoad.Proofs.Uuid
import EagerLoad.Proofs.Time.Instant
import EagerLoad.Proofs.Decimal.Binary64
import EagerLoad.Proofs.Decimal.Shortest
import EagerLoad.Proofs.Decimal.Text
import EagerLoad.Proofs.Json.Strings
import EagerLoad.Proofs.Json.Unambiguous
import EagerLoad.Proofs.Filter.Tagged
import EagerLoad.Proofs.Relation.Tagged
import EagerLoad.Proofs.Sql.Diverging
import EagerLoad.Proofs.Relation.Openings
import EagerLoad.Proofs.Plan.Recovered
import EagerLoad.Proofs.Cache.Material
import EagerLoad.Proofs.Plan.Recompiled
import EagerLoad.Proofs.Run.Agreement
import EagerLoad.Proofs.Run.Transparent
import EagerLoad.Proofs.Plan.Redacted
import EagerLoad.Proofs.Plan.Quoted
import EagerLoad.Proofs.Run.Paginated
import EagerLoad.Proofs.Run.Parallel
import EagerLoad.Proofs.Run.Journal
import EagerLoad.Proofs.Run.Storeless
import EagerLoad.Proofs.Run.Complete
import EagerLoad.Proofs.Run.Errors
import EagerLoad.Proofs.Cache.Filed
import EagerLoad.Proofs.Run.Filed
import EagerLoad.Proofs.Run.Sequential
import EagerLoad.Proofs.Run.Expiry
import EagerLoad.Proofs.Plan.Batched
import EagerLoad.Proofs.Run.Counted
import EagerLoad.Proofs.Filter.Cited
import EagerLoad.Proofs.Relation.Cited
import EagerLoad.Proofs.Plan.Cited
import EagerLoad.Proofs.Query.Labels
import EagerLoad.Proofs.Plan.Having
import EagerLoad.Proofs.Sql.Selecting
import EagerLoad.Proofs.Relation.Selecting
import EagerLoad.Proofs.Plan.Selecting
import EagerLoad.Proofs.Sql.Qualified
import EagerLoad.Proofs.Relation.Aliases
import EagerLoad.Proofs.Relation.Qualified
import EagerLoad.Proofs.Plan.Qualified
import EagerLoad.Proofs.Sql.Wordless
import EagerLoad.Proofs.Plan.Dialects
import EagerLoad.Proofs.Row.Repeated
import EagerLoad.Proofs.Row.Collected
import EagerLoad.Proofs.Run.Stems
import EagerLoad.Proofs.Run.Found
import EagerLoad.Proofs.Cache.Generations
import EagerLoad.Proofs.Cache.Standing
import EagerLoad.Proofs.Json.Lengths
import EagerLoad.Proofs.Row.Shaped
import EagerLoad.Proofs.Run.Iterated
import EagerLoad.Proofs.Cache.Reads
import EagerLoad.Proofs.Row.Batches
import EagerLoad.Proofs.Run.Skipped
import EagerLoad.Proofs.Run.PageNumbers
import EagerLoad.Proofs.Run.Served
import EagerLoad.Proofs.Run.Assembled
import EagerLoad.Proofs.Plan.Projected
import EagerLoad.Proofs.Run.Projected
import EagerLoad.Proofs.Plan.Shared
import EagerLoad.Proofs.Plan.Ordering
import EagerLoad.Proofs.Relation.Restated
import EagerLoad.Proofs.Relation.Declared
import EagerLoad.Proofs.Run.Compiled
import EagerLoad.Proofs.Sql.Renumbered
import EagerLoad.Proofs.Run.Delivered
import EagerLoad.Proofs.Sql.Items
import EagerLoad.Proofs.Relation.Columns
import EagerLoad.Proofs.Sql.Filled
import EagerLoad.Proofs.Filter.Built
import EagerLoad.Proofs.Relation.Filled
import EagerLoad.Proofs.Plan.Filled
import EagerLoad.Proofs.Run.Filled
import EagerLoad.Proofs.Sql.Anywhere
import EagerLoad.Proofs.Sql.Calls
import EagerLoad.Proofs.Plan.Additions
