import QueryAlgebra.Sql.Table
import QueryAlgebra.KeyValue.Database
import QueryAlgebra.Proofs.Outcome
import QueryAlgebra.Proofs.Double.Shortest
import QueryAlgebra.Proofs.Double.Text
import QueryAlgebra.Proofs.Json.Text
import QueryAlgebra.Proofs.Json.Reading
import QueryAlgebra.Proofs.Value.Fingerprint
import QueryAlgebra.Proofs.Value.Documents
import QueryAlgebra.Proofs.Value.Agreement
import QueryAlgebra.Proofs.Value.Layout
import QueryAlgebra.Proofs.Table.Reporting
import QueryAlgebra.Proofs.Query.Rows
import QueryAlgebra.Proofs.Query.Tasks
import QueryAlgebra.Proofs.Sql.Literals
import QueryAlgebra.Proofs.Sql.Reading
import QueryAlgebra.Proofs.Sql.ColumnTests
import QueryAlgebra.Proofs.Sql.Conditions
import QueryAlgebra.Proofs.Sql.KnownAnswers
import QueryAlgebra.Proofs.Sql.Filter
import QueryAlgebra.Proofs.Sql.Stream
import QueryAlgebra.Proofs.Sql.Tokens
import QueryAlgebra.Proofs.Sql.Containment
import QueryAlgebra.Proofs.Sql.Tasks
import QueryAlgebra.Proofs.Sql.Faults
import QueryAlgebra.Proofs.KeyValue.Pipeline
import QueryAlgebra.Proofs.KeyValue.OrderedMap
import QueryAlgebra.Proofs.KeyValue.Store
import QueryAlgebra.Proofs.KeyValue.Space
import QueryAlgebra.Proofs.KeyValue.Records
import QueryAlgebra.Proofs.KeyValue.Listing
import QueryAlgebra.Proofs.KeyValue.Entries
import QueryAlgebra.Proofs.KeyValue.TableDocuments
import QueryAlgebra.Proofs.KeyValue.Consistency
import QueryAlgebra.Proofs.KeyValue.Queries
import QueryAlgebra.Proofs.KeyValue.Steps
import QueryAlgebra.Proofs.KeyValue.Changes
import QueryAlgebra.Proofs.KeyValue.Identity
import QueryAlgebra.Proofs.KeyValue.Operations
import QueryAlgebra.Proofs.KeyValue.Runs
import QueryAlgebra.Proofs.KeyValue.OwnKeys
import QueryAlgebra.Proofs.KeyValue.RowWrites
import QueryAlgebra.Proofs.KeyValue.Reliable
import QueryAlgebra.Proofs.KeyValue.WholeWrites
import QueryAlgebra.Proofs.KeyValue.AllOrNothing
import QueryAlgebra.Proofs.KeyValue.Places
import QueryAlgebra.Proofs.KeyValue.Footprint
import QueryAlgebra.Proofs.KeyValue.Isolation
import QueryAlgebra.Proofs.KeyValue.Catalog
import QueryAlgebra.Proofs.Json.Nesting
import QueryAlgebra.Proofs.KeyValue.Commit
import QueryAlgebra.Proofs.KeyValue.Legibility
import QueryAlgebra.Proofs.KeyValue.Rebuild
import QueryAlgebra.Proofs.KeyValue.KeyedReads
import QueryAlgebra.Proofs.KeyValue.SelectionDelete
import QueryAlgebra.Proofs.Sql.DeletePaths
import QueryAlgebra.Proofs.Json.Names
import QueryAlgebra.Proofs.Json.Occurrences
import QueryAlgebra.Proofs.Sql.Patterns
import QueryAlgebra.Proofs.Sql.SubFields
import QueryAlgebra.Proofs.Sql.Substrings
import QueryAlgebra.Proofs.Sql.StoredRows
import QueryAlgebra.Proofs.Query.Structure
import QueryAlgebra.Proofs.Table.Batches
import QueryAlgebra.Proofs.Sql.Executions
import QueryAlgebra.Proofs.KeyValue.Faults
import QueryAlgebra.Proofs.KeyValue.FreshKeys
import QueryAlgebra.Proofs.Value.Order
import QueryAlgebra.Proofs.Query.Branches
import QueryAlgebra.Proofs.Sql.Issued
import QueryAlgebra.Proofs.Sql.Lists
import QueryAlgebra.Proofs.Sql.FilledLists
import QueryAlgebra.Proofs.Sql.RowKeys
import QueryAlgebra.Proofs.Value.Positions
import QueryAlgebra.Proofs.Query.Arithmetic
import QueryAlgebra.Proofs.Sql.Replacements
import QueryAlgebra.Proofs.Sql.Apart
import QueryAlgebra.Proofs.Sql.Effects
import QueryAlgebra.Proofs.Sql.Negations
import QueryAlgebra.Proofs.Value.Equivalence
import QueryAlgebra.Proofs.Query.TextBounds
import QueryAlgebra.Proofs.Text.Utf8
import QueryAlgebra.Proofs.KeyValue.Scans
import QueryAlgebra.Proofs.Sql.IndexNames
import QueryAlgebra.Proofs.Sql.TableCreations
import QueryAlgebra.Proofs.Sql.CreationsAndDrops
