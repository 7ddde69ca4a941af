import RecordStore.Text.Basic
import RecordStore.Text.Utf8
import RecordStore.Text.Quoted
import RecordStore.Text.Base64
import RecordStore.Number.Double
import RecordStore.Number.Shortest
import RecordStore.Number.Decimal
import RecordStore.Number.Numeral
import RecordStore.Time.Moment
import RecordStore.Time.Reader
import RecordStore.Json.Basic
import RecordStore.Json.Reader
import RecordStore.Key.Basic
import RecordStore.Query.Operator
import RecordStore.Query.Compile
import RecordStore.Fault
import RecordStore.Key.Token
import RecordStore.Fault.Stated
import RecordStore.Value.Heap
import RecordStore.Sorting
import RecordStore.Value.Basic
import RecordStore.Value.Stored
import RecordStore.Value.Attribute
import RecordStore.Value.Rank
import RecordStore.Value.Comparison
import RecordStore.Value.Collect
import RecordStore.Schema
import RecordStore.Schema.Declaration
import RecordStore.Query.Expr
import RecordStore.Query.Native
import RecordStore.Query.Bound
import RecordStore.Document.Character
import RecordStore.Document.Word
import RecordStore.Document.Layout
import RecordStore.Document.Token
import RecordStore.Document.Tag
import RecordStore.Document.Scan
import RecordStore.Document.Node
import RecordStore.Settings.Basic
import RecordStore.Settings.Document
import RecordStore.Settings.Reader
import RecordStore.Query.Statement
import RecordStore.Store.Record
import RecordStore.Store.Cursor
import RecordStore.Store.Basic
import RecordStore.Rows
import RecordStore.Mapping.Load
import RecordStore.Mapping.Save
import RecordStore.Database.Basic
import RecordStore.Database.Execute
import RecordStore.Proofs.SameKeys
import RecordStore.Proofs.DraftJoin
import RecordStore.Proofs.Attempts
import RecordStore.Proofs.FilterSteps
import RecordStore.Proofs.SortPermutation
import RecordStore.Proofs.Scanning
import RecordStore.Proofs.FilterLeaves
import RecordStore.Proofs.KeyOrder
import RecordStore.Proofs.KeyBlocks
import RecordStore.Proofs.StandingOrder
import RecordStore.Proofs.NearestDoubles
import RecordStore.Proofs.Arrangement
import RecordStore.Proofs.StoreRuns
import RecordStore.Proofs.ScanResults
import RecordStore.Proofs.DatabaseRuns
import RecordStore.Proofs.StoreDeletion
import RecordStore.Proofs.Executing
import RecordStore.Proofs.BulkDeletion
import RecordStore.Proofs.Holding
import RecordStore.Proofs.ParentKeys
import RecordStore.Proofs.RelatedQueries
import RecordStore.Proofs.Commits
import RecordStore.Proofs.RangeSlices
import RecordStore.Proofs.LookingUp
import RecordStore.Proofs.TouchedRecords
import RecordStore.Proofs.NamedEntries
import RecordStore.Proofs.ObjectMaking
import RecordStore.Proofs.EmbeddedParts
import RecordStore.Proofs.RoundTrip
import RecordStore.Proofs.EscapedBytes
import RecordStore.Proofs.Base64Reading
import RecordStore.Proofs.JsonReading
import RecordStore.Proofs.JsonValues
import RecordStore.Proofs.KeyTokens
import RecordStore.Proofs.PrefixBounds
import RecordStore.Proofs.ByteBounds
import RecordStore.Proofs.Beginnings
import RecordStore.Proofs.ListedTexts
import RecordStore.Proofs.FailedStatements
import RecordStore.Proofs.AgreeingAttempts
import RecordStore.Proofs.VisibleObjects
import RecordStore.Proofs.VisibleQueries
import RecordStore.Proofs.SortedImages
import RecordStore.Proofs.VisibleAnswers
import RecordStore.Proofs.AgreeingLoads
import RecordStore.Proofs.AgreeingRequests
import RecordStore.Proofs.AgreeingRows
import RecordStore.Proofs.AgreeingReads
import RecordStore.Proofs.BufferedPuts
import RecordStore.Proofs.FullRows
import RecordStore.Proofs.Rollbacks
import RecordStore.Proofs.RowSessions
import RecordStore.Proofs.Rejections
import RecordStore.Proofs.Counting
import RecordStore.Proofs.KeyQueries
import RecordStore.Proofs.Snapshots
import RecordStore.Proofs.GivenNumbers
import RecordStore.Proofs.PrimaryKeys
import RecordStore.Proofs.StatementFaults
import RecordStore.Proofs.TransactionTurns
import RecordStore.Proofs.RowFaults
import RecordStore.Proofs.TransactionSessions
import RecordStore.Proofs.DeletionResults
import RecordStore.Proofs.LoadedObjects
import RecordStore.Proofs.CompiledPaths
import RecordStore.Proofs.RowReads
import RecordStore.Proofs.ParallelReads
import RecordStore.Proofs.ScopeTokens
import RecordStore.Proofs.WiredDatabases
import RecordStore.Proofs.WrittenOperands
import RecordStore.Proofs.CancelledResults
import RecordStore.Proofs.ResultOrder
import RecordStore.Proofs.RangedDeletions
import RecordStore.Proofs.AccurateDeletions
import RecordStore.Proofs.RowColumns
import RecordStore.Proofs.UnreadFields
import RecordStore.Proofs.RepeatedPuts
import RecordStore.Proofs.AskedRows
import RecordStore.Proofs.FailedReads
import RecordStore.Proofs.YieldedParts
import RecordStore.Proofs.ProjectedPaths
import RecordStore.Proofs.StoredComparisons
import RecordStore.Proofs.NestedJoins
import RecordStore.Proofs.OrderValues
import RecordStore.Proofs.DraftCalls
