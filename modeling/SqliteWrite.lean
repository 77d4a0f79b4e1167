import SqliteWrite.Lib.Bytes
import SqliteWrite.Lib.Tokens
import SqliteWrite.Lib.Script
import SqliteWrite.Lib.RelyGuarantee
import SqliteWrite.Lib.Interleaving
import SqliteWrite.Lib.Locking
import SqliteWrite.Lib.LastWrites
import SqliteWrite.Lib.Lockstep
import SqliteWrite.Sqlite.Connection
import SqliteWrite.Sqlite.Sql
import SqliteWrite.Sqlite.Relational
import SqliteWrite.Sqlite.Reference
import SqliteWrite.Sqlite.Constraints
import SqliteWrite.Sqlite.PlainTables
import SqliteWrite.Sqlite.KeyedTables
import SqliteWrite.Writer.MiniSQLite
import SqliteWrite.Writer.SQLiteWriter
import SqliteWrite.Writer.Texts
import SqliteWrite.Writer.MethodSpecs
import SqliteWrite.Writer.Frames
import SqliteWrite.Writer.Threads
import SqliteWrite.Writer.StatementCache
import SqliteWrite.Writer.Statements
import SqliteWrite.Writer.CallRules
import SqliteWrite.Writer.ColumnRules
import SqliteWrite.Writer.Transactions
import SqliteWrite.Writer.Durability
import SqliteWrite.Writer.ListedColumns
import SqliteWrite.Writer.ColumnSpellings
import SqliteWrite.Writer.RowStore
import SqliteWrite.Writer.Refinement
import SqliteWrite.Writer.StoredRuns
import SqliteWrite.Writer.SharedFile
import SqliteWrite.Writer.Writers
import SqliteWrite.Writer.Deadline
import SqliteWrite.Writer.Bindings
import SqliteWrite.Lib.Quoting
import SqliteWrite.Writer.Naming
import SqliteWrite.Writer.RefusedNames
import SqliteWrite.Writer.Comparison
import SqliteWrite.Writer.Rejections
import SqliteWrite.Writer.Queries
import SqliteWrite.Writer.Nulls
import SqliteWrite.Lib.Groups
import SqliteWrite.Lib.Decimals
import SqliteWrite.Lib.Outcomes
import SqliteWrite.Postgres.Server
import SqliteWrite.Postgres.PSQLWriter
import SqliteWrite.Postgres.Batches
import SqliteWrite.Postgres.Runs
import SqliteWrite.Postgres.Delivery
import SqliteWrite.Postgres.Schemas
import SqliteWrite.Postgres.Limits
import SqliteWrite.Postgres.Reading
import SqliteWrite.Postgres.Catalog
import SqliteWrite.Postgres.MultiRow
import SqliteWrite.Postgres.Identifiers
import SqliteWrite.Writer.StepLoop
import SqliteWrite.Writer.NewTables
import SqliteWrite.Writer.FieldOrder
import SqliteWrite.Writer.JsonHelper
import SqliteWrite.Writer.TextPaths
import SqliteWrite.Postgres.Commits
import SqliteWrite.Postgres.Prepared
import SqliteWrite.Postgres.Values
import SqliteWrite.Writer.Ledgers
import SqliteWrite.Writer.KeyedStore
import SqliteWrite.Writer.KeyedRows
import SqliteWrite.Writer.Locks
import SqliteWrite.Writer.Crashes
import SqliteWrite.Postgres.Failures
import SqliteWrite.Postgres.Storing
import SqliteWrite.Postgres.Messages
import SqliteWrite.Lib.Heap
import SqliteWrite.Writer.Handles
import SqliteWrite.Writer.HandleSafety
import SqliteWrite.Writer.HandleRuns
import SqliteWrite.Writer.NullStatements
import SqliteWrite.Writer.JsonResults
