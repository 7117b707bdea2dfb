import DatabaseAdmin.ConnectionManager
import DatabaseAdmin.DumpDrain
import DatabaseAdmin.SplitAgreement
import DatabaseAdmin.SqlQuote
import DatabaseAdmin.ManagerOwners
import DatabaseAdmin.ConnectorPool
import DatabaseAdmin.PgConnector
import DatabaseAdmin.MysqlConnector
import DatabaseAdmin.ReleasedClients
import DatabaseAdmin.SearchPath
import DatabaseAdmin.CurrentDatabase
import DatabaseAdmin.EditTargets
import DatabaseAdmin.RowEditing
import DatabaseAdmin.PagedReads
import DatabaseAdmin.SqlitePaging
import DatabaseAdmin.CursorLeases
import DatabaseAdmin.MysqlPages
import DatabaseAdmin.RunCancels
import DatabaseAdmin.OwnedHandles
import DatabaseAdmin.ReadHandles
import DatabaseAdmin.StatementGuards
import DatabaseAdmin.ConfirmedStatements
import DatabaseAdmin.ReadOnlyGate
import DatabaseAdmin.ExplainEffects
import DatabaseAdmin.Transactions
import DatabaseAdmin.Batches
import DatabaseAdmin.Templates
import DatabaseAdmin.ChangeStatements
import DatabaseAdmin.ChangeTemplates
import DatabaseAdmin.PreviewRendering
import DatabaseAdmin.ChangesetApply
import DatabaseAdmin.DumpRunner
import DatabaseAdmin.CopyLines
import DatabaseAdmin.CopyRouting
import DatabaseAdmin.CopyScript
import DatabaseAdmin.CopyRuns
import DatabaseAdmin.RedisDatabases
import DatabaseAdmin.SchemaCache
import DatabaseAdmin.DdlRuns
import DatabaseAdmin.MigrationScripts
import DatabaseAdmin.MigrationText
import DatabaseAdmin.MigrationRuns
import DatabaseAdmin.SchemaModels
import DatabaseAdmin.DdlCommon
import DatabaseAdmin.SchemaDiffs
import DatabaseAdmin.MigrationPlan
import DatabaseAdmin.SafeDrops
import DatabaseAdmin.SafeSections
import DatabaseAdmin.NamedChanges
import DatabaseAdmin.PgTablePlan
import DatabaseAdmin.BinaryText
import DatabaseAdmin.WireCells
import DatabaseAdmin.CellCoercion
import DatabaseAdmin.TextWriters
import DatabaseAdmin.Patterns
import DatabaseAdmin.DefinerStripper
import DatabaseAdmin.DefinerClauses
import DatabaseAdmin.DocumentExport
import DatabaseAdmin.DirectoryBundles
import DatabaseAdmin.ImportRuns
import DatabaseAdmin.DelimitedText
import DatabaseAdmin.CsvSniffing
import DatabaseAdmin.NullTexts
import DatabaseAdmin.EscapedLines
import DatabaseAdmin.LoadTables
import DatabaseAdmin.MysqlLoads
import DatabaseAdmin.KeyedTables
import DatabaseAdmin.PgLoads
import DatabaseAdmin.SqlFragments
import DatabaseAdmin.SqlScripts
import DatabaseAdmin.SqlDumps
import DatabaseAdmin.DumpScripts
import DatabaseAdmin.JobManager
import DatabaseAdmin.JobBoard
import DatabaseAdmin.JobOrder
import DatabaseAdmin.JobLifecycle
import DatabaseAdmin.LiveEvents
import DatabaseAdmin.ConnectionReports
import DatabaseAdmin.RoutedEvents
import DatabaseAdmin.ConnectionLife
import DatabaseAdmin.ClosedConnections
import DatabaseAdmin.AccessResolver
import DatabaseAdmin.SharedTunnels
import DatabaseAdmin.ProxyProcess
import DatabaseAdmin.ProxyLife
import DatabaseAdmin.KnownHosts
import DatabaseAdmin.SplitCover
import DatabaseAdmin.CompoundBodies
import DatabaseAdmin.SqliteShell
import DatabaseAdmin.SqliteDumps
import DatabaseAdmin.LikePatterns
import DatabaseAdmin.RowFilters
import DatabaseAdmin.FilterMeaning
import DatabaseAdmin.SqliteFilters
import DatabaseAdmin.FormatGuard
import DatabaseAdmin.Placeholders
import DatabaseAdmin.NameSwaps
import DatabaseAdmin.BoundStatements
import DatabaseAdmin.StatementTemplates
import DatabaseAdmin.TokenFragments
import DatabaseAdmin.CopiedRows
import DatabaseAdmin.ScriptRuns
import DatabaseAdmin.MetaCommands
import DatabaseAdmin.TokenDepths
import DatabaseAdmin.RawFilters
import DatabaseAdmin.ArrayText
import DatabaseAdmin.PgPages
import DatabaseAdmin.EditBuffer
import DatabaseAdmin.ReturnedRows
import DatabaseAdmin.PgNumbering
import DatabaseAdmin.SqliteChanges
import DatabaseAdmin.RowAddresses
import DatabaseAdmin.MysqlPreviews
import DatabaseAdmin.PgLiterals
import DatabaseAdmin.Doubles
import DatabaseAdmin.NumberTexts
import DatabaseAdmin.CellEditing
import DatabaseAdmin.DepthFirst
import DatabaseAdmin.TableOrders
import DatabaseAdmin.KeyPairing
import DatabaseAdmin.SchemaDiffer
import DatabaseAdmin.AnchoredLists
import DatabaseAdmin.Placements
import DatabaseAdmin.ComparedSides
import DatabaseAdmin.TableDiffs
import DatabaseAdmin.EmptyDiffs
import DatabaseAdmin.MysqlBits
import DatabaseAdmin.CreatedTables
import DatabaseAdmin.ColumnAlters
import DatabaseAdmin.TemporalTexts
import DatabaseAdmin.InferredTypes
import DatabaseAdmin.CsvRows
import DatabaseAdmin.JsonReader
import DatabaseAdmin.JsonSpelling
import DatabaseAdmin.JsonWriters
import DatabaseAdmin.CopyFields
import DatabaseAdmin.PacketBudgets
import DatabaseAdmin.LoadAccounts
import DatabaseAdmin.MysqlPackets
import DatabaseAdmin.XlsxRows
import DatabaseAdmin.BsonValues
import DatabaseAdmin.BsonCells
import DatabaseAdmin.BsonRoundTrip
import DatabaseAdmin.DocumentRows
import DatabaseAdmin.DocumentPaging
import DatabaseAdmin.NameArrays
import DatabaseAdmin.RedisReplies
import DatabaseAdmin.ClusterScans
import DatabaseAdmin.SetPages
import DatabaseAdmin.StreamPump
import DatabaseAdmin.JobCancels
import DatabaseAdmin.SshLookups
import DatabaseAdmin.RedisWrites
import DatabaseAdmin.NativeDumps
import DatabaseAdmin.WrappedChecks
import DatabaseAdmin.ConfinedPaths
import DatabaseAdmin.AccountRuns
