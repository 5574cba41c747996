import OpenVoxDB.Activation
import OpenVoxDB.AgentFilters
import OpenVoxDB.AgentReports
import OpenVoxDB.AggregateCounts
import OpenVoxDB.Archives
import OpenVoxDB.Broadcast
import OpenVoxDB.BufferDelivery
import OpenVoxDB.Calendar
import OpenVoxDB.CatalogInputs
import OpenVoxDB.CatalogStorage
import OpenVoxDB.Catalogs
import OpenVoxDB.CertnameCounts
import OpenVoxDB.Certnames
import OpenVoxDB.CleanUpRuns
import OpenVoxDB.CleanUps
import OpenVoxDB.CommandBuffer
import OpenVoxDB.CommandCallbacks
import OpenVoxDB.CommandProcessing
import OpenVoxDB.ConcurrencyLimits
import OpenVoxDB.Confluence
import OpenVoxDB.ConnectionBlocks
import OpenVoxDB.DeadLetters
import OpenVoxDB.Decimal
import OpenVoxDB.DefaultReports
import OpenVoxDB.Delimited
import OpenVoxDB.Dict
import OpenVoxDB.DistinctEvents
import OpenVoxDB.DistinctExact
import OpenVoxDB.EdgeResolution
import OpenVoxDB.EdgeSynthesis
import OpenVoxDB.Effects
import OpenVoxDB.Elision
import OpenVoxDB.ElisionExact
import OpenVoxDB.ElisionRows
import OpenVoxDB.EngineOptions
import OpenVoxDB.Entities
import OpenVoxDB.EventAgreement
import OpenVoxDB.EventConversion
import OpenVoxDB.EventCounts
import OpenVoxDB.EventFilters
import OpenVoxDB.ExpansionVisits
import OpenVoxDB.Extracts
import OpenVoxDB.FactFlattening
import OpenVoxDB.FactNames
import OpenVoxDB.FactPathCodec
import OpenVoxDB.FactPathDecoding
import OpenVoxDB.FactPathEncoding
import OpenVoxDB.FactPathGc
import OpenVoxDB.FactPathTwins
import OpenVoxDB.FactPaths
import OpenVoxDB.FactRows
import OpenVoxDB.FactStorage
import OpenVoxDB.FieldComponents
import OpenVoxDB.FieldRoundTrips
import OpenVoxDB.FieldSyntax
import OpenVoxDB.FieldTerminators
import OpenVoxDB.FilePaths
import OpenVoxDB.Framing
import OpenVoxDB.GroupBy
import OpenVoxDB.HttpFailover
import OpenVoxDB.InputReplacement
import OpenVoxDB.Interleaving
import OpenVoxDB.InventoryNodes
import OpenVoxDB.InventoryRedirect
import OpenVoxDB.JoinAgreement
import OpenVoxDB.JoinDropping
import OpenVoxDB.JoinRows
import OpenVoxDB.Json
import OpenVoxDB.Jsonb
import OpenVoxDB.KeySort
import OpenVoxDB.LatestWins
import OpenVoxDB.LeftJoins
import OpenVoxDB.LegacyParams
import OpenVoxDB.LegacyQueries
import OpenVoxDB.Matching
import OpenVoxDB.MetadataCodec
import OpenVoxDB.MigrationRuns
import OpenVoxDB.Migrations
import OpenVoxDB.MonitorDeadlines
import OpenVoxDB.MonitorForget
import OpenVoxDB.NestedMaps
import OpenVoxDB.NodeLifecycle
import OpenVoxDB.NodeSweeps
import OpenVoxDB.OuterQueries
import OpenVoxDB.PackageTables
import OpenVoxDB.PackageUpdates
import OpenVoxDB.Packages
import OpenVoxDB.PartitionPruning
import OpenVoxDB.Partitions
import OpenVoxDB.PathArrays
import OpenVoxDB.PathEquality
import OpenVoxDB.PayloadCoercion
import OpenVoxDB.Payloads
import OpenVoxDB.Placeholders
import OpenVoxDB.PlanOrder
import OpenVoxDB.PlanParams
import OpenVoxDB.PlanSql
import OpenVoxDB.Plans
import OpenVoxDB.PqlAgreement
import OpenVoxDB.PqlFields
import OpenVoxDB.PqlMeaning
import OpenVoxDB.PqlParts
import OpenVoxDB.PqlReadings
import OpenVoxDB.PqlTotality
import OpenVoxDB.PqlTrees
import OpenVoxDB.Protocols
import OpenVoxDB.QueryCriteria
import OpenVoxDB.QueryExpansion
import OpenVoxDB.QueryMonitor
import OpenVoxDB.QueueCounters
import OpenVoxDB.QueueMetadata
import OpenVoxDB.RecursiveQuery
import OpenVoxDB.ReportEvents
import OpenVoxDB.Reports
import OpenVoxDB.ResourceEvents
import OpenVoxDB.ResourceParams
import OpenVoxDB.ResourceRefs
import OpenVoxDB.RubyStrings
import OpenVoxDB.Run
import OpenVoxDB.Semaphore
import OpenVoxDB.SimilarityHash
import OpenVoxDB.SortedMap
import OpenVoxDB.SqlText
import OpenVoxDB.StartupLoading
import OpenVoxDB.Streaming
import OpenVoxDB.StreamingOutcomes
import OpenVoxDB.StreamingProtocol
import OpenVoxDB.Subqueries
import OpenVoxDB.SubqueryAgreement
import OpenVoxDB.SubqueryForms
import OpenVoxDB.SubqueryPasses
import OpenVoxDB.SubqueryPlans
import OpenVoxDB.Success
import OpenVoxDB.TextArray
import OpenVoxDB.Threads
import OpenVoxDB.Time
import OpenVoxDB.TreeVisits
import OpenVoxDB.Truth
import OpenVoxDB.Utf8Truncation
import OpenVoxDB.Zippers
