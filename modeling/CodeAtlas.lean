import CodeAtlas.Code.Basic
import CodeAtlas.Config.Basic
import CodeAtlas.Config.Library
import CodeAtlas.Config.Load
import CodeAtlas.Config.Validation
import CodeAtlas.Console.Arguments
import CodeAtlas.Console.Output
import CodeAtlas.Console.Report
import CodeAtlas.Console.Run
import CodeAtlas.DeadCode
import CodeAtlas.Decimal.Binary
import CodeAtlas.Decimal.Fixed
import CodeAtlas.Decimal.Numeral
import CodeAtlas.Decimal.Shortest
import CodeAtlas.Digest.Md5
import CodeAtlas.Graph.Basic
import CodeAtlas.Graph.CallLinks
import CodeAtlas.Graph.CallTree
import CodeAtlas.Graph.Declare
import CodeAtlas.Graph.Hierarchy
import CodeAtlas.Graph.Mutation
import CodeAtlas.Graph.Removal
import CodeAtlas.Graph.Resolve
import CodeAtlas.HashCache
import CodeAtlas.Host.Document
import CodeAtlas.Host.Document.Bytes
import CodeAtlas.Host.Document.Token
import CodeAtlas.Host.EnvFile
import CodeAtlas.Host.Library
import CodeAtlas.Host.Value
import CodeAtlas.Inference.Expression
import CodeAtlas.Inference.Record
import CodeAtlas.Inference.Strategy
import CodeAtlas.Json.Basic
import CodeAtlas.Json.Display
import CodeAtlas.Json.Nesting
import CodeAtlas.Json.Reader
import CodeAtlas.Json.Writer
import CodeAtlas.Main
import CodeAtlas.Naming.Plural
import CodeAtlas.Naming.Words
import CodeAtlas.OrderedMap
import CodeAtlas.Project.Components
import CodeAtlas.Project.Ingest
import CodeAtlas.Project.Run
import CodeAtlas.Project.Session
import CodeAtlas.Proofs.AbsoluteSuperclasses
import CodeAtlas.Proofs.AvailableMethods
import CodeAtlas.Proofs.Batching
import CodeAtlas.Proofs.Bookkeeping
import CodeAtlas.Proofs.CacheRoundTrip
import CodeAtlas.Proofs.CacheWrites
import CodeAtlas.Proofs.CallColumns
import CodeAtlas.Proofs.CallMirror
import CodeAtlas.Proofs.CallOrder
import CodeAtlas.Proofs.CallResolution
import CodeAtlas.Proofs.CallerTrees
import CodeAtlas.Proofs.ClassHeaders
import CodeAtlas.Proofs.CompleteRuns
import CodeAtlas.Proofs.Confidence
import CodeAtlas.Proofs.ConstantLookup
import CodeAtlas.Proofs.Contribution
import CodeAtlas.Proofs.DeadClasses
import CodeAtlas.Proofs.DeadMethods
import CodeAtlas.Proofs.Declarations
import CodeAtlas.Proofs.Deletion
import CodeAtlas.Proofs.DepthFirst
import CodeAtlas.Proofs.DistinctNames
import CodeAtlas.Proofs.FileCalls
import CodeAtlas.Proofs.FileDeletion
import CodeAtlas.Proofs.FileEvents
import CodeAtlas.Proofs.FileOrder
import CodeAtlas.Proofs.FileTexts
import CodeAtlas.Proofs.FileWriting
import CodeAtlas.Proofs.Frames
import CodeAtlas.Proofs.HeaderLines
import CodeAtlas.Proofs.HeaderSpans
import CodeAtlas.Proofs.HeredocBodies
import CodeAtlas.Proofs.HierarchyWalks
import CodeAtlas.Proofs.JsonReading
import CodeAtlas.Proofs.Libraries
import CodeAtlas.Proofs.LineReading
import CodeAtlas.Proofs.Listed
import CodeAtlas.Proofs.Locality
import CodeAtlas.Proofs.Lookups
import CodeAtlas.Proofs.MemberTypes
import CodeAtlas.Proofs.MethodLists
import CodeAtlas.Proofs.MethodLookup
import CodeAtlas.Proofs.ModuleUsers
import CodeAtlas.Proofs.NameLookup
import CodeAtlas.Proofs.NameMatching
import CodeAtlas.Proofs.ParameterLists
import CodeAtlas.Proofs.ParameterReading
import CodeAtlas.Proofs.Paths
import CodeAtlas.Proofs.PluralForms
import CodeAtlas.Proofs.ProgramLines
import CodeAtlas.Proofs.Programs
import CodeAtlas.Proofs.ProjectFiles
import CodeAtlas.Proofs.ProperTrees
import CodeAtlas.Proofs.QuotedReading
import CodeAtlas.Proofs.ReceiverChains
import CodeAtlas.Proofs.Receivers
import CodeAtlas.Proofs.Reconstruction
import CodeAtlas.Proofs.RecordedCalls
import CodeAtlas.Proofs.RepeatedRuns
import CodeAtlas.Proofs.Restart
import CodeAtlas.Proofs.Retraction
import CodeAtlas.Proofs.RouteLines
import CodeAtlas.Proofs.RouteLookup
import CodeAtlas.Proofs.RouteNesting
import CodeAtlas.Proofs.RouteText
import CodeAtlas.Proofs.RunEnds
import CodeAtlas.Proofs.ScanComposition
import CodeAtlas.Proofs.ScannerInvariants
import CodeAtlas.Proofs.ScannerSteps
import CodeAtlas.Proofs.ScannerTurns
import CodeAtlas.Proofs.SchemaLines
import CodeAtlas.Proofs.SchemaTables
import CodeAtlas.Proofs.SchemaText
import CodeAtlas.Proofs.Scopes
import CodeAtlas.Proofs.SessionHistory
import CodeAtlas.Proofs.SettingBounds
import CodeAtlas.Proofs.SettingLayers
import CodeAtlas.Proofs.ShortNames
import CodeAtlas.Proofs.Spellings
import CodeAtlas.Proofs.StoredClasses
import CodeAtlas.Proofs.StoredHashes
import CodeAtlas.Proofs.StringContents
import CodeAtlas.Proofs.Subclasses
import CodeAtlas.Proofs.SuperclassOrigins
import CodeAtlas.Proofs.Superclasses
import CodeAtlas.Proofs.TableBlocks
import CodeAtlas.Proofs.TextSearch
import CodeAtlas.Proofs.TierOrder
import CodeAtlas.Proofs.TopResults
import CodeAtlas.Proofs.TypeEvidence
import CodeAtlas.Proofs.UseCounts
import CodeAtlas.References
import CodeAtlas.Routes.Reader
import CodeAtlas.Routes.Route
import CodeAtlas.Schema.Reader
import CodeAtlas.Schema.Table
import CodeAtlas.Search.Engine
import CodeAtlas.Search.Match
import CodeAtlas.Search.Order
import CodeAtlas.Search.Order.Merge
import CodeAtlas.Search.Order.Run
import CodeAtlas.Search.Ranking
import CodeAtlas.Source.Call
import CodeAtlas.Source.Header
import CodeAtlas.Source.Node
import CodeAtlas.Source.Parameters
import CodeAtlas.Source.Sanitize
import CodeAtlas.Source.Scanner
import CodeAtlas.Source.Statement
import CodeAtlas.Source.Token
import CodeAtlas.Text.Blank
import CodeAtlas.Text.Case
import CodeAtlas.Text.CaseTable
import CodeAtlas.Text.Digit
import CodeAtlas.Text.Lines
import CodeAtlas.Text.Printable
import CodeAtlas.Text.Quoted
import CodeAtlas.Text.Range
import CodeAtlas.Text.Scan
import CodeAtlas.Text.Split
import CodeAtlas.Text.Utf8
import CodeAtlas.Text.Wildcard
import CodeAtlas.Text.Word
import CodeAtlas.Walk
import CodeAtlas.Workspace.Discovery
import CodeAtlas.Workspace.Fault
import CodeAtlas.Workspace.FileTree
import CodeAtlas.Workspace.Path
