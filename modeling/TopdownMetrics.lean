import TopdownMetrics.CommandLine.Arguments
import TopdownMetrics.CommandLine.Run
import TopdownMetrics.Csv.Reader
import TopdownMetrics.Diagnostic
import TopdownMetrics.Events.Catalog
import TopdownMetrics.Events.Event
import TopdownMetrics.Events.Store
import TopdownMetrics.Events.Topic
import TopdownMetrics.Events.Uncore
import TopdownMetrics.Files.Access
import TopdownMetrics.Files.Path
import TopdownMetrics.Files.Source
import TopdownMetrics.Files.Tree
import TopdownMetrics.Formula.Error
import TopdownMetrics.Formula.Expr
import TopdownMetrics.Formula.Lexer
import TopdownMetrics.Formula.Parser
import TopdownMetrics.Formula.References
import TopdownMetrics.Formula.Resolve
import TopdownMetrics.Formula.Simplify
import TopdownMetrics.Formula.Token
import TopdownMetrics.Generation.Generate
import TopdownMetrics.Generation.ModelMetrics
import TopdownMetrics.Generation.Request
import TopdownMetrics.Json.Number
import TopdownMetrics.Json.Printer
import TopdownMetrics.Json.Reader
import TopdownMetrics.Json.Record
import TopdownMetrics.Json.Value
import TopdownMetrics.Main
import TopdownMetrics.Metrics.Draft
import TopdownMetrics.Metrics.Emission
import TopdownMetrics.Metrics.Extraction
import TopdownMetrics.Metrics.File
import TopdownMetrics.Metrics.IdleStates
import TopdownMetrics.Metrics.Metric
import TopdownMetrics.Metrics.ReferenceCheck
import TopdownMetrics.Metrics.Report
import TopdownMetrics.Models.Mapfile
import TopdownMetrics.Models.Model
import TopdownMetrics.Models.Pattern
import TopdownMetrics.Number.Binary64
import TopdownMetrics.Number.Decimal
import TopdownMetrics.Number.Layout
import TopdownMetrics.Number.Shortest
import TopdownMetrics.Proofs.Accounting
import TopdownMetrics.Proofs.AddedFiles
import TopdownMetrics.Proofs.AuxiliaryRows
import TopdownMetrics.Proofs.BareSeparators
import TopdownMetrics.Proofs.ByteCuts
import TopdownMetrics.Proofs.CellSelection
import TopdownMetrics.Proofs.ChildReferences
import TopdownMetrics.Proofs.CleanedValues
import TopdownMetrics.Proofs.Coefficient
import TopdownMetrics.Proofs.CommonPrefixes
import TopdownMetrics.Proofs.CompanionSlots
import TopdownMetrics.Proofs.DefinitionDepth
import TopdownMetrics.Proofs.EmittedRecords
import TopdownMetrics.Proofs.Evaluation
import TopdownMetrics.Proofs.EventSpellings
import TopdownMetrics.Proofs.ExtendedMasks
import TopdownMetrics.Proofs.FilledTable
import TopdownMetrics.Proofs.FilterValues
import TopdownMetrics.Proofs.FirstDrafts
import TopdownMetrics.Proofs.FirstPlaces
import TopdownMetrics.Proofs.Grammar
import TopdownMetrics.Proofs.GroupLists
import TopdownMetrics.Proofs.Hierarchy
import TopdownMetrics.Proofs.IdentifierPatterns
import TopdownMetrics.Proofs.IndependentModels
import TopdownMetrics.Proofs.InlinedNodes
import TopdownMetrics.Proofs.JsonStrings
import TopdownMetrics.Proofs.KeptQualifiers
import TopdownMetrics.Proofs.LevelColumns
import TopdownMetrics.Proofs.LexedParts
import TopdownMetrics.Proofs.Lexing
import TopdownMetrics.Proofs.MapfileModels
import TopdownMetrics.Proofs.Meaning
import TopdownMetrics.Proofs.MetricsFile
import TopdownMetrics.Proofs.ModelRecords
import TopdownMetrics.Proofs.NormalForms
import TopdownMetrics.Proofs.NumericWords
import TopdownMetrics.Proofs.PairedRuns
import TopdownMetrics.Proofs.ParserRun
import TopdownMetrics.Proofs.Parsing
import TopdownMetrics.Proofs.PlannedReleases
import TopdownMetrics.Proofs.Precedence
import TopdownMetrics.Proofs.RecordOrigins
import TopdownMetrics.Proofs.RegisteredEvents
import TopdownMetrics.Proofs.ReleaseNames
import TopdownMetrics.Proofs.ReleasePaths
import TopdownMetrics.Proofs.ReleasedTrees
import TopdownMetrics.Proofs.RenderedWords
import TopdownMetrics.Proofs.Rendering
import TopdownMetrics.Proofs.Replacing
import TopdownMetrics.Proofs.ResolvedMeaning
import TopdownMetrics.Proofs.ResolvedRendering
import TopdownMetrics.Proofs.Rewriting
import TopdownMetrics.Proofs.RewrittenRecords
import TopdownMetrics.Proofs.Rounding
import TopdownMetrics.Proofs.RowReferences
import TopdownMetrics.Proofs.SamplingHints
import TopdownMetrics.Proofs.SelfConsistency
import TopdownMetrics.Proofs.SentenceEnds
import TopdownMetrics.Proofs.SeparateSources
import TopdownMetrics.Proofs.SharedLongnames
import TopdownMetrics.Proofs.Shortest
import TopdownMetrics.Proofs.SimplifiedValue
import TopdownMetrics.Proofs.StagedGeneration
import TopdownMetrics.Proofs.StoreIndex
import TopdownMetrics.Proofs.StoredRecords
import TopdownMetrics.Proofs.TokenSpans
import TopdownMetrics.Proofs.TrailingElse
import TopdownMetrics.Proofs.TreeWalks
import TopdownMetrics.Proofs.Trimming
import TopdownMetrics.Proofs.UnitMarks
import TopdownMetrics.Proofs.UnscreenedMetrics
import TopdownMetrics.Proofs.ZeroFixups
import TopdownMetrics.Proofs.ZeroTerms
import TopdownMetrics.Release.FileName
import TopdownMetrics.Release.Write
import TopdownMetrics.Rules.Basic
import TopdownMetrics.Rules.Builtin
import TopdownMetrics.Rules.Document
import TopdownMetrics.Rules.Fixup
import TopdownMetrics.Table.Build
import TopdownMetrics.Table.Header
import TopdownMetrics.Table.Locate
import TopdownMetrics.Table.SymbolTable
import TopdownMetrics.Text.Blank
import TopdownMetrics.Text.Case
import TopdownMetrics.Text.CaseData
import TopdownMetrics.Text.Glob
import TopdownMetrics.Text.Hidden
import TopdownMetrics.Text.Quoted
import TopdownMetrics.Text.Scanner
import TopdownMetrics.Text.Sorted
import TopdownMetrics.Text.Substring
import TopdownMetrics.Toml.Document
import TopdownMetrics.Toml.Scalar
import TopdownMetrics.Toml.Value
import TopdownMetrics.Proofs.LexicalErrors
import TopdownMetrics.Proofs.TopicRanking
