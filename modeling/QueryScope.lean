import QueryScope.Text.Caret
import QueryScope.Text.Checked
import QueryScope.Scope.Extract
import QueryScope.Scope.Visibility
import QueryScope.Catalog.Document
import QueryScope.Catalog.StandIn
import QueryScope.Completion.Session
import QueryScope.Samples
import QueryScope.CommandLine.Program
import QueryScope.Main
import QueryScope.Proofs.Parentheses
import QueryScope.Proofs.Utf8
import QueryScope.Proofs.CodeView
import QueryScope.Proofs.Outlines
import QueryScope.Proofs.SubquerySpans
import QueryScope.Proofs.Scanning
import QueryScope.Proofs.JoinModifiers
import QueryScope.Proofs.FromEntries
import QueryScope.Proofs.Nesting
import QueryScope.Proofs.Levels
import QueryScope.Proofs.Masking
import QueryScope.Proofs.ScopeTree
import QueryScope.Proofs.Embedding
import QueryScope.Proofs.Padding
import QueryScope.Proofs.Composition
import QueryScope.Proofs.Boundaries
import QueryScope.Proofs.KeywordHits
import QueryScope.Proofs.Quotes
import QueryScope.Proofs.EntryShapes
import QueryScope.Proofs.Placeholders
import QueryScope.Proofs.EntryPlaces
import QueryScope.Proofs.DerivedLinks
import QueryScope.Proofs.InnermostScope
import QueryScope.Proofs.Ancestry
import QueryScope.Proofs.Continuation
import QueryScope.Proofs.Shown
import QueryScope.Proofs.BareNames
import QueryScope.Proofs.SelectLists
import QueryScope.Proofs.Noninterference
import QueryScope.Proofs.SchemaParts
import QueryScope.Proofs.Partition
import QueryScope.Proofs.LetterCase
import QueryScope.Proofs.WrittenNames
import QueryScope.Proofs.FlatQueries
import QueryScope.Proofs.WrittenItems
import QueryScope.Proofs.WrittenPaths
import QueryScope.Proofs.WrittenEntries
import QueryScope.Proofs.FromRoundTrip
import QueryScope.Proofs.SelectRoundTrip
import QueryScope.Proofs.Patterns
import QueryScope.Proofs.IdentifierPatterns
import QueryScope.Proofs.EntryPatterns
import QueryScope.Proofs.ItemPatterns
import QueryScope.Proofs.CapitalCode
import QueryScope.Proofs.CapitalNames
import QueryScope.Proofs.Alignment
import QueryScope.Proofs.CapitalBlocks
import QueryScope.Proofs.CapitalQueries
import QueryScope.Proofs.CacheRuns
import QueryScope.Proofs.CacheHistory
import QueryScope.Proofs.SessionRuns
import QueryScope.Proofs.Joints
import QueryScope.Proofs.SoundEntries
import QueryScope.Proofs.SoundExtraction
import QueryScope.Proofs.DirectoryLoading
import QueryScope.Proofs.PlainAnswers
import QueryScope.Proofs.EntryOrder
import QueryScope.Proofs.PositionLinks
import QueryScope.Proofs.AliasPlaces
import QueryScope.Proofs.AliasReading
import QueryScope.Proofs.AliasAgreement
import QueryScope.Proofs.FillingLookups
import QueryScope.Proofs.ClauseSpans
import QueryScope.Proofs.AssembledStatements
import QueryScope.Proofs.WholeWords
import QueryScope.Proofs.Collections
import QueryScope.Proofs.Reordering
import QueryScope.Proofs.DirectoryLookups
import QueryScope.Proofs.QualifiedNames
import QueryScope.Proofs.DataTypes
import QueryScope.Proofs.WrittenDocuments
import QueryScope.Proofs.ColumnRoundTrip
import QueryScope.Proofs.DebouncerRuns
import QueryScope.Proofs.ReferencedTables
import QueryScope.Proofs.Blanking
import QueryScope.Proofs.ViewPieces
import QueryScope.Proofs.Unmasking
import QueryScope.Proofs.TopLevelParts
import QueryScope.Proofs.KeywordSearch
import QueryScope.Proofs.CaretOffsets
