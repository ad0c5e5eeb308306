import JakartaCheck.Check.EndpointPath
import JakartaCheck.Check.Hierarchy
import JakartaCheck.Check.Iso8601
import JakartaCheck.Check.JsonPointer
import JakartaCheck.Check.Member
import JakartaCheck.CommandLine
import JakartaCheck.Diagnostic.Basic
import JakartaCheck.Diagnostic.Code
import JakartaCheck.Document.FileUri
import JakartaCheck.Document.Store
import JakartaCheck.Document.Uri
import JakartaCheck.Editor.Encoding
import JakartaCheck.Editor.Message
import JakartaCheck.Editor.Service
import JakartaCheck.Fault
import JakartaCheck.FileTree
import JakartaCheck.Fixes.Catalog
import JakartaCheck.Fixes.Draft
import JakartaCheck.Fixes.Family
import JakartaCheck.Fixes.Imports
import JakartaCheck.Fixes.Proposal
import JakartaCheck.Fixes.Registry
import JakartaCheck.Java.Binding
import JakartaCheck.Java.CompilationUnit
import JakartaCheck.Java.Cursor
import JakartaCheck.Java.Encoding
import JakartaCheck.Java.Grammar
import JakartaCheck.Java.Locating
import JakartaCheck.Java.Node
import JakartaCheck.Java.Productions
import JakartaCheck.Java.Reading
import JakartaCheck.Java.StringLiteral
import JakartaCheck.Java.Token
import JakartaCheck.Java.TypeText
import JakartaCheck.Java.Word
import JakartaCheck.Json.Pretty
import JakartaCheck.Json.Record
import JakartaCheck.Json.Value
import JakartaCheck.Main
import JakartaCheck.Proofs.AddedImport
import JakartaCheck.Proofs.AnnotationConflicts
import JakartaCheck.Proofs.AnnotationLayout
import JakartaCheck.Proofs.AnnotationRemoval
import JakartaCheck.Proofs.BoundAnnotations
import JakartaCheck.Proofs.BoundReferences
import JakartaCheck.Proofs.CallbackParameters
import JakartaCheck.Proofs.ChangeConfinement
import JakartaCheck.Proofs.CommentFreeTrees
import JakartaCheck.Proofs.ConstraintTargets
import JakartaCheck.Proofs.Cutting
import JakartaCheck.Proofs.DatesAndTimes
import JakartaCheck.Proofs.DeclarationPlaces
import JakartaCheck.Proofs.DeclarationSeams
import JakartaCheck.Proofs.DisabledRules
import JakartaCheck.Proofs.DottedNames
import JakartaCheck.Proofs.DraftedChanges
import JakartaCheck.Proofs.DraftedEdits
import JakartaCheck.Proofs.EditLayout
import JakartaCheck.Proofs.EditNormalForm
import JakartaCheck.Proofs.EditReversal
import JakartaCheck.Proofs.EditorExchange
import JakartaCheck.Proofs.FamilyAlternatives
import JakartaCheck.Proofs.FamilyOffers
import JakartaCheck.Proofs.FixCoverage
import JakartaCheck.Proofs.FixRegistration
import JakartaCheck.Proofs.FusedNeighbours
import JakartaCheck.Proofs.GeneratedDates
import JakartaCheck.Proofs.GrammarBrackets
import JakartaCheck.Proofs.GrammarFuel
import JakartaCheck.Proofs.GrammarLocality
import JakartaCheck.Proofs.GrammarMeaning
import JakartaCheck.Proofs.GrammarOrder
import JakartaCheck.Proofs.GrammarReadings
import JakartaCheck.Proofs.GrammarSeams
import JakartaCheck.Proofs.GrammarTransport
import JakartaCheck.Proofs.GrammarTrees
import JakartaCheck.Proofs.ImportEdits
import JakartaCheck.Proofs.InnermostDeclarations
import JakartaCheck.Proofs.JavaItems
import JakartaCheck.Proofs.JavaRules
import JakartaCheck.Proofs.LineEndings
import JakartaCheck.Proofs.LinePositions
import JakartaCheck.Proofs.LineTiling
import JakartaCheck.Proofs.LiteralEscapes
import JakartaCheck.Proofs.MemberOrder
import JakartaCheck.Proofs.ModifierPlacement
import JakartaCheck.Proofs.NameBinding
import JakartaCheck.Proofs.NestedTypeNames
import JakartaCheck.Proofs.NodeEdges
import JakartaCheck.Proofs.ParsedTrees
import JakartaCheck.Proofs.PointersAndPaths
import JakartaCheck.Proofs.PositionOrder
import JakartaCheck.Proofs.Prefilter
import JakartaCheck.Proofs.RuleFindings
import JakartaCheck.Proofs.RuleInterleaving
import JakartaCheck.Proofs.RuleRegistration
import JakartaCheck.Proofs.SourceInsertion
import JakartaCheck.Proofs.SourceLayout
import JakartaCheck.Proofs.SuperclassChains
import JakartaCheck.Proofs.Superclasses
import JakartaCheck.Proofs.SupertypeReachability
import JakartaCheck.Proofs.TextSearch
import JakartaCheck.Proofs.TokenLocality
import JakartaCheck.Proofs.TokenPlaces
import JakartaCheck.Proofs.TokenSeams
import JakartaCheck.Proofs.TokenTexts
import JakartaCheck.Proofs.TreeReading
import JakartaCheck.Proofs.TreeShape
import JakartaCheck.Proofs.TreeWalk
import JakartaCheck.Proofs.TypeNesting
import JakartaCheck.Proofs.TypeReferences
import JakartaCheck.Proofs.TypeSpellings
import JakartaCheck.Proofs.UnitEncoding
import JakartaCheck.Proofs.WellFormedUnits
import JakartaCheck.Registry
import JakartaCheck.Rules.Catalog
import JakartaCheck.Rules.Constraints
import JakartaCheck.Rules.Endpoints
import JakartaCheck.Rules.Engine
import JakartaCheck.Rules.Entities
import JakartaCheck.Rules.Injection
import JakartaCheck.Rules.JsonDocuments
import JakartaCheck.Rules.Lifecycle
import JakartaCheck.Rules.RestResources
import JakartaCheck.Rules.Rule
import JakartaCheck.Rules.Schedule
import JakartaCheck.Rules.Servlets
import JakartaCheck.Settings.Basic
import JakartaCheck.Settings.LogFilter
import JakartaCheck.Text.Blank
import JakartaCheck.Text.Bytes
import JakartaCheck.Text.Edit
import JakartaCheck.Text.Hex
import JakartaCheck.Text.Letter
import JakartaCheck.Text.Lines
import JakartaCheck.Text.Mark
import JakartaCheck.Text.Quoted
import JakartaCheck.Text.Span
import JakartaCheck.Toml.Document
import JakartaCheck.Toml.Scalar
import JakartaCheck.Toml.Table
