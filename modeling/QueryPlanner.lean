import QueryPlanner.Token.Reader
import QueryPlanner.Document.OfTree
import QueryPlanner.Schema.Cache
import QueryPlanner.Plan.Printer
import QueryPlanner.Compile
import QueryPlanner.Proofs.Run
import QueryPlanner.Proofs.Lookup
import QueryPlanner.Proofs.Plan.Occurrence
import QueryPlanner.Proofs.Plan.Grouping
import QueryPlanner.Proofs.Plan.Laws
import QueryPlanner.Proofs.Plan.Course
import QueryPlanner.Proofs.Plan.Follows
import QueryPlanner.Proofs.Plan.TypeConditions
import QueryPlanner.Proofs.Plan.VariableConditions
import QueryPlanner.Proofs.Syntax.Grammar
import QueryPlanner.Proofs.Parser.State
import QueryPlanner.Proofs.Parser.Production
import QueryPlanner.Proofs.Parser.Lists
import QueryPlanner.Proofs.Parser.Values
import QueryPlanner.Proofs.Parser.Types
import QueryPlanner.Proofs.Parser.Selections
import QueryPlanner.Proofs.Parser.Definitions
import QueryPlanner.Proofs.Parser.Acceptance
import QueryPlanner.Proofs.Document.Bare
import QueryPlanner.Proofs.Document.RoundTrip
import QueryPlanner.Proofs.Plan.OncePerType
import QueryPlanner.Proofs.Plan.NestedFields
import QueryPlanner.Proofs.Plan.PlannedFields
import QueryPlanner.Proofs.Plan.DocumentOrder
import QueryPlanner.Proofs.Operation.Expansion
import QueryPlanner.Proofs.Operation.Trail
import QueryPlanner.Proofs.Operation.Inlining
import QueryPlanner.Proofs.Operation.Unreached
import QueryPlanner.Proofs.Operation.Choice
import QueryPlanner.Proofs.Operation.Preparation
import QueryPlanner.Proofs.Plan.FieldPlans
import QueryPlanner.Proofs.Plan.EncounterOrder
import QueryPlanner.Proofs.Plan.StreamIndex
import QueryPlanner.Proofs.Plan.Coherence
import QueryPlanner.Proofs.Plan.Addresses
import QueryPlanner.Proofs.Plan.Sightings
import QueryPlanner.Proofs.Plan.Layers
import QueryPlanner.Proofs.Plan.Portions
import QueryPlanner.Proofs.Plan.Deferral
import QueryPlanner.Proofs.Plan.Arrangement
import QueryPlanner.Proofs.Document.Modifier
import QueryPlanner.Proofs.Document.Override
import QueryPlanner.Proofs.Plan.Encounters
import QueryPlanner.Proofs.Plan.FirstFault
import QueryPlanner.Proofs.Token.Coverage
import QueryPlanner.Proofs.Parser.Widening
import QueryPlanner.Proofs.Syntax.Depth
import QueryPlanner.Proofs.Parser.Limits
import QueryPlanner.Proofs.Syntax.Brackets
import QueryPlanner.Proofs.Syntax.Viable
import QueryPlanner.Proofs.Syntax.Mending
import QueryPlanner.Proofs.Parser.Attempt
import QueryPlanner.Proofs.Parser.AttemptSteps
import QueryPlanner.Proofs.Parser.AttemptLists
import QueryPlanner.Proofs.Parser.ValueAttempts
import QueryPlanner.Proofs.Parser.SelectionAttempts
import QueryPlanner.Proofs.Parser.DefinitionAttempts
import QueryPlanner.Proofs.Parser.EntryAttempts
import QueryPlanner.Proofs.Parser.FirstImpossible
import QueryPlanner.Proofs.Parser.DepthErrors
import QueryPlanner.Proofs.Token.BlockValue
import QueryPlanner.Proofs.Document.WellFormed
import QueryPlanner.Proofs.Document.Spelling
import QueryPlanner.Proofs.Document.Image
import QueryPlanner.Proofs.Text.LineEnds
import QueryPlanner.Proofs.Token.Position
import QueryPlanner.Proofs.Document.Children
import QueryPlanner.Proofs.Parser.Covering
import QueryPlanner.Proofs.Parser.Spans
import QueryPlanner.Proofs.Parser.Positions
import QueryPlanner.Proofs.Token.Lookahead
import QueryPlanner.Proofs.Parser.Nesting
import QueryPlanner.Proofs.Token.Fillers
import QueryPlanner.Proofs.Token.Insertion
import QueryPlanner.Proofs.Parser.Insertion
import QueryPlanner.Proofs.Token.Rereading
import QueryPlanner.Proofs.Token.Excerpt
import QueryPlanner.Proofs.Parser.Inside
import QueryPlanner.Proofs.Parser.Derived
import QueryPlanner.Proofs.Parser.Excerpts
import QueryPlanner.Proofs.Operation.Walk
import QueryPlanner.Proofs.Operation.Dependence
import QueryPlanner.Proofs.Plan.Buildable
import QueryPlanner.Proofs.Plan.Subscriptions
import QueryPlanner.Proofs.Plan.Alike
import QueryPlanner.Proofs.Plan.Bare
import QueryPlanner.Proofs.Plan.Simulation
import QueryPlanner.Proofs.Plan.Regrouping
import QueryPlanner.Proofs.Plan.Relocation
import QueryPlanner.Proofs.Plan.Parting
import QueryPlanner.Proofs.Plan.Places
import QueryPlanner.Proofs.Plan.SplitFields
import QueryPlanner.Proofs.Plan.IdleSelections
import QueryPlanner.Proofs.Schema.FieldType
import QueryPlanner.Proofs.Schema.Fields
import QueryPlanner.Proofs.Schema.Cache
import QueryPlanner.Proofs.Schema.Answers
import QueryPlanner.Proofs.Tree.Normal
import QueryPlanner.Proofs.Plan.Reports
import QueryPlanner.Proofs.Plan.Streaming
import QueryPlanner.Proofs.Token.StringGrammar
import QueryPlanner.Proofs.Plan.Outline
import QueryPlanner.Proofs.Plan.Wording
import QueryPlanner.Proofs.Plan.Headings
import QueryPlanner.Proofs.Plan.Names
import QueryPlanner.Proofs.Plan.Legibility
import QueryPlanner.Proofs.Text.Splitting
import QueryPlanner.Proofs.Token.NumberGrammar
import QueryPlanner.Proofs.Token.Surrogates
import QueryPlanner.Proofs.Token.PrintedStrings
import QueryPlanner.Proofs.Memo
import QueryPlanner.Proofs.Parser.Progress
import QueryPlanner.Proofs.Parser.Advances
import QueryPlanner.Proofs.Parser.Rounds
import QueryPlanner.Proofs.Parser.Calls
