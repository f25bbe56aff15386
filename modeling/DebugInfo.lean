import DebugInfo.Order
import DebugInfo.Ident
import DebugInfo.Location
import DebugInfo.Config
import DebugInfo.Error
import DebugInfo.StringPool
import DebugInfo.TypeExpr.Basic
import DebugInfo.TypeExpr.Code
import DebugInfo.TypeExpr.Spelling
import DebugInfo.TypeExpr.Key
import DebugInfo.TypeTable.Descriptor
import DebugInfo.TypeTable.Basic
import DebugInfo.TypeTable.Update
import DebugInfo.FirstMatch
import DebugInfo.Declaration
import DebugInfo.Definitions
import DebugInfo.Locals
import DebugInfo.Labels
import DebugInfo.Lifetimes
import DebugInfo.Sections
import DebugInfo.CompilationUnit.Basic
import DebugInfo.CompilationUnit.Types
import DebugInfo.CompilationUnit.Globals
import DebugInfo.CompilationUnit.Blocks
import DebugInfo.CompilationUnit.Output
import DebugInfo.CompilationUnit.Operation
import DebugInfo.Proofs.FirstOccurrences
import DebugInfo.Proofs.Names
import DebugInfo.Proofs.Spelling.Erasure
import DebugInfo.Proofs.Spelling.Reader
import DebugInfo.Proofs.Spelling.ReadBack
import DebugInfo.Proofs.Interning.Unfolding
import DebugInfo.Proofs.Interning.Description
import DebugInfo.Proofs.Interning.Closure
import DebugInfo.Proofs.Interning.Invariant
import DebugInfo.Proofs.Interning.Soundness
import DebugInfo.Proofs.Interning.Shapes
import DebugInfo.Proofs.Interning.Run
import DebugInfo.Proofs.Interning.Kinds
import DebugInfo.Proofs.Interning.Appending
import DebugInfo.Proofs.Lifetimes.Machines
import DebugInfo.Proofs.Lifetimes.Refinement
import DebugInfo.Proofs.Lifetimes.Reordering
import DebugInfo.Proofs.Lifetimes.Keys
import DebugInfo.Proofs.Lifetimes.OpenRanges
import DebugInfo.Proofs.Lifetimes.Nesting
import DebugInfo.Proofs.Lifetimes.Chronology
import DebugInfo.Proofs.Definitions.Cases
import DebugInfo.Proofs.Definitions.Grounded
import DebugInfo.Proofs.IdSpace.Supply
import DebugInfo.Proofs.Persistence.Entries
import DebugInfo.Proofs.Definitions.Changes
import DebugInfo.Proofs.Definitions.Convergence
import DebugInfo.Proofs.Locals.Cases
import DebugInfo.Proofs.Locals.Changes
import DebugInfo.Proofs.Locals.Mirroring
import DebugInfo.Proofs.Unit.Execution
import DebugInfo.Proofs.Unit.Cases
import DebugInfo.Proofs.Unit.Declarations
import DebugInfo.Proofs.Unit.Steps
import DebugInfo.Proofs.IdSpace.Run
import DebugInfo.Proofs.Persistence.Run
import DebugInfo.Proofs.Attributes
import DebugInfo.Proofs.Scopes.Quiet
import DebugInfo.Proofs.Scopes.FanOut
import DebugInfo.Proofs.Links.Types
import DebugInfo.Proofs.Interning.Replacement
import DebugInfo.Proofs.Interning.BottomUp
import DebugInfo.Proofs.Links.Locals
import DebugInfo.Proofs.Links.Unit
import DebugInfo.Proofs.Links.Run
import DebugInfo.Proofs.Unit.Coherence
import DebugInfo.Proofs.Unit.Mentions
import DebugInfo.Proofs.Unit.TypeDefinitions
import DebugInfo.Proofs.Failure.Tables
import DebugInfo.Proofs.Updates.Framing
import DebugInfo.Proofs.Updates.Independence
import DebugInfo.Proofs.Failure.Misuse
import DebugInfo.Proofs.Failure.InPlace
import DebugInfo.Proofs.Failure.Refusal
import DebugInfo.Proofs.Symbols.Naming
import DebugInfo.Proofs.Symbols.Run
import DebugInfo.Proofs.Unit.Frames
import DebugInfo.Proofs.Levels.Correspondence
import DebugInfo.Proofs.Levels.Run
import DebugInfo.Proofs.Files.Numbers
import DebugInfo.Proofs.Files.Registration
import DebugInfo.Proofs.Files.Enumeration
import DebugInfo.Proofs.Files.Locations
import DebugInfo.Proofs.Files.Run
import DebugInfo.Proofs.Locals.Run
import DebugInfo.Proofs.Locals.Tree
import DebugInfo.Proofs.Locals.Forest
import DebugInfo.Proofs.Locals.Keys
import DebugInfo.Proofs.Interning.Permutation
import DebugInfo.Proofs.Interning.Leaves
import DebugInfo.Proofs.Isolation
import DebugInfo.Proofs.History.Occurrences
import DebugInfo.Proofs.History.Writes
import DebugInfo.Proofs.History.Functions
import DebugInfo.Proofs.History.Variables
import DebugInfo.Proofs.History.Completions
import DebugInfo.Proofs.History.Types
import DebugInfo.Proofs.History.Redeclaration
