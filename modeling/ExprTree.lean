import ExprTree.Equality
import ExprTree.Factory
import ExprTree.Kind
import ExprTree.Member
import ExprTree.Node
import ExprTree.Node.Update
import ExprTree.Number.Binary
import ExprTree.Number.Shortest
import ExprTree.Options
import ExprTree.Outline
import ExprTree.Rules
import ExprTree.Shape
import ExprTree.Shape.Children
import ExprTree.Shape.Map
import ExprTree.Shape.Rewrite
import ExprTree.Shape.Size
import ExprTree.Shape.Walk
import ExprTree.Stamp
import ExprTree.Text.Debug
import ExprTree.Text.Hexadecimal
import ExprTree.Text.Invisible
import ExprTree.Text.Quoted
import ExprTree.Text.Render
import ExprTree.Text.Separated
import ExprTree.Trace
import ExprTree.Traversal.Distinct
import ExprTree.Traversal.Rewrite
import ExprTree.Traversal.Visit
import ExprTree.Traversal.Walk
import ExprTree.Ty
import ExprTree.Value
import ExprTree.View
import ExprTree.View.Parts
import ExprTree.View.Slots
import ExprTree.Proofs.Heap
import ExprTree.Proofs.Skeleton
import ExprTree.Proofs.Agreement
import ExprTree.Proofs.Comparison
import ExprTree.Proofs.NormalForm
import ExprTree.Proofs.Equivalence
import ExprTree.Proofs.Rewriting
import ExprTree.Proofs.Preservation
import ExprTree.Proofs.Identity
import ExprTree.Proofs.QueryGuard
import ExprTree.Proofs.Script
import ExprTree.Proofs.PolicyRefinement
import ExprTree.Proofs.RunOrder
import ExprTree.Proofs.Walking
import ExprTree.Proofs.Places
import ExprTree.Proofs.OneTraversal
import ExprTree.Proofs.EqualWalks
import ExprTree.Proofs.Pruning
import ExprTree.Proofs.Simulation
import ExprTree.Proofs.Substitution
import ExprTree.Proofs.Upkeep
import ExprTree.Proofs.WellFormed
import ExprTree.Proofs.WellFormedRewriting
import ExprTree.Proofs.Construction
import ExprTree.Proofs.Slots
import ExprTree.Proofs.Coherence
import ExprTree.Proofs.Explanation
import ExprTree.Proofs.FoldStep
import ExprTree.Proofs.Sharing
import ExprTree.Proofs.Unfolding
import ExprTree.Proofs.Visiting
import ExprTree.Proofs.PrunedVisits
import ExprTree.Proofs.Searching
import ExprTree.Proofs.Elimination
import ExprTree.Proofs.EqualTexts
import ExprTree.Proofs.World
import ExprTree.Proofs.Updating
import ExprTree.Proofs.PayloadUpdates
import ExprTree.Proofs.EarlyExit
import ExprTree.Proofs.InfixTexts
import ExprTree.Proofs.Fields
import ExprTree.Proofs.ViewPaths
import ExprTree.Proofs.Deconstruction
import ExprTree.Proofs.ViewSessions
