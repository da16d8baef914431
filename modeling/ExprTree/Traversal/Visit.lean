import ExprTree.Traversal.Walk

/-!
# Visiting all nodes of a tree

A visitor is a step that is given a node and the action that visits everything below it. The step
decides whether, when and how often to run that action. Visiting children first, pruning and search
are all such steps. Nodes that occur several times are visited at each occurrence.
-/

namespace ExprTree.Node

variable {m : Type → Type} [Monad m] [MonadStamp m]

/-- Visits a tree with a step that is given each node and the visit of what is below it. -/
def visitWith (step : Node → m Unit → m Unit) (node : Node) : m Unit :=
  step node (node.walkBelow fun child _ => visitWith step child)
termination_by node.weight

/-- Runs the action on every node, after the nodes below it. -/
def visit (f : Node → m Unit) : Node → m Unit :=
  visitWith fun node below => do
    below
    f node

/-- Runs the test on every node, before the nodes below it; these are left out if it fails. -/
def visitWhile (p : Node → m Bool) : Node → m Unit :=
  visitWith fun node below => do
    if ← p node then below

/-- Tests nodes before those below them and leaves at the first that passes. -/
def search (p : Node → m Bool) : Node → ExceptT Node m Unit :=
  visitWith fun node below => do
    if ← p node then throw node else below

/-- The first node, counted before those below it, that passes the test. -/
def find (p : Node → m Bool) (node : Node) : m (Option Node) := do
  match ← (node.search p).run with
  | .error found => return some found
  | .ok () => return none

/-- The target, if it occurs in the tree. -/
def findNode (tree target : Node) : m (Option Node) :=
  tree.find fun node => pure (node.same target)

/-- The length of the longest way down, counted in nodes. -/
def depth (node : Node) : m Nat := do
  let step (_ : Node) (below : StateT (Nat × Nat) m Unit) : StateT (Nat × Nat) m Unit := do
    modify fun (current, deepest) => (current + 1, max (current + 1) deepest)
    below
    modify fun (current, deepest) => (current - 1, deepest)
  let (_, _, deepest) ← (node.visitWith step).run (0, 0)
  return deepest

/-- The kinds of the nodes, each before those below it; nodes of the kind `closed` are listed but
not entered. -/
def kindsOutside (closed : Kind) (node : Node) : m (List Kind) := do
  let step (node : Node) (below : StateT (Array Kind) m Unit) : StateT (Array Kind) m Unit := do
    modify (·.push node.kind)
    if node.kind ≠ closed then below
  let (_, kinds) ← (node.visitWith step).run #[]
  return kinds.toList

end ExprTree.Node
