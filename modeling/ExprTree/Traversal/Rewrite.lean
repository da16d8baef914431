import ExprTree.Factory
import ExprTree.Shape.Rewrite
import ExprTree.Trace

/-!
# Rewriting trees

A folder is a step that is given a node and the action that rewrites what is below it and gives
the node over the results. A node whose children are all kept is kept itself. Leaves are kept, and
an extension is a leaf here: it is not reduced.

Backward, a function is applied to each node after the nodes below it were rewritten. Forward, it
is applied to a node first; if it gives another node, that one is the result and is not entered.
-/

namespace ExprTree

namespace Node

variable {m : Type → Type} [Monad m] [MonadStamp m]

/-- Rewrites a tree with a step that is given each node and the rewriting of what is below it. -/
def foldWith (step : Node → m Node → m Node) (node : Node) : m Node :=
  step node
    (if node.shape.isLeaf then pure node
    else do
      let shape ← node.shape.attach.rewrite Subtype.val fun ⟨child, _⟩ => foldWith step child
      node.rebuild shape)
termination_by sizeOf node
decreasing_by exact sizeOf_lt_of_mem_handles (by assumption)

/-- Rewrites a tree by a function that gives a node back to keep it. -/
def rewrite (direction : Direction) (f : Node → m Node) : Node → m Node :=
  match direction with
  | .backward => foldWith fun _ below => do f (← below)
  | .forward => foldWith fun node below => do
    let replaced ← f node
    if replaced.same node then below else pure replaced

/-- `Node.rewrite`, reported as an event. -/
def transform [MonadTrace m] (direction : Direction) (f : Node → m Node) (node : Node) :
    m Node := do
  emit (.transforming direction node.kind)
  node.rewrite direction f

/-- Rewrites nothing. -/
def refold : Node → m Node := foldWith fun _ below => below

/-- Puts the replacement in the place of the target wherever that occurs in the tree. -/
def substitute (tree target replacement : Node) : m Node :=
  tree.foldWith fun node below => if node.same target then pure replacement else below

/-- Directs all jumps to one target, and counts them. -/
def retarget (tree : Node) (target : LabelTarget) : m (Node × Nat) :=
  let step (_ : Node) (below : StateT Nat m Node) : StateT Nat m Node := do
    let rebuilt ← below
    match rebuilt.shape with
    | .goto jump _ value => do
      modify (· + 1)
      Factory.goto jump target value
    | _ => pure rebuilt
  (tree.foldWith step).run 0

end Node

end ExprTree
