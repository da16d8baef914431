import ExprTree.Node

/-!
# The distinct nodes of a tree

A tree in which nodes occur several times is listed with each node once, before those that it
holds. Listing looks into the queries of constants and not into extensions.
-/

namespace ExprTree

/-- The handles in plain sight: the children and the roots of queries. -/
def Shape.contents {α : Type} : Shape α → List α
  | .extension _ _ => []
  | shape => shape.handles

/-- What is in plain sight is a handle. -/
theorem Shape.mem_handles_of_mem_contents {α : Type} {shape : Shape α} {a : α}
    (h : a ∈ shape.contents) : a ∈ shape.handles := by
  cases shape <;> simp_all [contents]

namespace Node

/-- Puts the node and what it holds, each once, in front of the nodes listed so far. -/
def collect (node : Node) (listed : List Node) : List Node :=
  if listed.any node.same then listed
  else
    node.shape.contents.attach.foldl (fun listed ⟨child, _⟩ => child.collect listed)
      (node :: listed)
termination_by sizeOf node
decreasing_by exact sizeOf_lt_of_mem_handles (Shape.mem_handles_of_mem_contents (by assumption))

/-- The nodes of a tree, each once and before what it holds. -/
def distinct (node : Node) : List Node := (node.collect []).reverse

end Node

end ExprTree
