import ExprTree.Shape.Size

/-!
# Nodes

A node is a stamp, a kind, a static type and a shape whose handles are nodes. Nodes are immutable.
Two handles are the same node when the stamps agree; comparing trees by what they hold is the work
of structural equality. Kind and shape are kept apart here; that their families agree is a property
of the nodes that the constructors of `ExprTree.Factory` build (`Node.isCoherent`).
-/

namespace ExprTree

/-- A node of an expression tree. -/
structure Node where
  /-- The identity of the node. -/
  stamp : Stamp
  /-- What the node does. -/
  kind : Kind
  /-- The type of the value that the node gives. -/
  type : Ty
  /-- What the node holds. -/
  shape : Shape Node

namespace Node

/-- The two are one node. -/
def same (a b : Node) : Bool := a.stamp = b.stamp

/-- The family of the kind. -/
def family (node : Node) : Family := node.kind.family

/-- The shape is that of the kind's family. -/
def isCoherent (node : Node) : Bool := node.kind.family = node.shape.family

/-- Creates a node. -/
def make {m : Type → Type} [Monad m] [MonadStamp m] (kind : Kind) (type : Ty)
    (shape : Shape Node) : m Node := do
  return ⟨← fresh, kind, type, shape⟩

/-- A handle of the shape is smaller than the node. -/
theorem sizeOf_lt_of_mem_handles {node child : Node} (h : child ∈ node.shape.handles) :
    sizeOf child < sizeOf node := by
  have := Shape.sizeOf_lt_of_mem_handles h
  cases node
  simp_all
  omega

/-- The operands of a binary node, left and right. -/
def asBinary? (node : Node) : Option (Node × Node) :=
  match node.shape with
  | .binary left _ right _ _ => some (left, right)
  | _ => none

/-- The operand of a unary node. -/
def asUnary? (node : Node) : Option (Option Node) :=
  match node.shape with
  | .unary operand _ => some operand
  | _ => none

/-- Body and parameters of a lambda. -/
def asLambda? (node : Node) : Option (Node × List Node) :=
  match node.shape with
  | .lambda body parameters _ _ => some (body, parameters)
  | _ => none

/-- The name of a parameter, and whether it is passed by reference. -/
def asParameter? (node : Node) : Option (Option String × Bool) :=
  match node.shape with
  | .parameter name byRef => some (name, byRef)
  | _ => none

/-- The payload of a constant. -/
def asConstant? (node : Node) : Option (Value Node) :=
  match node.shape with
  | .constant value => some value
  | _ => none

end Node

namespace Value

/-- Equality by value of payloads; the roots of queries are compared by identity. -/
def beq (a b : Value Node) : Bool := a.equal Node.same b

/-- The two payloads are one instance. -/
def same (a b : Value Node) : Bool := a.sameInstance Node.same b

end Value

end ExprTree
