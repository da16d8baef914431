import ExprTree.Node

/-!
# Rebuilding nodes

A node is rebuilt from a new shape of its family and keeps its kind and static type. If the new
shape holds the same instances and equal fields as the old one, the result is the node itself;
otherwise it is a new node. Initializers, bindings, cases and handlers are rebuilt in the same way.

Children, nested structures, label targets and extensions are compared by identity, all other
fields by equality, and the payload of a constant by `Value.same`.
-/

namespace ExprTree

/-- Both absent, or the same node. -/
def sameOption : Option Node → Option Node → Bool
  | some a, some b => a.same b
  | none, none => true
  | _, _ => false

/-- The lists have the same length and `same` holds of the items at each place. -/
def sameItems {α : Type} (same : α → α → Bool) : List α → List α → Bool
  | [], [] => true
  | a :: as, b :: bs => same a b && sameItems same as bs
  | _, _ => false

/-- The same nodes in the same order. -/
def sameNodes : List Node → List Node → Bool := sameItems Node.same

/-- Both absent, or the same target. -/
def sameTarget : Option LabelTarget → Option LabelTarget → Bool
  | some a, some b => a.same b
  | none, none => true
  | _, _ => false

namespace ElementInit

/-- The two are one initializer. -/
def same (a b : ElementInit Node) : Bool := a.stamp = b.stamp

/-- Creates an initializer. -/
def make {m : Type → Type} [Monad m] [MonadStamp m] (method : Method) (arguments : List Node) :
    m (ElementInit Node) := do
  return ⟨← fresh, method, arguments⟩

/-- The initializer with new arguments; itself if they are the old ones. -/
def update {m : Type → Type} [Monad m] [MonadStamp m] (init : ElementInit Node)
    (arguments : List Node) : m (ElementInit Node) :=
  if sameNodes arguments init.arguments then pure init else make init.method arguments

end ElementInit

namespace Binding

/-- The two are one binding. -/
def same (a b : Binding Node) : Bool := a.stamp = b.stamp

/-- The same member is bound in the same way to the same instances. -/
def identical : Binding Node → Binding Node → Bool
  | .assignment _ member value, .assignment _ member' value' =>
    member = member' && value.same value'
  | .list _ member inits, .list _ member' inits' =>
    member = member' && sameItems ElementInit.same inits inits'
  | .nested _ member bindings, .nested _ member' bindings' =>
    member = member' && sameItems same bindings bindings'
  | _, _ => false

/-- Creates the assignment of a value. -/
def makeAssignment {m : Type → Type} [Monad m] [MonadStamp m] (member : Member) (value : Node) :
    m (Binding Node) := do
  return .assignment (← fresh) member value

/-- Creates the initialization of a collection. -/
def makeList {m : Type → Type} [Monad m] [MonadStamp m] (member : Member)
    (initializers : List (ElementInit Node)) : m (Binding Node) := do
  return .list (← fresh) member initializers

/-- Creates the initialization of an object. -/
def makeNested {m : Type → Type} [Monad m] [MonadStamp m] (member : Member)
    (bindings : List (Binding Node)) : m (Binding Node) := do
  return .nested (← fresh) member bindings

/-- The binding with the contents of another; itself if they are its own. -/
def update {m : Type → Type} [Monad m] [MonadStamp m] (binding contents : Binding Node) :
    m (Binding Node) :=
  if contents.identical binding then pure binding
  else return contents.withStamp (← fresh)

end Binding

namespace SwitchCase

/-- The two are one case. -/
def same (a b : SwitchCase Node) : Bool := a.stamp = b.stamp

/-- Creates a case. -/
def make {m : Type → Type} [Monad m] [MonadStamp m] (tests : List Node) (body : Node) :
    m (SwitchCase Node) := do
  return ⟨← fresh, tests, body⟩

/-- The case with new parts; itself if they are the old ones. -/
def update {m : Type → Type} [Monad m] [MonadStamp m] (branch : SwitchCase Node)
    (tests : List Node) (body : Node) : m (SwitchCase Node) :=
  if sameNodes tests branch.tests && body.same branch.body then pure branch
  else make tests body

end SwitchCase

namespace Handler

/-- The two are one handler. -/
def same (a b : Handler Node) : Bool := a.stamp = b.stamp

/-- Creates a handler. -/
def make {m : Type → Type} [Monad m] [MonadStamp m] (caught : Ty) (bound filter : Option Node)
    (body : Node) : m (Handler Node) := do
  return ⟨← fresh, caught, bound, filter, body⟩

/-- The handler with new parts; itself if they are the old ones. -/
def update {m : Type → Type} [Monad m] [MonadStamp m] (handler : Handler Node)
    (bound filter : Option Node) (body : Node) : m (Handler Node) :=
  if sameOption bound handler.bound && sameOption filter handler.filter && body.same handler.body
  then pure handler
  else make handler.caught bound filter body

end Handler

namespace Shape

/-- The two shapes hold the same instances and equal fields. -/
def identical : Shape Node → Shape Node → Bool
  | .binary left conversion right method lifted, .binary left' conversion' right' method' lifted' =>
    left.same left' && right.same right' && sameOption conversion conversion' &&
      method = method' && lifted = lifted'
  | .unary operand method, .unary operand' method' =>
    sameOption operand operand' && method = method'
  | .call object method arguments, .call object' method' arguments' =>
    sameOption object object' && sameNodes arguments arguments' && method = method'
  | .conditional test ifTrue ifFalse, .conditional test' ifTrue' ifFalse' =>
    test.same test' && ifTrue.same ifTrue' && ifFalse.same ifFalse'
  | .invoke callee arguments, .invoke callee' arguments' =>
    callee.same callee' && sameNodes arguments arguments'
  | .lambda body parameters name tailCall, .lambda body' parameters' name' tailCall' =>
    body.same body' && sameNodes parameters parameters' && name = name' && tailCall = tailCall'
  | .listInit creation inits, .listInit creation' inits' =>
    creation.same creation' && sameItems ElementInit.same inits inits'
  | .memberAccess object member, .memberAccess object' member' =>
    sameOption object object' && member = member'
  | .memberInit creation bindings, .memberInit creation' bindings' =>
    creation.same creation' && sameItems Binding.same bindings bindings'
  | .new constructor arguments members, .new constructor' arguments' members' =>
    sameNodes arguments arguments' && constructor = constructor' && members = members'
  | .newArray items, .newArray items' => sameNodes items items'
  | .typeBinary operand type, .typeBinary operand' type' => operand.same operand' && type = type'
  | .block locals statements, .block locals' statements' =>
    sameNodes locals locals' && sameNodes statements statements'
  | .dynamic binder delegate arguments, .dynamic binder' delegate' arguments' =>
    sameNodes arguments arguments' && binder = binder' && delegate = delegate'
  | .goto jump target value, .goto jump' target' value' =>
    sameOption value value' && jump = jump' && target.same target'
  | .index object indexer arguments, .index object' indexer' arguments' =>
    object.same object' && sameNodes arguments arguments' && indexer = indexer'
  | .label target value, .label target' value' => sameOption value value' && target.same target'
  | .runtimeVariables locals, .runtimeVariables locals' => sameNodes locals locals'
  | .loop body breakTarget continueTarget, .loop body' breakTarget' continueTarget' =>
    body.same body' && sameTarget breakTarget breakTarget' &&
      sameTarget continueTarget continueTarget'
  | .switch subject cases otherwise comparison, .switch subject' cases' otherwise' comparison' =>
    subject.same subject' && sameItems SwitchCase.same cases cases' &&
      sameOption otherwise otherwise' && comparison = comparison'
  | .tryCatch body handlers cleanup fault, .tryCatch body' handlers' cleanup' fault' =>
    body.same body' && sameItems Handler.same handlers handlers' &&
      sameOption cleanup cleanup' && sameOption fault fault'
  | .extension stamp _, .extension stamp' _ => stamp = stamp'
  | .debugInfo document span, .debugInfo document' span' => document = document' && span = span'
  | .parameter name byRef, .parameter name' byRef' => name = name' && byRef = byRef'
  | .constant value, .constant value' => value.same value'
  | .default, .default => true
  | _, _ => false

end Shape

/-- A node was to be rebuilt from a shape of another family. -/
structure RebuildError where
  /-- The kind of the node. -/
  kind : Kind
  /-- The family of the shape. -/
  family : Family

/-- What is reported when a node cannot be rebuilt. -/
def RebuildError.message (error : RebuildError) : String :=
  "cannot rebuild a " ++ error.kind.name ++ " node from " ++ error.family.name ++ " data"

namespace Node

variable {m : Type → Type} [Monad m] [MonadStamp m]

/-- The node with a shape of its own family; itself if the shape is identical to its own. -/
def rebuild (node : Node) (shape : Shape Node) : m Node :=
  if shape.identical node.shape then pure node else make node.kind node.type shape

/-- The node with a new shape. A shape of another family is refused. -/
def update (node : Node) (shape : Shape Node) : m (Except RebuildError Node) :=
  if shape.family = node.family then .ok <$> node.rebuild shape
  else pure (.error ⟨node.kind, shape.family⟩)

end Node

end ExprTree
