import ExprTree.Kind
import ExprTree.Value

/-!
# Shapes of nodes

What a node holds besides its kind and type, by family. `α` is the type of handles to other nodes;
a tree is what results when these handles are nodes themselves. Initializers, bindings, cases and
handlers are instances of their own inside the node that holds them, and an extension has an
identity apart from the node around it.
-/

namespace ExprTree

/-- One call that adds an element to a collection under construction. -/
structure ElementInit (α : Type) where
  /-- The identity of the initializer. -/
  stamp : Stamp
  /-- The method that adds the element. -/
  method : Method
  /-- What the method is called with. -/
  arguments : List α

/-- What happens to one member of an object under construction. -/
inductive Binding (α : Type) where
  /-- The member is given a value. -/
  | assignment (stamp : Stamp) (member : Member) (value : α)
  /-- Elements are added to the collection that the member holds. -/
  | list (stamp : Stamp) (member : Member) (initializers : List (ElementInit α))
  /-- Members of the object that the member holds are bound in turn. -/
  | nested (stamp : Stamp) (member : Member) (bindings : List (Binding α))

/-- One branch of a switch. -/
structure SwitchCase (α : Type) where
  /-- The identity of the case. -/
  stamp : Stamp
  /-- The values that select the branch. -/
  tests : List α
  /-- What the branch does. -/
  body : α

/-- One handler of a try. -/
structure Handler (α : Type) where
  /-- The identity of the handler. -/
  stamp : Stamp
  /-- The type of exceptions that it handles. -/
  caught : Ty
  /-- The parameter that receives the exception. -/
  bound : Option α
  /-- A further condition on the exception. -/
  filter : Option α
  /-- What the handler does. -/
  body : α

/-- A node that is defined outside the tree. Some can be reduced to ordinary nodes. -/
inductive Extension (α : Type) where
  /-- Reduces to the sum of the operand with itself, built anew each time. -/
  | doubled (operand : α)
  /-- Reduces to the operand itself. -/
  | standIn (operand : α)
  /-- Cannot be reduced. -/
  | sealed (tag : String) (type : Ty)
  /-- Any other one, by how it is shown, its type and a prototype of what it is reduced to. It
  reduces to the prototype itself or to a copy that is built anew each time, over the nodes that the
  prototype holds; without a prototype it cannot be reduced. -/
  | other (text : String) (type : Ty) (prototype : Option α) (anew : Bool)

/-- What a node of each family holds. -/
inductive Shape (α : Type) where
  | binary (left : α) (conversion : Option α) (right : α) (method : Option Method) (lifted : Bool)
  | unary (operand : Option α) (method : Option Method)
  | call (object : Option α) (method : Method) (arguments : List α)
  | conditional (test ifTrue ifFalse : α)
  | invoke (callee : α) (arguments : List α)
  | lambda (body : α) (parameters : List α) (name : Option String) (tailCall : Bool)
  | listInit (creation : α) (initializers : List (ElementInit α))
  | memberAccess (object : Option α) (member : Member)
  | memberInit (creation : α) (bindings : List (Binding α))
  | new (constructor : Option Constructor) (arguments : List α) (members : Option (List Member))
  | newArray (items : List α)
  | typeBinary (operand : α) (type : Ty)
  | block (locals statements : List α)
  | dynamic (binder : String) (delegate : Ty) (arguments : List α)
  | goto (jump : JumpKind) (target : LabelTarget) (value : Option α)
  | index (object : α) (indexer : Option Member) (arguments : List α)
  | label (target : LabelTarget) (value : Option α)
  | runtimeVariables (locals : List α)
  | loop (body : α) (breakTarget continueTarget : Option LabelTarget)
  | switch (subject : α) (cases : List (SwitchCase α)) (otherwise : Option α)
      (comparison : Option Method)
  | tryCatch (body : α) (handlers : List (Handler α)) (cleanup fault : Option α)
  | extension (stamp : Stamp) (custom : Extension α)
  | debugInfo (document : Document) (span : Span)
  | parameter (name : Option String) (byRef : Bool)
  | constant (value : Value α)
  | default

namespace Binding

variable {α : Type}

/-- The identity of the binding. -/
def stamp : Binding α → Stamp
  | .assignment stamp _ _ | .list stamp _ _ | .nested stamp _ _ => stamp

/-- The member that is bound. -/
def member : Binding α → Member
  | .assignment _ member _ | .list _ member _ | .nested _ member _ => member

/-- The same contents under another identity. -/
def withStamp (stamp : Stamp) : Binding α → Binding α
  | .assignment _ member value => .assignment stamp member value
  | .list _ member initializers => .list stamp member initializers
  | .nested _ member bindings => .nested stamp member bindings

end Binding

namespace Shape

variable {α : Type}

/-- The family whose nodes have the shape. -/
def family : Shape α → Family
  | .binary .. => .binary
  | .unary .. => .unary
  | .call .. => .call
  | .conditional .. => .conditional
  | .invoke .. => .invoke
  | .lambda .. => .lambda
  | .listInit .. => .listInit
  | .memberAccess .. => .memberAccess
  | .memberInit .. => .memberInit
  | .new .. => .new
  | .newArray .. => .newArray
  | .typeBinary .. => .typeBinary
  | .block .. => .block
  | .dynamic .. => .dynamic
  | .goto .. => .goto
  | .index .. => .index
  | .label .. => .label
  | .runtimeVariables .. => .runtimeVariables
  | .loop .. => .loop
  | .switch .. => .switch
  | .tryCatch .. => .tryCatch
  | .extension .. => .extension
  | .debugInfo .. => .debugInfo
  | .parameter .. => .parameter
  | .constant .. => .constant
  | .default => .default

end Shape

end ExprTree
