import ExprTree.Node.Update

/-!
# Rewriting the children of a shape

An action gives a new node for each child, child after child in the order of `Shape.children`. A
nested structure is kept as the instance it was if each of its children is kept, and is built anew
otherwise. `old` says which node an item of the shape stands for; it is the identity when the items
are nodes themselves.
-/

namespace ExprTree

variable {α : Type} {m : Type → Type} [Monad m] [MonadStamp m]

/-- Rewrites the arguments of an initializer. -/
def ElementInit.rewrite (old : α → Node) (f : α → m Node) (init : ElementInit α) :
    m (ElementInit Node) := do
  let arguments ← init.arguments.mapM f
  (init.map old).update arguments

namespace Binding

mutual

/-- Rewrites the handles of a binding. -/
def rewrite (old : α → Node) (f : α → m Node) : Binding α → m (Binding Node)
  | .assignment stamp member value => do
    let value' ← f value
    (Binding.assignment stamp member (old value)).update (.assignment stamp member value')
  | .list stamp member initializers => do
    let initializers' ← initializers.mapM (·.rewrite old f)
    (Binding.list stamp member (initializers.map (·.map old))).update
      (.list stamp member initializers')
  | .nested stamp member bindings => do
    let bindings' ← rewriteList old f bindings
    (Binding.nested stamp member (mapList old bindings)).update (.nested stamp member bindings')

/-- Rewrites the handles of the bindings of a list. -/
def rewriteList (old : α → Node) (f : α → m Node) : List (Binding α) → m (List (Binding Node))
  | [] => pure []
  | binding :: rest => do
    let binding' ← binding.rewrite old f
    let rest' ← rewriteList old f rest
    pure (binding' :: rest')

end

end Binding

/-- Rewrites the handles of a case. -/
def SwitchCase.rewrite (old : α → Node) (f : α → m Node) (branch : SwitchCase α) :
    m (SwitchCase Node) := do
  let tests ← branch.tests.mapM f
  let body ← f branch.body
  (branch.map old).update tests body

/-- Rewrites the handles of a handler. -/
def Handler.rewrite (old : α → Node) (f : α → m Node) (handler : Handler α) :
    m (Handler Node) := do
  let bound ← handler.bound.mapM f
  let filter ← handler.filter.mapM f
  let body ← f handler.body
  (handler.map old).update bound filter body

namespace Shape

/-- Shapes whose nodes are never rewritten from below. -/
def isLeaf : Shape α → Bool
  | .extension _ _ | .debugInfo _ _ | .parameter _ _ | .constant _ | .default => true
  | _ => false

/-- Rewrites the children. -/
def rewrite (old : α → Node) (f : α → m Node) : Shape α → m (Shape Node)
  | .binary left conversion right method lifted => do
    let left' ← f left
    let conversion' ← conversion.mapM f
    let right' ← f right
    return .binary left' conversion' right' method lifted
  | .unary operand method => return .unary (← operand.mapM f) method
  | .call object method arguments => do
    let object' ← object.mapM f
    let arguments' ← arguments.mapM f
    return .call object' method arguments'
  | .conditional test ifTrue ifFalse => do
    let test' ← f test
    let ifTrue' ← f ifTrue
    let ifFalse' ← f ifFalse
    return .conditional test' ifTrue' ifFalse'
  | .invoke callee arguments => do
    let callee' ← f callee
    let arguments' ← arguments.mapM f
    return .invoke callee' arguments'
  | .lambda body parameters name tailCall => do
    let body' ← f body
    let parameters' ← parameters.mapM f
    return .lambda body' parameters' name tailCall
  | .listInit creation initializers => do
    let creation' ← f creation
    let initializers' ← initializers.mapM (·.rewrite old f)
    return .listInit creation' initializers'
  | .memberAccess object member => return .memberAccess (← object.mapM f) member
  | .memberInit creation bindings => do
    let creation' ← f creation
    let bindings' ← Binding.rewriteList old f bindings
    return .memberInit creation' bindings'
  | .new constructor arguments members => return .new constructor (← arguments.mapM f) members
  | .newArray items => return .newArray (← items.mapM f)
  | .typeBinary operand type => return .typeBinary (← f operand) type
  | .block locals statements => do
    let locals' ← locals.mapM f
    let statements' ← statements.mapM f
    return .block locals' statements'
  | .dynamic binder delegate arguments => return .dynamic binder delegate (← arguments.mapM f)
  | .goto jump target value => return .goto jump target (← value.mapM f)
  | .index object indexer arguments => do
    let object' ← f object
    let arguments' ← arguments.mapM f
    return .index object' indexer arguments'
  | .label target value => return .label target (← value.mapM f)
  | .runtimeVariables locals => return .runtimeVariables (← locals.mapM f)
  | .loop body breakTarget continueTarget => return .loop (← f body) breakTarget continueTarget
  | .switch subject cases otherwise comparison => do
    let subject' ← f subject
    let cases' ← cases.mapM (·.rewrite old f)
    let otherwise' ← otherwise.mapM f
    return .switch subject' cases' otherwise' comparison
  | .tryCatch body handlers cleanup fault => do
    let body' ← f body
    let handlers' ← handlers.mapM (·.rewrite old f)
    let cleanup' ← cleanup.mapM f
    let fault' ← fault.mapM f
    return .tryCatch body' handlers' cleanup' fault'
  | .extension stamp custom => return .extension stamp (custom.map old)
  | .debugInfo document span => return .debugInfo document span
  | .parameter name byRef => return .parameter name byRef
  | .constant value => return .constant (value.map old)
  | .default => return .default

end Shape

end ExprTree
