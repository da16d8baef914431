import ExprTree.Shape.Map

/-!
# Walking a shape

An action is run on the direct children of a shape, one after the other and in the order of
`Shape.children`. The monad decides what an action can do. In particular the walk can be left early
if the monad has an exit, and then the action is not run on the children that follow.
-/

namespace ExprTree

variable {α β : Type} {m : Type → Type} [Monad m]

/-- Runs the action on the arguments of the initializers of a list. -/
def ElementInit.walkList (f : α → m Unit) : List (ElementInit α) → m Unit
  | [] => pure ()
  | init :: rest => do
    init.arguments.forM f
    walkList f rest

namespace Binding

mutual

/-- Runs the action on the handles of a binding, at every depth of nesting. -/
def walk (f : α → m Unit) : Binding α → m Unit
  | .assignment _ _ value => f value
  | .list _ _ initializers => ElementInit.walkList f initializers
  | .nested _ _ bindings => walkList f bindings

/-- Runs the action on the handles of the bindings of a list. -/
def walkList (f : α → m Unit) : List (Binding α) → m Unit
  | [] => pure ()
  | binding :: rest => do
    binding.walk f
    walkList f rest

end

end Binding

/-- Runs the action on the test values and bodies of the cases of a list. -/
def SwitchCase.walkList (f : α → m Unit) : List (SwitchCase α) → m Unit
  | [] => pure ()
  | branch :: rest => do
    branch.tests.forM f
    f branch.body
    walkList f rest

/-- Runs the action on the variables, filters and bodies of the handlers of a list. -/
def Handler.walkList (f : α → m Unit) : List (Handler α) → m Unit
  | [] => pure ()
  | handler :: rest => do
    handler.bound.forM f
    handler.filter.forM f
    f handler.body
    walkList f rest

namespace Shape

/-- Runs the action on the direct children. -/
def walk (f : α → m Unit) : Shape α → m Unit
  | .binary left conversion right _ _ => do
    f left
    conversion.forM f
    f right
  | .unary operand _ => operand.forM f
  | .call object _ arguments => do
    object.forM f
    arguments.forM f
  | .conditional test ifTrue ifFalse => do
    f test
    f ifTrue
    f ifFalse
  | .invoke callee arguments => do
    f callee
    arguments.forM f
  | .lambda body parameters _ _ => do
    f body
    parameters.forM f
  | .listInit creation initializers => do
    f creation
    ElementInit.walkList f initializers
  | .memberAccess object _ => object.forM f
  | .memberInit creation bindings => do
    f creation
    Binding.walkList f bindings
  | .new _ arguments _ => arguments.forM f
  | .newArray items => items.forM f
  | .typeBinary operand _ => f operand
  | .block locals statements => do
    locals.forM f
    statements.forM f
  | .dynamic _ _ arguments => arguments.forM f
  | .goto _ _ value => value.forM f
  | .index object _ arguments => do
    f object
    arguments.forM f
  | .label _ value => value.forM f
  | .runtimeVariables locals => locals.forM f
  | .loop body _ _ => f body
  | .switch subject cases otherwise _ => do
    f subject
    SwitchCase.walkList f cases
    otherwise.forM f
  | .tryCatch body handlers cleanup fault => do
    f body
    Handler.walkList f handlers
    cleanup.forM f
    fault.forM f
  | .extension _ _ | .debugInfo _ _ | .parameter _ _ | .constant _ | .default => pure ()

end Shape

end ExprTree
