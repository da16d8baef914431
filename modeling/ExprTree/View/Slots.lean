import ExprTree.Shape.Children

/-!
# Slots

Each place at which a node shows another one is a slot. The children of a shape have different
slots, which are named after what the shape has there, and items of lists by their numbers.
-/

namespace ExprTree

variable {α : Type}

/-- A place at which a node shows another one. Numbers count items from zero; a binding is found by
the numbers on the way to it through the bindings that it is nested in. -/
inductive Slot where
  | left | conversion | right | operand | object | callee | body | test | ifTrue | ifFalse
  | creation | value | subject | otherwise | cleanup | fault | reduction
  | argument (i : Nat)
  | parameter (i : Nat)
  | item (i : Nat)
  | scopeVariable (i : Nat)
  | statement (i : Nat)
  | initArgument (i j : Nat)
  | bindingValue (path : List Nat)
  | bindingArgument (path : List Nat) (i j : Nat)
  | caseTest (i j : Nat)
  | caseBody (i : Nat)
  | handlerVariable (i : Nat)
  | handlerFilter (i : Nat)
  | handlerBody (i : Nat)
  /-- A root inside a payload, which a view does not show. -/
  | hidden
deriving DecidableEq

/-- Pairs the items of a list with slots numbered from `i` on. -/
def slotted (slot : Nat → Slot) : (i : Nat) → List α → List (Slot × α)
  | _, [] => []
  | i, item :: rest => (slot i, item) :: slotted slot (i + 1) rest

/-- Pairs the arguments of initializers numbered from `i` on with their slots. -/
def ElementInit.slotted (slot : Nat → Nat → Slot) :
    (i : Nat) → List (ElementInit α) → List (ElementInit (Slot × α))
  | _, [] => []
  | i, init :: rest =>
    ⟨init.stamp, init.method, ExprTree.slotted (slot i) 0 init.arguments⟩ ::
      slotted slot (i + 1) rest

namespace Binding

mutual

/-- Pairs the handles of a binding with their slots. -/
def slotted (path : List Nat) : Binding α → Binding (Slot × α)
  | .assignment stamp member value => .assignment stamp member (.bindingValue path, value)
  | .list stamp member initializers =>
    .list stamp member (ElementInit.slotted (.bindingArgument path) 0 initializers)
  | .nested stamp member bindings => .nested stamp member (slottedList path 0 bindings)

/-- Pairs the handles of bindings numbered from `i` on with their slots. -/
def slottedList (path : List Nat) : (i : Nat) → List (Binding α) → List (Binding (Slot × α))
  | _, [] => []
  | i, binding :: rest => binding.slotted (path ++ [i]) :: slottedList path (i + 1) rest

end

end Binding

/-- Pairs the handles of cases numbered from `i` on with their slots. -/
def SwitchCase.slotted : (i : Nat) → List (SwitchCase α) → List (SwitchCase (Slot × α))
  | _, [] => []
  | i, branch :: rest =>
    ⟨branch.stamp, ExprTree.slotted (.caseTest i) 0 branch.tests, (.caseBody i, branch.body)⟩ ::
      slotted (i + 1) rest

/-- Pairs the handles of handlers numbered from `i` on with their slots. -/
def Handler.slotted : (i : Nat) → List (Handler α) → List (Handler (Slot × α))
  | _, [] => []
  | i, handler :: rest =>
    ⟨handler.stamp, handler.caught, handler.bound.map ((.handlerVariable i, ·)),
      handler.filter.map ((.handlerFilter i, ·)), (.handlerBody i, handler.body)⟩ ::
      slotted (i + 1) rest

/-- Pairs every child of a shape with its slot. -/
def Shape.slotted : Shape α → Shape (Slot × α)
  | .binary left conversion right method lifted =>
    .binary (.left, left) (conversion.map ((.conversion, ·))) (.right, right) method lifted
  | .unary operand method => .unary (operand.map ((.operand, ·))) method
  | .call object method arguments =>
    .call (object.map ((.object, ·))) method (ExprTree.slotted .argument 0 arguments)
  | .conditional test ifTrue ifFalse =>
    .conditional (.test, test) (.ifTrue, ifTrue) (.ifFalse, ifFalse)
  | .invoke callee arguments =>
    .invoke (.callee, callee) (ExprTree.slotted .argument 0 arguments)
  | .lambda body parameters name tailCall =>
    .lambda (.body, body) (ExprTree.slotted .parameter 0 parameters) name tailCall
  | .listInit creation initializers =>
    .listInit (.creation, creation) (ElementInit.slotted .initArgument 0 initializers)
  | .memberAccess object member => .memberAccess (object.map ((.object, ·))) member
  | .memberInit creation bindings =>
    .memberInit (.creation, creation) (Binding.slottedList [] 0 bindings)
  | .new constructor arguments members =>
    .new constructor (ExprTree.slotted .argument 0 arguments) members
  | .newArray items => .newArray (ExprTree.slotted .item 0 items)
  | .typeBinary operand type => .typeBinary (.operand, operand) type
  | .block locals statements =>
    .block (ExprTree.slotted .scopeVariable 0 locals) (ExprTree.slotted .statement 0 statements)
  | .dynamic binder delegate arguments =>
    .dynamic binder delegate (ExprTree.slotted .argument 0 arguments)
  | .goto jump target value => .goto jump target (value.map ((.value, ·)))
  | .index object indexer arguments =>
    .index (.object, object) indexer (ExprTree.slotted .argument 0 arguments)
  | .label target value => .label target (value.map ((.value, ·)))
  | .runtimeVariables locals => .runtimeVariables (ExprTree.slotted .scopeVariable 0 locals)
  | .loop body breakTarget continueTarget => .loop (.body, body) breakTarget continueTarget
  | .switch subject cases otherwise comparison =>
    .switch (.subject, subject) (SwitchCase.slotted 0 cases) (otherwise.map ((.otherwise, ·)))
      comparison
  | .tryCatch body handlers cleanup fault =>
    .tryCatch (.body, body) (Handler.slotted 0 handlers) (cleanup.map ((.cleanup, ·)))
      (fault.map ((.fault, ·)))
  | .extension stamp custom => .extension stamp (custom.map ((.hidden, ·)))
  | .debugInfo document span => .debugInfo document span
  | .parameter name byRef => .parameter name byRef
  | .constant value => .constant (value.map ((.hidden, ·)))
  | .default => .default

/-- The slots in which a shape shows its children, in the order of a walk. -/
def Shape.slots (shape : Shape α) : List Slot := shape.slotted.children.map Prod.fst

/-- The slots of the items of a list. -/
def slotsOf (slot : Nat → Slot) (items : List α) : List Slot := (slotted slot 0 items).map Prod.fst

end ExprTree
