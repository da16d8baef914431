import ExprTree.Shape

/-!
# The handles that a shape holds

`children` lists the direct children of a node in the fixed order in which every traversal takes
them; absent children are left out. An extension keeps its operand to itself, and the root of a
query belongs to a payload, so neither is a child; `handles` lists these too. A shape can be mapped
over its handles, also by a function that is told that its argument is one of them (`attach`).
Handles are smaller than the shape that holds them.
-/

namespace ExprTree

variable {α β : Type}

namespace ElementInit

/-- Replaces every handle. -/
def map (f : α → β) (init : ElementInit α) : ElementInit β :=
  ⟨init.stamp, init.method, init.arguments.map f⟩

/-- Replaces every handle by a function that may use a fact about it. -/
def pmap {P : α → Prop} (f : (a : α) → P a → β) (init : ElementInit α)
    (h : ∀ a ∈ init.arguments, P a) : ElementInit β :=
  ⟨init.stamp, init.method, init.arguments.pmap f h⟩

/-- The arguments of the initializers of a list, in order. -/
def argumentsOfList : List (ElementInit α) → List α
  | [] => []
  | init :: rest => init.arguments ++ argumentsOfList rest

/-- Replaces every handle in the initializers of a list. -/
def pmapList {P : α → Prop} (f : (a : α) → P a → β) :
    (inits : List (ElementInit α)) → (∀ a ∈ argumentsOfList inits, P a) → List (ElementInit β)
  | [], _ => []
  | init :: rest, h =>
    init.pmap f (fun a ha => h a (by simp [argumentsOfList, ha])) ::
      pmapList f rest (fun a ha => h a (by simp [argumentsOfList, ha]))

end ElementInit

namespace Binding

mutual

/-- The handles of the binding, in order and at every depth of nesting. -/
def children : Binding α → List α
  | .assignment _ _ value => [value]
  | .list _ _ initializers => ElementInit.argumentsOfList initializers
  | .nested _ _ bindings => childrenOfList bindings

/-- The handles of the bindings of a list, in order. -/
def childrenOfList : List (Binding α) → List α
  | [] => []
  | binding :: rest => binding.children ++ childrenOfList rest

end

mutual

/-- Replaces every handle. -/
def map (f : α → β) : Binding α → Binding β
  | .assignment stamp member value => .assignment stamp member (f value)
  | .list stamp member initializers => .list stamp member (initializers.map (·.map f))
  | .nested stamp member bindings => .nested stamp member (mapList f bindings)

/-- Replaces every handle in the bindings of a list. -/
def mapList (f : α → β) : List (Binding α) → List (Binding β)
  | [] => []
  | binding :: rest => binding.map f :: mapList f rest

end

mutual

/-- Replaces every handle by a function that may use a fact about it. -/
def pmap {P : α → Prop} (f : (a : α) → P a → β) :
    (binding : Binding α) → (∀ a ∈ binding.children, P a) → Binding β
  | .assignment stamp member value, h =>
    .assignment stamp member (f value (h value (by simp [children])))
  | .list stamp member initializers, h =>
    .list stamp member (ElementInit.pmapList f initializers fun a ha => h a (by
      simpa [children] using ha))
  | .nested stamp member bindings, h =>
    .nested stamp member (pmapList f bindings fun a ha => h a (by simpa [children] using ha))

/-- Replaces every handle in the bindings of a list. -/
def pmapList {P : α → Prop} (f : (a : α) → P a → β) :
    (bindings : List (Binding α)) → (∀ a ∈ childrenOfList bindings, P a) → List (Binding β)
  | [], _ => []
  | binding :: rest, h =>
    binding.pmap f (fun a ha => h a (by simp [childrenOfList, ha])) ::
      pmapList f rest (fun a ha => h a (by simp [childrenOfList, ha]))

end

end Binding

namespace SwitchCase

/-- The handles of the case, in order. -/
def children (branch : SwitchCase α) : List α := branch.tests ++ [branch.body]

/-- The handles of the cases of a list, in order. -/
def childrenOfList : List (SwitchCase α) → List α
  | [] => []
  | branch :: rest => branch.children ++ childrenOfList rest

/-- Replaces every handle. -/
def map (f : α → β) (branch : SwitchCase α) : SwitchCase β :=
  ⟨branch.stamp, branch.tests.map f, f branch.body⟩

/-- Replaces every handle by a function that may use a fact about it. -/
def pmap {P : α → Prop} (f : (a : α) → P a → β) (branch : SwitchCase α)
    (h : ∀ a ∈ branch.children, P a) : SwitchCase β :=
  ⟨branch.stamp, branch.tests.pmap f (fun a ha => h a (by simp [children, ha])),
    f branch.body (h _ (by simp [children]))⟩

/-- Replaces every handle in the cases of a list. -/
def pmapList {P : α → Prop} (f : (a : α) → P a → β) :
    (branches : List (SwitchCase α)) → (∀ a ∈ childrenOfList branches, P a) →
      List (SwitchCase β)
  | [], _ => []
  | branch :: rest, h =>
    branch.pmap f (fun a ha => h a (by simp [childrenOfList, ha])) ::
      pmapList f rest (fun a ha => h a (by simp [childrenOfList, ha]))

end SwitchCase

namespace Handler

/-- The handles of the handler, in order. -/
def children (handler : Handler α) : List α :=
  handler.bound.toList ++ handler.filter.toList ++ [handler.body]

/-- The handles of the handlers of a list, in order. -/
def childrenOfList : List (Handler α) → List α
  | [] => []
  | handler :: rest => handler.children ++ childrenOfList rest

/-- Replaces every handle. -/
def map (f : α → β) (handler : Handler α) : Handler β :=
  ⟨handler.stamp, handler.caught, handler.bound.map f, handler.filter.map f, f handler.body⟩

/-- Replaces every handle by a function that may use a fact about it. -/
def pmap {P : α → Prop} (f : (a : α) → P a → β) (handler : Handler α)
    (h : ∀ a ∈ handler.children, P a) : Handler β :=
  ⟨handler.stamp, handler.caught,
    handler.bound.pmap f (fun a ha => h a (by simp [children, ha])),
    handler.filter.pmap f (fun a ha => h a (by simp [children, ha])),
    f handler.body (h _ (by simp [children]))⟩

/-- Replaces every handle in the handlers of a list. -/
def pmapList {P : α → Prop} (f : (a : α) → P a → β) :
    (handlers : List (Handler α)) → (∀ a ∈ childrenOfList handlers, P a) → List (Handler β)
  | [], _ => []
  | handler :: rest, h =>
    handler.pmap f (fun a ha => h a (by simp [childrenOfList, ha])) ::
      pmapList f rest (fun a ha => h a (by simp [childrenOfList, ha]))

end Handler

namespace Extension

/-- The operand or the prototype, if there is one. -/
def operand? : Extension α → Option α
  | .doubled operand | .standIn operand => some operand
  | .sealed _ _ => none
  | .other _ _ prototype _ => prototype

/-- Replaces every handle. -/
def map (f : α → β) : Extension α → Extension β
  | .doubled operand => .doubled (f operand)
  | .standIn operand => .standIn (f operand)
  | .sealed tag type => .sealed tag type
  | .other text type prototype anew => .other text type (prototype.map f) anew

/-- Replaces every handle by a function that may use a fact about it. -/
def pmap {P : α → Prop} (f : (a : α) → P a → β) :
    (extension : Extension α) → (∀ a ∈ extension.operand?, P a) → Extension β
  | .doubled operand, h => .doubled (f operand (h operand rfl))
  | .standIn operand, h => .standIn (f operand (h operand rfl))
  | .sealed tag type, _ => .sealed tag type
  | .other text type prototype anew, h =>
    .other text type (prototype.pmap f fun a ha => h a ha) anew

end Extension

namespace Shape

/-- The direct children, in the order of every traversal. -/
def children : Shape α → List α
  | .binary left conversion right _ _ => left :: (conversion.toList ++ [right])
  | .unary operand _ => operand.toList
  | .call object _ arguments => object.toList ++ arguments
  | .conditional test ifTrue ifFalse => [test, ifTrue, ifFalse]
  | .invoke callee arguments => callee :: arguments
  | .lambda body parameters _ _ => body :: parameters
  | .listInit creation initializers => creation :: ElementInit.argumentsOfList initializers
  | .memberAccess object _ => object.toList
  | .memberInit creation bindings => creation :: Binding.childrenOfList bindings
  | .new _ arguments _ => arguments
  | .newArray items => items
  | .typeBinary operand _ => [operand]
  | .block locals statements => locals ++ statements
  | .dynamic _ _ arguments => arguments
  | .goto _ _ value => value.toList
  | .index object _ arguments => object :: arguments
  | .label _ value => value.toList
  | .runtimeVariables locals => locals
  | .loop body _ _ => [body]
  | .switch subject cases otherwise _ =>
    subject :: (SwitchCase.childrenOfList cases ++ otherwise.toList)
  | .tryCatch body handlers cleanup fault =>
    body :: (Handler.childrenOfList handlers ++ cleanup.toList ++ fault.toList)
  | .extension _ _ | .debugInfo _ _ | .parameter _ _ | .constant _ | .default => []

/-- All handles: the children, the operand of an extension, the roots of queries. -/
def handles : Shape α → List α
  | .extension _ custom => custom.operand?.toList
  | .constant value => value.roots
  | shape => shape.children

/-- Replaces every handle. -/
def map (f : α → β) : Shape α → Shape β
  | .binary left conversion right method lifted =>
    .binary (f left) (conversion.map f) (f right) method lifted
  | .unary operand method => .unary (operand.map f) method
  | .call object method arguments => .call (object.map f) method (arguments.map f)
  | .conditional test ifTrue ifFalse => .conditional (f test) (f ifTrue) (f ifFalse)
  | .invoke callee arguments => .invoke (f callee) (arguments.map f)
  | .lambda body parameters name tailCall => .lambda (f body) (parameters.map f) name tailCall
  | .listInit creation initializers => .listInit (f creation) (initializers.map (·.map f))
  | .memberAccess object member => .memberAccess (object.map f) member
  | .memberInit creation bindings => .memberInit (f creation) (Binding.mapList f bindings)
  | .new constructor arguments members => .new constructor (arguments.map f) members
  | .newArray items => .newArray (items.map f)
  | .typeBinary operand type => .typeBinary (f operand) type
  | .block locals statements => .block (locals.map f) (statements.map f)
  | .dynamic binder delegate arguments => .dynamic binder delegate (arguments.map f)
  | .goto jump target value => .goto jump target (value.map f)
  | .index object indexer arguments => .index (f object) indexer (arguments.map f)
  | .label target value => .label target (value.map f)
  | .runtimeVariables locals => .runtimeVariables (locals.map f)
  | .loop body breakTarget continueTarget => .loop (f body) breakTarget continueTarget
  | .switch subject cases otherwise comparison =>
    .switch (f subject) (cases.map (·.map f)) (otherwise.map f) comparison
  | .tryCatch body handlers cleanup fault =>
    .tryCatch (f body) (handlers.map (·.map f)) (cleanup.map f) (fault.map f)
  | .extension stamp custom => .extension stamp (custom.map f)
  | .debugInfo document span => .debugInfo document span
  | .parameter name byRef => .parameter name byRef
  | .constant value => .constant (value.map f)
  | .default => .default

/-- Replaces every handle by a function that may use a fact about it. -/
def pmap {P : α → Prop} (f : (a : α) → P a → β) :
    (shape : Shape α) → (∀ a ∈ shape.handles, P a) → Shape β
  | .binary left conversion right method lifted, h =>
    .binary (f left (h left (by simp [handles, children])))
      (conversion.pmap f fun a ha => h a (by simp [handles, children, ha]))
      (f right (h right (by simp [handles, children]))) method lifted
  | .unary operand method, h =>
    .unary (operand.pmap f fun a ha => h a (by simp [handles, children, ha])) method
  | .call object method arguments, h =>
    .call (object.pmap f fun a ha => h a (by simp [handles, children, ha])) method
      (arguments.pmap f fun a ha => h a (by simp [handles, children, ha]))
  | .conditional test ifTrue ifFalse, h =>
    .conditional (f test (h test (by simp [handles, children])))
      (f ifTrue (h ifTrue (by simp [handles, children])))
      (f ifFalse (h ifFalse (by simp [handles, children])))
  | .invoke callee arguments, h =>
    .invoke (f callee (h callee (by simp [handles, children])))
      (arguments.pmap f fun a ha => h a (by simp [handles, children, ha]))
  | .lambda body parameters name tailCall, h =>
    .lambda (f body (h body (by simp [handles, children])))
      (parameters.pmap f fun a ha => h a (by simp [handles, children, ha])) name tailCall
  | .listInit creation initializers, h =>
    .listInit (f creation (h creation (by simp [handles, children])))
      (ElementInit.pmapList f initializers fun a ha => h a (by simp [handles, children, ha]))
  | .memberAccess object member, h =>
    .memberAccess (object.pmap f fun a ha => h a (by simp [handles, children, ha])) member
  | .memberInit creation bindings, h =>
    .memberInit (f creation (h creation (by simp [handles, children])))
      (Binding.pmapList f bindings fun a ha => h a (by simp [handles, children, ha]))
  | .new constructor arguments members, h =>
    .new constructor (arguments.pmap f fun a ha => h a (by simp [handles, children, ha])) members
  | .newArray items, h =>
    .newArray (items.pmap f fun a ha => h a (by simp [handles, children, ha]))
  | .typeBinary operand type, h =>
    .typeBinary (f operand (h operand (by simp [handles, children]))) type
  | .block locals statements, h =>
    .block (locals.pmap f fun a ha => h a (by simp [handles, children, ha]))
      (statements.pmap f fun a ha => h a (by simp [handles, children, ha]))
  | .dynamic binder delegate arguments, h =>
    .dynamic binder delegate
      (arguments.pmap f fun a ha => h a (by simp [handles, children, ha]))
  | .goto jump target value, h =>
    .goto jump target (value.pmap f fun a ha => h a (by simp [handles, children, ha]))
  | .index object indexer arguments, h =>
    .index (f object (h object (by simp [handles, children]))) indexer
      (arguments.pmap f fun a ha => h a (by simp [handles, children, ha]))
  | .label target value, h =>
    .label target (value.pmap f fun a ha => h a (by simp [handles, children, ha]))
  | .runtimeVariables locals, h =>
    .runtimeVariables (locals.pmap f fun a ha => h a (by simp [handles, children, ha]))
  | .loop body breakTarget continueTarget, h =>
    .loop (f body (h body (by simp [handles, children]))) breakTarget continueTarget
  | .switch subject cases otherwise comparison, h =>
    .switch (f subject (h subject (by simp [handles, children])))
      (SwitchCase.pmapList f cases fun a ha => h a (by simp [handles, children, ha]))
      (otherwise.pmap f fun a ha => h a (by simp [handles, children, ha])) comparison
  | .tryCatch body handlers cleanup fault, h =>
    .tryCatch (f body (h body (by simp [handles, children])))
      (Handler.pmapList f handlers fun a ha => h a (by simp [handles, children, ha]))
      (cleanup.pmap f fun a ha => h a (by simp [handles, children, ha]))
      (fault.pmap f fun a ha => h a (by simp [handles, children, ha]))
  | .extension stamp custom, h =>
    .extension stamp (custom.pmap f fun a ha => h a (by simpa [handles] using ha))
  | .debugInfo document span, _ => .debugInfo document span
  | .parameter name byRef, _ => .parameter name byRef
  | .constant value, h => .constant (value.pmap f fun a ha => h a (by simpa [handles] using ha))
  | .default, _ => .default

/-- The shape with every handle marked as one of its own. -/
def attach (shape : Shape α) : Shape {a // a ∈ shape.handles} :=
  shape.pmap Subtype.mk (fun _ h => h)

/-- Every child is a handle. -/
theorem mem_handles_of_mem_children {shape : Shape α} {a : α} (h : a ∈ shape.children) :
    a ∈ shape.handles := by
  cases shape <;> first | exact h | simp [children] at h

end Shape

end ExprTree
