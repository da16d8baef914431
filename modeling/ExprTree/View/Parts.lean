import ExprTree.Node
import ExprTree.View.Slots

/-!
# Parts

A view is taken apart into parts of its node, in an order that is fixed for each family. Nodes among
them are shown as views. So are the structures that are nested in a node; these are named by their
places and are taken apart on their own. A node can hold more than its parts: the conversion of a
binary node is none of them, nor are the members that a new object is initialized by.
-/

namespace ExprTree

variable {α β γ δ : Type}

/-- Where a structure is nested in a node. Numbers count items from zero; a binding is found by the
numbers on the way to it. -/
inductive Place where
  | initializer (i : Nat)
  | binding (path : List Nat)
  | bindingInitializer (path : List Nat) (i : Nat)
  | branch (i : Nat)
  | handler (i : Nat)

/-- A structure that is nested in a node. -/
inductive Nested (α : Type) where
  | initializer (added : ElementInit α)
  | binding (bound : Binding α)
  | branch (selected : SwitchCase α)
  | handler (handling : Handler α)

/-- A part that is shown as it is. -/
inductive Datum where
  | type (type : Ty)
  | method (method : Method)
  | constructor (constructor : Option Constructor)
  | member (member : Member)
  | indexer (indexer : Option Member)
  | binder (binder : String)
  | name (name : Option String)
  | jump (jump : JumpKind)
  | target (target : LabelTarget)
  | exit (target : Option LabelTarget)
  | document (document : Document)
  | payload (value : Value Node)
  | extension (custom : Extension Node)

/-- One part, with `α` for nodes and `β` for nested structures. -/
inductive Part (α β : Type) where
  | node (shown : α)
  | nodes (shown : List α)
  | nested (shown : List β)
  | datum (given : Datum)

namespace Part

/-- Replaces nodes and nested structures. -/
def map (f : α → γ) (g : β → δ) : Part α β → Part γ δ
  | .node shown => .node (f shown)
  | .nodes shown => .nodes (shown.map f)
  | .nested shown => .nested (shown.map g)
  | .datum given => .datum given

/-- The nodes in a part. -/
def items : Part α β → List α
  | .node shown => [shown]
  | .nodes shown => shown
  | .nested _ | .datum _ => []

/-- The slots of the items of a list. -/
def listed (slot : Nat → Slot) (items : List α) : Part Slot Place := .nodes (slotsOf slot items)

/-- The places of the items of a list. -/
def placed (place : Nat → Place) (items : List α) : Part Slot Place :=
  .nested (items.mapIdx fun i _ => place i)

end Part

namespace Binding

/-- The bindings that are nested in a binding. -/
def bindings : Binding α → List (Binding α)
  | .nested _ _ bindings => bindings
  | .assignment _ _ _ | .list _ _ _ => []

/-- What is added to the collection in the member. -/
def initializers : Binding α → List (ElementInit α)
  | .list _ _ initializers => initializers
  | .assignment _ _ _ | .nested _ _ _ => []

/-- The binding to which the numbers lead from a binding. -/
def find? : List Nat → Binding α → Option (Binding α)
  | [], binding => some binding
  | i :: rest, binding => binding.bindings[i]?.bind (find? rest)

/-- The binding to which the numbers lead from a list of bindings. -/
def findIn? : List Nat → List (Binding α) → Option (Binding α)
  | [], _ => none
  | i :: rest, bindings => bindings[i]?.bind (find? rest)

end Binding

/-- The structure that is nested at a place. -/
def Shape.nested? (place : Place) : Shape α → Option (Nested α)
  | .listInit _ initializers =>
    match place with
    | .initializer i => initializers[i]?.map .initializer
    | _ => none
  | .memberInit _ bindings =>
    match place with
    | .binding path => (Binding.findIn? path bindings).map .binding
    | .bindingInitializer path i =>
      (Binding.findIn? path bindings).bind (·.initializers[i]?.map .initializer)
    | _ => none
  | .switch _ cases _ _ =>
    match place with
    | .branch i => cases[i]?.map .branch
    | _ => none
  | .tryCatch _ handlers _ _ =>
    match place with
    | .handler i => handlers[i]?.map .handler
    | _ => none
  | _ => none

/-- The parts of a node, with slots for nodes and places for nested structures. -/
def Node.opened (node : Node) : List (Part Slot Place) :=
  match node.shape with
  | .binary _ _ _ _ _ => [.node .left, .node .right]
  | .unary _ _ => [.node .operand, .datum (.type node.type)]
  | .typeBinary _ type => [.node .operand, .datum (.type type)]
  | .call _ method arguments =>
    [.node .object, .datum (.method method), .listed .argument arguments]
  | .conditional _ _ _ => [.node .test, .node .ifTrue, .node .ifFalse]
  | .invoke _ arguments => [.node .callee, .listed .argument arguments]
  | .lambda _ parameters _ _ => [.listed .parameter parameters, .node .body]
  | .dynamic binder _ arguments => [.datum (.binder binder), .listed .argument arguments]
  | .memberAccess _ member => [.node .object, .datum (.member member)]
  | .new constructor arguments _ =>
    [.datum (.constructor constructor), .listed .argument arguments]
  | .listInit _ initializers => [.node .creation, .placed .initializer initializers]
  | .memberInit _ bindings => [.node .creation, .placed (.binding [·]) bindings]
  | .newArray items => [.listed .item items, .datum (.type node.type)]
  | .index _ indexer arguments =>
    [.node .object, .datum (.indexer indexer), .listed .argument arguments]
  | .runtimeVariables locals => [.listed .scopeVariable locals, .datum (.type node.type)]
  | .block locals statements => [.listed .scopeVariable locals, .listed .statement statements]
  | .goto jump target _ => [.datum (.jump jump), .datum (.target target), .node .value]
  | .label target _ => [.datum (.target target), .node .value]
  | .loop _ breakTarget continueTarget =>
    [.node .body, .datum (.exit breakTarget), .datum (.exit continueTarget)]
  | .switch _ cases _ _ => [.node .subject, .placed .branch cases, .node .otherwise]
  | .tryCatch _ handlers _ _ =>
    [.node .body, .placed .handler handlers, .node .cleanup, .node .fault]
  | .extension _ custom => [.datum (.extension custom), .node .reduction]
  | .debugInfo document _ => [.datum (.document document), .datum (.type node.type)]
  | .parameter name _ => [.datum (.name name), .datum (.type node.type)]
  | .constant value => [.datum (.payload value), .datum (.type node.type)]
  | .default => [.datum (.type node.type)]

/-- The parts of an initializer whose arguments have the given slots. -/
def ElementInit.opened (slot : Nat → Slot) (init : ElementInit α) : List (Part Slot Place) :=
  [.datum (.method init.method), .listed slot init.arguments]

/-- The parts of the binding that the numbers lead to. -/
def Binding.opened (path : List Nat) : Binding α → List (Part Slot Place)
  | .assignment _ member _ => [.datum (.member member), .node (.bindingValue path)]
  | .list _ member initializers =>
    [.datum (.member member), .placed (.bindingInitializer path) initializers]
  | .nested _ member bindings =>
    [.datum (.member member), .placed (fun i => .binding (path ++ [i])) bindings]

/-- The parts of the case with the number. -/
def SwitchCase.opened (i : Nat) (branch : SwitchCase α) : List (Part Slot Place) :=
  [.listed (.caseTest i) branch.tests, .node (.caseBody i)]

/-- The parts of the handler with the number. -/
def Handler.opened (i : Nat) (handler : Handler α) : List (Part Slot Place) :=
  [.datum (.type handler.caught), .node (.handlerVariable i), .node (.handlerFilter i),
    .node (.handlerBody i)]

/-- The parts of a structure at a place, if it is one that can stand there. -/
def Nested.opened (place : Place) (nested : Nested α) : List (Part Slot Place) :=
  match place, nested with
  | .initializer i, .initializer added => added.opened (.initArgument i)
  | .bindingInitializer path i, .initializer added => added.opened (.bindingArgument path i)
  | .binding path, .binding bound => bound.opened path
  | .branch i, .branch selected => selected.opened i
  | .handler i, .handler handling => handling.opened i
  | _, _ => []

end ExprTree
