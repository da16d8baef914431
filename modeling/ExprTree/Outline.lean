import ExprTree.Shape

/-!
# Outlines

An outline lists what a shape holds as named fields, for tools that show nodes without knowing
their families. The fields stand in the order in which views show them: the parameters of a lambda
come before its body. An extension has no fields; what it holds is its own affair.
-/

namespace ExprTree

/-- What stands in a field. -/
inductive Field (α : Type) where
  | absent
  | node (node : α)
  | nodes (nodes : List α)
  | flag (value : Bool)
  | text (value : String)
  | type (type : Ty)
  | method (method : Method)
  | constructor (constructor : Constructor)
  | member (member : Member)
  | members (members : List Member)
  | target (target : LabelTarget)
  | initializers (initializers : List (ElementInit α))
  | bindings (bindings : List (Binding α))
  | cases (cases : List (SwitchCase α))
  | handlers (handlers : List (Handler α))
  | payload (value : Value α)
  | span (span : Span)

variable {α β : Type}

/-- A field for something that may be absent. -/
def Field.optional (field : β → Field α) : Option β → Field α
  | some item => field item
  | none => .absent

/-- The fields of a shape. -/
def Shape.outline : Shape α → List (String × Field α)
  | .binary left conversion right method lifted =>
    [("left", .node left), ("conversion", .optional .node conversion), ("right", .node right),
     ("method", .optional .method method), ("lifted", .flag lifted)]
  | .unary operand method =>
    [("operand", .optional .node operand), ("method", .optional .method method)]
  | .call object method arguments =>
    [("object", .optional .node object), ("method", .method method), ("args", .nodes arguments)]
  | .conditional test ifTrue ifFalse =>
    [("test", .node test), ("then", .node ifTrue), ("else", .node ifFalse)]
  | .invoke callee arguments => [("e", .node callee), ("args", .nodes arguments)]
  | .lambda body parameters name tailCall =>
    [("params", .nodes parameters), ("body", .node body), ("name", .optional .text name),
     ("tail_call", .flag tailCall)]
  | .listInit creation initializers =>
    [("new", .node creation), ("inits", .initializers initializers)]
  | .memberAccess object member => [("e", .optional .node object), ("member", .member member)]
  | .memberInit creation bindings => [("new", .node creation), ("bindings", .bindings bindings)]
  | .new constructor arguments members =>
    [("ctor", .optional .constructor constructor), ("args", .nodes arguments),
     ("members", .optional .members members)]
  | .newArray items => [("exprs", .nodes items)]
  | .typeBinary operand type => [("e", .node operand), ("type_operand", .type type)]
  | .block locals statements => [("vars", .nodes locals), ("exprs", .nodes statements)]
  | .dynamic binder delegate arguments =>
    [("binder", .text binder), ("delegate", .type delegate), ("args", .nodes arguments)]
  | .goto jump target value =>
    [("kind", .text jump.name), ("target", .target target), ("value", .optional .node value)]
  | .index object indexer arguments =>
    [("object", .node object), ("indexer", .optional .member indexer), ("args", .nodes arguments)]
  | .label target value => [("target", .target target), ("default", .optional .node value)]
  | .runtimeVariables locals => [("vars", .nodes locals)]
  | .loop body breakTarget continueTarget =>
    [("body", .node body), ("break", .optional .target breakTarget),
     ("continue", .optional .target continueTarget)]
  | .switch subject cases otherwise comparison =>
    [("value", .node subject), ("cases", .cases cases), ("default", .optional .node otherwise),
     ("comparison", .optional .method comparison)]
  | .tryCatch body handlers cleanup fault =>
    [("body", .node body), ("handlers", .handlers handlers), ("finally", .optional .node cleanup),
     ("fault", .optional .node fault)]
  | .debugInfo document span =>
    [("file", .text document.fileName), ("clear", .flag span.isClear), ("span", .span span)]
  | .parameter name byRef => [("name", .optional .text name), ("by_ref", .flag byRef)]
  | .constant value => [("value", .payload value)]
  | .extension _ _ | .default => []

end ExprTree
