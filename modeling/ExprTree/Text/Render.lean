import ExprTree.Node

/-!
# Texts of trees

Nodes are written in infix form with every operator application in parentheses. The form is meant
for reading and is not parsed back: strings are not escaped, a conversion, the variable and filter
of a handler, and the value of a label are left out, and a query shows only its element type.

A shape is written from the texts of its handles (`Shape.render`); `Node.text` ties the knot. Among
other data a node is shown with its kind in front (`Node.debugText`).
-/

namespace ExprTree

variable {α : Type}

/-- The sign between the operands of a binary node. -/
def Kind.operator : Kind → String
  | .add | .addChecked => "+"
  | .subtract | .subtractChecked => "-"
  | .multiply | .multiplyChecked => "*"
  | .divide => "/"
  | .modulo => "%"
  | .power => "**"
  | .and => "&"
  | .andAlso => "&&"
  | .or => "|"
  | .orElse => "||"
  | .exclusiveOr => "^"
  | .leftShift => "<<"
  | .rightShift => ">>"
  | .equal => "=="
  | .notEqual => "!="
  | .lessThan => "<"
  | .lessThanOrEqual => "<="
  | .greaterThan => ">"
  | .greaterThanOrEqual => ">="
  | .coalesce => "??"
  | .assign => "="
  | .addAssign | .addAssignChecked => "+="
  | .subtractAssign | .subtractAssignChecked => "-="
  | .multiplyAssign | .multiplyAssignChecked => "*="
  | .divideAssign => "/="
  | .moduloAssign => "%="
  | .powerAssign => "**="
  | .andAssign => "&="
  | .orAssign => "|="
  | .exclusiveOrAssign => "^="
  | .leftShiftAssign => "<<="
  | .rightShiftAssign => ">>="
  | kind => kind.name

namespace Text

/-- A unary node of the given kind and type from the text of its operand. -/
def unary (kind : Kind) (type : Ty) (operand : String) : String :=
  match kind with
  | .negate | .negateChecked => "-" ++ operand
  | .unaryPlus => "+" ++ operand
  | .not => "!" ++ operand
  | .onesComplement => "~" ++ operand
  | .preIncrementAssign => "++" ++ operand
  | .preDecrementAssign => "--" ++ operand
  | .postIncrementAssign => operand ++ "++"
  | .postDecrementAssign => operand ++ "--"
  | .convert | .convertChecked => kind.name ++ "(" ++ operand ++ ", " ++ type.text ++ ")"
  | .typeAs => "(" ++ operand ++ " as " ++ type.text ++ ")"
  | .quote => operand
  | kind => kind.name ++ "(" ++ operand ++ ")"

/-- A binary node of the given kind from the texts of its operands. -/
def binary (kind : Kind) (left right : String) : String :=
  match kind with
  | .arrayIndex => left ++ "[" ++ right ++ "]"
  | kind => "(" ++ left ++ " " ++ kind.operator ++ " " ++ right ++ ")"

/-- The creation of an array from the text of its elements or bounds. -/
def newArray (kind : Kind) (element : Ty) (items : String) : String :=
  match kind with
  | .newArrayInit => "new " ++ element.text ++ "[] \x7b" ++ items ++ "\x7d"
  | _ => "new " ++ element.text ++ "[" ++ items ++ "]"

/-- A type test from the text of its operand. -/
def typeTest (kind : Kind) (operand : String) (type : Ty) : String :=
  match kind with
  | .typeIs => "(" ++ operand ++ " is " ++ type.text ++ ")"
  | _ => "(" ++ operand ++ " TypeEqual " ++ type.text ++ ")"

/-- The texts one after the other. -/
def concatenated : List String → String
  | [] => ""
  | item :: rest => item ++ concatenated rest

end Text

/-- The method's name and its arguments. -/
def ElementInit.render (text : α → String) (init : ElementInit α) : String :=
  init.method.name ++ "(" ++ Text.separated (init.arguments.map text) ++ ")"

namespace Binding

mutual

/-- The member and what it is bound to. -/
def render (text : α → String) : Binding α → String
  | .assignment _ member value => member.name ++ " = " ++ text value
  | .list _ member initializers =>
    member.name ++ " = \x7b" ++ Text.separated (initializers.map (·.render text)) ++ "\x7d"
  | .nested _ member bindings =>
    member.name ++ " = \x7b" ++ Text.separated (renderList text bindings) ++ "\x7d"

/-- The texts of the bindings of a list. -/
def renderList (text : α → String) : List (Binding α) → List String
  | [] => []
  | binding :: rest => binding.render text :: renderList text rest

end

end Binding

/-- One branch: the values that select it, and its body. -/
def SwitchCase.render (text : α → String) (branch : SwitchCase α) : String :=
  "case " ++ Text.separated (branch.tests.map text) ++ ": " ++ text branch.body ++ "; "

/-- One handler: the type it catches, and its body. -/
def Handler.render (text : α → String) (handler : Handler α) : String :=
  " catch (" ++ handler.caught.text ++ ") \x7b " ++ text handler.body ++ " \x7d"

/-- An extension as it is shown among other data. -/
def Extension.render (debug : α → String) : Extension α → String
  | .doubled operand => "Doubled(" ++ debug operand ++ ")"
  | .standIn operand => "Alias(" ++ debug operand ++ ")"
  | .sealed tag _ => "Sealed(" ++ tag ++ ")"
  | .other text _ _ _ => text

namespace Shape

/-- A node of the given kind and type from what its handles are written and shown as. -/
def render (kind : Kind) (type : Ty) (text debug : α → String) : Shape α → String
  | .binary left _ right _ _ => Text.binary kind (text left) (text right)
  | .unary none _ => "rethrow"
  | .unary (some operand) _ => Text.unary kind type (text operand)
  | .call object method arguments =>
    (match object with
      | some object => text object
      | none => method.declaringType.text) ++
      "." ++ method.name ++ "(" ++ Text.separated (arguments.map text) ++ ")"
  | .conditional test ifTrue ifFalse =>
    "IIF(" ++ text test ++ ", " ++ text ifTrue ++ ", " ++ text ifFalse ++ ")"
  | .invoke callee arguments =>
    "Invoke(" ++ Text.separated (text callee :: arguments.map text) ++ ")"
  | .lambda body parameters _ _ =>
    (match parameters with
      | [single] => text single
      | several => "(" ++ Text.separated (several.map text) ++ ")") ++
      " => " ++ text body
  | .listInit creation initializers =>
    text creation ++ " \x7b" ++ Text.separated (initializers.map (·.render text)) ++ "\x7d"
  | .memberAccess object member =>
    (match object with
      | some object => text object
      | none => member.declaringType.text) ++
      "." ++ member.name
  | .memberInit creation bindings =>
    text creation ++ " \x7b" ++ Text.separated (Binding.renderList text bindings) ++ "\x7d"
  | .new _ arguments _ =>
    "new " ++ type.text ++ "(" ++ Text.separated (arguments.map text) ++ ")"
  | .newArray items =>
    Text.newArray kind (type.element?.getD .object) (Text.separated (items.map text))
  | .typeBinary operand type => Text.typeTest kind (text operand) type
  | .block locals statements =>
    "\x7b " ++
      (match locals with
        | [] => ""
        | several => "var " ++ Text.separated (several.map text) ++ "; ") ++
      Text.concatenated (statements.map (text · ++ "; ")) ++ "\x7d"
  | .dynamic binder _ arguments =>
    binder ++ "(" ++ Text.separated (arguments.map text) ++ ")"
  | .goto jump target value =>
    jump.keyword ++ " " ++ target.text ++
      (match value with
        | some value => " (" ++ text value ++ ")"
        | none => "")
  | .index object _ arguments =>
    text object ++ "[" ++ Text.separated (arguments.map text) ++ "]"
  | .label target _ => target.text ++ ":"
  | .runtimeVariables locals => "(" ++ Text.separated (locals.map text) ++ ")"
  | .loop body _ _ => "loop \x7b " ++ text body ++ " \x7d"
  | .switch subject cases otherwise _ =>
    "switch (" ++ text subject ++ ") \x7b " ++ Text.concatenated (cases.map (·.render text)) ++
      (match otherwise with
        | some body => "default: " ++ text body ++ "; "
        | none => "") ++ "\x7d"
  | .tryCatch body handlers cleanup fault =>
    "try \x7b " ++ text body ++ " \x7d" ++ Text.concatenated (handlers.map (·.render text)) ++
      (match cleanup with
        | some body => " finally \x7b " ++ text body ++ " \x7d"
        | none => "") ++
      (match fault with
        | some body => " fault \x7b " ++ text body ++ " \x7d"
        | none => "")
  | .extension _ custom => "[" ++ custom.render debug ++ "]"
  | .debugInfo document span => "<DebugInfo(" ++ document.fileName ++ ": " ++ span.text ++ ")>"
  | .parameter name _ => name.getD "<param>"
  | .constant value => value.toText
  | .default => "default(" ++ type.text ++ ")"

end Shape

namespace Node

/-- The node as it is written. -/
def text (node : Node) : String :=
  node.shape.attach.render node.kind node.type (fun ⟨child, _⟩ => child.text)
    (fun ⟨child, _⟩ => child.kind.name ++ "(" ++ child.text ++ ")")
termination_by sizeOf node
decreasing_by all_goals exact sizeOf_lt_of_mem_handles (by assumption)

/-- The node as it is shown among other data. -/
def debugText (node : Node) : String := node.kind.name ++ "(" ++ node.text ++ ")"

end Node

/-- The initializer as it is written. -/
def ElementInit.text (init : ElementInit Node) : String := init.render Node.text

/-- The binding as it is written. -/
def Binding.text (binding : Binding Node) : String := binding.render Node.text

/-- The extension as it is shown among other data. -/
def Extension.debugText (custom : Extension Node) : String := custom.render Node.debugText

end ExprTree
