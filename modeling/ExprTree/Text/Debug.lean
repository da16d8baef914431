import ExprTree.Text.Quoted
import ExprTree.Text.Render

/-!
# Texts of nested structures among other data

Initializers, bindings, cases and handlers are shown with the names of their parts. Nodes inside
them are shown as `Node.debugText` shows them, and names between quotation marks.
-/

namespace ExprTree

namespace Text

/-- The items between brackets. -/
def bracketed (items : List String) : String := "[" ++ separated items ++ "]"

/-- A truth value. -/
def truth (value : Bool) : String := if value then "true" else "false"

/-- A part that may be absent. -/
def optional : Option String → String
  | some item => "Some(" ++ item ++ ")"
  | none => "None"

/-- A structure with the names and texts of its parts. -/
def record (name : String) (parts : List (String × String)) : String :=
  name ++ " \x7b " ++ separated (parts.map fun (part, text) => part ++ ": " ++ text) ++ " \x7d"

end Text

/-- The method with all its parts. -/
def Method.debugText (method : Method) : String :=
  Text.record "Method"
    [("name", Text.quoted method.name),
     ("declaring_type", method.declaringType.debugText),
     ("parameters", Text.bracketed (method.parameters.map Ty.debugText)),
     ("return_type", method.result.debugText),
     ("is_static", Text.truth method.isStatic)]

/-- The member with all its parts. -/
def Member.debugText (member : Member) : String :=
  Text.record "Member"
    [("name", Text.quoted member.name),
     ("declaring_type", member.declaringType.debugText),
     ("member_type", member.type.debugText),
     ("kind", member.kind.name)]

/-- The initializer with all its parts. -/
def ElementInit.debugText (init : ElementInit Node) : String :=
  Text.record "ElementInit"
    [("data", Text.record "ElementInitData"
      [("add_method", init.method.debugText),
       ("arguments", Text.bracketed (init.arguments.map Node.debugText))])]

namespace Binding

mutual

/-- The binding with all its parts. -/
def debugText : Binding Node → String
  | .assignment _ member value =>
    Text.record "MemberBinding"
      [("data", Text.record "Assignment"
        [("member", member.debugText), ("expression", value.debugText)])]
  | .list _ member initializers =>
    Text.record "MemberBinding"
      [("data", Text.record "ListBinding"
        [("member", member.debugText),
         ("initializers", Text.bracketed (initializers.map ElementInit.debugText))])]
  | .nested _ member bindings =>
    Text.record "MemberBinding"
      [("data", Text.record "MemberBinding"
        [("member", member.debugText), ("bindings", Text.bracketed (debugTexts bindings))])]

/-- The bindings of a list, each with all its parts. -/
def debugTexts : List (Binding Node) → List String
  | [] => []
  | binding :: rest => binding.debugText :: debugTexts rest

end

end Binding

/-- The case with all its parts. -/
def SwitchCase.debugText (branch : SwitchCase Node) : String :=
  Text.record "SwitchCase"
    [("data", Text.record "SwitchCaseData"
      [("test_values", Text.bracketed (branch.tests.map Node.debugText)),
       ("body", branch.body.debugText)])]

/-- The handler with all its parts. -/
def Handler.debugText (handler : Handler Node) : String :=
  Text.record "CatchBlock"
    [("data", Text.record "CatchBlockData"
      [("test", handler.caught.debugText),
       ("variable", Text.optional (handler.bound.map Node.debugText)),
       ("filter", Text.optional (handler.filter.map Node.debugText)),
       ("body", handler.body.debugText)])]

/-- The view of an initializer, with all parts of the initializer. -/
def ElementInit.viewText (init : ElementInit Node) : String :=
  "ElementInitView(" ++ init.debugText ++ ")"

/-- The view of a binding, with all parts of the binding. -/
def Binding.viewText (binding : Binding Node) : String :=
  "MemberBindingView(" ++ binding.debugText ++ ")"

/-- The view of a case, with all parts of the case. -/
def SwitchCase.viewText (branch : SwitchCase Node) : String :=
  "SwitchCaseView(" ++ branch.debugText ++ ")"

/-- The view of a handler, with all parts of the handler. -/
def Handler.viewText (handler : Handler Node) : String :=
  "CatchBlockView(" ++ handler.debugText ++ ")"

end ExprTree
