import ExprTree.Stamp
import ExprTree.Ty

/-!
# Members, labels and documents

What nodes refer to without looking inside. Methods, constructors, members and documents are equal
when all their parts are. A label target is an instance of its own: two targets of the same type
and name are still two.
-/

namespace ExprTree

/-- A method that is called or that overloads an operator. -/
structure Method where
  /-- The name by which it is called. -/
  name : String
  /-- The type that declares it. -/
  declaringType : Ty
  /-- The types of its arguments, without a receiver. -/
  parameters : List Ty
  /-- The type of its result. -/
  result : Ty
  /-- It is called without a receiver. -/
  isStatic : Bool
deriving DecidableEq

/-- A constructor. -/
structure Constructor where
  /-- The type it creates. -/
  declaringType : Ty
  /-- The types of its arguments. -/
  parameters : List Ty
deriving DecidableEq

/-- What a member is. -/
inductive MemberKind where
  | field | property | method
deriving DecidableEq

/-- A member that is read or bound. -/
structure Member where
  /-- The name by which it is reached. -/
  name : String
  /-- The type that declares it. -/
  declaringType : Ty
  /-- The type that reading it gives. -/
  type : Ty
  /-- What the member is. -/
  kind : MemberKind
deriving DecidableEq

/-- The way in which a jump leaves. -/
inductive JumpKind where
  | goto | returning | breaking | continuing
deriving DecidableEq

/-- A place that jumps lead to. -/
structure LabelTarget where
  /-- The identity of the target. -/
  stamp : Stamp
  /-- The type of the value that a jump brings. -/
  type : Ty
  /-- The name, if it has one. -/
  name : Option String

/-- A source document. -/
structure Document where
  /-- The name of its file. -/
  fileName : String
deriving DecidableEq

/-- A stretch of a source document. -/
structure Span where
  startLine : UInt32
  startColumn : UInt32
  endLine : UInt32
  endColumn : UInt32
deriving DecidableEq

namespace Method

/-- Result, name and argument types. -/
def text (method : Method) : String :=
  method.result.text ++ " " ++ method.name ++ "(" ++
    Text.separated (Ty.texts method.parameters) ++ ")"

end Method

namespace MemberKind

/-- All kinds of members. -/
def all : List MemberKind := [.field, .property, .method]

/-- The name shown in texts. -/
def name : MemberKind → String
  | .field => "Field"
  | .property => "Property"
  | .method => "Method"

/-- The kind of member of a given name. -/
def ofName? (name : String) : Option MemberKind :=
  all.find? (·.name == name)

end MemberKind

namespace JumpKind

/-- All kinds of jumps. -/
def all : List JumpKind := [.goto, .returning, .breaking, .continuing]

/-- The name shown in texts. -/
def name : JumpKind → String
  | .goto => "Goto"
  | .returning => "Return"
  | .breaking => "Break"
  | .continuing => "Continue"

/-- The kind of jump of a given name. -/
def ofName? (name : String) : Option JumpKind :=
  all.find? (·.name == name)

/-- The word that starts the statement. -/
def keyword : JumpKind → String
  | .goto => "goto"
  | .returning => "return"
  | .breaking => "break"
  | .continuing => "continue"

end JumpKind

namespace LabelTarget

/-- The two are one instance. -/
def same (a b : LabelTarget) : Bool := a.stamp = b.stamp

/-- The two have the same type and name. -/
def agrees (a b : LabelTarget) : Bool := a.type = b.type && a.name = b.name

/-- The name, or a word in its place. -/
def text (target : LabelTarget) : String := target.name.getD "UnnamedLabel"

/-- Creates a target. -/
def make {m : Type → Type} [Monad m] [MonadStamp m] (type : Ty) (name : Option String) :
    m LabelTarget := do
  return ⟨← fresh, type, name⟩

/-- Creates a target without value and name. -/
def void {m : Type → Type} [Monad m] [MonadStamp m] : m LabelTarget := make .void none

end LabelTarget

namespace Span

/-- The line that marks the end of what earlier stretches say. -/
def clearLine : UInt32 := 0x00feefee

/-- The stretch that ends what earlier stretches say. -/
def clear : Span := ⟨clearLine, 0, clearLine, 0⟩

/-- The stretch ends what earlier stretches say. -/
def isClear (span : Span) : Bool := span.startLine = clearLine

/-- First and last position. -/
def text (span : Span) : String :=
  if span.isClear then "clear"
  else toString span.startLine ++ ", " ++ toString span.startColumn ++ " - " ++
    toString span.endLine ++ ", " ++ toString span.endColumn

end Span

end ExprTree
