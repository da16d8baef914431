import ExprTree.Factory

/-!
# Rewrite rules

Functions to rewrite trees with: arithmetic on constants of 32 bits, the splitting of constant
strings, and the reduction of extensions. A rule gives the node back where it does not apply.
-/

namespace ExprTree.Rules

variable {m : Type → Type} [Monad m] [MonadStamp m]

/-- The 32-bit integer that the node is a constant of. -/
def int32? (node : Node) : Option Int32 := node.asConstant?.bind (·.asInt32?)

/-- A constant of 32 bits. -/
def int32 (value : Int32) : m Node := Factory.constant (.scalar (.i32 value))

/-- The integer as one of 32 bits, if it is in range. -/
def fitting? (value : Int) : Option Int32 :=
  if (Int32.ofInt value).toInt = value then some (Int32.ofInt value) else none

/-- The constant for the result of an operation, or the node if the result is out of range. -/
def result (node : Node) (value : Int) : m Node :=
  match fitting? value with
  | some value => int32 value
  | none => pure node

/-- Works out products and sums of constants, and drops the neutral and absorbing ones. -/
def foldConstants (node : Node) : m Node :=
  match node.kind, node.asBinary? with
  | .multiply, some (left, right) =>
    match int32? left, int32? right with
    | some 0, _ | _, some 0 => int32 0
    | some 1, _ => pure right
    | _, some 1 => pure left
    | some a, some b => result node (a.toInt * b.toInt)
    | _, _ => pure node
  | .add, some (left, right) =>
    match int32? left, int32? right with
    | some 0, _ => pure right
    | _, some 0 => pure left
    | some a, some b => result node (a.toInt + b.toInt)
    | _, _ => pure node
  | _, _ => pure node

/-- Doubles a constant, modulo the range. -/
def doubleConstant (node : Node) : m Node :=
  match int32? node with
  | some value => int32 (value + value)
  | none => pure node

/-- The pieces of a text between the separators. There is one more piece than separators. -/
def pieces (separator : Char) : List Char → List (List Char)
  | [] => [[]]
  | c :: rest =>
    if c = separator then [] :: pieces separator rest
    else
      match pieces separator rest with
      | piece :: others => (c :: piece) :: others
      | [] => [[c]]

/-- Puts the array of pieces in the place of a call that splits a constant string. -/
def splitText (node : Node) : m Node :=
  match node.shape with
  | .call (some object) method [argument] =>
    match object.asConstant?.bind (·.asText?), argument.asConstant?.bind (·.asChar?) with
    | some text, some separator =>
      if method.name = "Split" then do
        let items ← (pieces separator text.toList).mapM fun piece => do
          Factory.constant (← Value.makeText (String.ofList piece))
        Factory.newArrayInit .string items
      else pure node
    | _, _ => pure node
  | _ => pure node

/-- Reduces an extension. -/
def reduceExtension (node : Node) : m Node :=
  match node.shape with
  | .extension _ custom => do return (← custom.reduce).getD node
  | _ => pure node

/-- Rebuilds the node from its own shape. -/
def rebuildSelf (node : Node) : m Node := node.rebuild node.shape

/-- The rules by name. -/
def named : List (String × (Node → m Node)) :=
  [("keep", pure), ("rebuild", rebuildSelf), ("double", doubleConstant),
   ("reduce", reduceExtension), ("fold", foldConstants), ("split", splitText)]

end ExprTree.Rules
