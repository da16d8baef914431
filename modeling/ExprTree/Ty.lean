import ExprTree.Text.Separated

/-!
# Static types

The types that nodes carry. Two types are equal when they are written alike; there is no identity
behind a type. A type is directly comparable when constants of that type are always compared by
their value.
-/

namespace ExprTree

/-- The built-in types, in order. -/
inductive Primitive where
  | bool | char | i8 | u8 | i16 | u16 | i32 | u32 | i64 | u64 | f32 | f64 | string
deriving DecidableEq

namespace Primitive

/-- All built-in types, in order. -/
def all : List Primitive :=
  [.bool, .char, .i8, .u8, .i16, .u16, .i32, .u32, .i64, .u64, .f32, .f64, .string]

/-- The name shown in texts. -/
def name : Primitive → String
  | .bool => "bool"
  | .char => "char"
  | .i8 => "i8"
  | .u8 => "u8"
  | .i16 => "i16"
  | .u16 => "u16"
  | .i32 => "i32"
  | .u32 => "u32"
  | .i64 => "i64"
  | .u64 => "u64"
  | .f32 => "f32"
  | .f64 => "f64"
  | .string => "string"

/-- The built-in type of a given name. -/
def ofName? (name : String) : Option Primitive :=
  all.find? (·.name == name)

/-- Integers of any width. -/
def isInteger : Primitive → Bool
  | .i8 | .u8 | .i16 | .u16 | .i32 | .u32 | .i64 | .u64 => true
  | _ => false

/-- Integers and floating-point numbers. -/
def isNumeric (primitive : Primitive) : Bool :=
  primitive.isInteger || primitive = .f32 || primitive = .f64

/-- How many built-in types come before this one. -/
def rank (primitive : Primitive) : Nat :=
  all.idxOf primitive

end Primitive

/-- A static type. -/
inductive Ty where
  /-- The type of nodes that give no value. -/
  | void
  | primitive (primitive : Primitive)
  /-- A named set of constants, stored as `underlying`. -/
  | enum (name : String) (underlying : Primitive)
  /-- Values of `inner`, or nothing. -/
  | nullable (inner : Ty)
  | array (element : Ty) (rank : UInt8)
  | function (parameters : List Ty) (result : Ty)
  /-- Any other type; `byValue` holds for those that are copied. -/
  | named (name : String) (arguments : List Ty) (byValue : Bool)

namespace Ty

mutual

/-- Two types are compared part by part. -/
def beq : Ty → Ty → Bool
  | .void, .void => true
  | .primitive p, .primitive q => p = q
  | .enum name p, .enum name' q => name = name' && p = q
  | .nullable a, .nullable b => beq a b
  | .array a rank, .array b rank' => beq a b && rank = rank'
  | .function ps a, .function qs b => beqList ps qs && beq a b
  | .named name as byValue, .named name' bs byValue' =>
    name = name' && beqList as bs && byValue = byValue'
  | _, _ => false

/-- Two lists of types are compared item by item. -/
def beqList : List Ty → List Ty → Bool
  | [], [] => true
  | a :: as, b :: bs => beq a b && beqList as bs
  | _, _ => false

end

mutual

/-- The comparison part by part decides equality. -/
theorem beq_iff : ∀ a b : Ty, beq a b = true ↔ a = b
  | .void, b => by cases b <;> simp [beq]
  | .primitive p, b => by cases b <;> simp [beq]
  | .enum name p, b => by cases b <;> simp [beq]
  | .nullable a, b => by
    cases b with
    | nullable b => simp [beq, beq_iff a b]
    | _ => simp [beq]
  | .array a rank, b => by
    cases b with
    | array b rank' => simp [beq, beq_iff a b]
    | _ => simp [beq]
  | .function ps a, b => by
    cases b with
    | function qs b => simp [beq, beqList_iff ps qs, beq_iff a b]
    | _ => simp [beq]
  | .named name as byValue, b => by
    cases b with
    | named name' bs byValue' => simp [beq, beqList_iff as bs, and_assoc]
    | _ => simp [beq]

/-- The comparison item by item decides equality of lists. -/
theorem beqList_iff : ∀ as bs : List Ty, beqList as bs = true ↔ as = bs
  | [], bs => by cases bs <;> simp [beqList]
  | a :: as, bs => by
    cases bs with
    | nil => simp [beqList]
    | cons b bs => simp [beqList, beq_iff a b, beqList_iff as bs]

end

instance : DecidableEq Ty := fun a b => decidable_of_iff _ (beq_iff a b)

/-- The type of truth values. -/
def bool : Ty := .primitive .bool

/-- The type of characters. -/
def char : Ty := .primitive .char

/-- The type of 32-bit integers. -/
def i32 : Ty := .primitive .i32

/-- The type of 64-bit integers. -/
def i64 : Ty := .primitive .i64

/-- The type of strings. -/
def string : Ty := .primitive .string

/-- A type with arguments whose values are shared. -/
def generic (name : String) (arguments : List Ty) : Ty := .named name arguments false

/-- A type without arguments whose values are shared. -/
def reference (name : String) : Ty := generic name []

/-- The type of any shared value. -/
def object : Ty := reference "object"

/-- Arrays of one dimension. -/
def vector (element : Ty) : Ty := .array element 1

/-- The built-in type, if it is one. -/
def asPrimitive? : Ty → Option Primitive
  | .primitive p => some p
  | _ => none

/-- The element type of an array type. -/
def element? : Ty → Option Ty
  | .array element _ => some element
  | _ => none

/-- The result type of a function type. -/
def result? : Ty → Option Ty
  | .function _ result => some result
  | _ => none

/-- The type of nodes that give no value. -/
def isVoid : Ty → Bool
  | .void => true
  | _ => false

/-- Values of the type are copied, not shared. -/
def isByValue : Ty → Bool
  | .primitive p => p ≠ .string
  | .enum _ _ | .nullable _ => true
  | .named _ _ byValue => byValue
  | .void | .array _ _ | .function _ _ => false

/-- Constants of the type are always compared by value. -/
def isDirectlyComparable : Ty → Bool
  | .primitive _ | .enum _ _ => true
  | .nullable inner => inner.isDirectlyComparable
  | _ => false

mutual

/-- The type as it is written. An array of rank n has n - 1 commas. -/
def text : Ty → String
  | .void => "void"
  | .primitive p => p.name
  | .enum name _ => name
  | .nullable inner => inner.text ++ "?"
  | .array element rank =>
    element.text ++ "[" ++ String.ofList (List.replicate (rank.toNat - 1) ',') ++ "]"
  | .function parameters result =>
    "fn(" ++ Text.separated (texts parameters) ++ ") -> " ++ result.text
  | .named name [] _ => name
  | .named name (argument :: arguments) _ =>
    name ++ "<" ++ Text.separated (argument.text :: texts arguments) ++ ">"

/-- The texts of the types of a list. -/
def texts : List Ty → List String
  | [] => []
  | t :: ts => t.text :: texts ts

end

/-- The type as it is shown among other data. -/
def debugText (ty : Ty) : String := "Type(" ++ ty.text ++ ")"

end Ty

end ExprTree
