import ExprTree.Member
import ExprTree.Number.Binary

/-!
# Constant payloads

A constant holds a scalar, or a payload with an identity: a string, a sequence, a host object, or a
query, which is known by the tree it was built from. `α` is the type of handles to such trees.
Payloads can be equal by value or be one instance. Scalars have no identity of their own, so for
them both mean equality by value; a NaN is therefore not even the same instance as itself.
-/

namespace ExprTree

/-- A payload without identity. -/
inductive Scalar where
  | null
  | bool (value : Bool)
  | char (value : Char)
  | i8 (value : Int8)
  | u8 (value : UInt8)
  | i16 (value : Int16)
  | u16 (value : UInt16)
  | i32 (value : Int32)
  | u32 (value : UInt32)
  | i64 (value : Int64)
  | u64 (value : UInt64)
  | f32 (value : Number.Binary .single)
  | f64 (value : Number.Binary .double)
  /-- The discriminant of an enumeration; the type of the constant says of which. -/
  | enum (discriminant : Int64)

/-- An object of the host that a constant can hold. -/
inductive HostObject where
  /-- Equal to points with the same coordinates. -/
  | point (x y : Int)
  /-- Equal to itself only. -/
  | handle (tag : String)
  /-- Takes itself for equal to every object. -/
  | wild (tag : String)
  /-- Has an equality of its own, given by the instances that it takes for equal. -/
  | custom (text : String) (accepts : Stamp → Bool)

/-- The payload of a constant. -/
inductive Value (α : Type) where
  | scalar (scalar : Scalar)
  | text (stamp : Stamp) (value : String)
  | sequence (stamp : Stamp) (items : List (Value α))
  /-- A nested query with the tree it was built from. -/
  | query (root : α) (element : Ty)
  | object (stamp : Stamp) (host : HostObject)

namespace Scalar

/-- Equality by value. Floating-point numbers are compared as numbers. -/
def equal : Scalar → Scalar → Bool
  | .null, .null => true
  | .bool a, .bool b => a = b
  | .char a, .char b => a = b
  | .i8 a, .i8 b => a = b
  | .u8 a, .u8 b => a = b
  | .i16 a, .i16 b => a = b
  | .u16 a, .u16 b => a = b
  | .i32 a, .i32 b => a = b
  | .u32 a, .u32 b => a = b
  | .i64 a, .i64 b => a = b
  | .u64 a, .u64 b => a = b
  | .f32 a, .f32 b => a.sameNumber b
  | .f64 a, .f64 b => a.sameNumber b
  | .enum a, .enum b => a = b
  | _, _ => false

/-- The scalar as it is written. -/
def text : Scalar → String
  | .null => "null"
  | .bool value => if value then "true" else "false"
  | .char value => "'" ++ value.toString ++ "'"
  | .i8 value => toString value.toInt
  | .u8 value => toString value.toNat
  | .i16 value => toString value.toInt
  | .u16 value => toString value.toNat
  | .i32 value => toString value.toInt
  | .u32 value => toString value.toNat
  | .i64 value => toString value.toInt
  | .u64 value => toString value.toNat
  | .f32 value => value.text
  | .f64 value => value.text
  | .enum discriminant => toString discriminant.toInt

/-- The type and the value of an integer of any width. -/
def integer? : Scalar → Option (Primitive × Int)
  | .i8 value => some (.i8, value.toInt)
  | .u8 value => some (.u8, value.toNat)
  | .i16 value => some (.i16, value.toInt)
  | .u16 value => some (.u16, value.toNat)
  | .i32 value => some (.i32, value.toInt)
  | .u32 value => some (.u32, value.toNat)
  | .i64 value => some (.i64, value.toInt)
  | .u64 value => some (.u64, value.toNat)
  | _ => none

/-- The integer of the given type, modulo its range; none if the type is not one of integers. -/
def ofInteger? (type : Primitive) (value : Int) : Option Scalar :=
  match type with
  | .i8 => some (.i8 (Int8.ofInt value))
  | .u8 => some (.u8 (UInt8.ofInt value))
  | .i16 => some (.i16 (Int16.ofInt value))
  | .u16 => some (.u16 (UInt16.ofInt value))
  | .i32 => some (.i32 (Int32.ofInt value))
  | .u32 => some (.u32 (UInt32.ofInt value))
  | .i64 => some (.i64 (Int64.ofInt value))
  | .u64 => some (.u64 (UInt64.ofInt value))
  | _ => none

/-- The type of a constant that is not given one. -/
def naturalType : Scalar → Ty
  | .null => .object
  | .bool _ => .bool
  | .char _ => .char
  | .i8 _ => .primitive .i8
  | .u8 _ => .primitive .u8
  | .i16 _ => .primitive .i16
  | .u16 _ => .primitive .u16
  | .i32 _ => .i32
  | .u32 _ => .primitive .u32
  | .i64 _ => .i64
  | .u64 _ => .primitive .u64
  | .f32 _ => .primitive .f32
  | .f64 _ => .primitive .f64
  | .enum _ => .i64

end Scalar

namespace HostObject

/-- The first object, at the stamp `s`, takes the second, at the stamp `t`, for equal. -/
def equal (s : Stamp) : HostObject → Stamp → HostObject → Bool
  | .point x y, _, .point x' y' => x = x' && y = y'
  | .handle _, t, _ => s = t
  | .wild _, _, _ => true
  | .custom _ accepts, t, _ => accepts t
  | .point _ _, _, _ => false

/-- The object as it is shown among other data. -/
def debugText : HostObject → String
  | .point x y => "Point(" ++ toString x ++ ", " ++ toString y ++ ")"
  | .handle tag => "Handle(" ++ tag ++ ")"
  | .wild tag => "Wild(" ++ tag ++ ")"
  | .custom text _ => text

end HostObject

namespace Value

variable {α β : Type}

mutual

/-- The handles in the payload, in order. -/
def roots : Value α → List α
  | .query root _ => [root]
  | .sequence _ items => rootsOfList items
  | .scalar _ | .text _ _ | .object _ _ => []

/-- The handles in the payloads of a list, in order. -/
def rootsOfList : List (Value α) → List α
  | [] => []
  | value :: rest => value.roots ++ rootsOfList rest

end

mutual

/-- Replaces every handle. -/
def map (f : α → β) : Value α → Value β
  | .scalar s => .scalar s
  | .text stamp value => .text stamp value
  | .sequence stamp items => .sequence stamp (mapList f items)
  | .query root element => .query (f root) element
  | .object stamp host => .object stamp host

/-- Replaces every handle in the payloads of a list. -/
def mapList (f : α → β) : List (Value α) → List (Value β)
  | [] => []
  | value :: rest => value.map f :: mapList f rest

end

mutual

/-- Replaces every handle by a function that may use a fact about it. -/
def pmap {P : α → Prop} (f : (a : α) → P a → β) :
    (value : Value α) → (∀ a ∈ value.roots, P a) → Value β
  | .scalar s, _ => .scalar s
  | .text stamp value, _ => .text stamp value
  | .sequence stamp items, h => .sequence stamp (pmapList f items fun a ha => h a (by
      simpa [roots] using ha))
  | .query root element, h => .query (f root (h root (by simp [roots]))) element
  | .object stamp host, _ => .object stamp host

/-- Replaces every handle in the payloads of a list. -/
def pmapList {P : α → Prop} (f : (a : α) → P a → β) :
    (values : List (Value α)) → (∀ a ∈ rootsOfList values, P a) → List (Value β)
  | [], _ => []
  | value :: rest, h =>
    value.pmap f (fun a ha => h a (by simp [rootsOfList, ha])) ::
      pmapList f rest (fun a ha => h a (by simp [rootsOfList, ha]))

end

mutual

/-- Equality by value. A query has no value beyond the tree it was built from, so two queries are
equal when `same` holds of their roots. -/
def equal (same : α → β → Bool) : Value α → Value β → Bool
  | .scalar a, .scalar b => a.equal b
  | .text _ a, .text _ b => a = b
  | .sequence _ as, .sequence _ bs => equalList same as bs
  | .query a _, .query b _ => same a b
  | .object s a, .object t b => a.equal s t b
  | _, _ => false

/-- Equality by value of two lists of payloads. -/
def equalList (same : α → β → Bool) : List (Value α) → List (Value β) → Bool
  | [], [] => true
  | a :: as, b :: bs => a.equal same b && equalList same as bs
  | _, _ => false

end

/-- The two payloads are one instance. Payloads without identity are compared by value. -/
def sameInstance (same : α → β → Bool) : Value α → Value β → Bool
  | .text s _, .text t _ => s = t
  | .sequence s _, .sequence t _ => s = t
  | .query a _, .query b _ => same a b
  | .object s _, .object t _ => s = t
  | a, b => a.equal same b

/-- The type of a constant that is not given one. -/
def naturalType : Value α → Ty
  | .scalar s => s.naturalType
  | .text _ _ => .string
  | .sequence _ _ => .vector .object
  | .query _ element => .generic "Queryable" [element]
  | .object _ _ => .object

mutual

/-- The payload as it is written; nothing is escaped. -/
def toText : Value α → String
  | .scalar s => s.text
  | .text _ value => "\"" ++ value ++ "\""
  | .sequence _ items => "[" ++ Text.separated (textsOfList items) ++ "]"
  | .query _ element => "value(Queryable<" ++ element.text ++ ">)"
  | .object _ host => "value(" ++ host.debugText ++ ")"

/-- The texts of the payloads of a list. -/
def textsOfList : List (Value α) → List String
  | [] => []
  | value :: rest => value.toText :: textsOfList rest

end

/-- The payload that stands for nothing. -/
def isNull : Value α → Bool
  | .scalar .null => true
  | _ => false

/-- The truth value, if it is one. -/
def asBool? : Value α → Option Bool
  | .scalar (.bool value) => some value
  | _ => none

/-- The 32-bit integer, if it is one. -/
def asInt32? : Value α → Option Int32
  | .scalar (.i32 value) => some value
  | _ => none

/-- The 64-bit integer, if it is one. -/
def asInt64? : Value α → Option Int64
  | .scalar (.i64 value) => some value
  | _ => none

/-- The character, if it is one. -/
def asChar? : Value α → Option Char
  | .scalar (.char value) => some value
  | _ => none

/-- The string, if it is one. -/
def asText? : Value α → Option String
  | .text _ value => some value
  | _ => none

/-- The items, if it is a sequence. -/
def asSequence? : Value α → Option (List (Value α))
  | .sequence _ items => some items
  | _ => none

/-- The root and the element type, if it is a query. -/
def asQuery? : Value α → Option (α × Ty)
  | .query root element => some (root, element)
  | _ => none

/-- Creates a string. -/
def makeText {m : Type → Type} [Monad m] [MonadStamp m] (value : String) : m (Value α) := do
  return .text (← fresh) value

/-- Creates a sequence. -/
def makeSequence {m : Type → Type} [Monad m] [MonadStamp m] (items : List (Value α)) :
    m (Value α) := do
  return .sequence (← fresh) items

/-- Creates a host object. -/
def makeObject {m : Type → Type} [Monad m] [MonadStamp m] (host : HostObject) :
    m (Value α) := do
  return .object (← fresh) host

end Value

end ExprTree
