/-!
# Node kinds and families

Every node has one kind. Kinds whose nodes hold the same parts form a family, and the family alone
decides how a node is walked, rebuilt and compared. The set of kinds is closed. Their order here is
the order in which they are sorted, and kinds of one family stand together.
-/

namespace ExprTree

/-- A shape that nodes can have. -/
inductive Family where
  | binary | unary | call | conditional | invoke | lambda | listInit | memberAccess | memberInit
  | new | newArray | typeBinary | block | dynamic | goto | index | label | runtimeVariables
  | loop | switch | tryCatch | extension | debugInfo | parameter | constant | default
deriving DecidableEq

/-- What a node does. -/
inductive Kind where
  | add | addChecked | and | andAlso | arrayIndex | assign | coalesce | divide | equal
  | exclusiveOr | greaterThan | greaterThanOrEqual | leftShift | lessThan | lessThanOrEqual
  | modulo | multiply | multiplyChecked | notEqual | or | orElse | power | rightShift | subtract
  | subtractChecked | addAssign | andAssign | divideAssign | exclusiveOrAssign | leftShiftAssign
  | moduloAssign | multiplyAssign | orAssign | powerAssign | rightShiftAssign | subtractAssign
  | addAssignChecked | multiplyAssignChecked | subtractAssignChecked | arrayLength | convert
  | convertChecked | negate | negateChecked | not | quote | typeAs | unaryPlus | decrement
  | increment | isFalse | isTrue | throw | unbox | preIncrementAssign | preDecrementAssign
  | postIncrementAssign | postDecrementAssign | onesComplement | call | conditional | invoke
  | lambda | listInit | memberAccess | memberInit | new | newArrayBounds | newArrayInit
  | typeEqual | typeIs | block | dynamic | goto | index | label | runtimeVariables | loop
  | switch | tryCatch | extension | debugInfo | parameter | constant | default
deriving DecidableEq

namespace Family

/-- All families, in order. -/
def all : List Family :=
  [.binary, .unary, .call, .conditional, .invoke, .lambda, .listInit, .memberAccess, .memberInit,
   .new, .newArray, .typeBinary, .block, .dynamic, .goto, .index, .label, .runtimeVariables,
   .loop, .switch, .tryCatch, .extension, .debugInfo, .parameter, .constant, .default]

/-- The name shown in texts. -/
def name : Family → String
  | .binary => "Binary"
  | .unary => "Unary"
  | .call => "Call"
  | .conditional => "Conditional"
  | .invoke => "Invoke"
  | .lambda => "Lambda"
  | .listInit => "ListInit"
  | .memberAccess => "MemberAccess"
  | .memberInit => "MemberInit"
  | .new => "New"
  | .newArray => "NewArray"
  | .typeBinary => "TypeBinary"
  | .block => "Block"
  | .dynamic => "Dynamic"
  | .goto => "Goto"
  | .index => "Index"
  | .label => "Label"
  | .runtimeVariables => "RuntimeVariables"
  | .loop => "Loop"
  | .switch => "Switch"
  | .tryCatch => "Try"
  | .extension => "Extension"
  | .debugInfo => "DebugInfo"
  | .parameter => "Parameter"
  | .constant => "Constant"
  | .default => "Default"

end Family

namespace Kind

/-- All kinds, in order. -/
def all : List Kind :=
  [.add, .addChecked, .and, .andAlso, .arrayIndex, .assign, .coalesce, .divide, .equal,
   .exclusiveOr, .greaterThan, .greaterThanOrEqual, .leftShift, .lessThan, .lessThanOrEqual,
   .modulo, .multiply, .multiplyChecked, .notEqual, .or, .orElse, .power, .rightShift, .subtract,
   .subtractChecked, .addAssign, .andAssign, .divideAssign, .exclusiveOrAssign, .leftShiftAssign,
   .moduloAssign, .multiplyAssign, .orAssign, .powerAssign, .rightShiftAssign, .subtractAssign,
   .addAssignChecked, .multiplyAssignChecked, .subtractAssignChecked, .arrayLength, .convert,
   .convertChecked, .negate, .negateChecked, .not, .quote, .typeAs, .unaryPlus, .decrement,
   .increment, .isFalse, .isTrue, .throw, .unbox, .preIncrementAssign, .preDecrementAssign,
   .postIncrementAssign, .postDecrementAssign, .onesComplement, .call, .conditional, .invoke,
   .lambda, .listInit, .memberAccess, .memberInit, .new, .newArrayBounds, .newArrayInit,
   .typeEqual, .typeIs, .block, .dynamic, .goto, .index, .label, .runtimeVariables, .loop,
   .switch, .tryCatch, .extension, .debugInfo, .parameter, .constant, .default]

/-- The name shown in texts. -/
def name : Kind → String
  | .add => "Add"
  | .addChecked => "AddChecked"
  | .and => "And"
  | .andAlso => "AndAlso"
  | .arrayIndex => "ArrayIndex"
  | .assign => "Assign"
  | .coalesce => "Coalesce"
  | .divide => "Divide"
  | .equal => "Equal"
  | .exclusiveOr => "ExclusiveOr"
  | .greaterThan => "GreaterThan"
  | .greaterThanOrEqual => "GreaterThanOrEqual"
  | .leftShift => "LeftShift"
  | .lessThan => "LessThan"
  | .lessThanOrEqual => "LessThanOrEqual"
  | .modulo => "Modulo"
  | .multiply => "Multiply"
  | .multiplyChecked => "MultiplyChecked"
  | .notEqual => "NotEqual"
  | .or => "Or"
  | .orElse => "OrElse"
  | .power => "Power"
  | .rightShift => "RightShift"
  | .subtract => "Subtract"
  | .subtractChecked => "SubtractChecked"
  | .addAssign => "AddAssign"
  | .andAssign => "AndAssign"
  | .divideAssign => "DivideAssign"
  | .exclusiveOrAssign => "ExclusiveOrAssign"
  | .leftShiftAssign => "LeftShiftAssign"
  | .moduloAssign => "ModuloAssign"
  | .multiplyAssign => "MultiplyAssign"
  | .orAssign => "OrAssign"
  | .powerAssign => "PowerAssign"
  | .rightShiftAssign => "RightShiftAssign"
  | .subtractAssign => "SubtractAssign"
  | .addAssignChecked => "AddAssignChecked"
  | .multiplyAssignChecked => "MultiplyAssignChecked"
  | .subtractAssignChecked => "SubtractAssignChecked"
  | .arrayLength => "ArrayLength"
  | .convert => "Convert"
  | .convertChecked => "ConvertChecked"
  | .negate => "Negate"
  | .negateChecked => "NegateChecked"
  | .not => "Not"
  | .quote => "Quote"
  | .typeAs => "TypeAs"
  | .unaryPlus => "UnaryPlus"
  | .decrement => "Decrement"
  | .increment => "Increment"
  | .isFalse => "IsFalse"
  | .isTrue => "IsTrue"
  | .throw => "Throw"
  | .unbox => "Unbox"
  | .preIncrementAssign => "PreIncrementAssign"
  | .preDecrementAssign => "PreDecrementAssign"
  | .postIncrementAssign => "PostIncrementAssign"
  | .postDecrementAssign => "PostDecrementAssign"
  | .onesComplement => "OnesComplement"
  | .call => "Call"
  | .conditional => "Conditional"
  | .invoke => "Invoke"
  | .lambda => "Lambda"
  | .listInit => "ListInit"
  | .memberAccess => "MemberAccess"
  | .memberInit => "MemberInit"
  | .new => "New"
  | .newArrayBounds => "NewArrayBounds"
  | .newArrayInit => "NewArrayInit"
  | .typeEqual => "TypeEqual"
  | .typeIs => "TypeIs"
  | .block => "Block"
  | .dynamic => "Dynamic"
  | .goto => "Goto"
  | .index => "Index"
  | .label => "Label"
  | .runtimeVariables => "RuntimeVariables"
  | .loop => "Loop"
  | .switch => "Switch"
  | .tryCatch => "Try"
  | .extension => "Extension"
  | .debugInfo => "DebugInfo"
  | .parameter => "Parameter"
  | .constant => "Constant"
  | .default => "Default"

/-- The family that fixes the shape of the kind's nodes. -/
def family : Kind → Family
  | .add | .addChecked | .and | .andAlso | .arrayIndex | .assign | .coalesce | .divide | .equal
  | .exclusiveOr | .greaterThan | .greaterThanOrEqual | .leftShift | .lessThan | .lessThanOrEqual
  | .modulo | .multiply | .multiplyChecked | .notEqual | .or | .orElse | .power | .rightShift
  | .subtract | .subtractChecked | .addAssign | .andAssign | .divideAssign | .exclusiveOrAssign
  | .leftShiftAssign | .moduloAssign | .multiplyAssign | .orAssign | .powerAssign
  | .rightShiftAssign | .subtractAssign | .addAssignChecked | .multiplyAssignChecked
  | .subtractAssignChecked => .binary
  | .arrayLength | .convert | .convertChecked | .negate | .negateChecked | .not | .quote
  | .typeAs | .unaryPlus | .decrement | .increment | .isFalse | .isTrue | .throw | .unbox
  | .preIncrementAssign | .preDecrementAssign | .postIncrementAssign | .postDecrementAssign
  | .onesComplement => .unary
  | .call => .call
  | .conditional => .conditional
  | .invoke => .invoke
  | .lambda => .lambda
  | .listInit => .listInit
  | .memberAccess => .memberAccess
  | .memberInit => .memberInit
  | .new => .new
  | .newArrayBounds | .newArrayInit => .newArray
  | .typeEqual | .typeIs => .typeBinary
  | .block => .block
  | .dynamic => .dynamic
  | .goto => .goto
  | .index => .index
  | .label => .label
  | .runtimeVariables => .runtimeVariables
  | .loop => .loop
  | .switch => .switch
  | .tryCatch => .tryCatch
  | .extension => .extension
  | .debugInfo => .debugInfo
  | .parameter => .parameter
  | .constant => .constant
  | .default => .default

/-- Kinds whose result is a truth value whatever the operands are. -/
def isComparison : Kind → Bool
  | .equal | .notEqual | .greaterThan | .greaterThanOrEqual | .lessThan | .lessThanOrEqual => true
  | _ => false

/-- Kinds that write to their first operand. -/
def isAssignment : Kind → Bool
  | .assign | .addAssign | .andAssign | .divideAssign | .exclusiveOrAssign | .leftShiftAssign
  | .moduloAssign | .multiplyAssign | .orAssign | .powerAssign | .rightShiftAssign
  | .subtractAssign | .addAssignChecked | .multiplyAssignChecked | .subtractAssignChecked
  | .preIncrementAssign | .preDecrementAssign | .postIncrementAssign | .postDecrementAssign => true
  | _ => false

/-- The kind of a given name. -/
def ofName? (name : String) : Option Kind :=
  all.find? (·.name == name)

/-- The position in the order of kinds. -/
def rank (kind : Kind) : Nat :=
  all.idxOf kind

/-- Sorts by the order of kinds; equal kinds are kept. -/
def sort (kinds : List Kind) : List Kind :=
  kinds.mergeSort (fun a b => a.rank ≤ b.rank)

end Kind

namespace Family

/-- The family of a given name. -/
def ofName? (name : String) : Option Family :=
  all.find? (·.name == name)

/-- The kinds of the family, in order. -/
def kinds (family : Family) : List Kind :=
  Kind.all.filter (·.family = family)

/-- The families of the given kinds, in order and each once. -/
def ofKinds (kinds : List Kind) : List Family :=
  all.filter (fun family => kinds.any (·.family = family))

end Family

end ExprTree
