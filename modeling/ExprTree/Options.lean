/-!
# Options

The choices that a caller has: when a node is rewritten, and how constants are compared that have
no comparison of their own.
-/

namespace ExprTree

/-- When a node is rewritten with respect to the nodes below it. -/
inductive Direction where
  | forward | backward
deriving DecidableEq

/-- How payloads are compared that are neither of a directly comparable type, nor queries, nor
sequences. -/
inductive ConstantPolicy where
  | byValue | byReference
deriving DecidableEq

/-- The name shown in texts. -/
def Direction.name : Direction → String
  | .forward => "Forward"
  | .backward => "Backward"

end ExprTree
