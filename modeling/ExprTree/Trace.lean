import ExprTree.Node
import ExprTree.Options

/-!
# Events

What operations report about their progress: which check told two trees apart, that the comparison
of a nested query begins, that a tree is being rewritten. An operation that reports is an action of
a monad that takes events.
-/

namespace ExprTree

/-- What a check of a comparison is about. -/
inductive Aspect where
  | nodeKind | staticType | operatorMethod | lifting | argumentCount | method | parameterCount
  | initializerCount | member | bindingCount | constructor | initializedMembers | elementCount
  | typeOperand | variableCount | expressionCount | binder | delegateType | gotoKind | label
  | indexer | breakLabel | continueLabel | caseCount | comparisonMethod | handlerCount
  | parameterName | constantValue | constantInstance | sequenceLength | optionalChild | addMethod
  | boundMember | bindingKind | testValueCount | caughtType
deriving DecidableEq

/-- The words in which a check is reported. -/
def Aspect.name : Aspect → String
  | .nodeKind => "node kind"
  | .staticType => "static type"
  | .operatorMethod => "operator method"
  | .lifting => "lifting"
  | .argumentCount => "argument count"
  | .method => "method"
  | .parameterCount => "parameter count"
  | .initializerCount => "initializer count"
  | .member => "member"
  | .bindingCount => "binding count"
  | .constructor => "constructor"
  | .initializedMembers => "initialized members"
  | .elementCount => "element count"
  | .typeOperand => "type operand"
  | .variableCount => "variable count"
  | .expressionCount => "expression count"
  | .binder => "binder"
  | .delegateType => "delegate type"
  | .gotoKind => "goto kind"
  | .label => "label"
  | .indexer => "indexer"
  | .breakLabel => "break label"
  | .continueLabel => "continue label"
  | .caseCount => "case count"
  | .comparisonMethod => "comparison method"
  | .handlerCount => "handler count"
  | .parameterName => "parameter name"
  | .constantValue => "constant value"
  | .constantInstance => "constant instance"
  | .sequenceLength => "sequence length"
  | .optionalChild => "optional child"
  | .addMethod => "add method"
  | .boundMember => "bound member"
  | .bindingKind => "binding kind"
  | .testValueCount => "test value count"
  | .caughtType => "caught type"

/-- A report of an operation in progress. -/
inductive Event where
  /-- A check told two trees apart. -/
  | treesDiffer (aspect : Aspect)
  /-- The roots of two queries are compared next; the left one is given. -/
  | enteringQuery (root : Node)
  /-- A tree of the given kind is rewritten. -/
  | transforming (direction : Direction) (root : Kind)

/-- A monad that takes events. -/
class MonadTrace (m : Type → Type) where
  /-- Reports an event. -/
  emit : Event → m Unit

export MonadTrace (emit)

/-- More state leaves reports as they are. -/
instance {m : Type → Type} {σ : Type} [Monad m] [MonadTrace m] : MonadTrace (StateT σ m) where
  emit event := StateT.lift (emit event)

/-- Early exit leaves reports as they are. -/
instance {m : Type → Type} {ε : Type} [Monad m] [MonadTrace m] : MonadTrace (ExceptT ε m) where
  emit event := ExceptT.lift (emit event)

end ExprTree
