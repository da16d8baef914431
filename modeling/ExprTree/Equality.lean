import ExprTree.Node
import ExprTree.Trace

/-!
# Structural equality

Two trees are equal when they have the same kinds, static types and parts throughout, with these
relaxations: parameters and label targets are matched by name, and targets also by type; names of
lambdas and the way parameters are passed do not count; extensions, source stretches and defaults
match whatever they hold.

Constants of a directly comparable type are compared by value. Otherwise queries are compared by
their trees, sequences item by item, other scalars and strings by value, and what is left by the
policy of the comparison.

A comparison ends at the first check that fails and reports that check. Queries whose comparison
has begun and not ended are kept in a list of open pairs; a pair that is open already would be
compared by the policy instead of being entered again.
-/

namespace ExprTree

/-- Why a comparison ended. -/
inductive Halt where
  /-- A check told the trees apart. -/
  | differs (aspect : Aspect)
  /-- Two nodes of one kind have shapes of different families. -/
  | unsupported (kind : Kind) (found : Family)

/-- The state of a comparison. -/
structure Progress where
  /-- The pairs of roots of queries under comparison, innermost first. -/
  entered : List (Stamp × Stamp)
  /-- The events so far, latest first. -/
  events : List Event

/-- A step of a comparison. -/
abbrev CompareM := ExceptT Halt (StateM Progress)

namespace CompareM

/-- Notes an event. -/
def note (event : Event) : CompareM Unit :=
  modify fun progress => { progress with events := event :: progress.events }

/-- Ends the comparison at the given check. -/
def differ (aspect : Aspect) : CompareM Unit := do
  note (.treesDiffer aspect)
  throw (.differs aspect)

/-- Goes on only if the check passes. -/
def ensure (condition : Bool) (aspect : Aspect) : CompareM Unit :=
  if condition then pure () else differ aspect

/-- Runs the comparison of two queries with their roots among the open pairs. -/
def within (pair : Stamp × Stamp) (inner : CompareM Unit) : CompareM Unit :=
  ExceptT.mk fun progress =>
    let (result, after) := inner.run.run { progress with entered := pair :: progress.entered }
    (result, { after with entered := after.entered.erase pair })

end CompareM

open CompareM

variable {α : Type}

/-- Compares optional children: both absent, or both there and equal. -/
def compareOption (compare : α → Node → CompareM Unit) : Option α → Option Node → CompareM Unit
  | some a, some b => compare a b
  | none, none => pure ()
  | _, _ => differ .optionalChild

/-- Compares the items at the same places. The lengths have been compared before. -/
def compareItems {β : Type} (compare : α → β → CompareM Unit) : List α → List β → CompareM Unit
  | a :: as, b :: bs => do
    compare a b
    compareItems compare as bs
  | _, _ => pure ()

/-- Both absent, or two targets that agree. -/
def agreeingTargets : Option LabelTarget → Option LabelTarget → Bool
  | some a, some b => a.agrees b
  | none, none => true
  | _, _ => false

namespace Value

/-- Compares what has no comparison of its own. -/
def compareByPolicy (policy : ConstantPolicy) (a b : Value Node) : CompareM Unit :=
  match policy with
  | .byReference => ensure (a.same b) .constantInstance
  | .byValue => ensure (a.beq b) .constantValue

mutual

/-- Compares payloads of constants whose type is not directly comparable. -/
def compare (policy : ConstantPolicy) (node : α → Node) (compareRoots : α → Node → CompareM Unit) :
    Value α → Value Node → CompareM Unit
  | .query a element, .query b element' => do
    let pair := ((node a).stamp, b.stamp)
    if (← get).entered.contains pair then
      compareByPolicy policy (.query (node a) element) (.query b element')
    else
      within pair do
        note (.enteringQuery (node a))
        compareRoots a b
  | .sequence _ as, .sequence _ bs => do
    ensure (as.length = bs.length) .sequenceLength
    compareList policy node compareRoots as bs
  | .sequence stamp as, b => compareByPolicy policy (.sequence stamp (mapList node as)) b
  | .query a element, b => compareByPolicy policy (.query (node a) element) b
  | .object stamp host, b => compareByPolicy policy (.object stamp host) b
  | .scalar a, b => ensure ((Value.scalar a).beq b) .constantValue
  | .text stamp a, b => ensure ((Value.text stamp a).beq b) .constantValue

/-- Compares the items of two sequences of the same length. -/
def compareList (policy : ConstantPolicy) (node : α → Node)
    (compareRoots : α → Node → CompareM Unit) : List (Value α) → List (Value Node) → CompareM Unit
  | a :: as, b :: bs => do
    a.compare policy node compareRoots b
    compareList policy node compareRoots as bs
  | _, _ => pure ()

end

/-- Compares the payloads of two constants of the given type. -/
def compareAt (type : Ty) (policy : ConstantPolicy) (node : α → Node)
    (compareRoots : α → Node → CompareM Unit) (a : Value α) (b : Value Node) : CompareM Unit :=
  if type.isDirectlyComparable then ensure ((a.map node).beq b) .constantValue
  else a.compare policy node compareRoots b

end Value

/-- Compares two initializers. -/
def ElementInit.compare (compare : α → Node → CompareM Unit) (a : ElementInit α)
    (b : ElementInit Node) : CompareM Unit := do
  ensure (a.method = b.method) .addMethod
  ensure (a.arguments.length = b.arguments.length) .argumentCount
  compareItems compare a.arguments b.arguments

namespace Binding

mutual

/-- Compares two bindings. -/
def compare (compare' : α → Node → CompareM Unit) : Binding α → Binding Node → CompareM Unit
  | .assignment _ member a, .assignment _ member' b => do
    ensure (member = member') .boundMember
    compare' a b
  | .list _ member as, .list _ member' bs => do
    ensure (member = member') .boundMember
    ensure (as.length = bs.length) .initializerCount
    compareItems (ElementInit.compare compare') as bs
  | .nested _ member as, .nested _ member' bs => do
    ensure (member = member') .boundMember
    ensure (as.length = bs.length) .bindingCount
    compareList compare' as bs
  | a, b => do
    ensure (a.member = b.member) .boundMember
    differ .bindingKind

/-- Compares the bindings of two lists of the same length. -/
def compareList (compare' : α → Node → CompareM Unit) :
    List (Binding α) → List (Binding Node) → CompareM Unit
  | a :: as, b :: bs => do
    a.compare compare' b
    compareList compare' as bs
  | _, _ => pure ()

end

end Binding

/-- Compares two cases. -/
def SwitchCase.compare (compare : α → Node → CompareM Unit) (a : SwitchCase α)
    (b : SwitchCase Node) : CompareM Unit := do
  ensure (a.tests.length = b.tests.length) .testValueCount
  compareItems compare a.tests b.tests
  compare a.body b.body

/-- Compares two handlers. -/
def Handler.compare (compare : α → Node → CompareM Unit) (a : Handler α) (b : Handler Node) :
    CompareM Unit := do
  ensure (a.caught = b.caught) .caughtType
  compareOption compare a.bound b.bound
  compareOption compare a.filter b.filter
  compare a.body b.body

namespace Shape

/-- Compares the shapes of two nodes of the same kind and type. -/
def compare (kind : Kind) (type : Ty) (policy : ConstantPolicy) (node : α → Node)
    (compare' : α → Node → CompareM Unit) : Shape α → Shape Node → CompareM Unit
  | .binary left conversion right method lifted,
    .binary left' conversion' right' method' lifted' => do
    ensure (method = method') .operatorMethod
    ensure (lifted = lifted') .lifting
    compare' left left'
    compareOption compare' conversion conversion'
    compare' right right'
  | .unary operand method, .unary operand' method' => do
    ensure (method = method') .operatorMethod
    compareOption compare' operand operand'
  | .call object method arguments, .call object' method' arguments' => do
    ensure (arguments.length = arguments'.length) .argumentCount
    ensure (method = method') .method
    compareOption compare' object object'
    compareItems compare' arguments arguments'
  | .conditional test ifTrue ifFalse, .conditional test' ifTrue' ifFalse' => do
    compare' test test'
    compare' ifTrue ifTrue'
    compare' ifFalse ifFalse'
  | .invoke callee arguments, .invoke callee' arguments' => do
    ensure (arguments.length = arguments'.length) .argumentCount
    compare' callee callee'
    compareItems compare' arguments arguments'
  | .lambda body parameters _ _, .lambda body' parameters' _ _ => do
    ensure (parameters.length = parameters'.length) .parameterCount
    compareItems compare' parameters parameters'
    compare' body body'
  | .listInit creation inits, .listInit creation' inits' => do
    ensure (inits.length = inits'.length) .initializerCount
    compare' creation creation'
    compareItems (ElementInit.compare compare') inits inits'
  | .memberAccess object member, .memberAccess object' member' => do
    ensure (member = member') .member
    compareOption compare' object object'
  | .memberInit creation bindings, .memberInit creation' bindings' => do
    ensure (bindings.length = bindings'.length) .bindingCount
    compare' creation creation'
    Binding.compareList compare' bindings bindings'
  | .new constructor arguments members, .new constructor' arguments' members' => do
    ensure (arguments.length = arguments'.length) .argumentCount
    ensure (constructor = constructor') .constructor
    ensure (members = members') .initializedMembers
    compareItems compare' arguments arguments'
  | .newArray items, .newArray items' => do
    ensure (items.length = items'.length) .elementCount
    compareItems compare' items items'
  | .typeBinary operand operandType, .typeBinary operand' operandType' => do
    ensure (operandType = operandType') .typeOperand
    compare' operand operand'
  | .block locals statements, .block locals' statements' => do
    ensure (locals.length = locals'.length) .variableCount
    ensure (statements.length = statements'.length) .expressionCount
    compareItems compare' locals locals'
    compareItems compare' statements statements'
  | .dynamic binder delegate arguments, .dynamic binder' delegate' arguments' => do
    ensure (arguments.length = arguments'.length) .argumentCount
    ensure (binder = binder') .binder
    ensure (delegate = delegate') .delegateType
    compareItems compare' arguments arguments'
  | .goto jump target value, .goto jump' target' value' => do
    ensure (jump = jump') .gotoKind
    ensure (target.agrees target') .label
    compareOption compare' value value'
  | .index object indexer arguments, .index object' indexer' arguments' => do
    ensure (arguments.length = arguments'.length) .argumentCount
    ensure (indexer = indexer') .indexer
    compare' object object'
    compareItems compare' arguments arguments'
  | .label target value, .label target' value' => do
    ensure (target.agrees target') .label
    compareOption compare' value value'
  | .runtimeVariables locals, .runtimeVariables locals' => do
    ensure (locals.length = locals'.length) .variableCount
    compareItems compare' locals locals'
  | .loop body breakTarget continueTarget, .loop body' breakTarget' continueTarget' => do
    ensure (agreeingTargets breakTarget breakTarget') .breakLabel
    ensure (agreeingTargets continueTarget continueTarget') .continueLabel
    compare' body body'
  | .switch subject cases otherwise comparison, .switch subject' cases' otherwise' comparison' => do
    ensure (cases.length = cases'.length) .caseCount
    ensure (comparison = comparison') .comparisonMethod
    compare' subject subject'
    compareItems (SwitchCase.compare compare') cases cases'
    compareOption compare' otherwise otherwise'
  | .tryCatch body handlers cleanup fault, .tryCatch body' handlers' cleanup' fault' => do
    ensure (handlers.length = handlers'.length) .handlerCount
    compare' body body'
    compareItems (Handler.compare compare') handlers handlers'
    compareOption compare' cleanup cleanup'
    compareOption compare' fault fault'
  | .parameter name _, .parameter name' _ => ensure (name = name') .parameterName
  | .constant value, .constant value' => value.compareAt type policy node compare' value'
  | .extension _ _, .extension _ _ | .debugInfo _ _, .debugInfo _ _ | .default, .default => pure ()
  | _, other => throw (.unsupported kind other.family)

end Shape

namespace Node

/-- Compares two trees. One node is equal to itself without looking inside. -/
def compare (policy : ConstantPolicy) (a b : Node) : CompareM Unit :=
  if a.same b then pure ()
  else do
    ensure (a.kind = b.kind) .nodeKind
    ensure (a.type = b.type) .staticType
    a.shape.attach.compare a.kind a.type policy Subtype.val
      (fun ⟨child, _⟩ other => child.compare policy other) b.shape
termination_by sizeOf a
decreasing_by exact sizeOf_lt_of_mem_handles (by assumption)

end Node

/-- The answer of a comparison, with the events on the way to it. -/
structure Comparison where
  /-- Why the comparison ended early, if it did. -/
  halt : Option Halt
  /-- The events, in order. -/
  events : List Event

/-- The trees are equal. -/
def Comparison.equal (comparison : Comparison) : Bool := comparison.halt.isNone

/-- A comparer that can be used for many pairs of trees. -/
structure Comparer where
  /-- How constants without a comparison of their own are compared. -/
  policy : ConstantPolicy
  /-- The open pairs of queries; none between two comparisons. -/
  entered : List (Stamp × Stamp)

namespace Comparer

/-- Compares two trees, starting without open pairs. -/
def run (comparer : Comparer) (a b : Node) : Comparison × Comparer :=
  let (result, progress) := (a.compare comparer.policy b).run.run ⟨[], []⟩
  let halt := match result with
    | .ok () => none
    | .error halt => some halt
  (⟨halt, progress.events.reverse⟩, { comparer with entered := progress.entered })

end Comparer

namespace Node

/-- Compares two trees with a comparer of their own. -/
def comparison (policy : ConstantPolicy) (a b : Node) : Comparison :=
  (Comparer.run ⟨policy, []⟩ a b).1

/-- The two trees are structurally equal. -/
def equals (policy : ConstantPolicy) (a b : Node) : Bool := (a.comparison policy b).equal

/-- `Node.equals`, with its events reported. -/
def tracedEquals {m : Type → Type} [Monad m] [MonadTrace m] (policy : ConstantPolicy)
    (a b : Node) : m Bool := do
  let comparison := a.comparison policy b
  comparison.events.forM emit
  return comparison.equal

end Node

/-- Two absent trees are equal, an absent one and a present one are not. -/
def equalsOption (policy : ConstantPolicy) : Option Node → Option Node → Bool
  | some a, some b => a.equals policy b
  | none, none => true
  | _, _ => false

/-- `equalsOption`, with its events reported. -/
def tracedEqualsOption {m : Type → Type} [Monad m] [MonadTrace m] (policy : ConstantPolicy) :
    Option Node → Option Node → m Bool
  | some a, some b => a.tracedEquals policy b
  | a, b => pure (equalsOption policy a b)

end ExprTree
