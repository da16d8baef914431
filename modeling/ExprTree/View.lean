import ExprTree.Text.Render
import ExprTree.Traversal.Rewrite
import ExprTree.Traversal.Visit
import ExprTree.View.Parts

/-!
# Views

A view wraps a node and shows the nodes that it holds as views again. A view resolves a slot when it
is first asked for it and keeps the result, so that later questions get the same view; this matters
for the reduction of an extension, which would otherwise be a new node each time. That a slot shows
nothing is kept too, so an extension is asked for its reduction only once.

Structures that are nested in a node are shown through the view of the node, in whose cells all that
they hold is kept.

Views are equal when they wrap the same node, whatever they have resolved so far.
-/

namespace ExprTree

/-- A node was asked for as one of another family. -/
structure ViewError where
  /-- The family that was asked for. -/
  expected : Family
  /-- The kind of the node. -/
  found : Kind

/-- What is reported when a node is of another family. -/
def ViewError.message (error : ViewError) : String :=
  "expected a " ++ error.expected.name ++ " node, found " ++ error.found.name

/-- A node with the cells of the slots that were resolved: each holds the view of what the slot
shows, or that it shows nothing. -/
inductive View where
  | mk (node : Node) (cells : List (Slot × Option View))

namespace View

variable {β : Type} {m : Type → Type} [Monad m] [MonadStamp m]

/-- The wrapped node. -/
def node : View → Node
  | .mk node _ => node

/-- The slots that were resolved, with what they showed. -/
def cells : View → List (Slot × Option View)
  | .mk _ cells => cells

/-- A view that has resolved nothing yet. -/
def wrap (node : Node) : View := .mk node []

/-- Wraps a node that must have the shape of the family. -/
def ofFamily (family : Family) (node : Node) : Except ViewError View :=
  if node.shape.family = family then .ok (wrap node) else .error ⟨family, node.kind⟩

/-- The family whose view shows the nodes of a kind. -/
def familyFor : Kind → Family
  | .add | .addChecked | .and | .andAlso | .arrayIndex | .assign | .coalesce | .divide | .equal
  | .exclusiveOr | .greaterThan | .greaterThanOrEqual | .leftShift | .lessThan | .lessThanOrEqual
  | .modulo | .multiply | .multiplyChecked | .notEqual | .or | .orElse | .power | .rightShift
  | .subtract | .subtractChecked | .addAssign | .andAssign | .divideAssign | .exclusiveOrAssign
  | .leftShiftAssign | .moduloAssign | .multiplyAssign | .orAssign | .powerAssign
  | .rightShiftAssign | .subtractAssign | .addAssignChecked | .multiplyAssignChecked
  | .subtractAssignChecked => .binary
  | .arrayLength | .convert | .convertChecked | .negate | .negateChecked | .not | .quote | .typeAs
  | .unaryPlus | .decrement | .increment | .isFalse | .isTrue | .throw | .unbox
  | .preIncrementAssign | .preDecrementAssign | .postIncrementAssign | .postDecrementAssign
  | .onesComplement => .unary
  | .call => .call
  | .conditional => .conditional
  | .invoke => .invoke
  | .lambda => .lambda
  | .listInit => .listInit
  | .memberAccess => .memberAccess
  | .memberInit => .memberInit
  | .new => .new
  | .newArrayBounds | .newArrayInit => .newArray
  | .typeEqual | .typeIs => .typeBinary
  | .block => .block
  | .dynamic => .dynamic
  | .goto => .goto
  | .index => .index
  | .label => .label
  | .runtimeVariables => .runtimeVariables
  | .loop => .loop
  | .switch => .switch
  | .tryCatch => .tryCatch
  | .extension => .extension
  | .debugInfo => .debugInfo
  | .parameter => .parameter
  | .constant => .constant
  | .default => .default

/-- Wraps a node by its kind; its shape must be the one that the view shows. -/
def dispatch (node : Node) : Except ViewError View := ofFamily (familyFor node.kind) node

/-- Which of the views a node can have this is; there is one for each kind. -/
def variant (view : View) : Kind := view.node.kind

/-- The two wrap the same node. -/
def beq (a b : View) : Bool := a.node.same b.node

/-- The view as it is written: that of the node. -/
def text (view : View) : String := view.node.text

/-- The view as it is shown among other data: that of the node. -/
def debugText (view : View) : String := view.node.debugText

/-- What the slot showed when it was resolved. -/
def cached? (view : View) (slot : Slot) : Option (Option View) := view.cells.lookup slot

/-- Puts something in the cell of a slot; a slot has one cell. -/
def put (slot : Slot) (shown : β) : List (Slot × β) → List (Slot × β)
  | [] => [(slot, shown)]
  | cell :: rest =>
    if cell.1 = slot then (slot, shown) :: rest else cell :: put slot shown rest

/-- Puts what a slot shows in its cell. -/
def store (view : View) (slot : Slot) (shown : Option View) : View :=
  .mk view.node (put slot shown view.cells)

/-- The node that a slot shows before it was resolved; an extension is reduced for it. -/
def shown? (view : View) (slot : Slot) : m (Option Node) :=
  match view.node.shape, slot with
  | .extension _ custom, .reduction => custom.reduce
  | _, .hidden => pure none
  | shape, slot => pure (shape.slotted.children.lookup slot)

/-- Resolves a slot: what is in its cell, or a view of what the slot shows, which is then kept. -/
def resolve (slot : Slot) (view : View) : m (Option View × View) := do
  match view.cached? slot with
  | some shown => return (shown, view)
  | none =>
    let shown := (← view.shown? slot).map wrap
    return (shown, view.store slot shown)

/-- Resolves slots one after the other. -/
def read : List Slot → View → m (List (Slot × Option View) × View)
  | [], view => pure ([], view)
  | slot :: rest, view => do
    let (shown, view) ← view.resolve slot
    let (more, view) ← read rest view
    return ((slot, shown) :: more, view)

/-- Resolves the slots in the parts. In their place stands what the cells hold then. -/
def fill (parts : List (Part Slot Place)) (view : View) :
    m (List (Part (Option View) Place) × View) := do
  let (_, view) ← view.read (parts.flatMap Part.items)
  return (parts.map (Part.map (fun slot => (view.cached? slot).join) id), view)

/-- Takes a view apart. -/
def deconstruct (view : View) : m (List (Part (Option View) Place) × View) :=
  view.fill view.node.opened

/-- Takes the view of the structure at a place apart. -/
def deconstructAt (place : Place) (view : View) :
    m (Option (List (Part (Option View) Place)) × View) :=
  match view.node.shape.nested? place with
  | some nested => do
    let (parts, view) ← view.fill (nested.opened place)
    return (some parts, view)
  | none => return (none, view)

/-- Resolves slot after slot, each in the view that the one before showed, and runs the action on
the view at the end. What the action resolved is kept. -/
def focus (act : View → m (β × View)) : List Slot → View → m (Option β × View)
  | [], view => do
    let (result, view) ← act view
    return (some result, view)
  | slot :: rest, view => do
    match ← view.resolve slot with
    | (none, view) => return (none, view)
    | (some child, view) => do
      let (result, child) ← focus act rest child
      return (result, view.store slot child)

/-- The shape of the node with views in the place of the nodes; slots that were resolved show what
they showed then. -/
def fields (view : View) : Shape View :=
  view.node.shape.slotted.map fun (slot, child) => (view.cached? slot).join.getD (wrap child)

/-- The view of the reduction of an extension. -/
def reduced (view : View) : m (Option View × View) := view.resolve .reduction

/-- The view of the last statement of a block, whose value the block gives. The others are resolved
with it. -/
def result (view : View) : m (Option View × View) :=
  match view.node.shape with
  | .block _ statements => do
    let (shown, view) ← view.read (slotsOf .statement statements)
    return (shown.getLast?.bind Prod.snd, view)
  | _ => return (none, view)

/-- The type of the elements of a new array. -/
def elementType? (view : View) : Option Ty := view.node.type.element?

end View

namespace Node

variable {m : Type → Type} [Monad m] [MonadStamp m]

/-- `Node.visit` with a view of each node. -/
def visitViews (f : View → m Unit) : Node → m Unit := visit fun node => f (.wrap node)

/-- `Node.visitWhile` with a view of each node. -/
def visitViewsWhile (p : View → m Bool) : Node → m Unit := visitWhile fun node => p (.wrap node)

/-- `Node.find` with a view of each node. The view that passed the test is the result, with all
that the test resolved. -/
def findView (p : StateT View m Bool) (node : Node) : m (Option View) := do
  let step (node : Node) (below : ExceptT View m Unit) : ExceptT View m Unit := do
    let (passed, view) ← (p.run (.wrap node) : m _)
    if passed then throw view else below
  match ← (node.visitWith step).run with
  | .error found => return some found
  | .ok () => return none

/-- `Node.transform` with a view of each node. -/
def transformViews [MonadTrace m] (direction : Direction) (f : View → m Node) : Node → m Node :=
  transform direction fun node => f (.wrap node)

end Node

end ExprTree
