import ExprTree.Factory
import ExprTree.Shape.Walk

/-!
# Walking the children of a node

The children of a node are those of its shape. Of an extension it is the node that it reduces to,
which is computed once for each walk and can be a new node each time. So a walk leaves the tree at
hand; it still ends, because the weight of a node is larger than that of whatever a walk enters from
it.
-/

namespace ExprTree.Node

variable {m : Type → Type} [Monad m]

/-- The sum of a list. -/
def total : List Nat → Nat
  | [] => 0
  | item :: rest => item + total rest

/-- A measure for recursion over a tree that enters reductions: one more than the weights of the
handles together, and for a doubled node one more than the weight of the sum. -/
def weight (node : Node) : Nat :=
  match h : node.shape with
  | .extension _ (.doubled operand) => 2 + 2 * operand.weight
  | shape => 1 + total (shape.handles.attach.map fun ⟨child, _⟩ => child.weight)
termination_by sizeOf node
decreasing_by
  · exact sizeOf_lt_of_mem_handles (by simp [h, Shape.handles, Extension.operand?])
  · exact sizeOf_lt_of_mem_handles (by rw [h]; assumption)

/-- An item is at most as large as the sum. -/
theorem le_total_of_mem {n : Nat} : ∀ {items : List Nat}, n ∈ items → n ≤ total items
  | item :: rest, h => by
    rcases List.mem_cons.mp h with rfl | h
    · simp only [total]
      omega
    · have := le_total_of_mem h
      simp only [total]
      omega

/-- The weight of a node is larger than that of its handles. -/
theorem weight_lt_of_mem_handles {node child : Node} (h : child ∈ node.shape.handles) :
    child.weight < node.weight := by
  have sum_lt : child.weight < 1 + total (node.shape.handles.map weight) := by
    have : child.weight ≤ total (node.shape.handles.map weight) :=
      le_total_of_mem (List.mem_map_of_mem h)
    omega
  rw [weight.eq_def node]
  split
  · rename_i stamp operand eq
    rw [eq] at h
    simp [Shape.handles, Extension.operand?] at h
    subst h
    omega
  · simpa using sum_lt

/-- The weight of a node does not depend on its identity. -/
theorem weight_withStamp (node : Node) (stamp : Stamp) :
    { node with stamp }.weight = node.weight := by
  rw [weight.eq_def, weight.eq_def node]

/-- The weight of an extension is larger than that of its reduction, so reducing again and again
comes to an end. -/
theorem weight_lt_of_reduceAt {node reduced : Node} {stamp next : Stamp} {custom : Extension Node}
    (h : node.shape = .extension stamp custom) (hr : custom.reduceAt next = some reduced) :
    reduced.weight < node.weight := by
  cases custom with
  | doubled operand =>
    have hn : node.weight = 2 + 2 * operand.weight := by
      rw [weight.eq_def node]
      split <;> simp_all
    simp only [Extension.reduceAt, Option.some.injEq] at hr
    subst hr
    rw [hn, weight.eq_def]
    simp [Shape.handles, Shape.children, total]
    omega
  | standIn operand =>
    simp only [Extension.reduceAt, Option.some.injEq] at hr
    subst hr
    exact weight_lt_of_mem_handles (by simp [h, Shape.handles, Extension.operand?])
  | sealed tag type => simp [Extension.reduceAt] at hr
  | other text type prototype anew =>
    simp only [Extension.reduceAt, Option.map_eq_some_iff] at hr
    obtain ⟨held, rfl, rfl⟩ := hr
    have hlt : held.weight < node.weight :=
      weight_lt_of_mem_handles (by simp [h, Shape.handles, Extension.operand?])
    split
    · rwa [weight_withStamp]
    · exact hlt

/-- Runs the action on the children, knowing that they have less weight. -/
def walkBelow [MonadStamp m] (node : Node)
    (f : (child : Node) → child.weight < node.weight → m Unit) : m Unit :=
  match h : node.shape with
  | .extension _ custom => do
    let stamp ← fresh
    match hr : custom.reduceAt stamp with
    | some reduced => f reduced (weight_lt_of_reduceAt h hr)
    | none => pure ()
  | _ => node.shape.attach.walk fun ⟨child, hc⟩ => f child (weight_lt_of_mem_handles hc)

/-- Runs the action on the children. -/
def walkChildren [MonadStamp m] (f : Node → m Unit) (node : Node) : m Unit :=
  node.walkBelow fun child _ => f child

/-- The first child that passes the test; the children after it are not tested. -/
def firstChild [MonadStamp m] (p : Node → m Bool) (node : Node) : m (Option Node) := do
  let step (child : Node) : ExceptT Node m Unit := do
    if ← p child then throw child
  match ← (node.walkChildren step).run with
  | .error found => return some found
  | .ok () => return none

/-- The children in order; `stamp` is for the reduction of an extension. -/
def childrenAt (stamp : Stamp) (node : Node) : List Node :=
  match node.shape with
  | .extension _ custom => (custom.reduceAt stamp).toList
  | shape => shape.children

/-- The children in order; an extension is reduced for it. -/
def children [MonadStamp m] (node : Node) : m (List Node) := do
  return node.childrenAt (← fresh)

end ExprTree.Node
