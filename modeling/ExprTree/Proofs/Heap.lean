import ExprTree.Traversal.Distinct
import Mathlib.Logic.Relation
import Mathlib.Order.Defs.PartialOrder

/-!
# Heaps

A stamp stands for the instance that was created with it, so two handles with one stamp are one
node. A heap records which node stands at which stamp, and the stamp that is drawn next. Trees
whose nodes all stand in one heap can be compared by stamps: equal stamps mean equal nodes. Heaps
grow when nodes are created and never change otherwise.

What a heap holds besides nodes is left open; the stamps of nested structures, of payloads and of
labels are drawn from the same supply but are not recorded.
-/

namespace ExprTree

namespace Node

/-- The second node is the first, or is reached from it by steps to nodes that `via` lists. -/
def Reaches (via : Shape Node → List Node) : Node → Node → Prop :=
  Relation.ReflTransGen fun parent child => child ∈ via parent.shape

variable {via : Shape Node → List Node} {a b child : Node}

/-- A node is reached from itself, or through one of the nodes it lists. -/
theorem reaches_iff : a.Reaches via b ↔ a = b ∨ ∃ child ∈ via a.shape, child.Reaches via b := by
  constructor
  · intro h
    rcases Relation.ReflTransGen.cases_head h with rfl | ⟨child, hc, hb⟩
    · exact .inl rfl
    · exact .inr ⟨child, hc, hb⟩
  · rintro (rfl | ⟨child, hc, hb⟩)
    · exact .refl
    · exact Relation.ReflTransGen.head hc hb

/-- What is said of all nodes that are reached is said of the node and of all that are reached
through those it lists. -/
theorem forall_reaches_iff {P : Node → Prop} : (∀ inner, a.Reaches via inner → P inner) ↔
    P a ∧ ∀ child ∈ via a.shape, ∀ inner, child.Reaches via inner → P inner := by
  constructor
  · intro h
    refine ⟨h a .refl, fun child hc inner hr => h inner ?_⟩
    exact reaches_iff.mpr (.inr ⟨child, hc, hr⟩)
  · intro h inner hr
    rcases reaches_iff.mp hr with rfl | ⟨child, hc, hr'⟩
    · exact h.1
    · exact h.2 child hc inner hr'

/-- What is reached through children is reached through handles. -/
theorem Reaches.through_handles (h : a.Reaches Shape.children b) : a.Reaches Shape.handles b :=
  Relation.ReflTransGen.mono (fun _ _ hc => Shape.mem_handles_of_mem_children hc) _ _ h

/-- What is reached through handles is not larger. -/
theorem Reaches.sizeOf_le (h : a.Reaches Shape.handles b) : sizeOf b ≤ sizeOf a := by
  induction h with
  | refl => exact Nat.le_refl _
  | tail _ hc ih => exact Nat.le_trans (Nat.le_of_lt (sizeOf_lt_of_mem_handles hc)) ih

end Node

/-- The nodes that exist, each at its stamp. -/
structure Heap where
  /-- The node at a stamp, if there is one. -/
  node? : Stamp → Option Node
  /-- The stamp that is drawn next. -/
  next : Stamp
  /-- What a node holds exists too. -/
  closed : ∀ node : Node, node? node.stamp = some node →
    ∀ child ∈ node.shape.handles, node? child.stamp = some child
  /-- Stamps not yet drawn have no node. -/
  below : ∀ node : Node, node? node.stamp = some node → node.stamp < next

namespace Heap

variable {heap : Heap} {a b child : Node}

/-- The node stands at its own stamp. -/
instance : Membership Node Heap where
  mem heap node := heap.node? node.stamp = some node

/-- One stamp has one node. -/
theorem eq_of_stamp_eq (ha : a ∈ heap) (hb : b ∈ heap) (h : a.stamp = b.stamp) : a = b := by
  have ha' : heap.node? a.stamp = some a := ha
  have hb' : heap.node? b.stamp = some b := hb
  rw [h, hb'] at ha'
  exact (Option.some.inj ha').symm

/-- Handles that are the same instance are equal. -/
theorem eq_of_same (ha : a ∈ heap) (hb : b ∈ heap) (h : a.same b = true) : a = b :=
  eq_of_stamp_eq ha hb (by simpa [Node.same] using h)

/-- What a node of the heap holds is in the heap. -/
theorem mem_of_mem_handles (ha : a ∈ heap) (hc : child ∈ a.shape.handles) : child ∈ heap :=
  heap.closed a ha child hc

/-- What a node of the heap has for a child is in the heap. -/
theorem mem_of_mem_children (ha : a ∈ heap) (hc : child ∈ a.shape.children) : child ∈ heap :=
  mem_of_mem_handles ha (Shape.mem_handles_of_mem_children hc)

/-- What is reached from a node of the heap is in the heap. -/
theorem mem_of_reaches (ha : a ∈ heap) (h : a.Reaches Shape.handles b) : b ∈ heap := by
  induction h with
  | refl => exact ha
  | tail _ hc ih => exact mem_of_mem_handles ih hc

/-- No node is below itself: below a node there is none with its stamp. -/
theorem stamp_ne_of_below (ha : a ∈ heap) (hc : child ∈ a.shape.handles)
    (h : child.Reaches Shape.handles b) : b.stamp ≠ a.stamp := by
  intro hs
  have hb : b ∈ heap := mem_of_reaches (mem_of_mem_handles ha hc) h
  have heq : b = a := eq_of_stamp_eq hb ha hs
  have hle : sizeOf b ≤ sizeOf child := h.sizeOf_le
  have hlt : sizeOf child < sizeOf a := Node.sizeOf_lt_of_mem_handles hc
  rw [heq] at hle
  omega

/-- A heap is extended by nodes at stamps drawn later. -/
instance : Preorder Heap where
  le heap heap' := heap.next ≤ heap'.next ∧ ∀ node ∈ heap, node ∈ heap'
  le_refl heap := ⟨Nat.le_refl _, fun _ h => h⟩
  le_trans _ _ _ h h' := ⟨Nat.le_trans h.1 h'.1, fun node hn => h'.2 node (h.2 node hn)⟩

/-- Nodes stay in a heap that grows. -/
theorem mem_of_le {heap' : Heap} (h : heap ≤ heap') (ha : a ∈ heap) : a ∈ heap' := h.2 a ha

/-- The heap before any node was created. -/
def empty : Heap where
  node? _ := none
  next := 0
  closed _ h := by simp at h
  below _ h := by simp at h

/-- The heap after a stamp was drawn for something that is no node. -/
def draw (heap : Heap) : Heap where
  node? := heap.node?
  next := heap.next + 1
  closed := heap.closed
  below node h := Nat.lt_succ_of_lt (heap.below node h)

/-- A drawn stamp extends the heap. -/
theorem le_draw (heap : Heap) : heap ≤ heap.draw := ⟨Nat.le_succ _, fun _ h => h⟩

/-- The heap after a node was created from nodes of the heap. -/
def insert (heap : Heap) (node : Node) (fresh : heap.next ≤ node.stamp)
    (holds : ∀ child ∈ node.shape.handles, child ∈ heap) : Heap where
  node? stamp := if stamp = node.stamp then some node else heap.node? stamp
  next := node.stamp + 1
  closed a ha child hc := by
    have old : child ∈ heap := by
      split at ha
      · cases ha
        exact holds child hc
      · exact heap.closed a ha child hc
    have hlt : child.stamp < node.stamp := Nat.lt_of_lt_of_le (heap.below child old) fresh
    rw [if_neg (Nat.ne_of_lt hlt)]
    exact old
  below a ha := by
    split at ha
    · cases ha
      exact Nat.lt_succ_self _
    · exact Nat.lt_succ_of_lt (Nat.lt_of_lt_of_le (heap.below a ha) fresh)

section Insert

variable {node : Node} {fresh : heap.next ≤ node.stamp}
  {holds : ∀ child ∈ node.shape.handles, child ∈ heap}

/-- A created node is added to those that were there. -/
@[simp] theorem mem_insert : a ∈ heap.insert node fresh holds ↔ a = node ∨ a ∈ heap := by
  change (if a.stamp = node.stamp then some node else heap.node? a.stamp) = some a ↔ _
  split
  · rename_i hs
    constructor
    · intro h
      exact .inl (Option.some.inj h).symm
    · rintro (rfl | ha)
      · rfl
      · have hlt : a.stamp < node.stamp := Nat.lt_of_lt_of_le (heap.below a ha) fresh
        exact absurd hs (Nat.ne_of_lt hlt)
  · rename_i hs
    constructor
    · exact .inr
    · rintro (rfl | ha)
      · exact absurd rfl hs
      · exact ha

/-- A created node extends the heap. -/
theorem le_insert : heap ≤ heap.insert node fresh holds :=
  ⟨Nat.le_trans fresh (Nat.le_succ _), fun _ h => mem_insert.mpr (.inr h)⟩

/-- A node can be created from nodes of the heap. -/
theorem exists_insert (heap : Heap) (node : Node) (fresh : heap.next ≤ node.stamp)
    (holds : ∀ child ∈ node.shape.handles, child ∈ heap) :
    ∃ heap' ≥ heap, heap'.next = node.stamp + 1 ∧ node ∈ heap' :=
  ⟨heap.insert node fresh holds, le_insert, rfl, mem_insert.mpr (.inl rfl)⟩

end Insert

end Heap

end ExprTree
