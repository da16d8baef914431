import ExprTree.Proofs.Places
import Mathlib.Data.List.Perm.Basic

/-!
# Unfolded trees

A walk from a node enters its children, and from an extension what it is reduced to, which is no
part of the tree at hand. Unfolded, a tree shows all that walks enter from the root on: a node that
occurs several times stands at several places, and the reduction of an extension stands below it.
The weight of nodes makes the unfolding end.

The nodes of an unfolded tree are listed before or after those below them. Both lists have the same
nodes, one for each place, and of two places on one way down the upper one comes first or last.
-/

namespace ExprTree

/-- A node with what is entered from it, and so on. -/
inductive Unfolded where
  | mk (root : Node) (parts : List Unfolded)

/-! ## Places of items under numbers -/

/-- A relation between ways down holds in order if it does for each first step, and between a way
and one with a later first step. -/
theorem pairwise_numbered {R : List Nat → List Nat → Prop} {parts : List (List (List Nat))}
    (hsame : ∀ i p q, R p q → R (i :: p) (i :: q)) (hother : ∀ i j p q, i < j → R (i :: p) (j :: q))
    (h : ∀ part ∈ parts, part.Pairwise R) : (numbered List.cons parts).Pairwise R := by
  refine List.pairwise_flatten.mpr ⟨fun part hp => ?_, ?_⟩
  · obtain ⟨i, hi, rfl⟩ := List.mem_mapIdx.mp hp
    refine List.pairwise_map.mpr ((h _ (List.getElem_mem hi)).imp ?_)
    intro p q hpq
    exact hsame i p q hpq
  · refine List.pairwise_iff_getElem.mpr fun i j hi hj hij => ?_
    rw [List.getElem_mapIdx, List.getElem_mapIdx]
    intro place hp place' hp'
    obtain ⟨p, -, rfl⟩ := List.mem_map.mp hp
    obtain ⟨q, -, rfl⟩ := List.mem_map.mp hp'
    exact hother i j p q hij

/-- A way down is listed if what follows its first step is listed for the part that the step leads
to. -/
theorem cons_mem_numbered_iff {α : Type} {placed : α → List (List Nat)} {parts : List α} {i : Nat}
    {place : List Nat} : i :: place ∈ numbered List.cons (parts.map placed) ↔
      ∃ part, parts[i]? = some part ∧ place ∈ placed part := by
  rw [mem_numbered]
  constructor
  · intro h
    obtain ⟨j, listed, hlisted, p, hmem, heq⟩ := h
    obtain ⟨rfl, rfl⟩ := List.cons.inj heq
    rw [List.getElem?_map, Option.map_eq_some_iff] at hlisted
    obtain ⟨part, hpart, rfl⟩ := hlisted
    exact ⟨part, hpart, hmem⟩
  · intro h
    obtain ⟨part, hpart, hmem⟩ := h
    exact ⟨i, placed part, by rw [List.getElem?_map, hpart, Option.map_some], place, hmem, rfl⟩

/-- Of two places on one way down, the upper one does not come later (forward), or not earlier
(backward). -/
def InOrder : Direction → List Nat → List Nat → Prop
  | .forward, p, q => ¬ q <+: p
  | .backward, p, q => ¬ p <+: q

/-- A common first step does not change the order. -/
theorem inOrder_cons {direction : Direction} {p q : List Nat} (i : Nat)
    (h : InOrder direction p q) : InOrder direction (i :: p) (i :: q) := by
  cases direction with
  | forward => exact fun hprefix => h (List.cons_prefix_cons.mp hprefix).2
  | backward => exact fun hprefix => h (List.cons_prefix_cons.mp hprefix).2

/-- Places with different first steps are in any order. -/
theorem inOrder_of_ne {direction : Direction} {i j : Nat} (p q : List Nat) (h : i ≠ j) :
    InOrder direction (i :: p) (j :: q) := by
  cases direction with
  | forward => exact fun hprefix => h (List.cons_prefix_cons.mp hprefix).1.symm
  | backward => exact fun hprefix => h (List.cons_prefix_cons.mp hprefix).1

namespace Unfolded

/-! ## Nodes and places -/

/-- The node at the root. -/
def root : Unfolded → Node
  | .mk root _ => root

/-- What is directly below the root. -/
def parts : Unfolded → List Unfolded
  | .mk _ parts => parts

/-- What holds of a tree if it holds of all that is directly below the root holds of all trees. -/
theorem induct {P : Unfolded → Prop}
    (mk : ∀ root parts, (∀ part ∈ parts, P part) → P (.mk root parts)) : ∀ tree, P tree
  | .mk root parts => mk root parts fun part _ => induct mk part

/-- The nodes, each one before what is below it (forward) or after it (backward). -/
def nodes (direction : Direction) : Unfolded → List Node
  | .mk root parts =>
    match direction with
    | .forward => root :: parts.flatMap (nodes direction)
    | .backward => parts.flatMap (nodes direction) ++ [root]

/-- The nodes, each one before what is below it; what is below a node is left out if the node does
not pass the test. -/
def pruned (keep : Node → Bool) : Unfolded → List Node
  | .mk root parts => root :: if keep root then parts.flatMap (pruned keep) else []

/-- The places, in the order of the nodes. -/
def places (direction : Direction) : Unfolded → List (List Nat)
  | .mk _ parts =>
    match direction with
    | .forward => [] :: numbered List.cons (parts.map (places direction))
    | .backward => numbered List.cons (parts.map (places direction)) ++ [[]]

/-- What stands at a place and below it. -/
def sub? : Unfolded → List Nat → Option Unfolded
  | tree, [] => some tree
  | tree, i :: place => tree.parts[i]?.bind fun part => part.sub? place

/-- The node at a place. -/
def at? (tree : Unfolded) (place : List Nat) : Option Node := (tree.sub? place).map root

/-- A place one step down is a place of the part. -/
theorem at?_cons {tree part : Unfolded} {i : Nat} (h : tree.parts[i]? = some part)
    (place : List Nat) : tree.at? (i :: place) = part.at? place := by
  rw [at?, sub?, h, Option.bind_some, at?]

/-- A way down can be taken in two stretches. -/
theorem sub?_append (tree : Unfolded) (p q : List Nat) :
    tree.sub? (p ++ q) = (tree.sub? p).bind fun part => part.sub? q := by
  induction p generalizing tree with
  | nil => rfl
  | cons i p ih =>
    rw [List.cons_append, sub?, sub?]
    cases tree.parts[i]? with
    | none => rfl
    | some part => exact ih part

/-- Below the root stand the nodes that are listed for the parts, in the same order. -/
theorem map_at?_numbered {placed : Unfolded → List (List Nat)} {listed : Unfolded → List Node}
    (root : Node) {parts : List Unfolded}
    (h : ∀ part ∈ parts, (placed part).map part.at? = (listed part).map some) :
    (numbered List.cons (parts.map placed)).map (mk root parts).at? =
      (parts.flatMap listed).map some := by
  rw [map_numbered, numbered, List.map_flatMap, List.flatMap_def]
  congr 1
  refine List.ext_getElem (by simp) fun i hi hi' => ?_
  have hlt : i < parts.length := by simpa using hi'
  have hget : (mk root parts).parts[i]? = some parts[i] := List.getElem?_eq_getElem hlt
  simp only [List.getElem_mapIdx, List.getElem_map, at?_cons hget]
  exact h _ (List.getElem_mem _)

/-- The nodes at the places are the nodes, in the same order. -/
theorem map_at?_places (direction : Direction) (tree : Unfolded) :
    (tree.places direction).map tree.at? = (tree.nodes direction).map some := by
  induction tree using induct with
  | mk root parts ih =>
    have hparts := map_at?_numbered root ih
    cases direction with
    | forward =>
      rw [places, nodes, List.map_cons, List.map_cons, hparts]
      rfl
    | backward =>
      rw [places, nodes, List.map_append, List.map_append, hparts]
      rfl

/-- The places are those where there is a node. -/
theorem mem_places_iff {direction : Direction} {tree : Unfolded} (place : List Nat) :
    place ∈ tree.places direction ↔ (tree.at? place).isSome = true := by
  induction place generalizing tree with
  | nil =>
    obtain ⟨root, parts⟩ := tree
    cases direction <;> simp [places, at?, sub?]
  | cons i place ih =>
    obtain ⟨root, parts⟩ := tree
    have hroot : i :: place ∈ (mk root parts).places direction ↔
        i :: place ∈ numbered List.cons (parts.map (places direction)) := by
      cases direction <;> simp [places]
    rw [hroot, cons_mem_numbered_iff]
    cases hget : parts[i]? with
    | none => simp [at?, sub?, Unfolded.parts, hget]
    | some part =>
      rw [at?_cons hget, ← ih]
      simp

/-- Of two places on one way down, the upper one comes first forward and last backward. -/
theorem pairwise_places (direction : Direction) (tree : Unfolded) :
    (tree.places direction).Pairwise (InOrder direction) := by
  induction tree using induct with
  | mk root parts ih =>
    have hparts : (numbered List.cons (parts.map (places direction))).Pairwise
        (InOrder direction) := by
      refine pairwise_numbered (fun i p q h => inOrder_cons i h)
        (fun i j p q h => inOrder_of_ne p q (Nat.ne_of_lt h)) fun part hp => ?_
      obtain ⟨sub, hsub, rfl⟩ := List.mem_map.mp hp
      exact ih sub hsub
    have hbelow : ∀ place ∈ numbered List.cons (parts.map (places direction)),
        ¬ place <+: ([] : List Nat) := by
      intro place hp hprefix
      obtain ⟨i, part, -, p, -, rfl⟩ := mem_numbered.mp hp
      simp at hprefix
    cases direction with
    | forward =>
      rw [places]
      exact List.pairwise_cons.mpr ⟨hbelow, hparts⟩
    | backward =>
      rw [places]
      refine List.pairwise_append.mpr ⟨hparts, List.pairwise_singleton _ _, ?_⟩
      intro place hp place' hp'
      rw [List.mem_singleton] at hp'
      rw [hp']
      exact hbelow place hp

/-- No place is listed twice. -/
theorem nodup_places (direction : Direction) (tree : Unfolded) :
    (tree.places direction).Nodup := by
  refine (pairwise_places direction tree).imp fun {p q} h heq => ?_
  rw [heq] at h
  cases direction with
  | forward => exact h (List.prefix_refl q)
  | backward => exact h (List.prefix_refl q)

/-- Forward and backward the same nodes are listed, each as often as it occurs. -/
theorem nodes_perm (tree : Unfolded) : (tree.nodes .backward).Perm (tree.nodes .forward) := by
  induction tree using induct with
  | mk root parts ih =>
    rw [nodes, nodes]
    have hparts : (parts.flatMap (nodes .backward)).Perm (parts.flatMap (nodes .forward)) :=
      List.Perm.flatMap_left parts ih
    exact (List.perm_append_singleton root _).trans (hparts.cons root)

/-- Nothing is left out by a test that all nodes pass. -/
theorem pruned_of_forall {keep : Node → Bool} (h : ∀ n, keep n = true) (tree : Unfolded) :
    tree.pruned keep = tree.nodes .forward := by
  induction tree using induct with
  | mk root parts ih =>
    rw [pruned, nodes, if_pos (h root)]
    congr 1
    exact List.flatMap_congr ih

/-- The first node that passes a test is found as well if nothing below such nodes is listed. -/
theorem find?_pruned (p : Node → Bool) (tree : Unfolded) :
    (tree.pruned fun n => !p n).find? p = (tree.nodes .forward).find? p := by
  induction tree using induct with
  | mk root parts ih =>
    rw [pruned, nodes, List.find?_cons, List.find?_cons]
    cases hp : p root with
    | true => rfl
    | false =>
      simp only [Bool.not_false, if_true, List.find?_flatMap]
      induction parts with
      | nil => rfl
      | cons part rest ihrest =>
        rw [List.findSome?_cons, List.findSome?_cons, ih part List.mem_cons_self,
          ihrest fun sub hsub => ih sub (List.mem_cons_of_mem _ hsub)]

end Unfolded

/-! ## Unfolding nodes -/

namespace Node

variable {n child : Node} {stamp : Stamp}

/-- What a walk enters from a node weighs less. -/
theorem weight_lt_of_mem_childrenAt (h : child ∈ n.childrenAt stamp) :
    child.weight < n.weight := by
  unfold childrenAt at h
  split at h
  case h_1 own custom hshape =>
    exact weight_lt_of_reduceAt hshape (Option.mem_toList.mp h)
  case h_2 => exact weight_lt_of_mem_handles (Shape.mem_handles_of_mem_children h)

/-- All that walks enter from the node on; `stamp` is for the reductions of extensions. -/
def unfold (stamp : Stamp) (n : Node) : Unfolded :=
  .mk n ((n.childrenAt stamp).attach.map fun child => child.val.unfold stamp)
termination_by n.weight
decreasing_by exact weight_lt_of_mem_childrenAt child.property

/-- Below a node stands what a walk enters from it. -/
theorem unfold_eq (stamp : Stamp) (n : Node) :
    n.unfold stamp = .mk n ((n.childrenAt stamp).map (unfold stamp)) := by
  rw [unfold, List.attach_map_val]

/-- At the root stands the node. -/
theorem root_unfold (stamp : Stamp) (n : Node) : (n.unfold stamp).root = n := by
  rw [unfold_eq, Unfolded.root]

/-- At each place stands an unfolded node. -/
theorem sub?_unfold {tree : Unfolded} {place : List Nat}
    (h : (n.unfold stamp).sub? place = some tree) : ∃ inner : Node, tree = inner.unfold stamp := by
  induction place generalizing n with
  | nil => exact ⟨n, (Option.some.inj h).symm⟩
  | cons i place ih =>
    rw [unfold_eq, Unfolded.sub?, Unfolded.parts, List.getElem?_map] at h
    cases hchild : (n.childrenAt stamp)[i]? with
    | none => simp [hchild] at h
    | some child =>
      rw [hchild, Option.map_some, Option.bind_some] at h
      exact ih h

/-- One step below a place stands what a walk enters from the node at the place. -/
theorem at?_unfold_append {place : List Nat} {inner : Node}
    (h : (n.unfold stamp).at? place = some inner) (i : Nat) :
    (n.unfold stamp).at? (place ++ [i]) = (inner.childrenAt stamp)[i]? := by
  rw [Unfolded.at?, Option.map_eq_some_iff] at h
  obtain ⟨tree, hsub, hroot⟩ := h
  obtain ⟨inner', rfl⟩ := sub?_unfold hsub
  rw [root_unfold] at hroot
  rw [Unfolded.at?, Unfolded.sub?_append, hsub, Option.bind_some, hroot, unfold_eq, Unfolded.sub?,
    Unfolded.parts, List.getElem?_map]
  cases (inner.childrenAt stamp)[i]? with
  | none => rfl
  | some child =>
    rw [Option.map_some, Option.bind_some, Unfolded.sub?, Option.map_some, root_unfold]

/-! ## Counting occurrences -/

/-- The number of nodes that walks enter from the node on, itself included. -/
def occurrences (n : Node) : Nat :=
  match h : n.shape with
  | .extension _ (.doubled operand) => 2 + 2 * operand.occurrences
  | .extension _ custom =>
    1 + total (custom.operand?.toList.attach.map fun operand => operand.val.occurrences)
  | shape => 1 + total (shape.children.attach.map fun child => child.val.occurrences)
termination_by sizeOf n
decreasing_by
  · exact sizeOf_lt_of_mem_handles (by simp [h, Shape.handles, Extension.operand?])
  · exact sizeOf_lt_of_mem_handles (by rw [h]; exact operand.property)
  · refine sizeOf_lt_of_mem_handles (Shape.mem_handles_of_mem_children ?_)
    rw [h]
    exact child.property

/-- A node that is no extension counts once, and what is below it as often as its children do. -/
theorem occurrences_of_family_ne (h : n.shape.family ≠ .extension) :
    n.occurrences = 1 + total (n.shape.children.map occurrences) := by
  rw [occurrences.eq_def]
  split
  case h_1 hshape => exact absurd (congrArg Shape.family hshape) h
  case h_2 hshape => exact absurd (congrArg Shape.family hshape) h
  case h_3 => rw [List.attach_map_val]

/-- The count does not depend on the identity of the node. -/
theorem occurrences_withStamp (n : Node) (stamp : Stamp) :
    { n with stamp }.occurrences = n.occurrences := by
  rw [occurrences.eq_def, occurrences.eq_def n]

/-- A walk enters the children of a node that is no extension. -/
theorem childrenAt_of_family_ne (stamp : Stamp) (h : n.shape.family ≠ .extension) :
    n.childrenAt stamp = n.shape.children := by
  unfold childrenAt
  split
  case h_1 hshape => exact absurd (congrArg Shape.family hshape) h
  case h_2 => rfl

/-- A walk enters the reduction of an extension. -/
theorem childrenAt_of_extension (stamp : Stamp) {own : Stamp} {custom : Extension Node}
    (h : n.shape = .extension own custom) :
    n.childrenAt stamp = (custom.reduceAt stamp).toList := by
  unfold childrenAt
  rw [h]

/-- A node counts once, and what a walk enters from it as often as it says. -/
theorem occurrences_eq (stamp : Stamp) (n : Node) :
    n.occurrences = 1 + total ((n.childrenAt stamp).map occurrences) := by
  by_cases h : n.shape.family = .extension
  · obtain ⟨own, custom, hshape⟩ : ∃ own custom, n.shape = .extension own custom := by
      cases hshape : n.shape with
      | extension own custom => exact ⟨own, custom, rfl⟩
      | _ => simp [hshape, Shape.family] at h
    rw [childrenAt_of_extension stamp hshape, occurrences.eq_def]
    cases custom with
    | doubled operand =>
      -- The reduction is a sum with the operand on both sides.
      have hsum : ∀ type, (⟨stamp, .add, type, .binary operand none operand none false⟩ :
          Node).occurrences = 1 + (operand.occurrences + operand.occurrences) := by
        intro type
        rw [occurrences_of_family_ne (by simp [Shape.family])]
        simp [Shape.children, total]
      split <;> simp_all [Extension.reduceAt, total]
      omega
    | standIn operand => split <;> simp_all [Extension.reduceAt, Extension.operand?, total]
    | sealed tag type => split <;> simp_all [Extension.reduceAt, Extension.operand?, total]
    | other text type prototype anew =>
      cases prototype <;> cases anew <;> split <;>
        simp_all [Extension.reduceAt, Extension.operand?, total, occurrences_withStamp]
  · rw [childrenAt_of_family_ne stamp h, occurrences_of_family_ne h]

/-- Lengths of lists that follow one another add up. -/
theorem length_flatMap_eq_total {α β : Type} (f : α → List β) (items : List α) :
    (items.flatMap f).length = total (items.map fun x => (f x).length) := by
  induction items with
  | nil => rfl
  | cons x rest ih => rw [List.flatMap_cons, List.length_append, ih, List.map_cons, total]

/-- An unfolded tree has as many nodes as were counted. -/
theorem length_nodes_unfold (direction : Direction) (stamp : Stamp) (n : Node) :
    ((n.unfold stamp).nodes direction).length = n.occurrences := by
  have hparts : (((n.childrenAt stamp).map (unfold stamp)).flatMap
      (Unfolded.nodes direction)).length = total ((n.childrenAt stamp).map occurrences) := by
    rw [List.flatMap_map, length_flatMap_eq_total]
    congr 1
    refine List.map_congr_left fun child hc => ?_
    exact length_nodes_unfold direction stamp child
  rw [unfold_eq, occurrences_eq stamp]
  cases direction with
  | forward => rw [Unfolded.nodes, List.length_cons, hparts, Nat.add_comm]
  | backward => rw [Unfolded.nodes, List.length_append, hparts, Nat.add_comm, List.length_singleton]
termination_by n.weight
decreasing_by exact weight_lt_of_mem_childrenAt hc

/-! ## Identities of reductions

The reduction of an extension is a node that is there, or a new node each time, over nodes that are
there. Apart from its identity it is the same each time. -/

/-- An extension is never reduced, or it is reduced to the node that it holds each time, or each
time to a node with the stamp that was drawn for it. The new node is the same each time apart from
the stamp, and is over the node that the extension holds or over what that node holds. -/
theorem reduceAt_cases (custom : Extension Node) :
    (∀ stamp, custom.reduceAt stamp = none) ∨ ∃ held, custom.operand? = some held ∧
      ((∀ stamp, custom.reduceAt stamp = some held) ∨ ∃ made : Node,
        (∀ x ∈ made.shape.handles, x = held ∨ x ∈ held.shape.handles) ∧
          ∀ stamp, custom.reduceAt stamp = some { made with stamp }) := by
  cases custom with
  | doubled operand =>
    refine .inr ⟨operand, rfl, .inr ⟨⟨0, _, _, _⟩, fun x hx => ?_, fun _ => rfl⟩⟩
    exact .inl (by simpa [Shape.handles, Shape.children] using hx)
  | standIn operand => exact .inr ⟨operand, rfl, .inl fun _ => rfl⟩
  | sealed tag type => exact .inl fun _ => rfl
  | other text type prototype anew =>
    cases prototype with
    | none => exact .inl fun _ => rfl
    | some held =>
      refine .inr ⟨held, rfl, ?_⟩
      cases anew with
      | false => exact .inl fun _ => rfl
      | true => exact .inr ⟨held, fun x hx => .inr hx, fun _ => rfl⟩

/-- What the node holds is in the heap. -/
def HeldBy (heap : Heap) (n : Node) : Prop := ∀ child ∈ n.shape.handles, child ∈ heap

/-- The node with another identity. -/
def renamed (rename : Stamp → Stamp) (n : Node) : Node := { n with stamp := rename n.stamp }

/-- The node with its identity, unless that was drawn from `first` on: such nodes look alike. -/
def blurred (first : Stamp) : Node → Node := renamed fun stamp => min stamp first

variable {heap : Heap}

/-- What a node of the heap holds is in the heap. -/
theorem heldBy_of_mem (h : n ∈ heap) : n.HeldBy heap := fun _ hc => Heap.mem_of_mem_handles h hc

section Renaming

variable {rename : Stamp → Stamp}

/-- A node of the heap keeps its identity if old stamps are kept. -/
theorem renamed_of_mem (hold : ∀ stamp < heap.next, rename stamp = stamp) (h : n ∈ heap) :
    n.renamed rename = n := by
  cases n with
  | mk own kind type shape => rw [renamed, hold own (heap.below _ h)]

/-- What is entered from a node over the heap later differs in the stamp that was drawn for it. -/
theorem HeldBy.map_renamed (hold : ∀ stamp < heap.next, rename stamp = stamp)
    (hn : n.HeldBy heap) :
    (n.childrenAt stamp).map (renamed rename) = n.childrenAt (rename stamp) := by
  unfold Node.childrenAt
  split
  case h_1 own custom hshape =>
    rcases reduceAt_cases custom with hnone | ⟨held, hheld, hsame | ⟨made, -, hmade⟩⟩
    · simp [hnone]
    · have hmem : held ∈ heap := hn held (by simp [hshape, Shape.handles, hheld])
      simp [hsame, renamed_of_mem hold hmem]
    · simp [hmade, renamed]
  case h_2 =>
    refine (List.map_congr_left fun child hc => ?_).trans (List.map_id _)
    exact renamed_of_mem hold (hn child (Shape.mem_handles_of_mem_children hc))

end Renaming

/-- Old stamps do not look alike. -/
theorem min_eq_of_lt {first : Stamp} : ∀ stamp < first, min stamp first = stamp :=
  fun _ h => Nat.min_eq_left (Nat.le_of_lt h)

/-- A node of the heap looks as it is. -/
theorem blurred_of_mem (h : n ∈ heap) : n.blurred heap.next = n := renamed_of_mem min_eq_of_lt h

/-- Whatever is entered from a node over the heap looks the same each time. -/
theorem HeldBy.map_blurred (hn : n.HeldBy heap) (hs : heap.next ≤ stamp) :
    (n.childrenAt stamp).map (blurred heap.next) = n.childrenAt heap.next := by
  rw [blurred, hn.map_renamed min_eq_of_lt, Nat.min_eq_right hs]

/-- What is entered from a node over the heap is in the heap, or is a new node over the heap. -/
theorem HeldBy.mem_or (hn : n.HeldBy heap) (h : child ∈ n.childrenAt stamp) :
    child ∈ heap ∨ child.HeldBy heap ∧ child.stamp = stamp := by
  unfold Node.childrenAt at h
  split at h
  case h_1 own custom hshape =>
    rw [Option.mem_toList] at h
    rcases reduceAt_cases custom with hnone | ⟨held, hheld, hcases⟩
    · simp [hnone] at h
    have hmem : held ∈ heap := hn held (by simp [hshape, Shape.handles, hheld])
    rcases hcases with hsame | ⟨made, hover, hmade⟩
    · rw [hsame, Option.some.injEq] at h
      exact .inl (h ▸ hmem)
    · rw [hmade, Option.some.injEq] at h
      subst h
      refine .inr ⟨fun inner hi => ?_, rfl⟩
      rcases hover inner hi with rfl | hi
      · exact hmem
      · exact heldBy_of_mem hmem inner hi
  case h_2 => exact .inl (hn child (Shape.mem_handles_of_mem_children h))

/-- What is entered from a node over the heap is over the heap again. -/
theorem HeldBy.childrenAt (hn : n.HeldBy heap) (h : child ∈ n.childrenAt stamp) :
    child.HeldBy heap := by
  rcases hn.mem_or h with hmem | hnew
  · exact heldBy_of_mem hmem
  · exact hnew.1

end Node

end ExprTree
