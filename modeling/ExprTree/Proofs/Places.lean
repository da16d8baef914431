import ExprTree.Proofs.Walking
import Mathlib.Data.List.Nodup

/-!
# Places in a tree

A place is a way down from the root: at each step it says which child is next. Every place has at
most one node, and a node that occurs several times stands at several places.
-/

namespace ExprTree

variable {α β γ : Type}

/-! ## Items under the number of their list -/

/-- All items, each together with the number of the list that it is in. -/
def numbered (put : Nat → β → γ) (parts : List (List β)) : List γ :=
  (parts.mapIdx fun i part => part.map (put i)).flatten

/-- An item stands under the number of its list. -/
theorem mem_numbered {put : Nat → β → γ} {parts : List (List β)} {c : γ} :
    c ∈ numbered put parts ↔ ∃ i part, parts[i]? = some part ∧ ∃ b ∈ part, put i b = c := by
  simp only [numbered, List.mem_flatten, List.mem_mapIdx]
  constructor
  · intro h
    obtain ⟨items, ⟨i, hi, rfl⟩, hc⟩ := h
    exact ⟨i, parts[i], List.getElem?_eq_getElem hi, List.mem_map.mp hc⟩
  · intro h
    obtain ⟨i, part, hp, hc⟩ := h
    obtain ⟨hi, rfl⟩ := List.getElem?_eq_some_iff.mp hp
    exact ⟨_, ⟨i, hi, rfl⟩, List.mem_map.mpr hc⟩

/-- A function of the items can be computed list by list. -/
theorem map_numbered (g : γ → α) (put : Nat → β → γ) (parts : List (List β)) :
    (numbered put parts).map g = numbered (fun i b => g (put i b)) parts := by
  rw [numbered, numbered, List.map_flatten]
  congr 1
  refine List.ext_getElem (by simp) fun i hi hi' => ?_
  simp

/-- Ways down that begin with different steps are different. -/
theorem nodup_numbered {parts : List (List (List Nat))} (h : ∀ part ∈ parts, part.Nodup) :
    (numbered List.cons parts).Nodup := by
  refine List.nodup_flatten.mpr ⟨fun part hp => ?_, ?_⟩
  · obtain ⟨i, hi, rfl⟩ := List.mem_mapIdx.mp hp
    exact (h _ (List.getElem_mem hi)).map (List.cons_injective)
  · refine List.pairwise_iff_getElem.mpr fun i j hi hj hij => ?_
    rw [List.getElem_mapIdx, List.getElem_mapIdx]
    intro place hp hp'
    obtain ⟨p, -, rfl⟩ := List.mem_map.mp hp
    obtain ⟨p', -, heq⟩ := List.mem_map.mp hp'
    exact absurd (List.cons.inj heq).1 (Nat.ne_of_gt hij)

namespace Node

/-- The node at a place, if there is one. -/
def at? : Node → List Nat → Option Node
  | n, [] => some n
  | n, i :: place => n.shape.children[i]?.bind fun child => child.at? place

/-- The places of all nodes, each after the places below it. -/
def places (n : Node) : List (List Nat) :=
  numbered List.cons (n.shape.children.attach.map fun child => child.val.places) ++ [[]]
termination_by sizeOf n
decreasing_by exact sizeOf_lt_of_mem_handles (Shape.mem_handles_of_mem_children child.property)

/-- The places of a node are those of its children, one step further down, and its own. -/
theorem places_eq (n : Node) :
    n.places = numbered List.cons (n.shape.children.map places) ++ [[]] := by
  rw [places, List.attach_map_val]

/-- A place one step down is a place of the child. -/
theorem at?_cons {n child : Node} {i : Nat} (h : n.shape.children[i]? = some child)
    (place : List Nat) : n.at? (i :: place) = child.at? place := by
  rw [at?, h, Option.bind_some]

/-- The places are those where there is a node. -/
theorem mem_places_iff {n : Node} (place : List Nat) :
    place ∈ n.places ↔ (n.at? place).isSome = true := by
  induction place generalizing n with
  | nil =>
    rw [places_eq]
    simp [at?]
  | cons i place ih =>
    rw [places_eq, List.mem_append, List.mem_singleton, mem_numbered]
    constructor
    · intro h
      obtain ⟨j, part, hp, p, hmem, heq⟩ := h.resolve_right (by simp)
      obtain ⟨rfl, rfl⟩ := List.cons.inj heq
      rw [List.getElem?_map, Option.map_eq_some_iff] at hp
      obtain ⟨child, hc, rfl⟩ := hp
      rw [at?_cons hc]
      exact ih.mp hmem
    · intro h
      obtain ⟨inner, hinner⟩ := Option.isSome_iff_exists.mp h
      rw [at?, Option.bind_eq_some_iff] at hinner
      obtain ⟨child, hc, hinner⟩ := hinner
      refine .inl ⟨i, child.places, by simp [hc], place, ih.mpr ?_, rfl⟩
      rw [hinner, Option.isSome_some]

/-- No place is listed twice. -/
theorem nodup_places (n : Node) : n.places.Nodup := by
  have hchildren : ∀ part ∈ n.shape.children.map places, part.Nodup := by
    intro part hp
    obtain ⟨child, hc, rfl⟩ := List.mem_map.mp hp
    exact nodup_places child
  rw [places_eq]
  refine (nodup_numbered hchildren).append (List.nodup_singleton _) fun place hp hroot => ?_
  obtain ⟨i, part, -, p, -, rfl⟩ := mem_numbered.mp hp
  simp at hroot
termination_by sizeOf n
decreasing_by exact sizeOf_lt_of_mem_handles (Shape.mem_handles_of_mem_children hc)

/-- The nodes at the places are the nodes of the tree, in the same order. -/
theorem map_at?_places (n : Node) : n.places.map n.at? = (n.nodes .backward).map some := by
  have hchildren : ∀ child ∈ n.shape.children,
      child.places.map child.at? = (child.nodes .backward).map some := by
    intro child hc
    exact map_at?_places child
  have hbelow : numbered (fun i place => n.at? (i :: place)) (n.shape.children.map places) =
      (n.shape.children.flatMap (nodes .backward)).map some := by
    rw [numbered, List.map_flatMap, List.flatMap_def]
    congr 1
    refine List.ext_getElem (by simp) fun i hi hi' => ?_
    have hlt : i < n.shape.children.length := by simpa using hi'
    have hget : n.shape.children[i]? = some n.shape.children[i] := List.getElem?_eq_getElem hlt
    simp only [List.getElem_mapIdx, List.getElem_map, at?_cons hget]
    exact hchildren _ (List.getElem_mem _)
  rw [places_eq, nodes_backward, List.map_append, List.map_append, map_numbered, hbelow]
  rfl
termination_by sizeOf n
decreasing_by exact sizeOf_lt_of_mem_handles (Shape.mem_handles_of_mem_children hc)

end Node

end ExprTree
