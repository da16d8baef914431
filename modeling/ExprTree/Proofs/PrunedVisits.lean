import ExprTree.Proofs.Visiting
import Mathlib.Data.List.Lex
import Mathlib.Data.List.Sort

/-!
# Visits that are cut short

A visit with a test reports a node and enters it only if it passes. An instance can occur below
several nodes, some of which pass and some of which do not, so what is left out is said of places
and not of nodes: an occurrence is reported exactly if all nodes above it pass. The reports come in
the order of the places, in which a place stands before those below it and these before those
further to the right. A stronger test therefore reports fewer occurrences, in the same order.

The test may look at anything but the identities of nodes that the walk itself creates.
-/

namespace ExprTree

namespace Unfolded

variable {keep keep' : Node → Bool} {tree : Unfolded}

/-- The places that are left if the nodes that do not pass the test have nothing below them. -/
def prunedPlaces (keep : Node → Bool) : Unfolded → List (List Nat)
  | .mk root parts =>
    [] :: if keep root then numbered List.cons (parts.map (prunedPlaces keep)) else []

/-- There is a node at the place, and all nodes above it pass the test. -/
def Shows (keep : Node → Bool) (tree : Unfolded) (place : List Nat) : Prop :=
  (tree.at? place).isSome = true ∧
    ∀ above, above <+: place → above ≠ place → ∃ n, tree.at? above = some n ∧ keep n = true

/-- The root has nothing above it. -/
theorem shows_nil : tree.Shows keep [] := by
  refine ⟨rfl, fun above hprefix hne => ?_⟩
  exact absurd (List.prefix_nil.mp hprefix) hne

/-- One step down, the root has to pass as well. -/
theorem shows_cons_iff {root : Node} {parts : List Unfolded} {i : Nat} {place : List Nat} :
    (mk root parts).Shows keep (i :: place) ↔
      keep root = true ∧ ∃ part, parts[i]? = some part ∧ part.Shows keep place := by
  constructor
  · intro h
    obtain ⟨hplace, habove⟩ := h
    obtain ⟨n, hroot, hpass⟩ := habove [] List.nil_prefix (List.cons_ne_nil i place).symm
    have hn : root = n := Option.some.inj hroot
    cases hpart : parts[i]? with
    | none => simp [at?, sub?, Unfolded.parts, hpart] at hplace
    | some part =>
      have hstep : ∀ above, (mk root parts).at? (i :: above) = part.at? above := at?_cons hpart
      rw [hstep] at hplace
      refine ⟨hn ▸ hpass, part, rfl, hplace, fun above hprefix hne => ?_⟩
      rw [← hstep]
      refine habove (i :: above) (List.cons_prefix_cons.mpr ⟨rfl, hprefix⟩) fun heq => ?_
      exact hne (List.cons.inj heq).2
  · intro h
    obtain ⟨hpass, part, hpart, hplace, habove⟩ := h
    have hstep : ∀ above, (mk root parts).at? (i :: above) = part.at? above := at?_cons hpart
    refine ⟨by rwa [hstep], fun above hprefix hne => ?_⟩
    rcases List.prefix_cons_iff.mp hprefix with rfl | ⟨above', rfl, hprefix'⟩
    · exact ⟨root, rfl, hpass⟩
    · rw [hstep]
      exact habove above' hprefix' fun heq => hne (by rw [heq])

/-- More places are shown if more nodes pass. -/
theorem Shows.mono (h : ∀ n, keep' n = true → keep n = true) {place : List Nat}
    (hs : tree.Shows keep' place) : tree.Shows keep place := by
  refine ⟨hs.1, fun above hprefix hne => ?_⟩
  obtain ⟨n, hn, hpass⟩ := hs.2 above hprefix hne
  exact ⟨n, hn, h n hpass⟩

/-- What is left are the places all nodes above which pass. -/
theorem mem_prunedPlaces_iff {tree : Unfolded} (place : List Nat) :
    place ∈ tree.prunedPlaces keep ↔ tree.Shows keep place := by
  induction place generalizing tree with
  | nil =>
    obtain ⟨root, parts⟩ := tree
    rw [prunedPlaces]
    exact iff_of_true List.mem_cons_self shows_nil
  | cons i place ih =>
    obtain ⟨root, parts⟩ := tree
    have hbelow : i :: place ∈ (mk root parts).prunedPlaces keep ↔
        keep root = true ∧ i :: place ∈ numbered List.cons (parts.map (prunedPlaces keep)) := by
      rw [prunedPlaces]
      cases keep root <;> simp
    rw [hbelow, shows_cons_iff, cons_mem_numbered_iff]
    simp only [ih]

/-- The nodes at these places are the nodes that are left, in the same order. -/
theorem map_at?_prunedPlaces (keep : Node → Bool) (tree : Unfolded) :
    (tree.prunedPlaces keep).map tree.at? = (tree.pruned keep).map some := by
  induction tree using induct with
  | mk root parts ih =>
    rw [prunedPlaces, pruned, List.map_cons, List.map_cons]
    congr 1
    cases hpass : keep root with
    | true => exact map_at?_numbered root ih
    | false => rfl

/-- A place comes before those below it, and these come before those further to the right. -/
theorem pairwise_prunedPlaces (keep : Node → Bool) (tree : Unfolded) :
    (tree.prunedPlaces keep).Pairwise (List.Lex (· < ·)) := by
  induction tree using induct with
  | mk root parts ih =>
    have hparts : (numbered List.cons (parts.map (prunedPlaces keep))).Pairwise
        (List.Lex (· < ·)) := by
      refine pairwise_numbered (fun _ _ _ h => .cons h) (fun _ _ _ _ h => .rel h) fun part hp => ?_
      obtain ⟨sub, hsub, rfl⟩ := List.mem_map.mp hp
      exact ih sub hsub
    rw [prunedPlaces]
    cases hpass : keep root with
    | false => exact List.pairwise_singleton _ _
    | true =>
      refine List.pairwise_cons.mpr ⟨fun place hp => ?_, hparts⟩
      obtain ⟨i, part, -, p, -, rfl⟩ := mem_numbered.mp hp
      exact .nil

/-- Nothing is left out by a test that all nodes pass. -/
theorem prunedPlaces_of_forall (h : ∀ n, keep n = true) (tree : Unfolded) :
    tree.prunedPlaces keep = tree.places .forward := by
  induction tree using induct with
  | mk root parts ih =>
    rw [prunedPlaces, places, if_pos (h root), List.map_congr_left ih]

/-- If fewer nodes pass, then fewer places are left, in the same order. -/
theorem prunedPlaces_sublist (h : ∀ n, keep' n = true → keep n = true) (tree : Unfolded) :
    (tree.prunedPlaces keep').Sublist (tree.prunedPlaces keep) := by
  have hnodup : (tree.prunedPlaces keep').Nodup := by
    refine (tree.pairwise_prunedPlaces keep').imp fun {p q} hlt heq => ?_
    rw [heq] at hlt
    exact irrefl q hlt
  have hsubset : tree.prunedPlaces keep' ⊆ tree.prunedPlaces keep := by
    intro place hp
    rw [mem_prunedPlaces_iff] at hp ⊢
    exact hp.mono h
  -- Both lists are in the one order of places, so having fewer places is being a part.
  exact List.sublist_of_subperm_of_pairwise (List.subperm_of_subset hnodup hsubset)
    (tree.pairwise_prunedPlaces keep') (tree.pairwise_prunedPlaces keep)

end Unfolded

namespace Node

variable {heap : Heap} {e : Node}

/-- The nodes are those of the tree at the places that the test shows, up to identities drawn from
`first` on: one for each place, and in the order of the places. -/
structure ReportsShown (first : Stamp) (keep : Node → Bool) (tree : Unfolded)
    (places : List (List Nat)) (nodes : List Node) : Prop where
  /-- The nodes stand at the places. -/
  nodes : places.map tree.at? = nodes.map fun n => some (n.blurred first)
  /-- A place is there exactly if all nodes above it pass the test. -/
  mem_iff : ∀ place, place ∈ places ↔ tree.Shows keep place
  /-- A place comes before those below it, and these come before those further to the right. -/
  sorted : places.Pairwise (List.Lex (· < ·))

/-- A visit with a test reports the nodes at the places that the test shows. -/
theorem visitWhile_reportsShown (he : e ∈ heap) {keep : Node → Bool}
    (hkeep : ∀ n : Node, keep (n.blurred heap.next) = keep n) {next : Stamp}
    (hnext : heap.next ≤ next) :
    ReportsShown heap.next keep (e.unfold heap.next) ((e.unfold heap.next).prunedPlaces keep)
      (e.visitWhile (reporting keep) [] next).1.2 := by
  refine ⟨?_, Unfolded.mem_prunedPlaces_iff, Unfolded.pairwise_prunedPlaces keep _⟩
  rw [Unfolded.map_at?_prunedPlaces, ← map_blurred_visitWhile_reporting he hkeep hnext,
    List.map_map]
  rfl

/-- The reports of a visit with a stronger test are among those of the visit, in the same order. -/
theorem visitWhile_reporting_sublist (he : e ∈ heap) {keep keep' : Node → Bool}
    (hkeep : ∀ n : Node, keep (n.blurred heap.next) = keep n)
    (hkeep' : ∀ n : Node, keep' (n.blurred heap.next) = keep' n)
    (h : ∀ n, keep' n = true → keep n = true) {next next' : Stamp} (hnext : heap.next ≤ next)
    (hnext' : heap.next ≤ next') :
    ((e.visitWhile (reporting keep') [] next').1.2.map (blurred heap.next)).Sublist
      ((e.visitWhile (reporting keep) [] next).1.2.map (blurred heap.next)) := by
  have hplaces := ((e.unfold heap.next).prunedPlaces_sublist h).map (e.unfold heap.next).at?
  rw [Unfolded.map_at?_prunedPlaces, Unfolded.map_at?_prunedPlaces] at hplaces
  rw [map_blurred_visitWhile_reporting he hkeep hnext,
    map_blurred_visitWhile_reporting he hkeep' hnext']
  have hnodes := hplaces.filterMap id
  rwa [List.filterMap_map, List.filterMap_map, Function.id_comp, List.filterMap_some,
    List.filterMap_some] at hnodes

/-- A visit with a test that cannot tell reductions apart reports exactly the occurrences all nodes
above which pass, in the order in which a visit that is not cut short reports them. A stronger test
reports a part of these occurrences, in the same order. -/
theorem visitWhile_prunes_exactly (he : e ∈ heap) (keep : Node → Bool)
    (hkeep : ∀ n : Node, keep (n.blurred heap.next) = keep n) {next : Stamp}
    (hnext : heap.next ≤ next) :
    let tree := e.unfold heap.next
    let reported := (e.visitWhile (reporting keep) [] next).1.2
    ReportsShown heap.next keep tree (tree.prunedPlaces keep) reported ∧
    (tree.prunedPlaces keep).Sublist (tree.places .forward) ∧
    ∀ (keep' : Node → Bool) (next' : Stamp), (∀ n : Node, keep' (n.blurred heap.next) = keep' n) →
      heap.next ≤ next' → (∀ n, keep' n = true → keep n = true) →
      let reported' := (e.visitWhile (reporting keep') [] next').1.2
      ReportsShown heap.next keep' tree (tree.prunedPlaces keep') reported' ∧
      (tree.prunedPlaces keep').Sublist (tree.prunedPlaces keep) ∧
      (reported'.map (blurred heap.next)).Sublist (reported.map (blurred heap.next)) := by
  intro tree reported
  refine ⟨visitWhile_reportsShown he hkeep hnext, ?_, fun keep' next' hkeep' hnext' hstronger => ?_⟩
  · have hall : tree.prunedPlaces (fun _ => true) = tree.places .forward :=
      Unfolded.prunedPlaces_of_forall (fun _ => rfl) tree
    rw [← hall]
    exact tree.prunedPlaces_sublist fun _ _ => rfl
  · exact ⟨visitWhile_reportsShown he hkeep' hnext', tree.prunedPlaces_sublist hstronger,
      visitWhile_reporting_sublist he hkeep hkeep' hstronger hnext hnext'⟩

/-- A block of the doubled node and the node that it doubles. -/
def sampleOverlap : Node := ⟨5, .block, .void, .block [] [sampleTwice, sampleAlias]⟩

/-- The block can be created. -/
theorem exists_heap_sampleOverlap : ∃ heap : Heap, sampleOverlap ∈ heap ∧ heap.next = 6 := by
  obtain ⟨heap, htwice, hnext⟩ := exists_heap_sampleTwice
  have halias : sampleAlias ∈ heap := Heap.mem_of_mem_handles htwice
    (by simp [sampleTwice, Shape.handles, Extension.operand?])
  obtain ⟨heap', -, hnext', hblock⟩ := heap.exists_insert sampleOverlap
    (by simp [hnext, sampleOverlap])
    (by simp [sampleOverlap, Shape.handles, Shape.children, htwice, halias])
  exact ⟨heap', hblock, hnext'⟩

/-- Below the sum nothing is left, though the same nodes are left where they stand beside it. -/
theorem prunedPlaces_sampleOverlap (stamp : Stamp) :
    (sampleOverlap.unfold stamp).prunedPlaces (fun n => n.kind != .add) =
      [[], [0], [0, 0], [1], [1, 0]] := by
  have hsubject : (sampleSubject.unfold stamp).prunedPlaces (fun n => n.kind != .add) = [[]] := by
    rw [unfold_eq]
    simp [childrenAt, sampleSubject, Shape.children, Unfolded.prunedPlaces, numbered]
  have halias : (sampleAlias.unfold stamp).prunedPlaces (fun n => n.kind != .add) =
      [[], [0]] := by
    rw [unfold_eq]
    simp [childrenAt, sampleAlias, Extension.reduceAt, Unfolded.prunedPlaces, numbered, hsubject]
  have htwice : (sampleTwice.unfold stamp).prunedPlaces (fun n => n.kind != .add) =
      [[], [0]] := by
    rw [unfold_eq]
    simp [childrenAt, sampleTwice, Extension.reduceAt, Unfolded.prunedPlaces, numbered,
      unfold_eq stamp ⟨stamp, .add, _, _⟩]
  rw [unfold_eq]
  simp [childrenAt, sampleOverlap, Shape.children, Unfolded.prunedPlaces, numbered, halias, htwice]

/-- A visit of the block that does not enter sums reports the alias beside the sum and not those
below it; one that enters nothing but the block reports a part of this. -/
theorem visitWhile_prunes_sampleOverlap :
    ∃ heap : Heap, sampleOverlap ∈ heap ∧ heap.next ≤ 6 ∧ heap.next ≤ 8 ∧
      ReportsShown heap.next (fun n => n.kind != .add) (sampleOverlap.unfold heap.next)
        [[], [0], [0, 0], [1], [1, 0]]
        (sampleOverlap.visitWhile (reporting fun n => n.kind != .add) [] 6).1.2 ∧
      ((sampleOverlap.visitWhile (reporting fun n => n.kind == .block) [] 8).1.2.map
        (blurred heap.next)).Sublist
          ((sampleOverlap.visitWhile (reporting fun n => n.kind != .add) [] 6).1.2.map
            (blurred heap.next)) := by
  obtain ⟨heap, hmem, hnext⟩ := exists_heap_sampleOverlap
  have hsix : heap.next ≤ 6 := Nat.le_of_eq hnext
  have height : heap.next ≤ 8 := by simp [hnext]
  have hstronger : ∀ n : Node, (n.kind == .block) = true → (n.kind != .add) = true := by
    intro n hblock
    rw [eq_of_beq hblock]
    rfl
  obtain ⟨hshown, -, hfewer⟩ := visitWhile_prunes_exactly hmem (fun n => n.kind != .add)
    (fun _ => rfl) hsix
  obtain ⟨-, -, hpart⟩ := hfewer (fun n => n.kind == .block) 8 (fun _ => rfl) height hstronger
  rw [prunedPlaces_sampleOverlap] at hshown
  exact ⟨heap, hmem, hsix, height, hshown, hpart⟩

end Node

end ExprTree
