import ExprTree.Proofs.Equivalence
import ExprTree.Proofs.OneTraversal
import ExprTree.Proofs.Preservation

/-!
# Equal trees are walked in lockstep

A comparison takes lists of children apart side by side and would pass over what is left of the
longer one, so all depends on the checks of lengths that come before. They suffice: equal trees have
nodes at the same places, and at each place the two nodes hold their parts in the same way, which
means that every list in the one, at any depth of its nested structures, is as long as in the other.

So walks over the children of equal nodes come to pairs of equal nodes, and visits of equal trees
report the same kinds and types. Payloads are not restricted. An extension is equal to every other
one of its type whatever it is reduced to, so trees with extensions are left out; it is enough that
one of the two trees has none.
-/

namespace ExprTree

/-- Related lists have related items at each index, or none in both. -/
theorem option_rel_getElem? {α β : Type} {R : α → β → Prop} {xs : List α} {ys : List β}
    (h : List.Forall₂ R xs ys) (i : Nat) : Option.Rel R xs[i]? ys[i]? := by
  induction h generalizing i with
  | nil => exact .none
  | cons hxy _ ih =>
    cases i with
    | zero => exact .some hxy
    | succ i => exact ih i

namespace Node

variable {heap : Heap} {policy : ConstantPolicy} {a b : Node}

/-- Two nodes that a comparison cannot tell apart by themselves, with children that are equal. -/
structure Paired (policy : ConstantPolicy) (x y : Node) : Prop where
  /-- Kind and static type are the same. -/
  signature : x.signature = y.signature
  /-- The parts are held in the same way; in particular all lists are equally long. -/
  skeleton : x.shape.skeleton = y.shape.skeleton
  /-- The children are equal place by place. -/
  children : List.Forall₂ (fun child other => child.equals policy other = true) x.shape.children
    y.shape.children

/-- Equal nodes are paired. -/
theorem paired_of_equals (ha : a ∈ heap) (hb : b ∈ heap) (h : a.equals policy b = true) :
    Paired policy a b := by
  rcases (equals_iff ha b).mp h with hsame | ⟨hkind, htype, hagree⟩
  · have heq : a = b := Heap.eq_of_same ha hb hsame
    subst heq
    exact ⟨rfl, rfl, List.forall₂_same.mpr fun child _ => equals_refl policy child⟩
  · have hsignature : a.signature = b.signature := by rw [signature, signature, hkind, htype]
    exact ⟨hsignature, hagree.skeleton, hagree.children⟩

/-- Equal trees have paired nodes at the same places. -/
theorem at?_paired {a b : Node} (ha : a ∈ heap) (hb : b ∈ heap) (h : a.equals policy b = true)
    (place : List Nat) : Option.Rel (Paired policy) (a.at? place) (b.at? place) := by
  have hpaired := paired_of_equals ha hb h
  induction place generalizing a b with
  | nil => exact .some hpaired
  | cons i place ih =>
    have hchild := option_rel_getElem? hpaired.children i
    rw [at?, at?]
    generalize hx : a.shape.children[i]? = x? at hchild ⊢
    generalize hy : b.shape.children[i]? = y? at hchild ⊢
    cases hchild with
    | none => exact .none
    | @some x y hequal =>
      have hx' : x ∈ heap := Heap.mem_of_mem_children ha (List.mem_of_getElem? hx)
      have hy' : y ∈ heap := Heap.mem_of_mem_children hb (List.mem_of_getElem? hy)
      exact ih hx' hy' hequal (paired_of_equals hx' hy' hequal)

/-- Equal trees have nodes of the same kinds and types, in order. -/
theorem map_signature_nodes_eq {a b : Node} (ha : a ∈ heap) (hb : b ∈ heap)
    (h : a.equals policy b = true) :
    (a.nodes .backward).map signature = (b.nodes .backward).map signature := by
  have hpaired := paired_of_equals ha hb h
  have hchildren : List.Forall₂
      (fun x y => (x.nodes .backward).map signature = (y.nodes .backward).map signature)
      a.shape.children b.shape.children := by
    refine forall₂_imp_of_mem hpaired.children fun x hx y hy hxy => ?_
    exact map_signature_nodes_eq (Heap.mem_of_mem_children ha hx) (Heap.mem_of_mem_children hb hy)
      hxy
  have hbelow : a.shape.children.map (fun x => (x.nodes .backward).map signature) =
      b.shape.children.map fun y => (y.nodes .backward).map signature := by
    rw [← List.forall₂_eq_eq_eq, List.forall₂_map_left_iff, List.forall₂_map_right_iff]
    exact hchildren
  rw [nodes_backward, nodes_backward, List.map_append, List.map_append, List.map_flatMap,
    List.map_flatMap, List.flatMap_def, List.flatMap_def, hbelow, List.map_singleton,
    List.map_singleton, hpaired.signature]
termination_by sizeOf a
decreasing_by exact sizeOf_lt_of_mem_handles (Shape.mem_handles_of_mem_children hx)

/-- What is equal to a tree without extensions has none. -/
theorem no_extension_of_equals {a b : Node} (ha : a ∈ heap) (hb : b ∈ heap)
    (h : a.equals policy b = true)
    (hplain : ∀ n, a.Reaches Shape.children n → n.shape.family ≠ .extension) :
    ∀ n, b.Reaches Shape.children n → n.shape.family ≠ .extension := by
  have hpaired := paired_of_equals ha hb h
  have hparts := forall_reaches_iff.mp hplain
  have hfamily : b.shape.family ≠ .extension := by
    rw [← Shape.family_eq_of_skeleton_eq hpaired.skeleton]
    exact hparts.1
  refine forall_reaches_iff.mpr ⟨hfamily, fun y hy => ?_⟩
  obtain ⟨x, hx, hxy⟩ := exists_of_mem_forall₂ hpaired.children hy
  exact no_extension_of_equals (Heap.mem_of_mem_children ha hx) (Heap.mem_of_mem_children hb hy) hxy
    (hparts.2 x hx)
termination_by sizeOf a
decreasing_by exact sizeOf_lt_of_mem_handles (Shape.mem_handles_of_mem_children hx)

/-- A node that is no extension cannot be reduced. -/
theorem isIrreducible_of_family_ne (h : a.shape.family ≠ .extension) : a.IsIrreducible := by
  intro stamp custom hshape
  rw [hshape] at h
  exact absurd rfl h

/-- A walk over a node that is no extension comes to its children. -/
theorem walkChildren_report (h : a.shape.family ≠ .extension) (next : Stamp) :
    (a.walkChildren report [] next).1.2 = a.shape.children := by
  have hrun := runs_self (a.walkChildren report) ([], next)
  obtain ⟨us, hp⟩ := walkChildren_passes (isIrreducible_of_family_ne h) hrun
  have hnoted : (a.walkChildren report [] next).1.2 =
      [] ++ a.shape.children.flatMap fun n => [n] :=
    passes_report (fun n _ w u w' hn => by rw [runs_report.mp hn]) hp
  rwa [List.flatMap_singleton', List.nil_append] at hnoted

/-- A visit of a tree without extensions reports its nodes. -/
theorem visit_report (h : ∀ n, a.Reaches Shape.children n → n.shape.family ≠ .extension)
    (next : Stamp) : (a.visit report [] next).1.2 = a.nodes .backward := by
  have hrun := runs_self (a.visit report) ([], next)
  exact visit_reports (fun n hn => isIrreducible_of_family_ne (h n hn)) hrun

/-- Equal trees without extensions are walked in lockstep, under either policy and whatever their
constants hold. Walks over the children of both come to equally many nodes, which are equal one by
one, and visits report the same kinds and types. At each place both trees have a node or neither
has, and the two nodes hold their parts in the same way, so that no list in one of them is longer
than its counterpart. -/
theorem equal_trees_walk_in_lockstep (ha : a ∈ heap) (hb : b ∈ heap)
    (hplain : ∀ n, a.Reaches Shape.children n → n.shape.family ≠ .extension)
    (h : a.equals policy b = true) (next next' : Stamp) :
    let walked := (a.walkChildren report [] next).1.2
    let walked' := (b.walkChildren report [] next').1.2
    walked.length = walked'.length ∧
    List.Forall₂ (fun x y => x.equals policy y = true) walked walked' ∧
    (a.visit report [] next).1.2.map signature = (b.visit report [] next').1.2.map signature ∧
    ∀ place, Option.Rel (Paired policy) (a.at? place) (b.at? place) := by
  intro walked walked'
  have hplain' := no_extension_of_equals ha hb h hplain
  have hwalked : walked = a.shape.children := walkChildren_report (hplain a .refl) next
  have hwalked' : walked' = b.shape.children := walkChildren_report (hplain' b .refl) next'
  have hchildren := (paired_of_equals ha hb h).children
  rw [hwalked, hwalked', visit_report hplain, visit_report hplain']
  exact ⟨hchildren.length_eq, hchildren, map_signature_nodes_eq ha hb h, at?_paired ha hb h⟩

/-- An object is created, and a constant is added to what a member of one of its members holds. -/
def sampleRecord (first : Stamp) (negative : Bool) : Node :=
  ⟨first + 7, .memberInit, .object, .memberInit ⟨first, .new, .object, .new none [] none⟩
    [.nested (first + 6) ⟨"outer", .object, .object, .field⟩
      [.list (first + 5) ⟨"inner", .object, .object, .field⟩
        [⟨first + 4, ⟨"add", .object, [.void], .void, false⟩,
          [pointConstant (first + 1) negative]⟩]]]⟩

/-- The object can be created in every heap. -/
theorem exists_heap_sampleRecord (heap : Heap) (negative : Bool) :
    ∃ heap' ≥ heap, heap'.next = heap.next + 8 ∧ sampleRecord heap.next negative ∈ heap' := by
  obtain ⟨heap₁, hle₁, hnext₁, hnew⟩ := heap.exists_insert
    ⟨heap.next, .new, .object, .new none [] none⟩ (Nat.le_refl _)
    (by simp [Shape.handles, Shape.children])
  obtain ⟨heap₂, hle₂, hnext₂, hpoint⟩ := exists_heap_pointConstant heap₁ negative
  have hstamp : heap₁.next = heap.next + 1 := hnext₁
  rw [hstamp] at hnext₂ hpoint
  obtain ⟨heap₃, hle₃, hnext₃, hrecord⟩ := heap₂.exists_insert (sampleRecord heap.next negative)
    (by simp [hnext₂, sampleRecord])
    (by simp [sampleRecord, Shape.handles, Shape.children, Binding.childrenOfList,
      Binding.children, ElementInit.argumentsOfList, Heap.mem_of_le hle₂ hnew, hpoint])
  exact ⟨heap₃, le_trans hle₁ (le_trans hle₂ hle₃), hnext₃, hrecord⟩

/-- The object has three nodes, and none of them is an extension. -/
theorem no_extension_sampleRecord {first : Stamp} {negative : Bool} {n : Node}
    (h : (sampleRecord first negative).Reaches Shape.children n) : n.shape.family ≠ .extension := by
  have hmem : n ∈ (sampleRecord first negative).nodes .forward :=
    (mem_nodes_iff (sampleRecord first negative)).mpr h
  simp only [nodes_forward, sampleRecord, pointConstant, Shape.children, Binding.childrenOfList,
    Binding.children, ElementInit.argumentsOfList, List.flatMap_cons, List.flatMap_nil,
    List.append_nil, List.cons_append, List.nil_append, List.mem_cons, List.not_mem_nil,
    or_false] at hmem
  rcases hmem with rfl | rfl | rfl
  all_goals simp [Shape.family]

/-- Two such objects whose constants hold zeros of different signs are walked in lockstep, down to
the constants. -/
theorem lockstep_sampleRecord : ∃ heap : Heap,
    sampleRecord 0 false ∈ heap ∧ sampleRecord 8 true ∈ heap ∧
      (sampleRecord 0 false).equals .byValue (sampleRecord 8 true) = true ∧
      ((sampleRecord 0 false).visit report [] 16).1.2.map signature =
        ((sampleRecord 8 true).visit report [] 16).1.2.map signature ∧
      Paired .byValue (pointConstant 1 false) (pointConstant 9 true) := by
  obtain ⟨heap, -, hnext, ha⟩ := exists_heap_sampleRecord .empty false
  obtain ⟨heap', hle, -, hb⟩ := exists_heap_sampleRecord heap true
  have hstamp : heap.next = 8 := hnext
  rw [hstamp] at hb
  have ha' := Heap.mem_of_le hle ha
  have hequal : (sampleRecord 0 false).equals .byValue (sampleRecord 8 true) = true := by
    decide +kernel
  obtain ⟨-, -, hvisits, hplaces⟩ := equal_trees_walk_in_lockstep ha' hb
    (fun n hn => no_extension_sampleRecord hn) hequal 16 16
  obtain ⟨hpaired⟩ := hplaces [1]
  exact ⟨heap', ha', hb, hequal, hvisits, hpaired⟩

end Node

end ExprTree
