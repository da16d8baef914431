import ExprTree.Proofs.Comparison

/-!
# Structural equality is an equivalence relation

Two trees of one heap are compared under either policy. The only thing asked of what constants
hold is that the equality of the host objects in them is symmetric and transitive; payloads may be
anything else, such as numbers that are not equal to themselves or queries inside sequences. A node
is equal to itself because it is the same instance, so nothing need be reflexive.

The proofs follow the one equation that `Node.equals` obeys: an equality of two nodes is one of
instances or one of parts, and each of the cases is turned around or chained on its own.
-/

namespace ExprTree

open HostObject

namespace Node

variable {heap : Heap} {policy : ConstantPolicy} {a b c child : Node}

/-- The host objects that constants in the tree hold, also in the trees of its queries. -/
def hosts (a : Node) : Set (Stamp × HostObject) :=
  {x | ∃ inner, a.Reaches Shape.contents inner ∧ x ∈ inner.shape.objects}

/-- The objects of the root's payload are among those of the tree. -/
theorem mem_hosts_of_mem_objects {x : Stamp × HostObject} (h : x ∈ a.shape.objects) :
    x ∈ a.hosts :=
  ⟨a, .refl, h⟩

/-- What a node holds in plain sight has no other objects than the node. -/
theorem hosts_subset_of_mem_contents (h : child ∈ a.shape.contents) : child.hosts ⊆ a.hosts := by
  intro x hx
  obtain ⟨inner, hr, hi⟩ := hx
  have hreach : a.Reaches Shape.contents inner := reaches_iff.mpr (.inr ⟨child, h, hr⟩)
  exact ⟨inner, hreach, hi⟩

/-- A tree has the objects of its root's payload and those of what the root holds in sight. -/
theorem hosts_subset_iff {hosts : Set (Stamp × HostObject)} :
    a.hosts ⊆ hosts ↔
      (∀ x ∈ a.shape.objects, x ∈ hosts) ∧ ∀ child ∈ a.shape.contents, child.hosts ⊆ hosts := by
  constructor
  · intro h
    refine ⟨fun x hx => h (mem_hosts_of_mem_objects hx), fun child hc => ?_⟩
    exact Set.Subset.trans (hosts_subset_of_mem_contents hc) h
  · intro h x hx
    obtain ⟨hroot, hrest⟩ := h
    obtain ⟨inner, hr, hi⟩ := hx
    rcases reaches_iff.mp hr with heq | ⟨child, hc, hr'⟩
    · exact hroot x (heq ▸ hi)
    · exact hrest child hc ⟨inner, hr', hi⟩

/-- A node is equal to itself. -/
theorem equals_refl (policy : ConstantPolicy) (a : Node) : a.equals policy a = true := by
  have hsame : a.same a = true := by simp [same]
  have hpass : Settles [] (a.compare policy a) True := by
    rw [compare, if_pos hsame]
    exact Settles.pass
  exact (equals_iff_of_settles hpass).mpr trivial

/-- Equality can be turned around. -/
theorem equals_symm {a b : Node} (ha : a ∈ heap) (hb : b ∈ heap)
    (hl : LawfulOn (a.hosts ∪ b.hosts)) (h : a.equals policy b = true) :
    b.equals policy a = true := by
  have hcases := (equals_iff ha b).mp h
  rcases hcases with hsame | ⟨hkind, htype, hagree⟩
  · have heq : a = b := Heap.eq_of_same ha hb hsame
    rw [heq]
    exact equals_refl policy b
  · have hparts : ∀ x ∈ a.shape.contents, ∀ y ∈ b.shape.contents,
        x.equals policy y = true → y.equals policy x = true := by
      intro x hx y hy hxy
      have hx' : x ∈ heap := Heap.mem_of_mem_handles ha (Shape.mem_handles_of_mem_contents hx)
      have hy' : y ∈ heap := Heap.mem_of_mem_handles hb (Shape.mem_handles_of_mem_contents hy)
      have hl' : LawfulOn (x.hosts ∪ y.hosts) := hl.mono
        (Set.union_subset_union (hosts_subset_of_mem_contents hx) (hosts_subset_of_mem_contents hy))
      exact equals_symm hx' hy' hl' hxy
    have hobjects : ∀ policy, ∀ x ∈ a.shape.objects, ∀ y ∈ b.shape.objects,
        matched policy x y = true → matched policy y x = true := by
      intro policy x hx y hy hxy
      exact hl.matched_symm (.inl (mem_hosts_of_mem_objects hx))
        (.inr (mem_hosts_of_mem_objects hy)) hxy
    have hturned := hagree.symm hparts hobjects
    rw [htype] at hturned
    exact (equals_iff hb a).mpr (.inr ⟨hkind.symm, htype.symm, hturned⟩)
termination_by sizeOf a
decreasing_by exact sizeOf_lt_of_mem_handles (Shape.mem_handles_of_mem_contents hx)

/-- Equalities can be chained. -/
theorem equals_trans {a b c : Node} (ha : a ∈ heap) (hb : b ∈ heap) (hc : c ∈ heap)
    (hl : LawfulOn (a.hosts ∪ b.hosts ∪ c.hosts)) (hab : a.equals policy b = true)
    (hbc : b.equals policy c = true) : a.equals policy c = true := by
  have hcasesab := (equals_iff ha b).mp hab
  have hcasesbc := (equals_iff hb c).mp hbc
  rcases hcasesab with hsame | ⟨hkind, htype, hagree⟩
  · rw [Heap.eq_of_same ha hb hsame]
    exact hbc
  rcases hcasesbc with hsame | ⟨hkind', htype', hagree'⟩
  · rw [← Heap.eq_of_same hb hc hsame]
    exact hab
  have hparts : ∀ x ∈ a.shape.contents, ∀ y ∈ b.shape.contents, ∀ z ∈ c.shape.contents,
      x.equals policy y = true → y.equals policy z = true → x.equals policy z = true := by
    intro x hx y hy z hz hxy hyz
    have hx' : x ∈ heap := Heap.mem_of_mem_handles ha (Shape.mem_handles_of_mem_contents hx)
    have hy' : y ∈ heap := Heap.mem_of_mem_handles hb (Shape.mem_handles_of_mem_contents hy)
    have hz' : z ∈ heap := Heap.mem_of_mem_handles hc (Shape.mem_handles_of_mem_contents hz)
    have hl' : LawfulOn (x.hosts ∪ y.hosts ∪ z.hosts) := hl.mono
      (Set.union_subset_union
        (Set.union_subset_union (hosts_subset_of_mem_contents hx) (hosts_subset_of_mem_contents hy))
        (hosts_subset_of_mem_contents hz))
    exact equals_trans hx' hy' hz' hl' hxy hyz
  have hobjects : ∀ policy, ∀ x ∈ a.shape.objects, ∀ y ∈ b.shape.objects,
      ∀ z ∈ c.shape.objects, matched policy x y = true → matched policy y z = true →
        matched policy x z = true := by
    intro policy x hx y hy z hz hxy hyz
    exact hl.matched_trans (.inl (.inl (mem_hosts_of_mem_objects hx)))
      (.inl (.inr (mem_hosts_of_mem_objects hy))) (.inr (mem_hosts_of_mem_objects hz)) hxy hyz
  rw [← htype] at hagree'
  have hchained := hagree.trans hparts hobjects hagree'
  exact (equals_iff ha c).mpr (.inr ⟨hkind.trans hkind', htype.trans htype', hchained⟩)
termination_by sizeOf a
decreasing_by exact sizeOf_lt_of_mem_handles (Shape.mem_handles_of_mem_contents hx)

/-- Among trees of one heap whose host objects have a symmetric and transitive equality, structural
equality under either policy is an equivalence relation. -/
theorem equals_equivalence (ha : a ∈ heap) (hb : b ∈ heap) (hc : c ∈ heap)
    (hl : LawfulOn (a.hosts ∪ b.hosts ∪ c.hosts)) (policy : ConstantPolicy) :
    a.equals policy a = true ∧ a.equals policy b = b.equals policy a ∧
      (a.equals policy b = true → b.equals policy c = true → a.equals policy c = true) := by
  have hab : LawfulOn (a.hosts ∪ b.hosts) := hl.mono Set.subset_union_left
  have hba : LawfulOn (b.hosts ∪ a.hosts) := by
    rw [Set.union_comm]
    exact hab
  refine ⟨equals_refl policy a, ?_, equals_trans ha hb hc hl⟩
  rw [Bool.eq_iff_iff]
  exact ⟨equals_symm ha hb hab, equals_symm hb ha hba⟩

/-- A constant that holds a point and a zero of either sign in a sequence. -/
def pointConstant (first : Stamp) (negative : Bool) : Node :=
  ⟨first + 2, .constant, .array .void 1, .constant (.sequence first
    [.object (first + 1) (.point 1 2),
      .scalar (.f64 ⟨if negative then 0x8000000000000000 else 0⟩)])⟩

/-- The constant can be created in every heap. -/
theorem exists_heap_pointConstant (heap : Heap) (negative : Bool) :
    ∃ heap' ≥ heap, heap'.next = heap.next + 3 ∧ pointConstant heap.next negative ∈ heap' := by
  refine heap.exists_insert (pointConstant heap.next negative) (by simp [pointConstant]) ?_
  simp [pointConstant, Shape.handles, Value.roots, Value.rootsOfList]

/-- The one host object of the constant is the point. -/
theorem hosts_pointConstant_subset (first : Stamp) (negative : Bool) :
    (pointConstant first negative).hosts ⊆ {x | x.2 = .point 1 2} := by
  refine hosts_subset_iff.mpr ⟨?_, ?_⟩
  · simp [pointConstant, Shape.objects, Shape.payloads, Value.objects, Value.objectsOfList]
  · simp [pointConstant, Shape.contents, Shape.handles, Value.roots, Value.rootsOfList]

/-- Points with the same coordinates are equal to each other. -/
theorem lawfulOn_point : LawfulOn {x | x.2 = .point 1 2} := by
  have hequal : ∀ s t, HostObject.equal s (.point 1 2) t (.point 1 2) = true := by
    intro s t
    rfl
  constructor
  · intro x hx y hy _
    rw [Set.mem_ofPred_eq] at hx hy
    rw [hx, hy]
    exact hequal y.1 x.1
  · intro x hx y hy z hz _ _
    rw [Set.mem_ofPred_eq] at hx hz
    rw [hx, hz]
    exact hequal x.1 z.1

/-- The zeros of either sign are equal numbers, so the constants are equal by value. -/
theorem equals_pointConstant {first second : Stamp} {negative negative' : Bool}
    (h : pointConstant first negative ∈ heap) :
    (pointConstant first negative).equals .byValue (pointConstant second negative') = true := by
  refine (equals_iff h _).mpr (.inr ⟨rfl, rfl, rfl, ?_, ?_⟩)
  · simp [pointConstant, Shape.children]
  · have hzero : ∀ negative negative' : Bool, Scalar.equal
        (.f64 ⟨if negative then 0x8000000000000000 else 0⟩)
        (.f64 ⟨if negative' then 0x8000000000000000 else 0⟩) = true := by decide
    simpa [pointConstant, Shape.payloads, Value.AgreeAt, Ty.isDirectlyComparable, Value.Agree,
      Value.AgreeList, matched, equal] using hzero negative negative'

/-- Three constants with equal points and with zeros of different signs. -/
theorem equals_equivalence_pointConstant : ∃ heap : Heap,
    pointConstant 0 false ∈ heap ∧ pointConstant 3 true ∈ heap ∧ pointConstant 6 false ∈ heap ∧
      (pointConstant 3 true).equals .byValue (pointConstant 0 false) = true ∧
      (pointConstant 0 false).equals .byValue (pointConstant 6 false) = true := by
  obtain ⟨heap₁, -, hnext₁, ha⟩ := exists_heap_pointConstant .empty false
  obtain ⟨heap₂, hle₂, hnext₂, hb⟩ := exists_heap_pointConstant heap₁ true
  obtain ⟨heap₃, hle₃, -, hc⟩ := exists_heap_pointConstant heap₂ false
  rw [hnext₂, hnext₁] at hc
  rw [hnext₁] at hb
  have ha' := Heap.mem_of_le (le_trans hle₂ hle₃) ha
  have hb' := Heap.mem_of_le hle₃ hb
  have h := equals_equivalence ha' hb' hc (lawfulOn_point.mono (Set.union_subset
    (Set.union_subset (hosts_pointConstant_subset _ _) (hosts_pointConstant_subset _ _))
    (hosts_pointConstant_subset _ _))) .byValue
  have hab : (pointConstant 0 false).equals .byValue (pointConstant 3 true) = true :=
    equals_pointConstant ha'
  exact ⟨heap₃, ha', hb', hc, h.2.1.symm.trans hab, h.2.2 hab (equals_pointConstant hb')⟩

end Node

end ExprTree
