import ExprTree.Proofs.Equivalence
import ExprTree.Proofs.Rewriting

/-!
# Rewriting that keeps trees equal

A rule that gives for every node one that is structurally equal to it rewrites trees to trees that
are equal to them, in both directions. The rule may have a state of its own and may create nodes;
what it is given and what it gives stand in a heap that grows while the rewriting runs.

Backward, the rule is given nodes that were rebuilt over rewritten children. These are equal to the
old ones because a rebuilt shape agrees with the old shape if its children are equal to the old
children, and the two equalities are chained. So the host objects at hand must have a symmetric
and transitive equality.
-/

namespace ExprTree

open HostObject

/-! ## Heaps that grow while actions run -/

variable {σ : Type}

/-- Actions run in a heap, and end in a later one whose next stamp is the one that is drawn next.
What is known of the state of a rule has to stay true when the heap grows. -/
abbrev heapLogic (inv : Heap → σ → Prop)
    (mono : ∀ {heap heap' s}, heap ≤ heap' → inv heap s → inv heap' s) :
    StampLogic (StateT σ Supply) where
  World := Heap
  order := inferInstance
  bound := 0
  Ensures heap x post := ∀ s, inv heap s → ∃ heap', heap ≤ heap' ∧ ∃ b s',
    x s heap.next = ((b, s'), heap'.next) ∧ inv heap' s' ∧ post heap' b
  ensures_pure := by
    intro β heap b post hp s hs
    exact ⟨heap, le_refl heap, b, s, rfl, hs, hp⟩
  ensures_bind := by
    intro β γ heap x k mid post hx hk s hs
    obtain ⟨heap', hle, b, s', hrun, hs', hb⟩ := hx s hs
    obtain ⟨heap'', hle', c, s'', hrun', hs'', hc⟩ := hk heap' hle b hb s' hs'
    refine ⟨heap'', le_trans hle hle', c, s'', ?_, hs'', hc⟩
    rw [← hrun']
    change (match x s heap.next with | ((b, s'), next) => k b s' next) = _
    rw [hrun]
  ensures_fresh := by
    intro heap s hs
    exact ⟨heap.draw, heap.le_draw, heap.next, s, rfl, mono heap.le_draw hs, Nat.zero_le _⟩

/-- A node of the given shape can be created over nodes of the heap. -/
theorem ensures_make {inv : Heap → σ → Prop}
    {mono : ∀ {heap heap' s}, heap ≤ heap' → inv heap s → inv heap' s} {heap : Heap}
    (kind : Kind) (type : Ty) (shape : Shape Node)
    (holds : ∀ child ∈ shape.handles, child ∈ heap) :
    (heapLogic inv mono).Ensures heap (Node.make kind type shape) fun heap' node =>
      node ∈ heap' ∧ node = ⟨heap.next, kind, type, shape⟩ := by
  intro s hs
  obtain ⟨heap', hle, hnext, hmem⟩ :=
    heap.exists_insert ⟨heap.next, kind, type, shape⟩ (Nat.le_refl _) holds
  refine ⟨heap', hle, ⟨heap.next, kind, type, shape⟩, s, ?_, mono hle hs, hmem, rfl⟩
  rw [hnext]
  rfl

/-! ## Shapes that are rebuilt -/

namespace Shape

variable {α : Type}

/-- What is rewritten from below has no payload. -/
theorem payloads_eq_nil {shape : Shape α} (h : shape.isLeaf = false) : shape.payloads = [] := by
  cases shape <;> first | rfl | simp [isLeaf] at h

/-- Shapes with equal frames are both leaves or both not. -/
theorem isLeaf_eq_of_frame_eq {β : Type} {shape : Shape α} {shape' : Shape β}
    (h : shape.frame = shape'.frame) : shape.isLeaf = shape'.isLeaf := by
  have hframe : ∀ {γ : Type} (shape : Shape γ), shape.frame.isLeaf = shape.isLeaf := by
    intro γ shape
    cases shape <;> rfl
  rw [← hframe shape, h, hframe shape']

/-- Shapes that are rewritten to related children agree. -/
theorem Rewritten.agree {bound : Stamp} {R : Node → Node → Prop} {was now : Shape Node}
    {type : Ty} {policy : ConstantPolicy} (h : was.Rewritten bound R now)
    (hl : was.isLeaf = false) : Agree type policy R was now := by
  have hl' : now.isLeaf = false := by
    rw [← isLeaf_eq_of_frame_eq h.frame]
    exact hl
  refine ⟨?_, h.children, ?_⟩
  · rw [skeleton, skeleton, h.frame]
  · rw [payloads_eq_nil hl, payloads_eq_nil hl']
    exact .nil

end Shape

/-- Items of the second of two related lists are related to items of the first. -/
theorem exists_of_mem_forall₂ {α β : Type} {R : α → β → Prop} {as : List α} {bs : List β}
    (h : List.Forall₂ R as bs) {b : β} (hb : b ∈ bs) : ∃ a ∈ as, R a b := by
  induction h with
  | nil => simp at hb
  | @cons a b' as bs hab _ ih =>
    rcases List.mem_cons.mp hb with heq | hmem
    · exact ⟨a, by simp, heq ▸ hab⟩
    · obtain ⟨a', ha', hr⟩ := ih hmem
      exact ⟨a', List.mem_cons_of_mem _ ha', hr⟩

namespace Node

/-- Two nodes of the heap that are equal and hold no other host objects than the given ones. -/
structure Matches (policy : ConstantPolicy) (hosts : Set (Stamp × HostObject)) (heap : Heap)
    (a b : Node) : Prop where
  /-- The first node is in the heap. -/
  mem : a ∈ heap
  /-- The first tree holds objects among the given ones. -/
  hosts_subset : a.hosts ⊆ hosts
  /-- The second node is in the heap. -/
  mem' : b ∈ heap
  /-- The second tree holds objects among the given ones. -/
  hosts_subset' : b.hosts ⊆ hosts
  /-- The nodes are equal. -/
  equals : a.equals policy b = true

namespace Matches

variable {policy : ConstantPolicy} {hosts : Set (Stamp × HostObject)} {heap heap' : Heap}
  {a b c : Node}

/-- A node matches itself. -/
theorem refl (policy : ConstantPolicy) (ha : a ∈ heap) (hh : a.hosts ⊆ hosts) :
    Matches policy hosts heap a a :=
  ⟨ha, hh, ha, hh, equals_refl policy a⟩

/-- What matches does so in later heaps. -/
theorem later (h : Matches policy hosts heap a b) (hle : heap ≤ heap') :
    Matches policy hosts heap' a b :=
  ⟨Heap.mem_of_le hle h.mem, h.hosts_subset, Heap.mem_of_le hle h.mem', h.hosts_subset', h.equals⟩

/-- Matches can be chained. -/
theorem trans (hl : LawfulOn hosts) (h : Matches policy hosts heap a b)
    (h' : Matches policy hosts heap b c) : Matches policy hosts heap a c := by
  have hl' : LawfulOn (a.hosts ∪ b.hosts ∪ c.hosts) := hl.mono
    (Set.union_subset (Set.union_subset h.hosts_subset h.hosts_subset') h'.hosts_subset')
  exact ⟨h.mem, h.hosts_subset, h'.mem', h'.hosts_subset',
    equals_trans h.mem h.mem' h'.mem' hl' h.equals h'.equals⟩

end Matches

/-! ## Rules that respect equality -/

/-- The rule gives for every node one that is equal to it. What it is given and gives holds no other
host objects than the given ones, and `inv` says which states the rule can be in. -/
structure Respects (policy : ConstantPolicy) (hosts : Set (Stamp × HostObject))
    (inv : Heap → σ → Prop) (f : Node → StateT σ Supply Node) : Prop where
  /-- A state of the rule stays one when the heap grows. -/
  mono : ∀ {heap heap' s}, heap ≤ heap' → inv heap s → inv heap' s
  /-- The rule gives an equal node, in the heap as it is after the rule was run. -/
  equals : ∀ {heap s} (n : Node), inv heap s → n ∈ heap → n.hosts ⊆ hosts →
    ∃ heap', heap ≤ heap' ∧ ∃ r s', f n s heap.next = ((r, s'), heap'.next) ∧ inv heap' s' ∧
      r ∈ heap' ∧ r.hosts ⊆ hosts ∧ n.equals policy r = true

section Respects

variable {policy : ConstantPolicy} {hosts : Set (Stamp × HostObject)} {inv : Heap → σ → Prop}
  {f : Node → StateT σ Supply Node} {heap : Heap} {n : Node}

/-- A rule that respects equality gives a node that matches the one that it is given. -/
theorem Respects.ensures (hf : Respects policy hosts inv f) (hn : n ∈ heap)
    (hh : n.hosts ⊆ hosts) :
    (heapLogic inv hf.mono).Ensures heap (f n) fun heap' r => Matches policy hosts heap' n r := by
  intro s hs
  obtain ⟨heap', hle, r, s', hrun, hs', hr, hrh, he⟩ := hf.equals n hs hn hh
  exact ⟨heap', hle, r, s', hrun, hs', Heap.mem_of_le hle hn, hh, hr, hrh, he⟩

/-- A node that is rebuilt over children that match the old ones matches the old node. -/
theorem rebuild_ensures {mono : ∀ {heap heap' s}, heap ≤ heap' → inv heap s → inv heap' s}
    {shape : Shape Node} (hn : n ∈ heap) (hh : n.hosts ⊆ hosts) (hl : n.shape.isLeaf = false)
    (hshape : n.shape.Rewritten 0 (Matches policy hosts heap) shape) :
    (heapLogic inv mono).Ensures heap (n.rebuild shape) fun heap' r =>
      Matches policy hosts heap' n r := by
  have hl' : shape.isLeaf = false := by
    rw [← Shape.isLeaf_eq_of_frame_eq hshape.frame]
    exact hl
  have hholds : ∀ child ∈ shape.handles, child ∈ heap ∧ child.hosts ⊆ hosts := by
    intro child hc
    rw [Shape.handles_eq_children hl'] at hc
    obtain ⟨old, -, hm⟩ := exists_of_mem_forall₂ hshape.children hc
    exact ⟨hm.mem', hm.hosts_subset'⟩
  unfold rebuild
  split
  · exact StampLogic.ensures_pure _ (Matches.refl policy hn hh)
  · have hmake : (heapLogic inv mono).Ensures heap (make n.kind n.type shape) _ :=
      ensures_make n.kind n.type shape fun child hc => (hholds child hc).1
    refine StampLogic.ensures_mono hmake fun heap' hle r hr => ?_
    obtain ⟨hmem, rfl⟩ := hr
    have hequal : n.shape.Rewritten 0 (fun x y => x.equals policy y = true) shape :=
      ⟨hshape.frame, hshape.children.imp fun _ _ hm => hm.equals, hshape.nested⟩
    refine ⟨Heap.mem_of_le hle hn, hh, hmem, ?_, ?_⟩
    · rw [hosts_subset_iff, Shape.objects, Shape.payloads_eq_nil hl']
      exact ⟨by simp, fun child hc => (hholds child (Shape.mem_handles_of_mem_contents hc)).2⟩
    · exact (equals_iff hn _).mpr (.inr ⟨rfl, rfl, hequal.agree hl⟩)

/-- A folder whose step matches nodes if what is below them does so matches trees. -/
theorem foldWith_matches {mono : ∀ {heap heap' s}, heap ≤ heap' → inv heap s → inv heap' s}
    {step : Node → StateT σ Supply Node → StateT σ Supply Node}
    (hstep : ∀ n below, n ∈ heap → n.hosts ⊆ hosts →
      (heapLogic inv mono).Yields heap below (fun heap' r => Matches policy hosts heap' n r) →
      (heapLogic inv mono).Yields heap (step n below) fun heap' r => Matches policy hosts heap' n r)
    (hn : n ∈ heap) (hh : n.hosts ⊆ hosts) :
    (heapLogic inv mono).Yields heap (n.foldWith step) fun heap' r =>
      Matches policy hosts heap' n r := by
  have htracks : (heapLogic inv mono).Tracks False (Matches policy hosts) := by
    constructor
    · intro x w w' y hle hm
      exact hm.later hle
    · intro w x y hm _
      exact Matches.refl policy hm.mem hm.hosts_subset
  refine foldWith_yields (Q := Matches policy hosts) (fun n => n ∈ heap ∧ n.hosts ⊆ hosts) htracks
    htracks.lasting ?_ ?_ ?_ ?_ ?_ n ⟨hn, hh⟩
  · intro n hgood child hc
    have hcontents := Shape.mem_contents_of_mem_children hc
    exact ⟨Heap.mem_of_mem_children hgood.1 hc, (hosts_subset_iff.mp hgood.2).2 child hcontents⟩
  · intro hfalse
    exact hfalse.elim
  · intro n hgood _ heap' hle
    exact Matches.refl policy (Heap.mem_of_le hle hgood.1) hgood.2
  · intro n hgood hl heap' hle shape hshape
    exact rebuild_ensures (Heap.mem_of_le hle hgood.1) hgood.2 hl hshape
  · intro n below hgood hbelow
    exact hstep n below hgood.1 hgood.2 hbelow

/-- Rewriting by a rule that respects equality gives a tree that matches the old one. -/
theorem rewrite_matches (hl : LawfulOn hosts) (hf : Respects policy hosts inv f)
    (direction : Direction) (hn : n ∈ heap) (hh : n.hosts ⊆ hosts) :
    (heapLogic inv hf.mono).Yields heap (n.rewrite direction f) fun heap' r =>
      Matches policy hosts heap' n r := by
  cases direction with
  | backward =>
    refine foldWith_matches (fun n below _ _ hbelow => ⟨hbelow.lasting, fun w hw => ?_⟩) hn hh
    refine StampLogic.ensures_bind _ (hbelow.after w hw) fun w' _ r hr => ?_
    refine StampLogic.ensures_mono (hf.ensures hr.mem' hr.hosts_subset') fun w'' hle r' hr' => ?_
    exact (hr.later hle).trans hl hr'
  | forward =>
    refine foldWith_matches (fun n below hn hh hbelow => ⟨hbelow.lasting, fun w hw => ?_⟩) hn hh
    refine StampLogic.ensures_bind _ (hf.ensures (Heap.mem_of_le hw hn) hh) fun w' hle r hr => ?_
    split
    · exact hbelow.after w' (le_trans hw hle)
    · exact StampLogic.ensures_pure _ hr

/-- The tree that a rule which respects equality gives is equal to the old one. -/
theorem Respects.equals_rewrite (hl : LawfulOn hosts) (hf : Respects policy hosts inv f) {s : σ}
    (hs : inv heap s) (hn : n ∈ heap) (hh : n.hosts ⊆ hosts) (direction : Direction) :
    n.equals policy (n.rewrite direction f s heap.next).1.1 = true := by
  have hmatches := (rewrite_matches hl hf direction hn hh).after heap (le_refl heap)
  obtain ⟨heap', _, r, s', hrun, _, hr⟩ := hmatches s hs
  rw [hrun]
  exact hr.equals

end Respects

end Node

/-! ## Creating nodes anew -/

namespace Value

variable {α : Type} {policy : ConstantPolicy} {same : α → α → Bool} {R : α → α → Prop}

mutual

/-- A payload that is equal to itself agrees with itself under either policy. -/
theorem agree_self_of_equal (hr : ∀ x, R x x) : ∀ {value : Value α},
    value.equal same value = true → value.Agree policy R value
  | .scalar _, h => by simpa only [equal, Agree] using h
  | .text _ _, _ => by simp only [Agree]
  | .sequence _ _, h => by
    simp only [equal, Agree] at h ⊢
    exact agreeList_self_of_equalList hr h
  | .query root _, _ => by
    simp only [Agree]
    exact hr root
  | .object _ _, h => by
    cases policy with
    | byReference => simp [Agree, matched]
    | byValue => simpa only [equal, Agree, matched] using h

/-- Payloads that are equal to themselves agree with themselves, place by place. -/
theorem agreeList_self_of_equalList (hr : ∀ x, R x x) : ∀ {values : List (Value α)},
    equalList same values values = true → AgreeList policy R values values
  | [], _ => by simp only [AgreeList]
  | _ :: _, h => by
    simp only [equalList, AgreeList, Bool.and_eq_true] at h ⊢
    exact ⟨agree_self_of_equal hr h.1, agreeList_self_of_equalList hr h.2⟩

end

/-- A payload that is equal to itself agrees with itself in constants of every type. -/
theorem agreeAt_self_of_equal {type : Ty} {R : Node → Node → Prop} (hr : ∀ x, R x x)
    {value : Value Node} (h : value.equal Node.same value = true) :
    value.AgreeAt type policy R value := by
  unfold AgreeAt
  split
  · exact equal_iff_agree.mp h
  · exact agree_self_of_equal hr h

end Value

namespace Node

variable {policy : ConstantPolicy} {hosts : Set (Stamp × HostObject)} {inv : Heap → σ → Prop}
  {f : Node → StateT σ Supply Node} {heap : Heap} {e : Node}

/-- Creates the node anew, with the same kind, type and data. A node is kept if its payload is not
equal to itself, as a NaN is not. -/
def renew {m : Type → Type} [Monad m] [MonadStamp m] (node : Node) : m Node :=
  if node.shape.payloads.all fun value => value.equal same value then
    make node.kind node.type node.shape
  else pure node

/-- A node with the kind, the type and the data of another one is equal to it if the payload is
equal to itself. -/
theorem equals_of_shape_eq {n : Node} (hn : n ∈ heap)
    (hp : ∀ value ∈ n.shape.payloads, value.equal same value = true) (stamp : Stamp) :
    n.equals policy ⟨stamp, n.kind, n.type, n.shape⟩ = true := by
  refine (equals_iff hn _).mpr (.inr ⟨rfl, rfl, rfl, ?_, ?_⟩)
  · exact List.forall₂_same.mpr fun child _ => equals_refl policy child
  · exact List.forall₂_same.mpr fun value hv =>
      Value.agreeAt_self_of_equal (equals_refl policy) (hp value hv)

/-- Creating nodes anew respects equality. -/
theorem respects_renew : Respects (σ := σ) policy hosts (fun _ _ => True) renew := by
  refine ⟨fun _ _ => trivial, ?_⟩
  intro heap s n _ hn hh
  unfold renew
  split
  case isTrue hp =>
    have hmake : (heapLogic (σ := σ) (fun _ _ => True) fun _ _ => trivial).Ensures heap
        (make n.kind n.type n.shape) _ :=
      ensures_make n.kind n.type n.shape fun child hc => Heap.mem_of_mem_handles hn hc
    obtain ⟨heap', hle, r, s', hrun, hs', hmem, hr⟩ := hmake s trivial
    subst hr
    obtain ⟨hroot, hrest⟩ := hosts_subset_iff.mp hh
    refine ⟨heap', hle, _, s', hrun, hs', hmem, ?_, ?_⟩
    · exact hosts_subset_iff.mpr ⟨hroot, hrest⟩
    · exact equals_of_shape_eq hn (List.all_eq_true.mp hp) heap.next
  case isFalse =>
    exact ⟨heap, le_refl heap, n, s, rfl, trivial, hn, hh, equals_refl policy n⟩

/-- A rule that gives for every node an equal one rewrites every tree to an equal one, under either
policy and in either direction, where the equality of host objects is symmetric and transitive. In
particular this holds of the rule that creates the nodes anew. -/
theorem equals_rewrite_of_respects (hl : LawfulOn hosts) (hf : Respects policy hosts inv f) {s : σ}
    (hs : inv heap s) (he : e ∈ heap) (hh : e.hosts ⊆ hosts) (direction : Direction) :
    e.equals policy (e.rewrite direction f s heap.next).1.1 = true ∧
      e.equals policy ((e.rewrite direction renew : StateT σ Supply Node) s heap.next).1.1 = true :=
  ⟨hf.equals_rewrite hl hs he hh direction,
    respects_renew.equals_rewrite hl trivial he hh direction⟩

/-- A block of one constant that holds a point, created anew from either direction. -/
theorem equals_rewrite_pointConstant : ∃ heap : Heap, ∃ e ∈ heap,
    e.shape.children = [pointConstant 0 false] ∧ ∀ direction : Direction, e.equals .byValue
      ((e.rewrite direction renew : StateT Unit Supply Node) () heap.next).1.1 = true := by
  obtain ⟨heap, -, -, hc⟩ := exists_heap_pointConstant .empty false
  have hholds : ∀ child ∈ (Shape.block [] [pointConstant 0 false]).handles, child ∈ heap := by
    intro child hm
    have hchild : child = pointConstant 0 false := by
      simpa [Shape.handles, Shape.children] using hm
    rw [hchild]
    exact hc
  obtain ⟨heap', -, -, he⟩ := heap.exists_insert
    ⟨heap.next, .block, .void, .block [] [pointConstant 0 false]⟩ (Nat.le_refl _) hholds
  have hh : Node.hosts ⟨heap.next, .block, .void, .block [] [pointConstant 0 false]⟩ ⊆
      {x | x.2 = .point 1 2} := by
    refine hosts_subset_iff.mpr ⟨by simp [Shape.objects, Shape.payloads], fun child hc => ?_⟩
    have hchild : child = pointConstant 0 false := by
      simpa [Shape.contents, Shape.handles, Shape.children] using hc
    rw [hchild]
    exact hosts_pointConstant_subset 0 false
  refine ⟨heap', _, he, rfl, fun direction => ?_⟩
  exact (equals_rewrite_of_respects lawfulOn_point respects_renew trivial he hh direction).1

end Node

end ExprTree
