import ExprTree.Proofs.Comparison

/-!
# The normal form that a comparison decides

The erasure of a tree keeps what a comparison looks at and forgets the rest: the identities of
nodes, nested structures, labels and payloads, the names of lambdas and how they are called, how
parameters are passed, the element types of queries, and what extensions and source stretches
hold. Where constants hold no floating-point numbers and no host objects, and constants that are
compared by value hold no queries, two trees are equal exactly when they have one erasure,
whatever the policy.
-/

namespace ExprTree

variable {α β : Type}

/-! ## Erased shapes -/

/-- An option is whether something is there and what it is. -/
theorem option_eq_of_toList_eq {o o' : Option α} (h : o.toList = o'.toList) : o = o' := by
  cases o <;> cases o' <;> simp_all

mutual

/-- Identities of bindings are forgotten whatever the handles are. -/
theorem Binding.map_unstamp (f : α → β) :
    ∀ binding : Binding α, binding.unstamp.map f = (binding.map f).unstamp
  | .assignment _ _ _ => rfl
  | .list _ _ _ => by simp [unstamp, map, ElementInit.unstamp, ElementInit.map]
  | .nested _ _ bindings => by
    rw [unstamp, map, map, unstamp, Binding.mapList_unstampList f bindings]

/-- Identities in a list of bindings are forgotten whatever the handles are. -/
theorem Binding.mapList_unstampList (f : α → β) : ∀ bindings : List (Binding α),
    mapList f (unstampList bindings) = unstampList (mapList f bindings)
  | [] => rfl
  | binding :: rest => by
    rw [unstampList, mapList, mapList, unstampList, Binding.map_unstamp f binding,
      Binding.mapList_unstampList f rest]

end

namespace Shape

/-- What is forgotten apart, shapes with the same skeleton are their children and payloads. -/
theorem bare_unstamp_eq_of_skeleton_eq {shape shape' : Shape α}
    (hs : shape.skeleton = shape'.skeleton) (hc : shape.children = shape'.children)
    (hp : shape.payloads.map Value.bare = shape'.payloads.map Value.bare) :
    shape.unstamp.bare = shape'.unstamp.bare := by
  have hfam := family_eq_of_skeleton_eq hs
  induction shape, shape', hfam using cases_of_family_eq with
  | binary l c r m f l' c' r' m' f' =>
    simp only [skeleton, frame, map, unstamp, bare, hollow, binary.injEq, true_and] at hs
    obtain ⟨hl, hr⟩ := List.cons.inj hc
    obtain ⟨ho, ha⟩ := List.append_inj hr (length_toList_eq_of_map_unit_eq hs.1)
    rw [hl, option_eq_of_toList_eq ho, List.singleton_inj.mp ha, hs.2.1, hs.2.2]
  | call o m as o' m' as' =>
    simp only [skeleton, frame, map, unstamp, bare, hollow, call.injEq] at hs
    obtain ⟨ho, ha⟩ := List.append_inj hc (length_toList_eq_of_map_unit_eq hs.1)
    rw [option_eq_of_toList_eq ho, ha, hs.2.1]
  | block ls ss ls' ss' =>
    simp only [skeleton, frame, map, unstamp, bare, hollow, block.injEq] at hs
    obtain ⟨hl, hr⟩ := List.append_inj hc (by simpa using congrArg List.length hs.1)
    rw [hl, hr]
  | listInit c is c' is' =>
    simp only [skeleton, frame_listInit, bare, hollow, listInit.injEq, true_and] at hs
    obtain ⟨hl, hr⟩ := List.cons.inj hc
    rw [ElementInit.argumentsOfList_eq_flatMap, ElementInit.argumentsOfList_eq_flatMap] at hr
    have hi := (map_eq_iff_frames ElementInit.length_eq_of_frame_eq
      ElementInit.unstamp_eq_iff).mpr ⟨hs, hr⟩
    rw [unstamp, unstamp, hi, hl]
  | memberInit c bs c' bs' =>
    simp only [skeleton, frame_memberInit, bare, hollow, memberInit.injEq, true_and] at hs
    obtain ⟨hl, hr⟩ := List.cons.inj hc
    rw [unstamp, unstamp, Binding.unstampList_eq_iff.mpr ⟨hs, hr⟩, hl]
  | switch s cs o m s' cs' o' m' =>
    simp only [skeleton, frame_switch, bare, hollow, switch.injEq, true_and] at hs
    obtain ⟨hl, hr⟩ := List.cons.inj hc
    rw [SwitchCase.childrenOfList_eq_flatMap, SwitchCase.childrenOfList_eq_flatMap] at hr
    obtain ⟨hcs, ho⟩ := List.append_inj' hr (length_toList_eq_of_map_unit_eq hs.2.1)
    have hb := (map_eq_iff_frames SwitchCase.length_eq_of_frame_eq
      SwitchCase.unstamp_eq_iff).mpr ⟨hs.1, hcs⟩
    rw [unstamp, unstamp, hb, hl, option_eq_of_toList_eq ho, hs.2.2]
  | tryCatch b handlers c f b' handlers' c' f' =>
    simp only [skeleton, frame_tryCatch, bare, hollow, tryCatch.injEq, true_and] at hs
    obtain ⟨hl, hr⟩ := List.cons.inj hc
    rw [Handler.childrenOfList_eq_flatMap, Handler.childrenOfList_eq_flatMap] at hr
    obtain ⟨hr, hf⟩ := List.append_inj' hr (length_toList_eq_of_map_unit_eq hs.2.2)
    obtain ⟨hcs, ho⟩ := List.append_inj' hr (length_toList_eq_of_map_unit_eq hs.2.1)
    have hb := (map_eq_iff_frames Handler.length_eq_of_frame_eq
      Handler.unstamp_eq_iff).mpr ⟨hs.1, hcs⟩
    rw [unstamp, unstamp, hb, hl, option_eq_of_toList_eq ho, option_eq_of_toList_eq hf]
  | unary | memberAccess | goto | label =>
    have ho := option_eq_of_toList_eq hc
    simp_all [unstamp, bare, skeleton, frame, hollow, map]
  | _ => simp_all [unstamp, bare, skeleton, frame, hollow, map, children, payloads]

/-- The skeleton can be read off what is left of the shape. -/
theorem skeleton_eq_hollow_map (shape : Shape α) :
    shape.skeleton = (shape.unstamp.bare.map fun _ => ()).hollow := by
  cases shape with
  | memberInit creation bindings =>
    simp [skeleton, frame, map, unstamp, bare, hollow, Binding.mapList_unstampList]
  | extension stamp custom => rfl
  | _ =>
    simp [skeleton, frame, map, unstamp, bare, hollow, ElementInit.map, ElementInit.unstamp,
      SwitchCase.map, SwitchCase.unstamp, Handler.map, Handler.unstamp]

/-- What is left of the shape has its children. -/
theorem children_bare_unstamp (shape : Shape α) : shape.unstamp.bare.children = shape.children := by
  cases shape with
  | listInit creation inits =>
    simp [unstamp, bare, children, Binding.argumentsOfList_map_unstamp]
  | memberInit creation bindings =>
    simp [unstamp, bare, children, Binding.childrenOfList_unstampList]
  | switch subject branches otherwise comparison =>
    simp only [unstamp, bare, children, SwitchCase.childrenOfList_eq_flatMap, List.flatMap_map]
    rfl
  | tryCatch body handlers cleanup fault =>
    simp only [unstamp, bare, children, Handler.childrenOfList_eq_flatMap, List.flatMap_map]
    rfl
  | _ => simp [unstamp, bare, children]

/-- What is left of the shape has what is left of its payloads. -/
theorem payloads_bare_unstamp (shape : Shape α) :
    shape.unstamp.bare.payloads = shape.payloads.map Value.bare := by
  cases shape <;> rfl

/-- What is forgotten apart, a shape is its skeleton, its children and its payloads. -/
theorem bare_unstamp_eq_iff {shape shape' : Shape α} :
    shape.unstamp.bare = shape'.unstamp.bare ↔
      shape.skeleton = shape'.skeleton ∧ shape.children = shape'.children ∧
        shape.payloads.map Value.bare = shape'.payloads.map Value.bare := by
  constructor
  · intro h
    rw [skeleton_eq_hollow_map, skeleton_eq_hollow_map, ← children_bare_unstamp shape,
      ← children_bare_unstamp shape', ← payloads_bare_unstamp, ← payloads_bare_unstamp, h]
    exact ⟨rfl, rfl, rfl⟩
  · rintro ⟨hs, hc, hp⟩
    exact bare_unstamp_eq_of_skeleton_eq hs hc hp

end Shape

/-! ## Plain payloads -/

namespace Scalar

/-- The scalar is no floating-point number. -/
def isExact : Scalar → Bool
  | .f32 _ | .f64 _ => false
  | _ => true

/-- Exact scalars stand for themselves. -/
theorem representative?_of_isExact {a : Scalar} (h : a.isExact = true) :
    a.representative? = some a := by
  cases a <;> first | rfl | simp [isExact] at h

/-- Exact scalars are equal only to themselves. -/
theorem equal_iff_eq {a b : Scalar} (ha : a.isExact = true) (hb : b.isExact = true) :
    a.equal b = true ↔ a = b := by
  rw [equal_iff, representative?_of_isExact ha, representative?_of_isExact hb]
  simp [eq_comm]

end Scalar

namespace Value

mutual

/-- The payload holds no floating-point number and no host object, alone or in a sequence. -/
def isPlain : Value α → Bool
  | .scalar s => s.isExact
  | .text _ _ | .query _ _ => true
  | .sequence _ items => isPlainList items
  | .object _ _ => false

/-- The payloads of a list hold no floating-point numbers and no host objects. -/
def isPlainList : List (Value α) → Bool
  | [] => true
  | value :: rest => value.isPlain && isPlainList rest

end

variable {policy : ConstantPolicy} {R : α → α → Prop} {f : α → β}

mutual

/-- Plain payloads agree exactly when the same is left of them, if that is so of the roots of their
queries. -/
theorem agree_iff_bare_eq : ∀ {v w : Value α}, v.isPlain = true → w.isPlain = true →
    (∀ x ∈ v.roots, ∀ y ∈ w.roots, (R x y ↔ f x = f y)) →
    (v.Agree policy R w ↔ (v.map f).bare = (w.map f).bare)
  | .scalar a, w, hv, hw, _ => by
    cases w with
    | scalar b => simpa [Agree, map, bare] using Scalar.equal_iff_eq hv hw
    | _ => simp [Agree, map, bare]
  | .text _ _, w, _, _, _ => by cases w <;> simp [Agree, map, bare]
  | .query x _, w, _, _, hr => by
    cases w with
    | query y _ => simpa [Agree, map, bare] using hr x (by simp [roots]) y (by simp [roots])
    | _ => simp [Agree, map, bare]
  | .sequence _ as, w, hv, hw, hr => by
    cases w with
    | sequence _ bs => simpa [Agree, map, bare] using agreeList_iff_bareList_eq hv hw hr
    | _ => simp [Agree, map, bare]

/-- Lists of plain payloads agree exactly when the same is left of them, if that is so of the roots
of their queries. -/
theorem agreeList_iff_bareList_eq : ∀ {vs ws : List (Value α)}, isPlainList vs = true →
    isPlainList ws = true →
    (∀ x ∈ rootsOfList vs, ∀ y ∈ rootsOfList ws, (R x y ↔ f x = f y)) →
    (AgreeList policy R vs ws ↔ bareList (mapList f vs) = bareList (mapList f ws))
  | [], ws, _, _, _ => by cases ws <;> simp [AgreeList, mapList, bareList]
  | v :: vs, ws, hv, hw, hr => by
    cases ws with
    | nil => simp [AgreeList, mapList, bareList]
    | cons w ws =>
      simp only [isPlainList, Bool.and_eq_true] at hv hw
      simp only [rootsOfList, List.mem_append] at hr
      simp only [AgreeList, mapList, bareList, List.cons.injEq]
      rw [agree_iff_bare_eq hv.1 hw.1 fun x hx y hy => hr x (.inl hx) y (.inl hy),
        agreeList_iff_bareList_eq hv.2 hw.2 fun x hx y hy => hr x (.inr hx) y (.inr hy)]

end

end Value

/-! ## Erased trees -/

/-- Related lists are lists of which a function gives the same, if that is so of their items. -/
theorem forall₂_iff_map_eq {γ : Type} {R : α → α → Prop} {f : α → γ} {as bs : List α}
    (h : ∀ x ∈ as, ∀ y ∈ bs, (R x y ↔ f x = f y)) :
    List.Forall₂ R as bs ↔ as.map f = bs.map f := by
  rw [← List.forall₂_eq_eq_eq, List.forall₂_map_left_iff, List.forall₂_map_right_iff]
  constructor
  · intro hr
    exact forall₂_imp_of_mem hr fun x hx y hy => (h x hx y hy).mp
  · intro he
    exact forall₂_imp_of_mem he fun x hx y hy => (h x hx y hy).mpr

namespace Node

/-- The tree without what a comparison does not look at. -/
def erase (node : Node) : Node :=
  ⟨0, node.kind, node.type, (node.shape.attach.map fun ⟨child, _⟩ => child.erase).unstamp.bare⟩
termination_by sizeOf node
decreasing_by exact sizeOf_lt_of_mem_handles (by assumption)

/-- A tree is erased by erasing what its root holds. -/
theorem erase_eq (node : Node) :
    node.erase = ⟨0, node.kind, node.type, (node.shape.map erase).unstamp.bare⟩ := by
  have hshape : (node.shape.attach.map fun ⟨child, _⟩ => child.erase) = node.shape.map erase := by
    conv_rhs => rw [← Shape.map_attach node.shape, Shape.map_map]
    rfl
  rw [erase, hshape]

/-- In the tree, also in the trees of its queries, payloads are plain, and constants that are always
compared by value hold no queries. Nothing is asked of what extensions hold. -/
def IsPlain (node : Node) : Prop :=
  ∀ inner, node.Reaches Shape.contents inner → ∀ value ∈ inner.shape.payloads,
    value.isPlain = true ∧ (inner.type.isDirectlyComparable = true → value.roots = [])

variable {a b : Node}

/-- A tree is plain when its root is and what it holds in plain sight is. -/
theorem isPlain_iff : a.IsPlain ↔
    (∀ value ∈ a.shape.payloads,
      value.isPlain = true ∧ (a.type.isDirectlyComparable = true → value.roots = [])) ∧
      ∀ child ∈ a.shape.contents, child.IsPlain :=
  forall_reaches_iff

/-- Erasures are equal when the roots are alike and the shapes agree up to the erasure of parts. -/
theorem erase_eq_iff : a.erase = b.erase ↔
    a.kind = b.kind ∧ a.type = b.type ∧ a.shape.skeleton = b.shape.skeleton ∧
      a.shape.children.map erase = b.shape.children.map erase ∧
      a.shape.payloads.map (fun v => (v.map erase).bare) =
        b.shape.payloads.map (fun v => (v.map erase).bare) := by
  rw [erase_eq, erase_eq, mk.injEq, Shape.bare_unstamp_eq_iff, Shape.skeleton_map,
    Shape.skeleton_map, Shape.children_map, Shape.children_map, Shape.payloads_map,
    Shape.payloads_map, List.map_map, List.map_map]
  simp [Function.comp_def]

/-- Payloads of plain trees agree exactly when they have the same erasure, if that is so of the
roots of their queries. -/
theorem agreeAt_iff_bare_eq {policy : ConstantPolicy} {v w : Value Node} {type : Ty}
    {R : Node → Node → Prop}
    (hv : v.isPlain = true ∧ (type.isDirectlyComparable = true → v.roots = []))
    (hw : w.isPlain = true ∧ (type.isDirectlyComparable = true → w.roots = []))
    (hr : ∀ x ∈ v.roots, ∀ y ∈ w.roots, (R x y ↔ x.erase = y.erase)) :
    v.AgreeAt type policy R w ↔ (v.map erase).bare = (w.map erase).bare := by
  unfold Value.AgreeAt
  split_ifs with hd
  · exact Value.agree_iff_bare_eq hv.1 hw.1 (by simp [hv.2 hd])
  · exact Value.agree_iff_bare_eq hv.1 hw.1 hr

/-- Shapes of plain trees agree exactly when they have the same erasure, if that is so of what they
hold. -/
theorem agree_iff_erase_eq {policy : ConstantPolicy} {R : Node → Node → Prop} (pa : a.IsPlain)
    (pb : b.IsPlain) (ht : a.type = b.type)
    (hr : ∀ x ∈ a.shape.contents, ∀ y ∈ b.shape.contents, (R x y ↔ x.erase = y.erase)) :
    Shape.Agree a.type policy R a.shape b.shape ↔
      a.shape.skeleton = b.shape.skeleton ∧
        a.shape.children.map erase = b.shape.children.map erase ∧
        a.shape.payloads.map (fun v => (v.map erase).bare) =
          b.shape.payloads.map (fun v => (v.map erase).bare) := by
  have hchildren : List.Forall₂ R a.shape.children b.shape.children ↔
      a.shape.children.map erase = b.shape.children.map erase := by
    refine forall₂_iff_map_eq fun x hx y hy => ?_
    exact hr x (Shape.mem_contents_of_mem_children hx) y (Shape.mem_contents_of_mem_children hy)
  have hpayloads : List.Forall₂ (Value.AgreeAt a.type policy R) a.shape.payloads b.shape.payloads ↔
      a.shape.payloads.map (fun v => (v.map erase).bare) =
        b.shape.payloads.map (fun v => (v.map erase).bare) := by
    refine forall₂_iff_map_eq fun v hv w hw => ?_
    have hw' := (isPlain_iff.mp pb).1 w hw
    rw [← ht] at hw'
    refine agreeAt_iff_bare_eq ((isPlain_iff.mp pa).1 v hv) hw' fun x hx y hy => ?_
    exact hr x (Shape.mem_contents_of_mem_roots hv hx) y (Shape.mem_contents_of_mem_roots hw hy)
  rw [← hchildren, ← hpayloads]
  exact ⟨fun h => ⟨h.skeleton, h.children, h.payloads⟩, fun ⟨hs, hc, hp⟩ => ⟨hs, hc, hp⟩⟩

/-- Two plain trees of one heap are equal, under either policy, exactly when they have the same
erasure. -/
theorem equals_iff_erase_eq {heap : Heap} {a b : Node} (ha : a ∈ heap) (hb : b ∈ heap)
    (pa : a.IsPlain) (pb : b.IsPlain) (policy : ConstantPolicy) :
    a.equals policy b = true ↔ a.erase = b.erase := by
  have ih : ∀ x ∈ a.shape.contents, ∀ y ∈ b.shape.contents,
      (x.equals policy y = true ↔ x.erase = y.erase) := by
    intro x hx y hy
    have hx' : x ∈ heap := Heap.mem_of_mem_handles ha (Shape.mem_handles_of_mem_contents hx)
    have hy' : y ∈ heap := Heap.mem_of_mem_handles hb (Shape.mem_handles_of_mem_contents hy)
    exact equals_iff_erase_eq hx' hy' ((isPlain_iff.mp pa).2 x hx) ((isPlain_iff.mp pb).2 y hy)
      policy
  rw [equals_iff ha b, erase_eq_iff]
  constructor
  · rintro (hsame | ⟨hk, ht, hagree⟩)
    · rw [Heap.eq_of_same ha hb hsame]
      exact ⟨rfl, rfl, rfl, rfl, rfl⟩
    · exact ⟨hk, ht, (agree_iff_erase_eq pa pb ht ih).mp hagree⟩
  · rintro ⟨hk, ht, hrest⟩
    exact .inr ⟨hk, ht, (agree_iff_erase_eq pa pb ht ih).mpr hrest⟩
termination_by sizeOf a
decreasing_by exact sizeOf_lt_of_mem_handles (Shape.mem_handles_of_mem_contents hx)

/-- A parameter. -/
def sampleParameter (stamp : Stamp) (byRef : Bool) : Node :=
  ⟨stamp, .parameter, .primitive .i32, .parameter (some "x") byRef⟩

/-- A constant with a query of the parameter in a sequence. -/
def sampleConstant (first : Stamp) (byRef : Bool) : Node :=
  ⟨first + 3, .constant, .array .void 1,
    .constant (.sequence (first + 1)
      [.text (first + 2) "key", .query (sampleParameter first byRef) .void])⟩

/-- A lambda over a parameter and a constant that holds a query of it, at `first` and after. -/
def sampleLambda (first : Stamp) (name : Option String) (byRef : Bool) : Node :=
  ⟨first + 4, .lambda, .void,
    .lambda (sampleConstant first byRef) [sampleParameter first byRef] name byRef⟩

/-- The sample can be created in every heap. -/
theorem exists_heap_sampleLambda (heap : Heap) (name : Option String) (byRef : Bool) :
    ∃ heap' ≥ heap, heap'.next = heap.next + 5 ∧ sampleLambda heap.next name byRef ∈ heap' := by
  obtain ⟨heap₁, hle₁, hnext₁, hp⟩ := heap.exists_insert (sampleParameter heap.next byRef)
    (Nat.le_refl _) (by simp [sampleParameter, Shape.handles, Shape.children])
  obtain ⟨heap₂, hle₂, hnext₂, hc⟩ := heap₁.exists_insert (sampleConstant heap.next byRef)
    (by simp [hnext₁, sampleParameter, sampleConstant])
    (by simp [sampleConstant, Shape.handles, Value.roots, Value.rootsOfList, hp])
  obtain ⟨heap₃, hle₃, hnext₃, hl⟩ := heap₂.exists_insert (sampleLambda heap.next name byRef)
    (by simp [hnext₂, sampleConstant, sampleLambda])
    (by simp [sampleLambda, Shape.handles, Shape.children, hc, Heap.mem_of_le hle₂ hp])
  exact ⟨heap₃, le_trans hle₁ (le_trans hle₂ hle₃), hnext₃, hl⟩

/-- The sample is plain. -/
theorem isPlain_sampleLambda (first : Stamp) (name : Option String) (byRef : Bool) :
    (sampleLambda first name byRef).IsPlain := by
  have hp : (sampleParameter first byRef).IsPlain := isPlain_iff.mpr (by
    simp [sampleParameter, Shape.payloads, Shape.contents, Shape.handles, Shape.children])
  have hc : (sampleConstant first byRef).IsPlain := isPlain_iff.mpr (by
    simp [sampleConstant, Shape.payloads, Shape.contents, Shape.handles, Value.roots,
      Value.rootsOfList, Value.isPlain, Value.isPlainList, Ty.isDirectlyComparable, hp])
  exact isPlain_iff.mpr (by
    simp [sampleLambda, Shape.payloads, Shape.contents, Shape.handles, Shape.children, hp, hc])

/-- The names of lambdas, the passing of parameters and all identities may differ. -/
theorem equals_sampleLambda_of_erase_eq : ∃ heap : Heap,
    sampleLambda 0 (some "f") false ∈ heap ∧ sampleLambda 5 none true ∈ heap ∧
      (sampleLambda 0 (some "f") false).equals .byReference (sampleLambda 5 none true) = true := by
  obtain ⟨heap, -, hnext, ha⟩ := exists_heap_sampleLambda .empty (some "f") false
  obtain ⟨heap', hle, -, hb⟩ := exists_heap_sampleLambda heap none true
  rw [hnext] at hb
  have ha' := Heap.mem_of_le hle ha
  refine ⟨heap', ha', hb, (equals_iff_erase_eq ha' hb (isPlain_sampleLambda _ _ _)
    (isPlain_sampleLambda _ _ _) .byReference).mpr ?_⟩
  simp [erase_eq, sampleLambda, sampleConstant, sampleParameter, Shape.map, Shape.unstamp,
    Shape.bare, Value.map, Value.mapList, Value.bare, Value.bareList]

end Node

end ExprTree
