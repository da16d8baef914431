import ExprTree.Proofs.NormalForm
import ExprTree.Text.Render

/-!
# Equal trees are written alike

A shape is written from its kind, its type and the texts of its handles, and a comparison looks at
all of this: what it passes over is not written, unless it is inside of an extension, a source
stretch or a payload. So the text of a shape can be read off what is left of it in the normal form
of comparisons, with texts in the place of handles.

Payloads that a comparison takes for equal need not have the same text. Zeros of either sign are
equal as numbers, a query shows an element type that is not compared, and host objects have an
equality of their own. Where payloads hold none of these, and where there are no extensions and no
source stretches, equal trees are written alike.
-/

namespace ExprTree

variable {α β : Type}

/-! ## Texts over other handles -/

/-- An initializer over other handles is written with the texts of these. -/
@[simp] theorem ElementInit.render_map (text : β → String) (f : α → β) (init : ElementInit α) :
    (init.map f).render text = init.render (text ∘ f) := by
  rw [render, render, map, List.map_map]

mutual

/-- A binding over other handles is written with the texts of these. -/
theorem Binding.render_map (text : β → String) (f : α → β) :
    ∀ binding : Binding α, (binding.map f).render text = binding.render (text ∘ f)
  | .assignment _ _ _ => by simp [map, render]
  | .list _ _ _ => by simp [map, render, Function.comp_def]
  | .nested _ _ bindings => by simp [map, render, Binding.renderList_mapList text f bindings]

/-- Bindings over other handles are written with the texts of these. -/
theorem Binding.renderList_mapList (text : β → String) (f : α → β) :
    ∀ bindings : List (Binding α),
      renderList text (mapList f bindings) = renderList (text ∘ f) bindings
  | [] => by simp [mapList, renderList]
  | binding :: rest => by
    simp [mapList, renderList, Binding.render_map text f binding,
      Binding.renderList_mapList text f rest]

end

/-- A case over other handles is written with the texts of these. -/
@[simp] theorem SwitchCase.render_map (text : β → String) (f : α → β) (branch : SwitchCase α) :
    (branch.map f).render text = branch.render (text ∘ f) := by
  simp [render, map]

/-- A handler over other handles is written with the text of its body. -/
@[simp] theorem Handler.render_map (text : β → String) (f : α → β) (handler : Handler α) :
    (handler.map f).render text = handler.render (text ∘ f) := rfl

mutual

/-- The text of a payload does not depend on the roots of queries. -/
theorem Value.toText_map (f : α → β) : ∀ value : Value α, (value.map f).toText = value.toText
  | .scalar _ | .text _ _ | .query _ _ | .object _ _ => by simp [map, toText]
  | .sequence _ items => by simp [map, toText, Value.textsOfList_mapList f items]

/-- The texts of payloads do not depend on the roots of queries. -/
theorem Value.textsOfList_mapList (f : α → β) :
    ∀ values : List (Value α), textsOfList (mapList f values) = textsOfList values
  | [] => rfl
  | value :: rest => by
    rw [mapList, textsOfList, textsOfList, Value.toText_map f value,
      Value.textsOfList_mapList f rest]

end

/-- A shape over other handles is written with what these are written and shown as. -/
theorem Shape.render_map {kind : Kind} {type : Ty} (text debug : β → String) (f : α → β)
    (shape : Shape α) :
    (shape.map f).render kind type text debug =
      shape.render kind type (text ∘ f) (debug ∘ f) := by
  cases shape with
  | unary operand method => cases operand <;> rfl
  | call object method arguments => cases object <;> simp [map, render]
  | lambda body parameters name tailCall =>
    rcases parameters with _ | ⟨first, _ | ⟨second, rest⟩⟩ <;> simp [map, render]
  | memberAccess object member => cases object <;> rfl
  | block locals statements => cases locals <;> simp [map, render, Function.comp_def]
  | goto jump target value => cases value <;> rfl
  | switch subject branches otherwise comparison =>
    cases otherwise <;> simp [map, render, Function.comp_def]
  | tryCatch body handlers cleanup fault =>
    cases cleanup <;> cases fault <;> simp [map, render, Function.comp_def]
  | extension stamp custom => cases custom <;> rfl
  | constant value => exact Value.toText_map f value
  | _ => simp [map, render, Function.comp_def, Binding.renderList_mapList]

/-- A node is written from the texts of what it holds. -/
theorem Node.text_eq (node : Node) :
    node.text = node.shape.render node.kind node.type Node.text Node.debugText := by
  conv_rhs => rw [← Shape.map_attach node.shape, Shape.render_map]
  rw [text]
  rfl

/-! ## Texts of normal forms -/

mutual

/-- Identities of bindings are not written. -/
theorem Binding.render_unstamp (text : α → String) :
    ∀ binding : Binding α, binding.unstamp.render text = binding.render text
  | .assignment _ _ _ => by simp [unstamp, render]
  | .list _ _ initializers => by
    rw [unstamp, render, render, List.map_map]
    rfl
  | .nested _ _ bindings => by simp [unstamp, render, Binding.renderList_unstampList text bindings]

/-- Identities in a list of bindings are not written. -/
theorem Binding.renderList_unstampList (text : α → String) :
    ∀ bindings : List (Binding α), renderList text (unstampList bindings) = renderList text bindings
  | [] => by simp [unstampList]
  | binding :: rest => by
    simp [unstampList, renderList, Binding.render_unstamp text binding,
      Binding.renderList_unstampList text rest]

end

namespace Shape

variable {kind : Kind} {type : Ty} {text debug : α → String}

/-- What a comparison does not look at is not written, and neither is how the handles are shown,
extensions, source stretches and payloads apart. -/
theorem render_bare_unstamp {shape : Shape α} (he : shape.family ≠ .extension)
    (hd : shape.family ≠ .debugInfo) (hc : shape.family ≠ .constant) (debug' : α → String) :
    shape.unstamp.bare.render kind type text debug' = shape.render kind type text debug := by
  cases shape with
  | extension => exact absurd rfl he
  | debugInfo => exact absurd rfl hd
  | constant => exact absurd rfl hc
  | unary operand method => cases operand <;> rfl
  | memberInit creation bindings =>
    simp only [unstamp, bare, render, Binding.renderList_unstampList]
  | listInit | switch | tryCatch =>
    -- what is nested is written without its identity anyway
    simp only [unstamp, bare, render, List.map_map]
    rfl
  | _ => rfl

/-- A shape of the family of constants holds a payload. -/
theorem exists_eq_constant {shape : Shape α} (h : shape.family = .constant) :
    ∃ value, shape = .constant value := by
  cases shape <;> first | exact ⟨_, rfl⟩ | cases h

/-- A shape of another family than that of constants holds no payload. -/
theorem payloads_eq_nil_of_family_ne {shape : Shape α} (h : shape.family ≠ .constant) :
    shape.payloads = [] := by
  cases shape <;> first | rfl | exact absurd rfl h

/-- The text of a shape can be read off its normal form over the texts of its handles. -/
theorem render_eq_bare {shape : Shape α} (he : shape.family ≠ .extension)
    (hd : shape.family ≠ .debugInfo) (hc : shape.family ≠ .constant) :
    shape.render kind type text debug =
      (shape.map text).unstamp.bare.render kind type id fun _ => "" := by
  have hfam : shape.family = (shape.map text).family :=
    family_eq_of_skeleton_eq (skeleton_map text shape).symm
  -- outside of extensions it does not matter how the handles are shown
  calc shape.render kind type text debug
      = shape.unstamp.bare.render kind type text fun _ => "" :=
        (render_bare_unstamp he hd hc _).symm
    _ = shape.render kind type text fun _ => "" := render_bare_unstamp he hd hc _
    _ = (shape.map text).render kind type id fun _ => "" :=
        (render_map id (fun _ => "") text shape).symm
    _ = (shape.map text).unstamp.bare.render kind type id fun _ => "" :=
        (render_bare_unstamp (hfam ▸ he) (hfam ▸ hd) (hfam ▸ hc) _).symm

/-- Shapes with the same skeleton are written alike when their children and their payloads are,
extensions and source stretches apart. -/
theorem render_eq_of_skeleton_eq {shape shape' : Shape α} (he : shape.family ≠ .extension)
    (hd : shape.family ≠ .debugInfo) (hs : shape.skeleton = shape'.skeleton)
    (hc : shape.children.map text = shape'.children.map text)
    (hp : shape.payloads.map Value.toText = shape'.payloads.map Value.toText) :
    shape.render kind type text debug = shape'.render kind type text debug := by
  have hfam : shape.family = shape'.family := family_eq_of_skeleton_eq hs
  by_cases hconstant : shape.family = .constant
  · obtain ⟨value, rfl⟩ := exists_eq_constant hconstant
    obtain ⟨value', rfl⟩ := exists_eq_constant (hfam ▸ hconstant)
    simpa [payloads, render] using hp
  · -- over the texts of the handles, the normal forms of the shapes are the same
    have hbare : (shape.map text).unstamp.bare = (shape'.map text).unstamp.bare := by
      refine bare_unstamp_eq_of_skeleton_eq ?_ ?_ ?_
      · rw [skeleton_map, skeleton_map, hs]
      · rw [children_map, children_map, hc]
      · rw [payloads_map, payloads_map, payloads_eq_nil_of_family_ne hconstant,
          payloads_eq_nil_of_family_ne (hfam ▸ hconstant)]
    rw [render_eq_bare he hd hconstant, hbare]
    exact (render_eq_bare (hfam ▸ he) (hfam ▸ hd) (hfam ▸ hconstant)).symm

end Shape

/-! ## Texts of payloads -/

/-- An exact scalar is equal only to itself. -/
theorem Scalar.eq_of_equal {a b : Scalar} (ha : a.isExact = true) (h : a.equal b = true) :
    a = b := by
  obtain ⟨r, hr, hb⟩ := equal_iff.mp h
  rw [representative?_of_isExact ha, Option.some.injEq] at hr
  subst hr
  cases b with
  | f32 | f64 =>
    obtain ⟨x, -, rfl⟩ := Option.map_eq_some_iff.mp hb
    cases ha
  | _ => exact (Option.some.inj hb).symm

namespace Value

variable {policy : ConstantPolicy} {R : α → β → Prop}

mutual

/-- A plain payload without queries is written like every payload that agrees with it. -/
theorem Agree.toText_eq : ∀ {v : Value α} {w : Value β}, v.isPlain = true → v.roots = [] →
    v.Agree policy R w → v.toText = w.toText
  | .scalar a, .scalar b, hplain, _, h => by rw [toText, toText, Scalar.eq_of_equal hplain h]
  | .text _ a, .text _ b, _, _, h => by
    have hab : a = b := h
    rw [toText, toText, hab]
  | .sequence _ as, .sequence _ bs, hplain, hroots, h => by
    rw [toText, toText, AgreeList.textsOfList_eq hplain hroots h]

/-- Plain payloads without queries are written like all payloads that agree with them. -/
theorem AgreeList.textsOfList_eq : ∀ {vs : List (Value α)} {ws : List (Value β)},
    isPlainList vs = true → rootsOfList vs = [] → AgreeList policy R vs ws →
    textsOfList vs = textsOfList ws
  | [], [], _, _, _ => rfl
  | v :: vs, w :: ws, hplain, hroots, h => by
    simp only [isPlainList, Bool.and_eq_true] at hplain
    simp only [rootsOfList, List.append_eq_nil_iff] at hroots
    rw [textsOfList, textsOfList, Agree.toText_eq hplain.1 hroots.1 h.1,
      AgreeList.textsOfList_eq hplain.2 hroots.2 h.2]

end

end Value

/-! ## Texts of trees -/

namespace Node

/-- In the tree there are no extensions and no source stretches, and payloads hold no
floating-point numbers, no host objects and no queries. -/
def IsLegible (node : Node) : Prop :=
  ∀ inner, node.Reaches Shape.children inner →
    inner.shape.family ≠ .extension ∧ inner.shape.family ≠ .debugInfo ∧
      ∀ value ∈ inner.shape.payloads, value.isPlain = true ∧ value.roots = []

/-- A tree is legible when its root is and its children are. -/
theorem isLegible_iff {node : Node} : node.IsLegible ↔
    (node.shape.family ≠ .extension ∧ node.shape.family ≠ .debugInfo ∧
      ∀ value ∈ node.shape.payloads, value.isPlain = true ∧ value.roots = []) ∧
      ∀ child ∈ node.shape.children, child.IsLegible :=
  forall_reaches_iff

/-- Payloads that agree with those of a legible node are written like them. -/
theorem map_toText_eq_of_agree {policy : ConstantPolicy} {type : Ty} {R : Node → Node → Prop}
    {shape shape' : Shape Node}
    (hlegible : ∀ value ∈ shape.payloads, value.isPlain = true ∧ value.roots = [])
    (h : Shape.Agree type policy R shape shape') :
    shape.payloads.map Value.toText = shape'.payloads.map Value.toText := by
  rw [← List.forall₂_eq_eq_eq, List.forall₂_map_left_iff, List.forall₂_map_right_iff]
  refine forall₂_imp_of_mem h.payloads fun v hv w _ hagree => ?_
  obtain ⟨hplain, hroots⟩ := hlegible v hv
  unfold Value.AgreeAt at hagree
  split_ifs at hagree
  · exact hagree.toText_eq hplain hroots
  · exact hagree.toText_eq hplain hroots

/-- Under either policy, a legible tree is written like every tree that is equal to it. -/
theorem equal_trees_written_alike {heap : Heap} {a b : Node} (ha : a ∈ heap) (hb : b ∈ heap)
    (hlegible : a.IsLegible) {policy : ConstantPolicy} (h : a.equals policy b = true) :
    a.text = b.text := by
  obtain ⟨⟨he, hd, hpayloads⟩, hchildren⟩ := isLegible_iff.mp hlegible
  rcases (equals_iff ha b).mp h with hsame | ⟨hkind, htype, hagree⟩
  · rw [Heap.eq_of_same ha hb hsame]
  · have htexts : a.shape.children.map text = b.shape.children.map text := by
      rw [← List.forall₂_eq_eq_eq, List.forall₂_map_left_iff, List.forall₂_map_right_iff]
      refine forall₂_imp_of_mem hagree.children fun x hx y hy hxy => ?_
      exact equal_trees_written_alike (Heap.mem_of_mem_children ha hx)
        (Heap.mem_of_mem_children hb hy) (hchildren x hx) hxy
    rw [text_eq, text_eq, hkind, htype]
    exact Shape.render_eq_of_skeleton_eq he hd hagree.skeleton htexts
      (map_toText_eq_of_agree hpayloads hagree)
termination_by sizeOf a
decreasing_by exact sizeOf_lt_of_mem_handles (Shape.mem_handles_of_mem_children hx)

/-- A constant with a sequence of a string and a number. -/
def sampleReturned (first : Stamp) : Node :=
  ⟨first + 3, .constant, .array .object 1,
    .constant (.sequence (first + 1) [.text (first + 2) "key", .scalar (.i32 7)])⟩

/-- A jump with the sequence to a label. -/
def sampleJump (first : Stamp) : Node :=
  ⟨first + 5, .goto, .void,
    .goto .returning ⟨first + 4, .void, some "end"⟩ (some (sampleReturned first))⟩

/-- A lambda that returns the sequence, all of it at `first` and after. -/
def sampleReturn (first : Stamp) (name : Option String) (byRef : Bool) : Node :=
  ⟨first + 6, .lambda, .void,
    .lambda (sampleJump first) [sampleParameter first byRef] name byRef⟩

/-- The sample can be created in every heap. -/
theorem exists_heap_sampleReturn (heap : Heap) (name : Option String) (byRef : Bool) :
    ∃ heap' ≥ heap, heap'.next = heap.next + 7 ∧ sampleReturn heap.next name byRef ∈ heap' := by
  obtain ⟨heap₁, hle₁, hnext₁, hp⟩ := heap.exists_insert (sampleParameter heap.next byRef)
    (Nat.le_refl _) (by simp [sampleParameter, Shape.handles, Shape.children])
  obtain ⟨heap₂, hle₂, hnext₂, hs⟩ := heap₁.exists_insert (sampleReturned heap.next)
    (by simp [hnext₁, sampleParameter, sampleReturned])
    (by simp [sampleReturned, Shape.handles, Value.roots, Value.rootsOfList])
  obtain ⟨heap₃, hle₃, hnext₃, hj⟩ := heap₂.exists_insert (sampleJump heap.next)
    (by simp [hnext₂, sampleReturned, sampleJump])
    (by simp [sampleJump, Shape.handles, Shape.children, hs])
  obtain ⟨heap₄, hle₄, hnext₄, hl⟩ := heap₃.exists_insert (sampleReturn heap.next name byRef)
    (by simp [hnext₃, sampleJump, sampleReturn])
    (by simp [sampleReturn, Shape.handles, Shape.children, hj,
      Heap.mem_of_le hle₃ (Heap.mem_of_le hle₂ hp)])
  exact ⟨heap₄, le_trans hle₁ (le_trans hle₂ (le_trans hle₃ hle₄)), hnext₄, hl⟩

/-- The sample is legible. -/
theorem isLegible_sampleReturn (first : Stamp) (name : Option String) (byRef : Bool) :
    (sampleReturn first name byRef).IsLegible := by
  have hp : (sampleParameter first byRef).IsLegible := isLegible_iff.mpr (by
    simp [sampleParameter, Shape.family, Shape.payloads, Shape.children])
  have hs : (sampleReturned first).IsLegible := isLegible_iff.mpr (by
    simp [sampleReturned, Shape.family, Shape.payloads, Shape.children, Value.isPlain,
      Value.isPlainList, Scalar.isExact, Value.roots, Value.rootsOfList])
  have hj : (sampleJump first).IsLegible := isLegible_iff.mpr (by
    simp [sampleJump, Shape.family, Shape.payloads, Shape.children, hs])
  exact isLegible_iff.mpr (by
    simp [sampleReturn, Shape.family, Shape.payloads, Shape.children, hp, hj])

/-- Lambdas of other names, by other ways of passing parameters and with jumps to other labels of
the same name are written alike. -/
theorem sampleReturn_written_alike : ∃ heap : Heap,
    sampleReturn 0 (some "f") false ∈ heap ∧ sampleReturn 7 none true ∈ heap ∧
      (sampleReturn 0 (some "f") false).equals .byReference (sampleReturn 7 none true) = true ∧
      (sampleReturn 0 (some "f") false).text = (sampleReturn 7 none true).text := by
  obtain ⟨heap, -, hnext, ha⟩ := exists_heap_sampleReturn .empty (some "f") false
  obtain ⟨heap', hle, -, hb⟩ := exists_heap_sampleReturn heap none true
  rw [hnext] at hb
  have ha' := Heap.mem_of_le hle ha
  have hequal : (sampleReturn 0 (some "f") false).equals .byReference
      (sampleReturn 7 none true) = true := by decide +kernel
  exact ⟨heap', ha', hb, hequal,
    equal_trees_written_alike ha' hb (isLegible_sampleReturn _ _ _) hequal⟩

end Node

end ExprTree
