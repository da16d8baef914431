import ExprTree.Shape.Map
import Mathlib.Data.List.Forall2

/-!
# Skeletons of shapes

A shape is a frame with handles in it. The frame says everything about the shape but which handles
it holds and at which stamps its nested structures stand; the skeleton says of the frame what a
comparison of trees looks at, without the payload of a constant. So two shapes can be related by
three facts that do not depend on the family: the skeletons are equal, the children are related
place by place, and the payloads are related. Here these facts are put together from those about
nested structures.
-/

namespace ExprTree

variable {α β γ : Type}

/-! ## Lists of related items -/

/-- Related concatenations of lists of the same lengths are related piece by piece. -/
theorem forall₂_append_iff {R : α → β → Prop} {as cs : List α} {bs ds : List β}
    (h : as.length = bs.length) :
    List.Forall₂ R (as ++ cs) (bs ++ ds) ↔ List.Forall₂ R as bs ∧ List.Forall₂ R cs ds := by
  induction as generalizing bs with
  | nil =>
    cases bs with
    | nil => simp
    | cons b bs => simp at h
  | cons a as ih =>
    cases bs with
    | nil => simp at h
    | cons b bs =>
      have hlen : as.length = bs.length := by simpa using h
      simp [ih hlen, and_assoc]

/-- Structures with equal frames and related parts, collected over lists of structures. -/
theorem forall₂_frames_iff {ι κ φ : Type} {frame : ι → φ} {frame' : κ → φ} {parts : ι → List α}
    {parts' : κ → List β} {R : α → β → Prop}
    (hlen : ∀ i k, frame i = frame' k → (parts i).length = (parts' k).length) {is : List ι}
    {ks : List κ} :
    List.Forall₂ (fun i k => frame i = frame' k ∧ List.Forall₂ R (parts i) (parts' k)) is ks ↔
      is.map frame = ks.map frame' ∧ List.Forall₂ R (is.flatMap parts) (ks.flatMap parts') := by
  induction is generalizing ks with
  | nil =>
    cases ks with
    | nil => simp
    | cons k ks => simp
  | cons i is ih =>
    cases ks with
    | nil => simp
    | cons k ks =>
      simp only [List.forall₂_cons, ih, List.map_cons, List.cons.injEq, List.flatMap_cons]
      constructor
      · rintro ⟨⟨hf, hp⟩, hfs, hps⟩
        exact ⟨⟨hf, hfs⟩, List.rel_append hp hps⟩
      · rintro ⟨⟨hf, hfs⟩, hall⟩
        have hps := (forall₂_append_iff (hlen i k hf)).mp hall
        exact ⟨⟨hf, hps.1⟩, hfs, hps.2⟩

/-- Structures with equal frames have equally many parts, collected over lists of structures. -/
theorem length_flatMap_eq_of_frames {ι κ φ : Type} {frame : ι → φ} {frame' : κ → φ}
    {parts : ι → List α} {parts' : κ → List β}
    (hlen : ∀ i k, frame i = frame' k → (parts i).length = (parts' k).length) {is : List ι}
    {ks : List κ} (h : is.map frame = ks.map frame') :
    (is.flatMap parts).length = (ks.flatMap parts').length := by
  induction is generalizing ks with
  | nil =>
    cases ks with
    | nil => rfl
    | cons k ks => simp at h
  | cons i is ih =>
    cases ks with
    | nil => simp at h
    | cons k ks =>
      obtain ⟨hf, hfs⟩ := List.cons.inj h
      rw [List.flatMap_cons, List.flatMap_cons, List.length_append, List.length_append,
        hlen i k hf, ih hfs]

/-- Related lists have places for equally many items. -/
theorem list_map_unit_eq {R : α → β → Prop} {as : List α} {bs : List β}
    (h : List.Forall₂ R as bs) : as.map (fun _ => ()) = bs.map fun _ => () := by
  simpa using h.length_eq

/-- Related optional items are both there or both absent. -/
theorem option_map_unit_eq {R : α → β → Prop} {o : Option α} {o' : Option β}
    (h : List.Forall₂ R o.toList o'.toList) : o.map (fun _ => ()) = o'.map fun _ => () := by
  cases o <;> cases o' <;> simp_all

/-- Optional items that are both there or both absent are equally many. -/
theorem length_toList_eq_of_map_unit_eq {o : Option α} {o' : Option β}
    (h : o.map (fun _ => ()) = o'.map fun _ => ()) : o.toList.length = o'.toList.length := by
  cases o <;> cases o' <;> simp_all

/-- Structures that are their frames and their parts, collected over lists of structures. -/
theorem map_eq_iff_frames {ι φ ψ : Type} {whole : ι → ψ} {frame : ι → φ} {parts : ι → List α}
    (hlen : ∀ {i k}, frame i = frame k → (parts i).length = (parts k).length)
    (hw : ∀ {i k}, whole i = whole k ↔ frame i = frame k ∧ parts i = parts k) {is ks : List ι} :
    is.map whole = ks.map whole ↔
      is.map frame = ks.map frame ∧ is.flatMap parts = ks.flatMap parts := by
  have h : List.Forall₂ (fun i k => frame i = frame k ∧ List.Forall₂ Eq (parts i) (parts k)) is ks ↔
      is.map frame = ks.map frame ∧ List.Forall₂ Eq (is.flatMap parts) (ks.flatMap parts) :=
    forall₂_frames_iff fun _ _ => hlen
  simp only [List.forall₂_eq_eq_eq, ← hw] at h
  rw [← h, ← List.forall₂_eq_eq_eq, List.forall₂_map_left_iff, List.forall₂_map_right_iff]

/-! ## Nested structures -/

namespace ElementInit

/-- The initializer without its identity. -/
def unstamp (init : ElementInit α) : ElementInit α := { init with stamp := 0 }

/-- Everything about the initializer but its identity and its handles. -/
def frame (init : ElementInit α) : ElementInit Unit := (init.map fun _ => ()).unstamp

/-- The arguments of a list of initializers, one initializer after the other. -/
theorem argumentsOfList_eq_flatMap (inits : List (ElementInit α)) :
    argumentsOfList inits = inits.flatMap arguments := by
  induction inits with
  | nil => rfl
  | cons init rest ih => rw [argumentsOfList, ih, List.flatMap_cons]

/-- Equal frames have places for equally many arguments. -/
theorem length_eq_of_frame_eq {init : ElementInit α} {init' : ElementInit β}
    (h : init.frame = init'.frame) : init.arguments.length = init'.arguments.length := by
  have := congrArg (fun i => i.arguments.length) h
  simpa [frame, unstamp, map] using this

/-- The frame does not depend on the handles. -/
@[simp] theorem frame_map (f : α → β) (init : ElementInit α) : (init.map f).frame = init.frame := by
  simp [frame, map, Function.comp_def]

/-- Identity apart, an initializer is its frame and its arguments. -/
theorem unstamp_eq_iff {init init' : ElementInit α} :
    init.unstamp = init'.unstamp ↔ init.frame = init'.frame ∧ init.arguments = init'.arguments := by
  rcases init with ⟨_, method, arguments⟩
  rcases init' with ⟨_, method', arguments'⟩
  simp only [unstamp, frame, map, mk.injEq, true_and]
  constructor
  · rintro ⟨rfl, rfl⟩
    exact ⟨⟨rfl, rfl⟩, rfl⟩
  · rintro ⟨⟨rfl, -⟩, rfl⟩
    exact ⟨rfl, rfl⟩

end ElementInit

namespace Binding

mutual

/-- The binding without the identities of bindings and initializers. -/
def unstamp : Binding α → Binding α
  | .assignment _ member value => .assignment 0 member value
  | .list _ member initializers => .list 0 member (initializers.map ElementInit.unstamp)
  | .nested _ member bindings => .nested 0 member (unstampList bindings)

/-- The bindings of a list without identities. -/
def unstampList : List (Binding α) → List (Binding α)
  | [] => []
  | binding :: rest => binding.unstamp :: unstampList rest

end

/-- Everything about the binding but identities and handles. -/
def frame (binding : Binding α) : Binding Unit := (binding.map fun _ => ()).unstamp

/-- The bindings of a list are taken one by one. -/
theorem unstampList_eq_map (bindings : List (Binding α)) :
    unstampList bindings = bindings.map unstamp := by
  induction bindings with
  | nil => rfl
  | cons binding rest ih => rw [unstampList, ih, List.map_cons]

/-- The bindings of a list are mapped one by one. -/
theorem mapList_eq_map (f : α → β) (bindings : List (Binding α)) :
    mapList f bindings = bindings.map (·.map f) := by
  induction bindings with
  | nil => rfl
  | cons binding rest ih => rw [mapList, ih, List.map_cons]

/-- The handles of a list of bindings, one binding after the other. -/
theorem childrenOfList_eq_flatMap (bindings : List (Binding α)) :
    childrenOfList bindings = bindings.flatMap children := by
  induction bindings with
  | nil => rfl
  | cons binding rest ih => rw [childrenOfList, ih, List.flatMap_cons]

/-- The frames of a list of bindings are taken one by one. -/
theorem unstampList_mapList_eq_map_frame (bindings : List (Binding α)) :
    unstampList (mapList (fun _ => ()) bindings) = bindings.map frame := by
  rw [unstampList_eq_map, mapList_eq_map, List.map_map]
  rfl

/-- Of the initialization of a collection the frames of initializers are kept. -/
theorem frame_list (stamp : Stamp) (member : Member) (inits : List (ElementInit α)) :
    (list stamp member inits).frame = list 0 member (inits.map ElementInit.frame) := by
  rw [frame, map, unstamp, List.map_map]
  rfl

/-- Of the initialization of an object the frames of bindings are kept. -/
theorem frame_nested (stamp : Stamp) (member : Member) (bindings : List (Binding α)) :
    (nested stamp member bindings).frame = nested 0 member (bindings.map frame) := by
  rw [frame, map, unstamp, unstampList_mapList_eq_map_frame]

/-- Identities of initializers do not change their arguments. -/
theorem argumentsOfList_map_unstamp :
    ∀ inits : List (ElementInit α),
      ElementInit.argumentsOfList (inits.map ElementInit.unstamp) =
        ElementInit.argumentsOfList inits
  | [] => rfl
  | init :: rest => by
    simp only [List.map_cons, ElementInit.argumentsOfList, argumentsOfList_map_unstamp rest,
      ElementInit.unstamp]

mutual

/-- Identities do not change the handles. -/
theorem children_unstamp : ∀ binding : Binding α, binding.unstamp.children = binding.children
  | .assignment _ _ _ => rfl
  | .list _ _ initializers => argumentsOfList_map_unstamp initializers
  | .nested _ _ bindings => childrenOfList_unstampList bindings

/-- Identities do not change the handles of a list of bindings. -/
theorem childrenOfList_unstampList :
    ∀ bindings : List (Binding α), childrenOfList (unstampList bindings) = childrenOfList bindings
  | [] => rfl
  | binding :: rest => by
    rw [unstampList, childrenOfList, childrenOfList, children_unstamp binding,
      childrenOfList_unstampList rest]

end

/-- Equal frames have places for equally many handles. -/
theorem length_eq_of_frame_eq {binding : Binding α} {binding' : Binding β}
    (h : binding.frame = binding'.frame) : binding.children.length = binding'.children.length := by
  have := congrArg (fun b => b.children.length) h
  simpa [frame, children_unstamp, children_map] using this

mutual

/-- Mapping twice is mapping once. -/
theorem map_map (f : α → β) (g : β → γ) :
    ∀ binding : Binding α, (binding.map f).map g = binding.map (g ∘ f)
  | .assignment _ _ _ => rfl
  | .list _ _ _ => by simp [map, ElementInit.map, Function.comp_def]
  | .nested _ _ bindings => by simp [map, mapList_mapList f g bindings]

/-- Mapping a list of bindings twice is mapping it once. -/
theorem mapList_mapList (f : α → β) (g : β → γ) :
    ∀ bindings : List (Binding α), mapList g (mapList f bindings) = mapList (g ∘ f) bindings
  | [] => rfl
  | binding :: rest => by simp [mapList, map_map f g binding, mapList_mapList f g rest]

end

/-- The frame does not depend on the handles. -/
@[simp] theorem frame_map (f : α → β) (binding : Binding α) :
    (binding.map f).frame = binding.frame := by
  rw [frame, frame, map_map, Function.comp_def]

mutual

/-- Identities apart, a binding is its frame and its handles. -/
theorem unstamp_eq_iff : ∀ {binding binding' : Binding α},
    binding.unstamp = binding'.unstamp ↔
      binding.frame = binding'.frame ∧ binding.children = binding'.children
  | .assignment _ _ _, binding' => by
    cases binding' <;> simp [unstamp, frame, map, children]
  | .list _ member inits, binding' => by
    cases binding' with
    | list _ member' inits' =>
      simp only [unstamp, frame, map, children, list.injEq, true_and, List.map_map,
        ElementInit.argumentsOfList_eq_flatMap]
      rw [map_eq_iff_frames ElementInit.length_eq_of_frame_eq ElementInit.unstamp_eq_iff, and_assoc]
      rfl
    | _ => simp [unstamp, frame, map]
  | .nested _ member bindings, binding' => by
    cases binding' with
    | nested _ member' bindings' =>
      simp only [unstamp, frame, map, children, nested.injEq, true_and,
        unstampList_mapList_eq_map_frame]
      rw [unstampList_eq_iff, and_assoc]
    | _ => simp [unstamp, frame, map]

/-- Identities apart, a list of bindings is its frames and its handles. -/
theorem unstampList_eq_iff : ∀ {bindings bindings' : List (Binding α)},
    unstampList bindings = unstampList bindings' ↔
      bindings.map frame = bindings'.map frame ∧
        childrenOfList bindings = childrenOfList bindings'
  | [], bindings' => by cases bindings' <;> simp [unstampList, childrenOfList]
  | binding :: rest, bindings' => by
    cases bindings' with
    | nil => simp [unstampList]
    | cons binding' rest' =>
      simp only [unstampList, childrenOfList, List.map_cons, List.cons.injEq]
      rw [unstamp_eq_iff, unstampList_eq_iff]
      constructor
      · rintro ⟨⟨hf, hc⟩, hfs, hcs⟩
        exact ⟨⟨hf, hfs⟩, by rw [hc, hcs]⟩
      · rintro ⟨⟨hf, hfs⟩, h⟩
        obtain ⟨hc, hcs⟩ := List.append_inj h (length_eq_of_frame_eq hf)
        exact ⟨⟨hf, hc⟩, hfs, hcs⟩

end

end Binding

namespace SwitchCase

/-- The case without its identity. -/
def unstamp (branch : SwitchCase α) : SwitchCase α := { branch with stamp := 0 }

/-- Everything about the case but its identity and its handles. -/
def frame (branch : SwitchCase α) : SwitchCase Unit := (branch.map fun _ => ()).unstamp

/-- The handles of a list of cases, one case after the other. -/
theorem childrenOfList_eq_flatMap (branches : List (SwitchCase α)) :
    childrenOfList branches = branches.flatMap children := by
  induction branches with
  | nil => rfl
  | cons branch rest ih => rw [childrenOfList, ih, List.flatMap_cons]

/-- Equal frames have places for equally many handles. -/
theorem length_eq_of_frame_eq {branch : SwitchCase α} {branch' : SwitchCase β}
    (h : branch.frame = branch'.frame) : branch.children.length = branch'.children.length := by
  have := congrArg (fun b => b.children.length) h
  simpa [frame, unstamp, map, children] using this

/-- The frame does not depend on the handles. -/
@[simp] theorem frame_map (f : α → β) (branch : SwitchCase α) :
    (branch.map f).frame = branch.frame := by
  simp [frame, map, Function.comp_def]

/-- Identity apart, a case is its frame and its handles. -/
theorem unstamp_eq_iff {branch branch' : SwitchCase α} :
    branch.unstamp = branch'.unstamp ↔
      branch.frame = branch'.frame ∧ branch.children = branch'.children := by
  rcases branch with ⟨_, tests, body⟩
  rcases branch' with ⟨_, tests', body'⟩
  simp only [unstamp, frame, map, children, mk.injEq, true_and, and_true]
  constructor
  · rintro ⟨rfl, rfl⟩
    exact ⟨rfl, rfl⟩
  · rintro ⟨-, h⟩
    simpa using List.append_inj' h rfl

end SwitchCase

namespace Handler

/-- The handler without its identity. -/
def unstamp (handler : Handler α) : Handler α := { handler with stamp := 0 }

/-- Everything about the handler but its identity and its handles. -/
def frame (handler : Handler α) : Handler Unit := (handler.map fun _ => ()).unstamp

/-- The handles of a list of handlers, one handler after the other. -/
theorem childrenOfList_eq_flatMap (handlers : List (Handler α)) :
    childrenOfList handlers = handlers.flatMap children := by
  induction handlers with
  | nil => rfl
  | cons handler rest ih => rw [childrenOfList, ih, List.flatMap_cons]

/-- The handles of a frame are places for those of the handler. -/
theorem children_frame (handler : Handler α) :
    handler.frame.children = handler.children.map fun _ => () := by
  rw [← children_map]
  rfl

/-- Equal frames have places for equally many handles. -/
theorem length_eq_of_frame_eq {handler : Handler α} {handler' : Handler β}
    (h : handler.frame = handler'.frame) : handler.children.length = handler'.children.length := by
  have := congrArg (fun h => h.children.length) h
  simpa only [children_frame, List.length_map] using this

/-- The frame does not depend on the handles. -/
@[simp] theorem frame_map (f : α → β) (handler : Handler α) :
    (handler.map f).frame = handler.frame := by
  simp [frame, map, Function.comp_def]

/-- Identity apart, a handler is its frame and its handles. -/
theorem unstamp_eq_iff {handler handler' : Handler α} :
    handler.unstamp = handler'.unstamp ↔
      handler.frame = handler'.frame ∧ handler.children = handler'.children := by
  rcases handler with ⟨_, caught, bound, filter, body⟩
  rcases handler' with ⟨_, caught', bound', filter', body'⟩
  simp only [unstamp, frame, map, children, mk.injEq, true_and]
  constructor
  · rintro ⟨rfl, rfl, rfl, rfl⟩
    exact ⟨⟨rfl, rfl, rfl, trivial⟩, rfl⟩
  · rintro ⟨⟨rfl, hb, hf, -⟩, h⟩
    cases bound <;> cases bound' <;> cases filter <;> cases filter' <;> simp_all

end Handler

/-! ## Shapes -/

/-- The target without its identity. -/
def LabelTarget.bare (target : LabelTarget) : LabelTarget := { target with stamp := 0 }

/-- Targets agree when they are equal but for their identities. -/
theorem LabelTarget.agrees_iff {a b : LabelTarget} : a.agrees b = true ↔ a.bare = b.bare := by
  simp [agrees, bare]

namespace Value

mutual

/-- The payload without identities and without the element types of queries. -/
def bare : Value α → Value α
  | .scalar s => .scalar s
  | .text _ value => .text 0 value
  | .sequence _ items => .sequence 0 (bareList items)
  | .query root _ => .query root .void
  | .object _ host => .object 0 host

/-- The payloads of a list without identities and element types. -/
def bareList : List (Value α) → List (Value α)
  | [] => []
  | value :: rest => value.bare :: bareList rest

end

mutual

/-- Mapping twice is mapping once. -/
theorem map_map (f : α → β) (g : β → γ) :
    ∀ value : Value α, (value.map f).map g = value.map (g ∘ f)
  | .scalar _ | .text _ _ | .object _ _ | .query _ _ => rfl
  | .sequence _ items => by simp [map, mapList_mapList f g items]

/-- Mapping a list of payloads twice is mapping it once. -/
theorem mapList_mapList (f : α → β) (g : β → γ) :
    ∀ values : List (Value α), mapList g (mapList f values) = mapList (g ∘ f) values
  | [] => rfl
  | value :: rest => by simp [mapList, map_map f g value, mapList_mapList f g rest]

end

end Value

namespace Shape

/-- The shape without the identities of the structures nested in it. -/
def unstamp : Shape α → Shape α
  | .listInit creation inits => .listInit creation (inits.map ElementInit.unstamp)
  | .memberInit creation bindings => .memberInit creation (Binding.unstampList bindings)
  | .switch subject cases otherwise comparison =>
    .switch subject (cases.map SwitchCase.unstamp) otherwise comparison
  | .tryCatch body handlers cleanup fault =>
    .tryCatch body (handlers.map Handler.unstamp) cleanup fault
  | shape => shape

/-- The shape without what does not count in a comparison: how lambdas are named and called, how
parameters are passed, what extensions and source stretches hold, the identities of targets, and
what payloads are beyond their contents. -/
def bare : Shape α → Shape α
  | .lambda body parameters _ _ => .lambda body parameters none false
  | .goto jump target value => .goto jump target.bare value
  | .label target value => .label target.bare value
  | .loop body breakTarget continueTarget =>
    .loop body (breakTarget.map LabelTarget.bare) (continueTarget.map LabelTarget.bare)
  | .extension _ _ => .extension 0 (.sealed "" .void)
  | .debugInfo _ _ => .debugInfo ⟨""⟩ .clear
  | .parameter name _ => .parameter name false
  | .constant value => .constant value.bare
  | shape => shape

/-- The shape with nothing in the place of a payload. -/
def hollow : Shape α → Shape α
  | .constant _ => .constant (.scalar .null)
  | shape => shape

/-- Everything about the shape but its handles and the identities of nested structures. -/
def frame (shape : Shape α) : Shape Unit := (shape.map fun _ => ()).unstamp

/-- What a comparison looks at besides children and payload. -/
def skeleton (shape : Shape α) : Shape Unit := shape.frame.bare.hollow

/-- The payloads: that of a constant, or none. -/
def payloads : Shape α → List (Value α)
  | .constant value => [value]
  | _ => []

section Nested

variable (a : α)

/-- Of a list of initializers the frames are kept. -/
theorem frame_listInit (inits : List (ElementInit α)) :
    (listInit a inits).frame = listInit () (inits.map ElementInit.frame) := by
  simp [frame, map, unstamp, ElementInit.frame]

/-- Of a list of bindings the frames are kept. -/
theorem frame_memberInit (bindings : List (Binding α)) :
    (memberInit a bindings).frame = memberInit () (bindings.map Binding.frame) := by
  simp [frame, map, unstamp, Binding.unstampList_mapList_eq_map_frame]

/-- Of a list of cases the frames are kept. -/
theorem frame_switch (branches : List (SwitchCase α)) (otherwise : Option α)
    (comparison : Option Method) :
    (switch a branches otherwise comparison).frame =
      switch () (branches.map SwitchCase.frame) (otherwise.map fun _ => ()) comparison := by
  simp [frame, map, unstamp, SwitchCase.frame]

/-- Of a list of handlers the frames are kept. -/
theorem frame_tryCatch (handlers : List (Handler α)) (cleanup fault : Option α) :
    (tryCatch a handlers cleanup fault).frame =
      tryCatch () (handlers.map Handler.frame) (cleanup.map fun _ => ())
        (fault.map fun _ => ()) := by
  simp [frame, map, unstamp, Handler.frame]

end Nested

/-- Shapes are of one family when their skeletons are equal. -/
theorem family_eq_of_skeleton_eq {shape : Shape α} {shape' : Shape β}
    (h : shape.skeleton = shape'.skeleton) : shape.family = shape'.family := by
  have hs : ∀ {γ : Type} (shape : Shape γ), shape.skeleton.family = shape.family := by
    intro γ shape
    cases shape <;> rfl
  rw [← hs shape, h, hs shape']

/-- Two shapes of one family are taken apart together, family by family. -/
@[elab_as_elim]
theorem cases_of_family_eq
    {motive : (s : Shape α) → (t : Shape β) → s.family = t.family → Prop}
    (binary : ∀ l c r m f l' c' r' m' f', motive (.binary l c r m f) (.binary l' c' r' m' f') rfl)
    (unary : ∀ o m o' m', motive (.unary o m) (.unary o' m') rfl)
    (call : ∀ o m as o' m' as', motive (.call o m as) (.call o' m' as') rfl)
    (conditional : ∀ a b c a' b' c', motive (.conditional a b c) (.conditional a' b' c') rfl)
    (invoke : ∀ c as c' as', motive (.invoke c as) (.invoke c' as') rfl)
    (lambda : ∀ b ps n t b' ps' n' t', motive (.lambda b ps n t) (.lambda b' ps' n' t') rfl)
    (listInit : ∀ c is c' is', motive (.listInit c is) (.listInit c' is') rfl)
    (memberAccess : ∀ o m o' m', motive (.memberAccess o m) (.memberAccess o' m') rfl)
    (memberInit : ∀ c bs c' bs', motive (.memberInit c bs) (.memberInit c' bs') rfl)
    (new : ∀ c as ms c' as' ms', motive (.new c as ms) (.new c' as' ms') rfl)
    (newArray : ∀ is is', motive (.newArray is) (.newArray is') rfl)
    (typeBinary : ∀ o t o' t', motive (.typeBinary o t) (.typeBinary o' t') rfl)
    (block : ∀ ls ss ls' ss', motive (.block ls ss) (.block ls' ss') rfl)
    (dynamic : ∀ b d as b' d' as', motive (.dynamic b d as) (.dynamic b' d' as') rfl)
    (goto : ∀ j t v j' t' v', motive (.goto j t v) (.goto j' t' v') rfl)
    (index : ∀ o i as o' i' as', motive (.index o i as) (.index o' i' as') rfl)
    (label : ∀ t v t' v', motive (.label t v) (.label t' v') rfl)
    (runtimeVariables : ∀ ls ls', motive (.runtimeVariables ls) (.runtimeVariables ls') rfl)
    (loop : ∀ b x y b' x' y', motive (.loop b x y) (.loop b' x' y') rfl)
    (switch : ∀ s cs o m s' cs' o' m', motive (.switch s cs o m) (.switch s' cs' o' m') rfl)
    (tryCatch : ∀ b hs c f b' hs' c' f', motive (.tryCatch b hs c f) (.tryCatch b' hs' c' f') rfl)
    (extension : ∀ s c s' c', motive (.extension s c) (.extension s' c') rfl)
    (debugInfo : ∀ d s d' s', motive (.debugInfo d s) (.debugInfo d' s') rfl)
    (parameter : ∀ n r n' r', motive (.parameter n r) (.parameter n' r') rfl)
    (constant : ∀ v v', motive (.constant v) (.constant v') rfl)
    (default : motive .default .default rfl)
    (s : Shape α) (t : Shape β) (h : s.family = t.family) : motive s t h := by
  cases s <;> cases t <;> first | contradiction | apply_assumption

/-- Mapping twice is mapping once. -/
theorem map_map (f : α → β) (g : β → γ) (shape : Shape α) :
    (shape.map f).map g = shape.map (g ∘ f) := by
  cases shape with
  | memberInit creation bindings => simp [map, Binding.mapList_mapList]
  | extension stamp custom => cases custom <;> simp [map, Extension.map]
  | constant value => simp [map, Value.map_map]
  | _ => simp [map, ElementInit.map, SwitchCase.map, Handler.map, Function.comp_def]

/-- The frame does not depend on the handles. -/
@[simp] theorem frame_map (f : α → β) (shape : Shape α) : (shape.map f).frame = shape.frame := by
  rw [frame, frame, map_map, Function.comp_def]

/-- The skeleton does not depend on the handles. -/
@[simp] theorem skeleton_map (f : α → β) (shape : Shape α) :
    (shape.map f).skeleton = shape.skeleton := by
  rw [skeleton, skeleton, frame_map]

/-- Mapping a shape maps its payloads. -/
theorem payloads_map (f : α → β) (shape : Shape α) :
    (shape.map f).payloads = shape.payloads.map (Value.map f) := by
  cases shape <;> rfl

end Shape

end ExprTree
