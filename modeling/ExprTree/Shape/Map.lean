import ExprTree.Shape.Children

/-!
# Mapping over handles

Mapping a shape maps the list of its children and changes nothing else. Marking the handles of a
shape as its own and forgetting the marks again gives the shape back (`Shape.map_attach`), so that
a recursion over the marked handles can be read as one over the handles themselves.
-/

namespace ExprTree

variable {α β : Type}

/-- Replacing the items of a list there and back. -/
theorem map_pmap_list {P : α → Prop} {f : (a : α) → P a → β} {g : β → α}
    (h : ∀ a ha, g (f a ha) = a) : ∀ (items : List α) (hP : ∀ a ∈ items, P a),
    (items.pmap f hP).map g = items
  | [], _ => rfl
  | item :: rest, hP => by simp [h, map_pmap_list h rest]

/-- Replacing the content of an option there and back. -/
theorem map_pmap_option {P : α → Prop} {f : (a : α) → P a → β} {g : β → α}
    (h : ∀ a ha, g (f a ha) = a) (content : Option α) (hP : ∀ a ∈ content, P a) :
    (content.pmap f hP).map g = content := by
  cases content <;> simp [h]

namespace Value

variable {P : α → Prop} {f : (a : α) → P a → β} {g : β → α}

mutual

/-- Replacing the roots of a payload there and back. -/
theorem map_pmap (h : ∀ a ha, g (f a ha) = a) :
    ∀ (value : Value α) (hP : ∀ a ∈ value.roots, P a), (value.pmap f hP).map g = value
  | .scalar _, _ | .text _ _, _ | .object _ _, _ => by simp [pmap, map]
  | .query root element, _ => by simp [pmap, map, h]
  | .sequence stamp items, _ => by simp [pmap, map, mapList_pmapList h items]

/-- Replacing the roots of the payloads of a list there and back. -/
theorem mapList_pmapList (h : ∀ a ha, g (f a ha) = a) :
    ∀ (values : List (Value α)) (hP : ∀ a ∈ rootsOfList values, P a),
      mapList g (pmapList f values hP) = values
  | [], _ => rfl
  | value :: rest, _ => by simp [pmapList, mapList, map_pmap h value, mapList_pmapList h rest]

end

end Value

namespace ElementInit

variable {P : α → Prop} {f : (a : α) → P a → β} {g : β → α}

/-- Replacing the arguments of an initializer there and back. -/
theorem map_pmap (h : ∀ a ha, g (f a ha) = a) (init : ElementInit α)
    (hP : ∀ a ∈ init.arguments, P a) : (init.pmap f hP).map g = init := by
  simp [pmap, map, map_pmap_list h]

/-- Replacing the arguments of the initializers of a list there and back. -/
theorem map_pmapList (h : ∀ a ha, g (f a ha) = a) :
    ∀ (inits : List (ElementInit α)) (hP : ∀ a ∈ argumentsOfList inits, P a),
      (pmapList f inits hP).map (·.map g) = inits
  | [], _ => rfl
  | init :: rest, _ => by rw [pmapList, List.map_cons, map_pmap h, map_pmapList h rest]

/-- The arguments of mapped initializers are the mapped arguments. -/
theorem argumentsOfList_map (k : α → β) :
    ∀ inits : List (ElementInit α),
      argumentsOfList (inits.map (·.map k)) = (argumentsOfList inits).map k
  | [] => rfl
  | init :: rest => by
    rw [List.map_cons, argumentsOfList, argumentsOfList, List.map_append,
      argumentsOfList_map k rest, map]

end ElementInit

namespace Binding

variable {P : α → Prop} {f : (a : α) → P a → β} {g : β → α}

mutual

/-- Replacing the handles of a binding there and back. -/
theorem map_pmap (h : ∀ a ha, g (f a ha) = a) :
    ∀ (binding : Binding α) (hP : ∀ a ∈ binding.children, P a), (binding.pmap f hP).map g = binding
  | .assignment stamp member value, _ => by simp [pmap, map, h]
  | .list stamp member initializers, _ => by simp [pmap, map, ElementInit.map_pmapList h]
  | .nested stamp member bindings, _ => by simp [pmap, map, mapList_pmapList h bindings]

/-- Replacing the handles of the bindings of a list there and back. -/
theorem mapList_pmapList (h : ∀ a ha, g (f a ha) = a) :
    ∀ (bindings : List (Binding α)) (hP : ∀ a ∈ childrenOfList bindings, P a),
      mapList g (pmapList f bindings hP) = bindings
  | [], _ => rfl
  | binding :: rest, _ => by
    simp [pmapList, mapList, map_pmap h binding, mapList_pmapList h rest]

end

mutual

/-- The handles of a mapped binding are the mapped handles. -/
theorem children_map (k : α → β) :
    ∀ binding : Binding α, (binding.map k).children = binding.children.map k
  | .assignment _ _ _ => by simp [map, children]
  | .list _ _ initializers => by simp [map, children, ElementInit.argumentsOfList_map]
  | .nested _ _ bindings => by simp [map, children, childrenOfList_mapList k bindings]

/-- The handles of mapped bindings are the mapped handles. -/
theorem childrenOfList_mapList (k : α → β) :
    ∀ bindings : List (Binding α),
      childrenOfList (mapList k bindings) = (childrenOfList bindings).map k
  | [] => rfl
  | binding :: rest => by
    simp [mapList, childrenOfList, children_map k binding, childrenOfList_mapList k rest]

end

end Binding

namespace SwitchCase

variable {P : α → Prop} {f : (a : α) → P a → β} {g : β → α}

/-- Replacing the handles of a case there and back. -/
theorem map_pmap (h : ∀ a ha, g (f a ha) = a) (branch : SwitchCase α)
    (hP : ∀ a ∈ branch.children, P a) : (branch.pmap f hP).map g = branch := by
  simp [pmap, map, h, map_pmap_list h]

/-- Replacing the handles of the cases of a list there and back. -/
theorem map_pmapList (h : ∀ a ha, g (f a ha) = a) :
    ∀ (branches : List (SwitchCase α)) (hP : ∀ a ∈ childrenOfList branches, P a),
      (pmapList f branches hP).map (·.map g) = branches
  | [], _ => rfl
  | branch :: rest, _ => by rw [pmapList, List.map_cons, map_pmap h, map_pmapList h rest]

/-- The handles of a mapped case are the mapped handles. -/
theorem children_map (k : α → β) (branch : SwitchCase α) :
    (branch.map k).children = branch.children.map k := by
  simp [children, map]

/-- The handles of mapped cases are the mapped handles. -/
theorem childrenOfList_map (k : α → β) :
    ∀ branches : List (SwitchCase α),
      childrenOfList (branches.map (·.map k)) = (childrenOfList branches).map k
  | [] => rfl
  | branch :: rest => by
    rw [List.map_cons, childrenOfList, childrenOfList, List.map_append, children_map,
      childrenOfList_map k rest]

end SwitchCase

namespace Handler

variable {P : α → Prop} {f : (a : α) → P a → β} {g : β → α}

/-- Replacing the handles of a handler there and back. -/
theorem map_pmap (h : ∀ a ha, g (f a ha) = a) (handler : Handler α)
    (hP : ∀ a ∈ handler.children, P a) : (handler.pmap f hP).map g = handler := by
  simp [pmap, map, h, map_pmap_option h]

/-- Replacing the handles of the handlers of a list there and back. -/
theorem map_pmapList (h : ∀ a ha, g (f a ha) = a) :
    ∀ (handlers : List (Handler α)) (hP : ∀ a ∈ childrenOfList handlers, P a),
      (pmapList f handlers hP).map (·.map g) = handlers
  | [], _ => rfl
  | handler :: rest, _ => by rw [pmapList, List.map_cons, map_pmap h, map_pmapList h rest]

/-- The handles of a mapped handler are the mapped handles. -/
theorem children_map (k : α → β) (handler : Handler α) :
    (handler.map k).children = handler.children.map k := by
  rcases handler with ⟨stamp, caught, _ | bound, _ | filter, body⟩ <;> simp [children, map]

/-- The handles of mapped handlers are the mapped handles. -/
theorem childrenOfList_map (k : α → β) :
    ∀ handlers : List (Handler α),
      childrenOfList (handlers.map (·.map k)) = (childrenOfList handlers).map k
  | [] => rfl
  | handler :: rest => by
    rw [List.map_cons, childrenOfList, childrenOfList, List.map_append, children_map,
      childrenOfList_map k rest]

end Handler

namespace Shape

/-- Replacing the handles of a shape there and back. -/
theorem map_pmap {P : α → Prop} {f : (a : α) → P a → β} {g : β → α}
    (h : ∀ a ha, g (f a ha) = a) (shape : Shape α) (hP : ∀ a ∈ shape.handles, P a) :
    (shape.pmap f hP).map g = shape := by
  cases shape with
  | extension stamp custom =>
    cases custom <;> simp [pmap, map, Extension.pmap, Extension.map, h, map_pmap_option h]
  | _ =>
    simp [pmap, map, h, map_pmap_list h, map_pmap_option h, ElementInit.map_pmapList h,
      Binding.mapList_pmapList h, SwitchCase.map_pmapList h, Handler.map_pmapList h,
      Value.map_pmap h]

/-- Forgetting the marks of the handles gives the shape back. -/
theorem map_attach (shape : Shape α) : shape.attach.map Subtype.val = shape :=
  map_pmap (fun _ _ => rfl) shape _

/-- The children of a mapped shape are the mapped children. -/
theorem children_map (k : α → β) (shape : Shape α) :
    (shape.map k).children = shape.children.map k := by
  cases shape with
  | binary _ conversion => cases conversion <;> simp [map, children]
  | unary operand => cases operand <;> simp [map, children]
  | call object => cases object <;> simp [map, children]
  | memberAccess object => cases object <;> simp [map, children]
  | goto _ _ value => cases value <;> simp [map, children]
  | label _ value => cases value <;> simp [map, children]
  | switch _ _ otherwise =>
    cases otherwise <;> simp [map, children, SwitchCase.childrenOfList_map]
  | tryCatch _ _ cleanup fault =>
    cases cleanup <;> cases fault <;> simp [map, children, Handler.childrenOfList_map]
  | _ =>
    simp [map, children, ElementInit.argumentsOfList_map, Binding.childrenOfList_mapList]

/-- The marked children are the children. -/
theorem children_attach (shape : Shape α) :
    shape.attach.children.map Subtype.val = shape.children := by
  rw [← children_map, map_attach]

end Shape

end ExprTree
