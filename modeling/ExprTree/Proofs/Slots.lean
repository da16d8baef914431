import ExprTree.Proofs.Skeleton
import ExprTree.View

/-!
# Slots and children

A shape whose children are paired with their slots is the shape again when the slots are forgotten.
So what a view shows in a slot is a child of its node, unless the node is an extension that is
reduced.
-/

namespace ExprTree

variable {α : Type}

/-- Forgetting the slots of the items of a list gives the list. -/
@[simp] theorem map_snd_slotted (slot : Nat → Slot) (i : Nat) (items : List α) :
    (slotted slot i items).map Prod.snd = items := by
  induction items generalizing i with
  | nil => rfl
  | cons item rest ih => rw [slotted, List.map_cons, ih]

/-- Forgetting the slots of the arguments of initializers gives the initializers. -/
@[simp] theorem ElementInit.map_slotted (slot : Nat → Nat → Slot) (i : Nat)
    (inits : List (ElementInit α)) :
    (ElementInit.slotted slot i inits).map (·.map Prod.snd) = inits := by
  induction inits generalizing i with
  | nil => rfl
  | cons init rest ih =>
    rw [ElementInit.slotted, List.map_cons, ih, ElementInit.map, map_snd_slotted]

mutual

/-- Forgetting the slots of the handles of a binding gives the binding. -/
theorem Binding.map_slotted (path : List Nat) : ∀ binding : Binding α,
    (binding.slotted path).map Prod.snd = binding
  | .assignment _ _ _ => by simp [Binding.slotted, Binding.map]
  | .list _ _ _ => by simp [Binding.slotted, Binding.map]
  | .nested _ _ bindings => by
    simp [Binding.slotted, Binding.map, Binding.mapList_slottedList path 0 bindings]

/-- Forgetting the slots of the handles of bindings gives the bindings. -/
theorem Binding.mapList_slottedList (path : List Nat) : ∀ (i : Nat) (bindings : List (Binding α)),
    Binding.mapList Prod.snd (Binding.slottedList path i bindings) = bindings
  | _, [] => rfl
  | i, binding :: rest => by
    rw [Binding.slottedList, Binding.mapList, Binding.map_slotted (path ++ [i]) binding,
      Binding.mapList_slottedList path (i + 1) rest]

end

/-- Forgetting the slots of the handles of cases gives the cases. -/
@[simp] theorem SwitchCase.map_slotted (i : Nat) (branches : List (SwitchCase α)) :
    (SwitchCase.slotted i branches).map (·.map Prod.snd) = branches := by
  induction branches generalizing i with
  | nil => rfl
  | cons branch rest ih =>
    rw [SwitchCase.slotted, List.map_cons, ih, SwitchCase.map, map_snd_slotted]

/-- Forgetting the slots of the handles of handlers gives the handlers. -/
@[simp] theorem Handler.map_slotted (i : Nat) (handlers : List (Handler α)) :
    (Handler.slotted i handlers).map (·.map Prod.snd) = handlers := by
  induction handlers generalizing i with
  | nil => rfl
  | cons handler rest ih =>
    rw [Handler.slotted, List.map_cons, ih, Handler.map]
    simp [Function.comp_def]

mutual

/-- Mapping the roots of a payload to themselves gives the payload. -/
theorem Value.map_id : ∀ value : Value α, value.map id = value
  | .scalar _ | .text _ _ | .object _ _ | .query _ _ => rfl
  | .sequence _ items => by rw [Value.map, Value.mapList_id items]

/-- Mapping the roots of payloads to themselves gives the payloads. -/
theorem Value.mapList_id : ∀ values : List (Value α), Value.mapList id values = values
  | [] => rfl
  | value :: rest => by rw [Value.mapList, Value.map_id value, Value.mapList_id rest]

end

/-- Forgetting the slots of the handles of a shape gives the shape. -/
theorem Shape.map_slotted (shape : Shape α) : shape.slotted.map Prod.snd = shape := by
  cases shape with
  | extension stamp custom =>
    cases custom <;> simp [Shape.slotted, Shape.map, Extension.map, Function.comp_def]
  | constant value =>
    have hvalue : (value.map fun root => (Slot.hidden, root)).map Prod.snd = value := by
      rw [Value.map_map]
      exact Value.map_id value
    rw [Shape.slotted, Shape.map, hvalue]
  | _ =>
    simp [Shape.slotted, Shape.map, Function.comp_def, Binding.mapList_slottedList]

/-- The children in their slots are the children. -/
theorem Shape.map_snd_children_slotted (shape : Shape α) :
    shape.slotted.children.map Prod.snd = shape.children := by
  rw [← children_map, map_slotted]

/-- What stands in a slot is a child. -/
theorem Shape.mem_children_of_lookup {shape : Shape α} {slot : Slot} {child : α}
    (h : shape.slotted.children.lookup slot = some child) : child ∈ shape.children := by
  obtain ⟨before, after, hsplit, -⟩ := List.lookup_eq_some_iff.mp h
  rw [← map_snd_children_slotted, hsplit]
  simp

namespace View

/-- What is in a cell after something was put in one was in that cell before, or was put there. -/
theorem mem_put {β : Type} {slot : Slot} {shown : β} {cells : List (Slot × β)} {cell : Slot × β}
    (h : cell ∈ put slot shown cells) : cell = (slot, shown) ∨ cell ∈ cells := by
  induction cells with
  | nil => exact .inl (List.mem_singleton.mp h)
  | cons first rest ih =>
    rw [put] at h
    split at h
    · exact (List.mem_cons.mp h).imp_right (List.mem_cons_of_mem _)
    · rcases List.mem_cons.mp h with rfl | h
      · exact .inr List.mem_cons_self
      · exact (ih h).imp_right (List.mem_cons_of_mem _)

end View

end ExprTree
