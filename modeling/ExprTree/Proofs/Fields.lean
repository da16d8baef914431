import ExprTree.Proofs.Slots

/-!
# Slots and fields

A slot names a field of a shape, and `Shape.field?` reads that field without looking at any other:
an operand by its name, an item by its number, and a binding by the numbers on the way to it. What
the walk over a shape finds in a slot is what stands in the field. So no two children share a slot,
no child is found in the slot of another, and none is left out.
-/

namespace ExprTree

variable {α β : Type}

/-! ## Fields -/

/-- What the member is assigned to. -/
def Binding.value? : Binding α → Option α
  | .assignment _ _ value => some value
  | .list _ _ _ | .nested _ _ _ => none

/-- An argument of one of the initializers. -/
def ElementInit.argument? (inits : List (ElementInit α)) (i j : Nat) : Option α :=
  inits[i]?.bind (·.arguments[j]?)

/-- The field that a slot names. -/
def Shape.field? (slot : Slot) : Shape α → Option α
  | .binary left conversion right _ _ =>
    match slot with
    | .left => left
    | .conversion => conversion
    | .right => right
    | _ => none
  | .unary operand _ =>
    match slot with
    | .operand => operand
    | _ => none
  | .call object _ arguments =>
    match slot with
    | .object => object
    | .argument i => arguments[i]?
    | _ => none
  | .conditional test ifTrue ifFalse =>
    match slot with
    | .test => test
    | .ifTrue => ifTrue
    | .ifFalse => ifFalse
    | _ => none
  | .invoke callee arguments =>
    match slot with
    | .callee => callee
    | .argument i => arguments[i]?
    | _ => none
  | .lambda body parameters _ _ =>
    match slot with
    | .body => body
    | .parameter i => parameters[i]?
    | _ => none
  | .listInit creation inits =>
    match slot with
    | .creation => creation
    | .initArgument i j => ElementInit.argument? inits i j
    | _ => none
  | .memberAccess object _ =>
    match slot with
    | .object => object
    | _ => none
  | .memberInit creation bindings =>
    match slot with
    | .creation => creation
    | .bindingValue path => (Binding.findIn? path bindings).bind (·.value?)
    | .bindingArgument path i j =>
      (Binding.findIn? path bindings).bind (ElementInit.argument? ·.initializers i j)
    | _ => none
  | .new _ arguments _ | .dynamic _ _ arguments =>
    match slot with
    | .argument i => arguments[i]?
    | _ => none
  | .newArray items =>
    match slot with
    | .item i => items[i]?
    | _ => none
  | .typeBinary operand _ =>
    match slot with
    | .operand => operand
    | _ => none
  | .block locals statements =>
    match slot with
    | .scopeVariable i => locals[i]?
    | .statement i => statements[i]?
    | _ => none
  | .goto _ _ value | .label _ value =>
    match slot with
    | .value => value
    | _ => none
  | .index object _ arguments =>
    match slot with
    | .object => object
    | .argument i => arguments[i]?
    | _ => none
  | .runtimeVariables locals =>
    match slot with
    | .scopeVariable i => locals[i]?
    | _ => none
  | .loop body _ _ =>
    match slot with
    | .body => body
    | _ => none
  | .switch subject cases otherwise _ =>
    match slot with
    | .subject => subject
    | .caseTest i j => cases[i]?.bind (·.tests[j]?)
    | .caseBody i => cases[i]?.map (·.body)
    | .otherwise => otherwise
    | _ => none
  | .tryCatch body handlers cleanup fault =>
    match slot with
    | .body => body
    | .handlerVariable i => handlers[i]?.bind (·.bound)
    | .handlerFilter i => handlers[i]?.bind (·.filter)
    | .handlerBody i => handlers[i]?.map (·.body)
    | .cleanup => cleanup
    | .fault => fault
    | _ => none
  | .extension _ _ | .debugInfo _ _ | .parameter _ _ | .constant _ | .default => none

/-! ## What a walk finds in a slot -/

variable {slot : Slot} {x : α}

/-- Something holds of an item with its number if it does of the first item, or of one of the
others. -/
theorem exists_getElem?_cons {item : β} {rest : List β} {P : Nat → β → Prop} :
    (∃ k b, (item :: rest)[k]? = some b ∧ P k b) ↔
      P 0 item ∨ ∃ k b, rest[k]? = some b ∧ P (k + 1) b := by
  constructor
  · rintro ⟨_ | k, b, hb, h⟩
    · obtain rfl := Option.some.inj hb
      exact .inl h
    · exact .inr ⟨k, b, hb, h⟩
  · rintro (h | ⟨k, b, hb, h⟩)
    · exact ⟨0, item, rfl, h⟩
    · exact ⟨k + 1, b, hb, h⟩

/-- What is in a slot of a list is the item with that number. -/
theorem mem_slotted {name : Nat → Slot} {i : Nat} {items : List α} :
    (slot, x) ∈ slotted name i items ↔
      ∃ k item, items[k]? = some item ∧ name (i + k) = slot ∧ item = x := by
  induction items generalizing i with
  | nil => simp [slotted]
  | cons item rest ih =>
    rw [slotted, List.mem_cons, ih, exists_getElem?_cons]
    simp only [Nat.add_zero, Nat.add_assoc, Nat.add_comm 1, Prod.mk.injEq]
    tauto

/-- What is in a slot of an initializer is the argument with these numbers. -/
theorem ElementInit.mem_slotted {name : Nat → Nat → Slot} {i : Nat}
    {inits : List (ElementInit α)} :
    (slot, x) ∈ argumentsOfList (ElementInit.slotted name i inits) ↔
      ∃ k init, inits[k]? = some init ∧ ∃ j item, init.arguments[j]? = some item ∧
        name (i + k) j = slot ∧ item = x := by
  induction inits generalizing i with
  | nil => simp [ElementInit.slotted, argumentsOfList]
  | cons init rest ih =>
    rw [ElementInit.slotted, argumentsOfList, List.mem_append, ih, ExprTree.mem_slotted,
      exists_getElem?_cons]
    simp only [Nat.zero_add, Nat.add_zero, Nat.add_assoc, Nat.add_comm 1]

/-- What is in a slot of a case is a test or the body of the case with that number. -/
theorem SwitchCase.mem_slotted {i : Nat} {branches : List (SwitchCase α)} :
    (slot, x) ∈ childrenOfList (SwitchCase.slotted i branches) ↔
      ∃ k branch, branches[k]? = some branch ∧
        ((∃ j item, branch.tests[j]? = some item ∧ .caseTest (i + k) j = slot ∧ item = x) ∨
          .caseBody (i + k) = slot ∧ branch.body = x) := by
  induction branches generalizing i with
  | nil => simp [SwitchCase.slotted, childrenOfList]
  | cons branch rest ih =>
    rw [SwitchCase.slotted, childrenOfList, children, List.mem_append, List.mem_append, ih,
      ExprTree.mem_slotted, List.mem_singleton, Prod.mk.injEq, exists_getElem?_cons,
      eq_comm (a := slot), eq_comm (a := x)]
    simp only [Nat.zero_add, Nat.add_zero, Nat.add_assoc, Nat.add_comm 1]

/-- What is in a slot of a handler is what the handler with that number holds there. -/
theorem Handler.mem_slotted {i : Nat} {handlers : List (Handler α)} :
    (slot, x) ∈ childrenOfList (Handler.slotted i handlers) ↔
      ∃ k handler, handlers[k]? = some handler ∧
        ((.handlerVariable (i + k) = slot ∧ handler.bound = some x) ∨
          (.handlerFilter (i + k) = slot ∧ handler.filter = some x) ∨
          .handlerBody (i + k) = slot ∧ handler.body = x) := by
  induction handlers generalizing i with
  | nil => simp [Handler.slotted, childrenOfList]
  | cons handler rest ih =>
    rw [Handler.slotted, childrenOfList, children, List.mem_append, ih, exists_getElem?_cons]
    refine or_congr ?_ ?_
    · simp only [List.mem_append, Option.mem_toList, Option.map_eq_some_iff, List.mem_singleton,
        Prod.mk.injEq, Nat.add_zero, or_assoc]
      refine or_congr ?_ (or_congr ?_ (and_congr eq_comm eq_comm)) <;> aesop
    · simp only [Nat.add_assoc, Nat.add_comm 1]

namespace Binding

/-- What stands in a binding itself, and not in one that is nested in it, with the slots that it has
if the numbers lead to the binding. -/
def own (path : List Nat) : Binding α → List (Slot × α)
  | .assignment _ _ value => [(.bindingValue path, value)]
  | .list _ _ initializers =>
    ElementInit.argumentsOfList (ElementInit.slotted (.bindingArgument path) 0 initializers)
  | .nested _ _ _ => []

/-- Numbers lead from a binding to itself and to where they lead from those nested in it. -/
theorem exists_find? {binding : Binding α} {P : List Nat → Binding α → Prop} :
    (∃ path inner, find? path binding = some inner ∧ P path inner) ↔
      P [] binding ∨ ∃ k next, binding.bindings[k]? = some next ∧
        ∃ path inner, find? path next = some inner ∧ P (k :: path) inner := by
  constructor
  · rintro ⟨_ | ⟨k, path⟩, inner, hinner, hP⟩
    · obtain rfl := Option.some.inj hinner
      exact .inl hP
    · obtain ⟨next, hnext, hpath⟩ := Option.bind_eq_some_iff.mp hinner
      exact .inr ⟨k, next, hnext, path, inner, hpath, hP⟩
  · rintro (hP | ⟨k, next, hnext, path, inner, hpath, hP⟩)
    · exact ⟨[], binding, rfl, hP⟩
    · exact ⟨k :: path, inner, Option.bind_eq_some_iff.mpr ⟨next, hnext, hpath⟩, hP⟩

mutual

/-- What is in a slot of a binding stands in one of the bindings to which numbers lead. -/
theorem mem_slotted : ∀ (path : List Nat) (binding : Binding α),
    (slot, x) ∈ (binding.slotted path).children ↔
      ∃ rest inner, find? rest binding = some inner ∧ (slot, x) ∈ own (path ++ rest) inner
  | path, .assignment stamp member value => by
    rw [exists_find?, Binding.slotted, children, List.append_nil]
    simp [own, bindings]
  | path, .list stamp member initializers => by
    rw [exists_find?, Binding.slotted, children, List.append_nil]
    simp [own, bindings]
  | path, .nested stamp member inner => by
    rw [Binding.slotted, children, mem_slottedList path 0 inner, exists_find?]
    simp [own, bindings]

/-- What is in a slot of a list of bindings stands in one of the bindings to which numbers lead. -/
theorem mem_slottedList : ∀ (path : List Nat) (i : Nat) (bindings : List (Binding α)),
    (slot, x) ∈ childrenOfList (Binding.slottedList path i bindings) ↔
      ∃ k binding, bindings[k]? = some binding ∧ ∃ rest inner,
        find? rest binding = some inner ∧ (slot, x) ∈ own (path ++ (i + k) :: rest) inner
  | _, _, [] => by simp [slottedList, childrenOfList]
  | path, i, binding :: rest => by
    rw [slottedList, childrenOfList, List.mem_append, mem_slotted (path ++ [i]) binding,
      mem_slottedList path (i + 1) rest, exists_getElem?_cons]
    simp only [Nat.add_zero, Nat.add_assoc, Nat.add_comm 1, List.append_assoc,
      List.singleton_append]

end

/-- What is in a slot of a binding itself is its value or an argument of its initializers. -/
theorem mem_own {path : List Nat} {binding : Binding α} :
    (slot, x) ∈ binding.own path ↔
      (.bindingValue path = slot ∧ binding.value? = some x) ∨
        ∃ i j, .bindingArgument path i j = slot ∧
          ElementInit.argument? binding.initializers i j = some x := by
  cases binding with
  | assignment stamp member value =>
    simp [own, value?, initializers, ElementInit.argument?, eq_comm]
  | list stamp member initializers =>
    simp only [own, value?, Binding.initializers, ElementInit.mem_slotted, ElementInit.argument?,
      Option.bind_eq_some_iff, Nat.zero_add]
    aesop
  | nested stamp member bindings =>
    simp [own, value?, initializers, ElementInit.argument?]

/-- What is in a slot of a list of bindings stands in the binding to which the numbers in the slot
lead. -/
theorem mem_slottedList_iff {bindings : List (Binding α)} :
    (slot, x) ∈ childrenOfList (Binding.slottedList [] 0 bindings) ↔
      ∃ path binding, findIn? path bindings = some binding ∧ (slot, x) ∈ binding.own path := by
  rw [mem_slottedList]
  constructor
  · rintro ⟨k, next, hnext, path, binding, hpath, hown⟩
    rw [List.nil_append, Nat.zero_add] at hown
    exact ⟨k :: path, binding, Option.bind_eq_some_iff.mpr ⟨next, hnext, hpath⟩, hown⟩
  · rintro ⟨_ | ⟨k, path⟩, binding, hfind, hown⟩
    · cases hfind
    · obtain ⟨next, hnext, hpath⟩ := Option.bind_eq_some_iff.mp hfind
      refine ⟨k, next, hnext, path, binding, hpath, ?_⟩
      rwa [List.nil_append, Nat.zero_add]

end Binding

mutual

/-- The roots of a mapped payload are the mapped roots. -/
theorem Value.roots_map (f : α → β) : ∀ value : Value α, (value.map f).roots = value.roots.map f
  | .scalar _ | .text _ _ | .object _ _ | .query _ _ => by simp [Value.map, Value.roots]
  | .sequence _ items => by
    rw [Value.map, Value.roots, Value.roots, Value.rootsOfList_mapList f items]

/-- The roots of mapped payloads are the mapped roots. -/
theorem Value.rootsOfList_mapList (f : α → β) : ∀ values : List (Value α),
    Value.rootsOfList (Value.mapList f values) = (Value.rootsOfList values).map f
  | [] => rfl
  | value :: rest => by
    rw [Value.mapList, Value.rootsOfList, Value.rootsOfList, Value.roots_map f value,
      Value.rootsOfList_mapList f rest, List.map_append]

end

namespace Shape

/-- What a walk finds in a slot is what stands in the field. -/
theorem mem_children_slotted {shape : Shape α} :
    (slot, x) ∈ shape.slotted.children ↔ shape.field? slot = some x := by
  cases shape with
  | memberInit creation bindings =>
    simp only [Shape.slotted, children, field?, List.mem_cons, Binding.mem_slottedList_iff,
      Binding.mem_own]
    split <;> grind [Option.bind_eq_some_iff]
  | _ =>
    simp only [Shape.slotted, children, field?, List.mem_cons, List.mem_append, Option.mem_toList,
      Option.map_eq_some_iff, mem_slotted, ElementInit.mem_slotted, SwitchCase.mem_slotted,
      Handler.mem_slotted, List.mem_nil_iff, ElementInit.argument?, reduceCtorEq]
    all_goals split <;> grind

/-- What a walk finds first in a slot is what stands in the field. -/
theorem lookup_children_slotted (shape : Shape α) (slot : Slot) :
    shape.slotted.children.lookup slot = shape.field? slot := by
  cases hfound : shape.slotted.children.lookup slot with
  | some child =>
    obtain ⟨before, after, hsplit, -⟩ := List.lookup_eq_some_iff.mp hfound
    exact (mem_children_slotted.mp (by simp [hsplit])).symm
  | none =>
    cases hfield : shape.field? slot with
    | none => rfl
    | some child =>
      have hne := List.lookup_eq_none_iff.mp hfound _ (mem_children_slotted.mpr hfield)
      simp at hne

/-- What is hidden stands in no field. -/
@[simp] theorem field?_hidden (shape : Shape α) : shape.field? .hidden = none := by
  cases shape <;> rfl

/-- The fields of the slots of a shape are its children. -/
theorem map_field?_slots (shape : Shape α) :
    shape.slots.map (field? · shape) = shape.children.map some := by
  rw [slots, ← map_snd_children_slotted shape, List.map_map, List.map_map]
  exact List.map_congr_left fun cell hc => mem_children_slotted.mp hc

/-- Shapes that are mapped alike at every handle are mapped alike. -/
theorem map_congr_handles {shape : Shape α} {f g : α → β} (h : ∀ x ∈ shape.handles, f x = g x) :
    shape.map f = shape.map g := by
  have hval : f ∘ Subtype.val = g ∘ (Subtype.val : {x // x ∈ shape.handles} → α) :=
    funext fun x => h x.val x.property
  rw [← map_attach shape, map_map, map_map, hval]

/-- A handle is in the slot of its field, unless it is hidden. -/
theorem hidden_or_field?_of_mem_handles {shape : Shape α} (h : (slot, x) ∈ shape.slotted.handles) :
    slot = .hidden ∨ shape.field? slot = some x := by
  cases shape with
  | extension stamp custom =>
    cases custom <;> simp_all [Shape.slotted, handles, Extension.operand?, Extension.map]
  | constant value =>
    have hroots : (slot, x) ∈ value.roots.map (Slot.hidden, ·) := by
      rwa [Shape.slotted, handles, Value.roots_map] at h
    obtain ⟨root, -, heq⟩ := List.mem_map.mp hroots
    exact .inl (congrArg Prod.fst heq).symm
  | _ => exact .inr (mem_children_slotted.mp h)

end Shape

end ExprTree
