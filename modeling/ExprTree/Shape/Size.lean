import ExprTree.Shape.Children

/-!
# Handles are smaller than their shape

Recursion over a tree goes from a node to the handles of its shape. It ends because each handle is
smaller than the shape that holds it, however deep the handle lies in bindings or payloads.
-/

namespace ExprTree

variable {α : Type} [SizeOf α]

/-- The content of an option is smaller than the option. -/
theorem sizeOf_lt_of_mem_toList {a : α} {o : Option α} (h : a ∈ o.toList) :
    sizeOf a < sizeOf o := by
  cases o with
  | none => simp at h
  | some b => simp at h; subst h; simp

namespace Value

mutual

/-- A root is smaller than the payload. -/
theorem sizeOf_lt_of_mem_roots {a : α} : ∀ {value : Value α}, a ∈ value.roots →
    sizeOf a < sizeOf value
  | .scalar _, h | .text _ _, h | .object _ _, h => by simp [roots] at h
  | .query root element, h => by simp [roots] at h; subst h; simp; omega
  | .sequence stamp items, h => by
    have := sizeOf_lt_of_mem_rootsOfList (show a ∈ rootsOfList items by simpa [roots] using h)
    simp
    omega

/-- A root is smaller than the list of payloads. -/
theorem sizeOf_lt_of_mem_rootsOfList {a : α} : ∀ {values : List (Value α)},
    a ∈ rootsOfList values → sizeOf a < sizeOf values
  | [], h => by simp [rootsOfList] at h
  | value :: rest, h => by
    rw [rootsOfList, List.mem_append] at h
    rcases h with h | h
    · have := sizeOf_lt_of_mem_roots h
      simp
      omega
    · have := sizeOf_lt_of_mem_rootsOfList h
      simp
      omega

end

end Value

namespace ElementInit

/-- An argument is smaller than the list of initializers. -/
theorem sizeOf_lt_of_mem {a : α} : ∀ {inits : List (ElementInit α)},
    a ∈ argumentsOfList inits → sizeOf a < sizeOf inits
  | [], h => by simp [argumentsOfList] at h
  | ⟨stamp, method, arguments⟩ :: rest, h => by
    simp only [argumentsOfList, List.mem_append] at h
    rcases h with h | h
    · have := List.sizeOf_lt_of_mem h
      simp
      omega
    · have := sizeOf_lt_of_mem h
      simp
      omega

end ElementInit

namespace Binding

mutual

/-- A handle is smaller than the binding. -/
theorem sizeOf_lt_of_mem {a : α} : ∀ {binding : Binding α}, a ∈ binding.children →
    sizeOf a < sizeOf binding
  | .assignment stamp member value, h => by
    simp only [children, List.mem_singleton] at h
    subst h
    simp only [assignment.sizeOf_spec]
    omega
  | .list stamp member initializers, h => by
    have := ElementInit.sizeOf_lt_of_mem
      (show a ∈ ElementInit.argumentsOfList initializers by simpa [children] using h)
    simp
    omega
  | .nested stamp member bindings, h => by
    have := sizeOf_lt_of_mem_list (show a ∈ childrenOfList bindings by simpa [children] using h)
    simp
    omega

/-- A handle is smaller than the list of bindings. -/
theorem sizeOf_lt_of_mem_list {a : α} : ∀ {bindings : List (Binding α)},
    a ∈ childrenOfList bindings → sizeOf a < sizeOf bindings
  | [], h => by simp [childrenOfList] at h
  | binding :: rest, h => by
    rw [childrenOfList, List.mem_append] at h
    rcases h with h | h
    · have := sizeOf_lt_of_mem h
      simp
      omega
    · have := sizeOf_lt_of_mem_list h
      simp
      omega

end

end Binding

namespace SwitchCase

/-- A handle is smaller than the list of cases. -/
theorem sizeOf_lt_of_mem {a : α} : ∀ {branches : List (SwitchCase α)},
    a ∈ childrenOfList branches → sizeOf a < sizeOf branches
  | [], h => by simp [childrenOfList] at h
  | ⟨stamp, tests, body⟩ :: rest, h => by
    simp only [childrenOfList, children, List.mem_append, List.mem_singleton] at h
    rcases h with (h | h) | h
    · have := List.sizeOf_lt_of_mem h
      simp
      omega
    · subst h
      simp
      omega
    · have := sizeOf_lt_of_mem h
      simp
      omega

end SwitchCase

namespace Handler

/-- A handle is smaller than the list of handlers. -/
theorem sizeOf_lt_of_mem {a : α} : ∀ {handlers : List (Handler α)},
    a ∈ childrenOfList handlers → sizeOf a < sizeOf handlers
  | [], h => by simp [childrenOfList] at h
  | ⟨stamp, caught, bound, filter, body⟩ :: rest, h => by
    simp only [childrenOfList, children, List.mem_append, List.mem_singleton] at h
    rcases h with ((h | h) | h) | h
    · have := sizeOf_lt_of_mem_toList h
      simp
      omega
    · have := sizeOf_lt_of_mem_toList h
      simp
      omega
    · subst h
      simp
      omega
    · have := sizeOf_lt_of_mem h
      simp
      omega

end Handler

namespace Shape

/-- A handle is smaller than the shape. -/
theorem sizeOf_lt_of_mem_handles {a : α} {shape : Shape α} (h : a ∈ shape.handles) :
    sizeOf a < sizeOf shape := by
  cases shape with
  | binary left conversion right method lifted =>
    simp only [handles, children, List.mem_cons, List.mem_append, List.not_mem_nil, or_false] at h
    rcases h with rfl | h | rfl
    · simp; omega
    · have := sizeOf_lt_of_mem_toList h; simp; omega
    · simp; omega
  | unary operand method =>
    have := sizeOf_lt_of_mem_toList h; simp; omega
  | call object method arguments =>
    rcases List.mem_append.mp h with h | h
    · have := sizeOf_lt_of_mem_toList h; simp; omega
    · have := List.sizeOf_lt_of_mem h; simp; omega
  | conditional test ifTrue ifFalse =>
    simp only [handles, children, List.mem_cons, List.not_mem_nil, or_false] at h
    rcases h with rfl | rfl | rfl <;> simp <;> omega
  | invoke callee arguments =>
    rcases List.mem_cons.mp h with rfl | h
    · simp; omega
    · have := List.sizeOf_lt_of_mem h; simp; omega
  | lambda body parameters name tailCall =>
    rcases List.mem_cons.mp h with rfl | h
    · simp; omega
    · have := List.sizeOf_lt_of_mem h; simp; omega
  | listInit creation initializers =>
    rcases List.mem_cons.mp h with rfl | h
    · simp; omega
    · have := ElementInit.sizeOf_lt_of_mem h; simp; omega
  | memberAccess object member =>
    have := sizeOf_lt_of_mem_toList h; simp; omega
  | memberInit creation bindings =>
    rcases List.mem_cons.mp h with rfl | h
    · simp; omega
    · have := Binding.sizeOf_lt_of_mem_list h; simp; omega
  | new constructor arguments members =>
    have := List.sizeOf_lt_of_mem (show a ∈ arguments from h); simp; omega
  | newArray items =>
    have := List.sizeOf_lt_of_mem (show a ∈ items from h); simp; omega
  | typeBinary operand type =>
    rcases List.mem_singleton.mp h with rfl; simp; omega
  | block locals statements =>
    rcases List.mem_append.mp h with h | h <;> have := List.sizeOf_lt_of_mem h <;> simp <;> omega
  | dynamic binder delegate arguments =>
    have := List.sizeOf_lt_of_mem (show a ∈ arguments from h); simp; omega
  | goto jump target value =>
    have := sizeOf_lt_of_mem_toList h; simp; omega
  | index object indexer arguments =>
    rcases List.mem_cons.mp h with rfl | h
    · simp; omega
    · have := List.sizeOf_lt_of_mem h; simp; omega
  | label target value =>
    have := sizeOf_lt_of_mem_toList h; simp; omega
  | runtimeVariables locals =>
    have := List.sizeOf_lt_of_mem (show a ∈ locals from h); simp; omega
  | loop body breakTarget continueTarget =>
    rcases List.mem_singleton.mp h with rfl; simp; omega
  | switch subject cases otherwise comparison =>
    simp only [handles, children, List.mem_cons, List.mem_append] at h
    rcases h with rfl | h | h
    · simp; omega
    · have := SwitchCase.sizeOf_lt_of_mem h; simp; omega
    · have := sizeOf_lt_of_mem_toList h; simp; omega
  | tryCatch body handlers cleanup fault =>
    simp only [handles, children, List.mem_cons, List.mem_append] at h
    rcases h with rfl | (h | h) | h
    · simp; omega
    · have := Handler.sizeOf_lt_of_mem h; simp; omega
    · have := sizeOf_lt_of_mem_toList h; simp; omega
    · have := sizeOf_lt_of_mem_toList h; simp; omega
  | extension stamp custom =>
    have := sizeOf_lt_of_mem_toList h
    cases custom <;> simp_all [Extension.operand?]
    all_goals omega
  | constant value =>
    have := Value.sizeOf_lt_of_mem_roots h; simp; omega
  | debugInfo | parameter | default => simp [handles, children] at h

end Shape

end ExprTree
