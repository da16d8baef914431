import ExprTree.Proofs.Equivalence
import ExprTree.Proofs.Script

/-!
# The two policies for constants

Trees that are equal by reference are equal by value, provided that each host object in them is
equal to itself. The payloads that are left to the policy are of different forms, and then told
apart in any case, or they are two host objects. Sequences are compared item by item and scalars by
value under either policy, so it does not matter that one sequence with a NaN in it is the same
instance as itself and not equal to itself.

For the same reason the policies can only disagree at host objects that a comparison gets to. A
comparison that meets none, but in constants of a directly comparable type, is decided in the same
way under both.
-/

namespace ExprTree

variable {α β : Type}

/-! ## Equality by reference is finer -/

namespace HostObject

/-- Each stamp stands for one of the objects, and each of the objects takes itself for equal. -/
structure ReflexiveOn (hosts : Set (Stamp × HostObject)) : Prop where
  /-- Objects at one stamp are one object. -/
  unique : ∀ x ∈ hosts, ∀ y ∈ hosts, x.1 = y.1 → x = y
  /-- An object is equal to itself. -/
  refl : ∀ x ∈ hosts, x.2.equal x.1 x.1 x.2 = true

namespace ReflexiveOn

variable {hosts hosts' : Set (Stamp × HostObject)} {x y : Stamp × HostObject}

/-- Fewer objects are equal to themselves too. -/
theorem mono (h : ReflexiveOn hosts) (hs : hosts' ⊆ hosts) : ReflexiveOn hosts' where
  unique x hx y hy := h.unique x (hs hx) y (hs hy)
  refl x hx := h.refl x (hs hx)

/-- Objects that match by reference match by value. -/
theorem matched_byValue (h : ReflexiveOn hosts) (hx : x ∈ hosts) (hy : y ∈ hosts)
    (hm : matched .byReference x y = true) : matched .byValue x y = true := by
  have hxy : x = y := h.unique x hx y hy (of_decide_eq_true hm)
  rw [← hxy]
  exact h.refl x hx

end ReflexiveOn

end HostObject

namespace Value

variable {policy policy' : ConstantPolicy} {R S : α → β → Prop}

mutual

/-- Agreement goes over to another policy and relation where host objects and roots do. -/
theorem Agree.imp : ∀ {a : Value α} {b : Value β},
    (∀ x ∈ a.roots, ∀ y ∈ b.roots, R x y → S x y) →
    (∀ x ∈ a.objects, ∀ y ∈ b.objects, HostObject.matched policy x y = true →
      HostObject.matched policy' x y = true) →
    a.Agree policy R b → a.Agree policy' S b
  | .scalar _, .scalar _, _, _, h => h
  | .text _ _, .text _ _, _, _, h => h
  | .sequence _ _, .sequence _ _, hr, ho, h => AgreeList.imp hr ho h
  | .query x _, .query y _, hr, _, h => hr x (by simp [roots]) y (by simp [roots]) h
  | .object _ _, .object _ _, _, ho, h => ho _ (by simp [objects]) _ (by simp [objects]) h

/-- Agreement of lists goes over to another policy and relation where host objects and roots do. -/
theorem AgreeList.imp : ∀ {as : List (Value α)} {bs : List (Value β)},
    (∀ x ∈ rootsOfList as, ∀ y ∈ rootsOfList bs, R x y → S x y) →
    (∀ x ∈ objectsOfList as, ∀ y ∈ objectsOfList bs, HostObject.matched policy x y = true →
      HostObject.matched policy' x y = true) →
    AgreeList policy R as bs → AgreeList policy' S as bs
  | [], [], _, _, _ => trivial
  | _ :: _, _ :: _, hr, ho, h => by
    simp only [rootsOfList, objectsOfList, List.mem_append] at hr ho
    exact ⟨Agree.imp (fun x hx y hy => hr x (.inl hx) y (.inl hy))
        (fun x hx y hy => ho x (.inl hx) y (.inl hy)) h.1,
      AgreeList.imp (fun x hx y hy => hr x (.inr hx) y (.inr hy))
        (fun x hx y hy => ho x (.inr hx) y (.inr hy)) h.2⟩

end

end Value

/-- Agreement of shapes goes over to another policy and relation where host objects and what is in
plain sight do. -/
theorem Shape.Agree.imp {type : Ty} {policy policy' : ConstantPolicy} {R S : Node → Node → Prop}
    {a b : Shape Node} (hr : ∀ x ∈ a.contents, ∀ y ∈ b.contents, R x y → S x y)
    (ho : ∀ x ∈ a.objects, ∀ y ∈ b.objects, HostObject.matched policy x y = true →
      HostObject.matched policy' x y = true)
    (h : Agree type policy R a b) : Agree type policy' S a b := by
  refine ⟨h.skeleton, ?_, ?_⟩
  · refine forall₂_imp_of_mem h.children fun x hx y hy => ?_
    exact hr x (mem_contents_of_mem_children hx) y (mem_contents_of_mem_children hy)
  · refine forall₂_imp_of_mem h.payloads fun v hv w hw hvw => ?_
    unfold Value.AgreeAt at hvw ⊢
    split_ifs at hvw ⊢
    · exact hvw
    · refine hvw.imp (fun x hx y hy => ?_) fun x hx y hy => ?_
      · exact hr x (mem_contents_of_mem_roots hv hx) y (mem_contents_of_mem_roots hw hy)
      · exact ho x (mem_objects_of_mem_payloads hv hx) y (mem_objects_of_mem_payloads hw hy)

/-- Trees that are equal by reference are equal by value. -/
theorem Node.equals_byValue {heap : Heap} {a b : Node} (ha : a ∈ heap)
    (hl : HostObject.ReflexiveOn (a.hosts ∪ b.hosts)) (h : a.equals .byReference b = true) :
    a.equals .byValue b = true := by
  have hcases := (equals_iff ha b).mp h
  refine (equals_iff ha b).mpr (hcases.imp_right ?_)
  rintro ⟨hkind, htype, hagree⟩
  refine ⟨hkind, htype, hagree.imp ?_ ?_⟩
  · intro x hx y hy hxy
    have hx' : x ∈ heap := Heap.mem_of_mem_handles ha (Shape.mem_handles_of_mem_contents hx)
    have hl' : HostObject.ReflexiveOn (x.hosts ∪ y.hosts) := hl.mono
      (Set.union_subset_union (hosts_subset_of_mem_contents hx) (hosts_subset_of_mem_contents hy))
    exact equals_byValue hx' hl' hxy
  · intro x hx y hy hxy
    exact hl.matched_byValue (.inl (mem_hosts_of_mem_objects hx))
      (.inr (mem_hosts_of_mem_objects hy)) hxy
termination_by sizeOf a
decreasing_by exact sizeOf_lt_of_mem_handles (Shape.mem_handles_of_mem_contents hx)

/-! ## What is left to the policy -/

namespace Stage

/-- The policies give the same answer on what the stage leaves to them. -/
def Fixed : Stage α → Prop
  | byPolicy v w => v.same w = v.beq w
  | check _ _ | child _ _ | query _ _ | refuse _ _ => True

/-- The policies give the same answer on all that the stages leave to them. -/
def AllFixed (stages : List (Stage α)) : Prop := ∀ stage ∈ stages, stage.Fixed

@[simp] theorem allFixed_nil : AllFixed ([] : List (Stage α)) := by simp [AllFixed]

@[simp] theorem allFixed_cons_iff {stage : Stage α} {stages : List (Stage α)} :
    AllFixed (stage :: stages) ↔ stage.Fixed ∧ AllFixed stages :=
  List.forall_mem_cons

@[simp] theorem allFixed_append_iff {stages stages' : List (Stage α)} :
    AllFixed (stages ++ stages') ↔ AllFixed stages ∧ AllFixed stages' :=
  List.forall_mem_append

end Stage

open Stage

/-- Optional children are not left to the policy. -/
theorem allFixed_optionStages (a : Option α) (b : Option Node) : AllFixed (optionStages a b) := by
  cases a <;> cases b <;> simp [optionStages, Fixed]

/-- Items are not left to the policy if no part of them is. -/
theorem allFixed_itemStages {γ δ : Type} {stages : γ → δ → List (Stage α)}
    (h : ∀ x y, AllFixed (stages x y)) (as : List γ) (bs : List δ) :
    AllFixed (itemStages stages as bs) := by
  induction as generalizing bs with
  | nil => simp [itemStages]
  | cons a as ih =>
    cases bs with
    | nil => simp [itemStages]
    | cons b bs =>
      rw [itemStages, List.zipWith_cons_cons, List.flatten_cons, allFixed_append_iff]
      exact ⟨h a b, ih bs⟩

/-- Children are not left to the policy. -/
theorem allFixed_childStages (as : List α) (bs : List Node) : AllFixed (childStages as bs) := by
  induction as generalizing bs with
  | nil => simp [childStages]
  | cons a as ih =>
    cases bs with
    | nil => simp [childStages]
    | cons b bs =>
      rw [childStages, List.zipWith_cons_cons, allFixed_cons_iff]
      exact ⟨trivial, ih bs⟩

/-- Initializers are not left to the policy. -/
theorem ElementInit.allFixed_stages (a : ElementInit α) (b : ElementInit Node) :
    AllFixed (a.stages b) := by
  simp [stages, Fixed, allFixed_childStages]

mutual

/-- Bindings are not left to the policy. -/
theorem Binding.allFixed_stages : ∀ (a : Binding α) (b : Binding Node), AllFixed (a.stages b)
  | .list _ _ as, .list _ _ bs => by
    simp [stages, Fixed, allFixed_itemStages ElementInit.allFixed_stages]
  | .nested _ _ as, .nested _ _ bs => by
    simp [stages, Fixed, Binding.allFixed_listStages as bs]
  | .assignment _ _ _, .assignment _ _ _
  | .assignment _ _ _, .list _ _ _ | .assignment _ _ _, .nested _ _ _
  | .list _ _ _, .assignment _ _ _ | .list _ _ _, .nested _ _ _
  | .nested _ _ _, .assignment _ _ _ | .nested _ _ _, .list _ _ _ => by simp [stages, Fixed]

/-- Lists of bindings are not left to the policy. -/
theorem Binding.allFixed_listStages : ∀ (as : List (Binding α)) (bs : List (Binding Node)),
    AllFixed (listStages as bs)
  | [], _ => by simp [listStages]
  | _ :: _, [] => by simp [listStages]
  | a :: as, b :: bs => by
    rw [listStages, allFixed_append_iff]
    exact ⟨Binding.allFixed_stages a b, Binding.allFixed_listStages as bs⟩

end

/-- Cases are not left to the policy. -/
theorem SwitchCase.allFixed_stages (a : SwitchCase α) (b : SwitchCase Node) :
    AllFixed (a.stages b) := by
  simp [stages, Fixed, allFixed_childStages]

/-- Handlers are not left to the policy. -/
theorem Handler.allFixed_stages (a : Handler α) (b : Handler Node) : AllFixed (a.stages b) := by
  simp [stages, Fixed, allFixed_optionStages]

namespace Value

mutual

/-- The policies agree on payloads one of which has no host objects. -/
theorem allFixed_stages {node : α → Node} : ∀ {a : Value α} {b : Value Node},
    a.objects = [] ∨ b.objects = [] → AllFixed (a.stages node b)
  | .sequence _ as, .sequence _ bs, h => by
    simp only [objects] at h
    rw [stages, allFixed_cons_iff]
    exact ⟨trivial, allFixed_listStages h⟩
  | .object _ _, .object _ _, h => by simp [objects] at h
  | .query _ _, .query _ _, _ | .scalar _, _, _ | .text _ _, _, _ => by simp [stages, Fixed]
  -- payloads of different forms are neither one instance nor equal
  | .query _ _, .scalar _, _ | .query _ _, .text _ _, _ | .query _ _, .sequence _ _, _
  | .query _ _, .object _ _, _ | .sequence _ _, .scalar _, _ | .sequence _ _, .text _ _, _
  | .sequence _ _, .query _ _, _ | .sequence _ _, .object _ _, _ | .object _ _, .scalar _, _
  | .object _ _, .text _ _, _ | .object _ _, .sequence _ _, _ | .object _ _, .query _ _, _ => by
    simp [stages, Fixed, map, same, sameInstance, beq]

/-- The policies agree on lists of payloads one of which has no host objects. -/
theorem allFixed_listStages {node : α → Node} : ∀ {as : List (Value α)}
    {bs : List (Value Node)},
    objectsOfList as = [] ∨ objectsOfList bs = [] → AllFixed (listStages node as bs)
  | [], _, _ => by simp [listStages]
  | _ :: _, [], _ => by simp [listStages]
  | a :: as, b :: bs, h => by
    simp only [objectsOfList, List.append_eq_nil_iff] at h
    rw [listStages, allFixed_append_iff]
    exact ⟨allFixed_stages (h.imp And.left And.left),
      allFixed_listStages (h.imp And.right And.right)⟩

end

mutual

/-- The host objects of a payload do not depend on the handles. -/
theorem objects_map (f : α → β) : ∀ a : Value α, (a.map f).objects = a.objects
  | .sequence _ items => by simp only [map, objects, objectsOfList_mapList f items]
  | .scalar _ | .text _ _ | .query _ _ | .object _ _ => by simp only [map, objects]

/-- The host objects of a list of payloads do not depend on the handles. -/
theorem objectsOfList_mapList (f : α → β) : ∀ as : List (Value α),
    objectsOfList (mapList f as) = objectsOfList as
  | [] => by simp only [mapList, objectsOfList]
  | a :: as => by simp only [mapList, objectsOfList, objects_map f a, objectsOfList_mapList f as]

end

end Value

namespace Shape

/-- The host objects of a shape do not depend on the handles. -/
theorem objects_map (f : α → β) (shape : Shape α) : (shape.map f).objects = shape.objects := by
  rw [objects, objects, payloads_map, List.flatMap_map]
  simp only [Value.objects_map]

/-- The policies agree on shapes of a directly comparable type, and on shapes one of which has no
host objects. -/
theorem allFixed_stages {kind : Kind} {type : Ty} {node : α → Node} {s : Shape α} {t : Shape Node}
    (h : type.isDirectlyComparable = true ∨ s.objects = [] ∨ t.objects = []) :
    AllFixed (s.stages kind type node t) := by
  by_cases hfam : s.family = t.family
  · induction s, t, hfam using cases_of_family_eq with
    | constant v v' =>
      rw [stages, Value.stagesAt]
      split
      · simp [Fixed]
      · rename_i htype
        have hobjects : v.objects = [] ∨ v'.objects = [] := by
          simpa [htype, objects, payloads] using h
        exact Value.allFixed_stages hobjects
    | listInit c is c' is' =>
      simp [stages, Fixed, allFixed_itemStages ElementInit.allFixed_stages]
    | memberInit c bs c' bs' => simp [stages, Fixed, Binding.allFixed_listStages]
    | switch s cs o m s' cs' o' m' =>
      simp [stages, Fixed, allFixed_itemStages SwitchCase.allFixed_stages, allFixed_optionStages]
    | tryCatch b hs c f b' hs' c' f' =>
      simp [stages, Fixed, allFixed_itemStages Handler.allFixed_stages, allFixed_optionStages]
    | _ => simp [stages, Fixed, allFixed_childStages, allFixed_optionStages]
  · simp [stages_of_family_ne hfam, Fixed]

end Shape

/-! ## Scripts under two policies -/

/-- Nothing that two nodes of one kind and type hold is left to the policy: their type is directly
comparable, or one of them holds no host objects. -/
def Node.FreeOfPolicy (a b : Node) : Prop :=
  a.type.isDirectlyComparable = true ∨ a.shape.objects = [] ∨ b.shape.objects = []

instance (a b : Node) : Decidable (a.FreeOfPolicy b) := inferInstanceAs (Decidable (_ ∨ _ ∨ _))

namespace Step

/-- The step does not turn to nodes that leave anything to the policy. -/
def FreeOfPolicy : Step → Prop
  | inspect a b => a.FreeOfPolicy b
  | check _ _ | refuse _ _ | enter _ => True

instance : (step : Step) → Decidable step.FreeOfPolicy
  | inspect a b => inferInstanceAs (Decidable (a.FreeOfPolicy b))
  | check _ _ | refuse _ _ | enter _ => inferInstanceAs (Decidable True)

/-- If the first steps leave nothing to the policy as far as they are executed, the second ones pass
in the same cases. -/
def Follow (steps steps' : List Step) : Prop :=
  (∀ step ∈ executed steps, step.FreeOfPolicy) → (Pass steps ↔ Pass steps')

variable {steps steps' rest rest' : List Step}

/-- Steps that are executed are executed also if others follow. -/
theorem executed_subset_append (steps rest : List Step) :
    executed steps ⊆ executed (steps ++ rest) := by
  rcases pass_or_halts steps with hpass | ⟨passed, step, after, halt, rfl, hpassed, hstep⟩
  · rw [executed_of_pass hpass, executed_append hpass]
    exact List.subset_append_left _ _
  · rw [List.append_assoc, List.cons_append, executed_append_cons hpassed hstep,
      executed_append_cons hpassed hstep]
    exact List.Subset.refl _

/-- Steps pass in the cases in which they pass. -/
theorem follow_refl (steps : List Step) : Follow steps steps := fun _ => Iff.rfl

/-- What follows can be put in sequence. -/
theorem Follow.append (h : Follow steps steps') (h' : Follow rest rest') :
    Follow (steps ++ rest) (steps' ++ rest') := by
  intro hfree
  have hsteps : Pass steps ↔ Pass steps' := h fun step hs =>
    hfree step (executed_subset_append steps rest hs)
  -- the rest is executed only if the steps before it pass
  have hrest : Pass steps → (Pass rest ↔ Pass rest') := by
    intro hpass
    refine h' fun step hs => hfree step ?_
    rw [executed_append hpass]
    exact List.mem_append_right _ hs
  rw [pass_append_iff, pass_append_iff, ← hsteps]
  exact and_congr_right hrest

/-- What follows stage by stage follows as a whole. -/
theorem follow_flatMap {f g : Stage α → List Step} {stages : List (Stage α)}
    (h : ∀ stage ∈ stages, Follow (f stage) (g stage)) :
    Follow (stages.flatMap f) (stages.flatMap g) := by
  induction stages with
  | nil => exact follow_refl []
  | cons stage stages ih =>
    rw [List.flatMap_cons, List.flatMap_cons]
    have hstages := ih fun stage ht => h stage (List.mem_cons_of_mem _ ht)
    exact (h stage List.mem_cons_self).append hstages

end Step

open Step

/-- On payloads for which the policies give the same answer, their checks follow each other. -/
theorem follow_check {v w : Value Node} (h : v.same w = v.beq w) (policy policy' : ConstantPolicy) :
    Follow [policy.check v w] [policy'.check v w] := by
  intro _
  cases policy <;> cases policy' <;> simp [ConstantPolicy.check, halt?, h]

/-- The script under one policy follows that under another. -/
theorem Node.follow_script (policy policy' : ConstantPolicy) (a b : Node) :
    Follow (a.script policy b) (a.script policy' b) := by
  have hparts : ∀ (x : {child // child ∈ a.shape.handles}) (other : Node),
      Follow (x.val.script policy other) (x.val.script policy' other) := by
    intro x other
    exact follow_script policy policy' x.val other
  have hstages : a.FreeOfPolicy b →
      ∀ stage ∈ a.shape.attach.stages a.kind a.type Subtype.val b.shape,
      Follow (stage.steps policy Subtype.val fun x other => x.val.script policy other)
        (stage.steps policy' Subtype.val fun x other => x.val.script policy' other) := by
    intro hab stage ht
    have hobjects : a.shape.attach.objects = a.shape.objects := by
      rw [← Shape.objects_map Subtype.val, Shape.map_attach]
    have hfixed : AllFixed (a.shape.attach.stages a.kind a.type Subtype.val b.shape) := by
      refine Shape.allFixed_stages ?_
      rw [hobjects]
      exact hab
    cases stage with
    | check condition aspect => exact follow_refl _
    | refuse kind found => exact follow_refl _
    | child x y => exact hparts x y
    | query x y => exact (follow_refl [.enter x.val]).append (hparts x y)
    | byPolicy v w => exact follow_check (hfixed _ ht) policy policy'
  rw [script, script]
  split
  · exact follow_refl []
  · refine (follow_refl [_, _]).append ?_
    -- here the comparison gets to what the nodes hold, so nothing of it is left to the policy
    intro hfree
    have hab : a.FreeOfPolicy b := hfree (.inspect a b) (by simp [executed])
    exact (follow_refl [.inspect a b]).append (follow_flatMap (hstages hab)) hfree
termination_by sizeOf a
decreasing_by exact sizeOf_lt_of_mem_handles x.property

namespace Node

variable {heap : Heap} {a b : Node}

/-- The policy by reference refines the policy by value, and the two differ at host objects only.
Trees that are equal by reference are equal by value if each host object is equal to itself. The
answers are the same if, as far as the comparison runs under one of the policies, constants of types
that are not directly comparable hold no host objects; it is enough that one of the two does not. -/
theorem byReference_refines_byValue (ha : a ∈ heap) :
    (HostObject.ReflexiveOn (a.hosts ∪ b.hosts) → a.equals .byReference b = true →
        a.equals .byValue b = true) ∧
      ∀ policy, (∀ step ∈ executed (a.script policy b), step.FreeOfPolicy) →
        a.equals .byReference b = a.equals .byValue b := by
  refine ⟨equals_byValue ha, ?_⟩
  intro policy hfree
  have hequals : ∀ policy', a.equals policy' b = true ↔ Pass (a.script policy b) := by
    intro policy'
    rw [equals_iff_pass ha]
    exact (follow_script policy policy' a b hfree).symm
  rw [Bool.eq_iff_iff, hequals .byReference, hequals .byValue]

/-- A constant that holds the handle at the stamp 0 and a number in a sequence. -/
def handleConstant (first : Stamp) : Node :=
  ⟨first + 1, .constant, .array .void 1,
    .constant (.sequence first [.object 0 (.handle "h"), .scalar (.i32 1)])⟩

/-- The one host object of the constant is the handle. -/
theorem hosts_handleConstant_subset (first : Stamp) :
    (handleConstant first).hosts ⊆ {x | x = (0, .handle "h")} := by
  refine hosts_subset_iff.mpr ⟨?_, ?_⟩
  · simp [handleConstant, Shape.objects, Shape.payloads, Value.objects, Value.objectsOfList]
  · simp [handleConstant, Shape.contents, Shape.handles, Value.roots, Value.rootsOfList]

/-- A handle is equal to itself. -/
theorem reflexiveOn_handle : HostObject.ReflexiveOn {x | x = (0, .handle "h")} := by
  constructor
  · intro x hx y hy _
    rw [Set.mem_ofPred_eq] at hx hy
    rw [hx, hy]
  · intro x hx
    rw [Set.mem_ofPred_eq] at hx
    rw [hx]
    rfl

/-- A block of a constant with a number and of a constant with a handle. -/
def numberAndHandle (first : Stamp) (number : Int32) : Node :=
  ⟨first + 3, .block, .void, .block []
    [⟨first, .constant, .i32, .constant (.scalar (.i32 number))⟩,
      ⟨first + 2, .constant, .object, .constant (.object (first + 1) (.handle "h"))⟩]⟩

/-- Two sequences that share a handle are equal under both policies. Two blocks with different
numbers and different handles are told apart under both before the handles are looked at. -/
theorem byReference_refines_byValue_handles :
    (∃ heap : Heap, handleConstant 1 ∈ heap ∧
      HostObject.ReflexiveOn ((handleConstant 1).hosts ∪ (handleConstant 3).hosts) ∧
      (handleConstant 1).equals .byReference (handleConstant 3) = true ∧
      (handleConstant 1).equals .byValue (handleConstant 3) = true) ∧
    ∃ heap : Heap, numberAndHandle 0 1 ∈ heap ∧
      (∀ step ∈ executed ((numberAndHandle 0 1).script .byValue (numberAndHandle 4 2)),
        step.FreeOfPolicy) ∧
      (numberAndHandle 0 1).equals .byReference (numberAndHandle 4 2) =
        (numberAndHandle 0 1).equals .byValue (numberAndHandle 4 2) := by
  constructor
  · obtain ⟨heap, -, -, ha⟩ := Heap.empty.exists_insert (handleConstant 1) (Nat.zero_le _)
      (by simp [handleConstant, Shape.handles, Value.roots, Value.rootsOfList])
    have hl : HostObject.ReflexiveOn ((handleConstant 1).hosts ∪ (handleConstant 3).hosts) :=
      reflexiveOn_handle.mono
        (Set.union_subset (hosts_handleConstant_subset 1) (hosts_handleConstant_subset 3))
    have hequal : (handleConstant 1).equals .byReference (handleConstant 3) = true := by
      decide +kernel
    exact ⟨heap, ha, hl, hequal, (byReference_refines_byValue ha).1 hl hequal⟩
  · obtain ⟨heap₁, -, hnext₁, hn⟩ := Heap.empty.exists_insert
      ⟨0, .constant, .i32, .constant (.scalar (.i32 1))⟩ (Nat.le_refl _)
      (by simp [Shape.handles, Value.roots])
    obtain ⟨heap₂, hle₂, hnext₂, hh⟩ := heap₁.exists_insert
      ⟨2, .constant, .object, .constant (.object 1 (.handle "h"))⟩ (by simp [hnext₁])
      (by simp [Shape.handles, Value.roots])
    obtain ⟨heap₃, -, -, ha⟩ := heap₂.exists_insert (numberAndHandle 0 1)
      (by simp [hnext₂, numberAndHandle])
      (by simp [numberAndHandle, Shape.handles, Shape.children, hh, Heap.mem_of_le hle₂ hn])
    have hfree : ∀ step ∈ executed ((numberAndHandle 0 1).script .byValue (numberAndHandle 4 2)),
        step.FreeOfPolicy := by
      decide +kernel
    exact ⟨heap₃, ha, hfree, (byReference_refines_byValue ha).2 .byValue hfree⟩

end Node

end ExprTree
