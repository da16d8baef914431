import ExprTree.Proofs.RunOrder
import ExprTree.Traversal.Visit

/-!
# The order in which a visit reports

A walk of a shape runs its action on the list of children. Where no extension can be reduced, the
nodes that a visit meets are therefore those of the tree, in the order of `Node.nodes`: backward for
a visit after the nodes below, forward for a visit before them. A search whose test never passes
meets the same nodes as a visit that is never cut short.
-/

namespace ExprTree

variable {α σ : Type} {m : Type → Type} [Monad m]

/-! ## Walks of shapes -/

section Shapes

variable [LawfulMonad m] (f : α → m PUnit)

/-- The arguments of initializers are walked in order. -/
theorem ElementInit.walkList_eq_forM (inits : List (ElementInit α)) :
    walkList f inits = forM (argumentsOfList inits) f := by
  induction inits with
  | nil => rfl
  | cons init rest ih => simp [walkList, argumentsOfList, ih]

mutual

/-- The handles of a binding are walked in order. -/
theorem Binding.walk_eq_forM : ∀ binding : Binding α, binding.walk f = forM binding.children f
  | .assignment _ _ _ => by simp [walk, children]
  | .list _ _ inits => by simp [walk, children, ElementInit.walkList_eq_forM]
  | .nested _ _ bindings => by simp [walk, children, walkList_eq_forM bindings]

/-- The handles of bindings are walked in order. -/
theorem Binding.walkList_eq_forM : ∀ bindings : List (Binding α),
    walkList f bindings = forM (childrenOfList bindings) f
  | [] => by simp [walkList, childrenOfList]
  | binding :: rest => by
    simp [walkList, childrenOfList, Binding.walk_eq_forM binding, walkList_eq_forM rest]

end

/-- The handles of cases are walked in order. -/
theorem SwitchCase.walkList_eq_forM (branches : List (SwitchCase α)) :
    walkList f branches = forM (childrenOfList branches) f := by
  induction branches with
  | nil => rfl
  | cons branch rest ih => simp [walkList, childrenOfList, children, ih]

/-- An optional child is walked as a list. -/
theorem forM_option_eq_forM (item : Option α) : item.forM f = forM item.toList f := by
  cases item <;> simp [Option.forM]

/-- The handles of handlers are walked in order. -/
theorem Handler.walkList_eq_forM (handlers : List (Handler α)) :
    walkList f handlers = forM (childrenOfList handlers) f := by
  induction handlers with
  | nil => rfl
  | cons handler rest ih => simp [walkList, childrenOfList, children, forM_option_eq_forM, ih]

/-- A shape is walked child by child. -/
theorem Shape.walk_eq_forM (shape : Shape α) : shape.walk f = forM shape.children f := by
  cases shape <;> simp [walk, children, forM_option_eq_forM, ElementInit.walkList_eq_forM,
    Binding.walkList_eq_forM, SwitchCase.walkList_eq_forM, Handler.walkList_eq_forM]

end Shapes

/-! ## Walks of nodes -/

/-- A list that is walked is passed item by item. -/
theorem Passes.of_forM {f : α → StateT σ Supply PUnit} {items : List α} {w w' : Moment σ}
    {u : PUnit} (h : Runs (forM items f) w u w') : ∃ us, Passes f w items us w' := by
  induction items generalizing w with
  | nil =>
    rw [List.forM_nil, runs_pure] at h
    rw [h.2]
    exact ⟨[], .done⟩
  | cons x rest ih =>
    rw [List.forM_cons, runs_bind] at h
    obtain ⟨v, w₁, hx, hrest⟩ := h
    obtain ⟨us, hp⟩ := ih hrest
    exact ⟨v :: us, .call hx hp⟩

namespace Node

/-- The node is no extension that can be reduced. -/
def IsIrreducible (n : Node) : Prop :=
  ∀ stamp custom, n.shape = .extension stamp custom → ∀ next, custom.reduceAt next = none

variable {n : Node}

/-- The children of a node that cannot be reduced are passed in order. -/
theorem walkChildren_passes {f : Node → StateT σ Supply PUnit} {w w' : Moment σ} {u : PUnit}
    (hn : n.IsIrreducible) (h : Runs (n.walkChildren f) w u w') :
    ∃ us, Passes f w n.shape.children us w' := by
  unfold walkChildren walkBelow at h
  split at h
  case h_1 stamp custom hshape =>
    simp only [runs_bind, runs_fresh] at h
    obtain ⟨next, w₁, ⟨rfl, rfl⟩, h⟩ := h
    split at h
    case h_1 reduced hr =>
      rw [hn stamp custom hshape] at hr
      simp at hr
    case h_2 =>
      rw [runs_pure] at h
      rw [h.2, hshape]
      exact ⟨[], .draw .done⟩
  case h_2 =>
    rw [Shape.walk_eq_forM] at h
    obtain ⟨us, hp⟩ := Passes.of_forM h
    have hmap := hp.map (g := Subtype.val) (f := f)
    rw [Shape.children_attach] at hmap
    exact ⟨us, hmap⟩

/-- A visit runs its step on the node and the walk of its children. -/
theorem visitWith_eq [MonadStamp m] (step : Node → m PUnit → m PUnit) (n : Node) :
    n.visitWith step = step n (n.walkChildren (visitWith step)) := by
  rw [visitWith]
  rfl

/-! ## What a visit reports -/

/-- Notes the node after those noted before. -/
def report (n : Node) : StateT (List Node) Supply PUnit := modify (· ++ [n])

/-- A report is added at the end. -/
@[simp] theorem runs_report {w w' : Moment (List Node)} {u : PUnit} :
    Runs (report n) w u w' ↔ w' = (w.1 ++ [n], w.2) := by
  have hrun : report n w.1 w.2 = ((⟨⟩, w.1 ++ [n]), w.2) := rfl
  rw [Runs, hrun, Prod.mk.injEq, Prod.mk.injEq, Prod.ext_iff, @eq_comm _ w'.1, @eq_comm _ w'.2]
  simp

/-- What is reported on a list is what is reported on its items, one after the other. -/
theorem passes_report {β : Type} {f : α → StateT (List Node) Supply β} {listed : α → List Node}
    {items : List α} {bs : List β} {w w' : Moment (List Node)}
    (hf : ∀ x ∈ items, ∀ w b w', Runs (f x) w b w' → w'.1 = w.1 ++ listed x)
    (h : Passes f w items bs w') : w'.1 = w.1 ++ items.flatMap listed := by
  induction h with
  | done => simp
  | call hx _ ih =>
    have hhead := hf _ (by simp) _ _ _ hx
    have htail := ih fun y hy => hf y (List.mem_cons_of_mem _ hy)
    rw [htail, hhead, List.flatMap_cons, List.append_assoc]
  | draw _ ih => exact ih hf

/-- What is said of all nodes of a tree is said of those of its children. -/
theorem forall_reaches_child {P : Node → Prop}
    (h : ∀ inner, n.Reaches Shape.children inner → P inner) {child : Node}
    (hc : child ∈ n.shape.children) (inner : Node)
    (hr : child.Reaches Shape.children inner) : P inner :=
  (forall_reaches_iff.mp h).2 child hc inner hr

/-- A visit reports the nodes of the tree, each after those below it. -/
theorem visit_reports {n : Node}
    (hn : ∀ inner, n.Reaches Shape.children inner → inner.IsIrreducible)
    {w w' : Moment (List Node)} {u : PUnit} (h : Runs (n.visit report) w u w') :
    w'.1 = w.1 ++ n.nodes .backward := by
  rw [visit, visitWith_eq, runs_bind] at h
  obtain ⟨v, w₁, hbelow, hn'⟩ := h
  obtain ⟨us, hp⟩ := walkChildren_passes (hn n .refl) hbelow
  have hchildren : w₁.1 = w.1 ++ n.shape.children.flatMap (nodes .backward) := by
    refine passes_report (fun child hc w b w' hchild => ?_) hp
    exact visit_reports (forall_reaches_child hn hc) hchild
  rw [runs_report] at hn'
  rw [hn', nodes_backward, hchildren, List.append_assoc]
termination_by sizeOf n
decreasing_by exact sizeOf_lt_of_mem_handles (Shape.mem_handles_of_mem_children hc)

/-- A visit that is never cut short reports the nodes of the tree, each before those below it. -/
theorem visitWhile_reports {n : Node}
    (hn : ∀ inner, n.Reaches Shape.children inner → inner.IsIrreducible)
    {w w' : Moment (List Node)} {u : PUnit}
    (h : Runs (n.visitWhile fun inner => do report inner; pure true) w u w') :
    w'.1 = w.1 ++ n.nodes .forward := by
  rw [visitWhile, visitWith_eq] at h
  simp only [runs_bind, runs_report, runs_pure] at h
  obtain ⟨-, w₁, ⟨-, w₂, rfl, rfl, rfl⟩, h⟩ := h
  rw [if_pos rfl] at h
  obtain ⟨us, hp⟩ := walkChildren_passes (hn n .refl) h
  have hchildren : w'.1 = w.1 ++ [n] ++ n.shape.children.flatMap (nodes .forward) := by
    refine passes_report (fun child hc w b w' hchild => ?_) hp
    exact visitWhile_reports (forall_reaches_child hn hc) hchild
  rw [hchildren, nodes_forward, List.append_assoc, List.singleton_append]
termination_by sizeOf n
decreasing_by exact sizeOf_lt_of_mem_handles (Shape.mem_handles_of_mem_children hc)

/-! ## Searches that find nothing -/

section Search

variable [LawfulMonad m]

/-- A sequence without early exit is the sequence of its parts without early exit. -/
theorem lift_bind {ε β γ : Type} (x : m β) (k : β → m γ) :
    (ExceptT.lift (x >>= k) : ExceptT ε m γ) = (do ExceptT.lift (k (← ExceptT.lift x))) := by
  apply ExceptT.ext
  simp

/-- Actions without early exit are run on a list without early exit. -/
theorem forM_lift {ε : Type} (f : α → m PUnit) (items : List α) :
    (forM items fun x => (ExceptT.lift (f x) : ExceptT ε m PUnit)) =
      ExceptT.lift (forM items f) := by
  induction items with
  | nil =>
    apply ExceptT.ext
    simp
  | cons x rest ih => rw [List.forM_cons, List.forM_cons, lift_bind, ih]

variable [MonadStamp m]

/-- Actions without early exit are run on the children without early exit. -/
theorem walkBelow_lift {ε : Type} (n : Node)
    (f : (child : Node) → child.weight < n.weight → m PUnit) :
    (n.walkBelow fun child h => (ExceptT.lift (f child h) : ExceptT ε m PUnit)) =
      ExceptT.lift (n.walkBelow f) := by
  unfold walkBelow
  split
  · rw [lift_bind]
    refine bind_congr fun stamp => ?_
    split
    · rfl
    · apply ExceptT.ext
      simp
  · rw [Shape.walk_eq_forM, Shape.walk_eq_forM]
    exact forM_lift _ _

/-- A search whose test never passes is a visit that is never cut short. -/
theorem search_of_fails (act : Node → m PUnit) (n : Node) :
    (n.search fun inner => do act inner; pure false) =
      ExceptT.lift (n.visitWhile fun inner => do act inner; pure true) := by
  have hbelow : (n.walkBelow fun child _ =>
      (child.search fun inner => do act inner; pure false)) =
        (ExceptT.lift (n.walkBelow fun child _ =>
          child.visitWhile fun inner => do act inner; pure true) : ExceptT Node m PUnit) := by
    rw [← walkBelow_lift]
    congr 1
    funext child h
    exact search_of_fails act child
  have hlift : ∀ x : m PUnit, (liftM x : ExceptT Node m PUnit) = ExceptT.lift x := fun _ => rfl
  unfold search visitWhile at hbelow ⊢
  rw [visitWith, visitWith, hbelow]
  apply ExceptT.ext
  simp [hlift]
termination_by n.weight

/-- Nothing is found by a test that never passes, after all nodes were tested. -/
theorem find_of_fails (act : Node → m PUnit) (n : Node) :
    (n.find fun inner => do act inner; pure false) =
      (do n.visitWhile (fun inner => do act inner; pure true); pure none) := by
  rw [find, search_of_fails]
  simp

end Search

end Node

end ExprTree
