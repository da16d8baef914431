import ExprTree.Proofs.Visiting

/-!
# A walk stops at the first break

An action that is run on the children of a node may leave the walk. Whatever it does otherwise, the
walk is a loop with early exit over one list that does not depend on the action: the children of the
shape, or the node that an extension is reduced to. It calls the action on the items from left to
right, nothing happens between two calls, and it ends with the first call that leaves, or with the
list.

The list is flat. Initializers, cases and handlers are loops inside of the walk, and bindings are
nested to any depth, so the exit has to pass through all of them.
-/

namespace ExprTree

variable {α β ε σ : Type}

/-! ## Loops with early exit -/

/-- The action is called on the items one by one and has the outcomes; nothing happens between two
calls. -/
inductive Calls (f : α → StateT σ Supply β) : Moment σ → List α → List β → Moment σ → Prop where
  /-- No call is left. -/
  | done {w : Moment σ} : Calls f w [] [] w
  /-- The next item is called. -/
  | call {w w' w'' : Moment σ} {x : α} {b : β} {xs : List α} {bs : List β} :
    Runs (f x) w b w' → Calls f w' xs bs w'' → Calls f w (x :: xs) (b :: bs) w''

/-- The items were called up to the first break, which is the result, or all of them were called and
none broke off. -/
structure Breaks (items called : List α) (outcomes : List (Except ε Unit))
    (result : Except ε Unit) : Prop where
  /-- Calls are made from left to right. -/
  inOrder : called <+: items
  /-- If the loop goes on to its end, every item was called, and every call went on. -/
  continued : result = .ok ⟨⟩ → called = items ∧ ∀ outcome ∈ outcomes, outcome = .ok ⟨⟩
  /-- If it breaks off, so did the last call, and none before it. -/
  broken : ∀ value, result = .error value →
    ∃ before, outcomes = before ++ [.error value] ∧ ∀ outcome ∈ before, outcome = .ok ⟨⟩

namespace Breaks

variable {items called : List α} {outcomes : List (Except ε Unit)} {result : Except ε Unit}

/-- A loop over nothing goes on. -/
theorem nil : Breaks (ε := ε) ([] : List α) [] [] (.ok ⟨⟩) where
  inOrder := List.prefix_refl _
  continued _ := ⟨rfl, nofun⟩
  broken := nofun

/-- A call that breaks off ends the loop. -/
theorem stop (x : α) (items : List α) (value : ε) :
    Breaks (x :: items) [x] [.error value] (.error value) where
  inOrder := ⟨items, rfl⟩
  continued := nofun
  broken := by
    intro other heq
    obtain rfl := Except.error.inj heq
    exact ⟨[], rfl, nofun⟩

/-- After a call that goes on, the loop ends as it does over the other items. -/
theorem cons (h : Breaks items called outcomes result) (x : α) :
    Breaks (x :: items) (x :: called) (.ok ⟨⟩ :: outcomes) result where
  inOrder := List.prefix_cons_inj x |>.mpr h.inOrder
  continued heq := by
    obtain ⟨hcalled, hok⟩ := h.continued heq
    exact ⟨by rw [hcalled], List.forall_mem_cons.mpr ⟨rfl, hok⟩⟩
  broken value heq := by
    obtain ⟨before, houtcomes, hok⟩ := h.broken value heq
    exact ⟨.ok ⟨⟩ :: before, by rw [houtcomes]; rfl, List.forall_mem_cons.mpr ⟨rfl, hok⟩⟩

end Breaks

/-- A loop with early exit over a list calls its items up to the first break. -/
theorem Calls.of_forM {f : α → ExceptT ε (StateT σ Supply) PUnit} {items : List α}
    {w w' : Moment σ} {result : Except ε PUnit} (h : Runs (forM items f).run w result w') :
    ∃ called outcomes, Calls (fun x => (f x).run) w called outcomes w' ∧
      Breaks items called outcomes result := by
  induction items generalizing w with
  | nil =>
    rw [List.forM_nil, ExceptT.run_pure, runs_pure] at h
    obtain ⟨rfl, rfl⟩ := h
    exact ⟨[], [], .done, .nil⟩
  | cons x rest ih =>
    rw [List.forM_cons, ExceptT.run_bind, runs_bind] at h
    obtain ⟨outcome, w₁, hx, hrest⟩ := h
    cases outcome with
    | error value =>
      rw [runs_pure] at hrest
      obtain ⟨rfl, rfl⟩ := hrest
      exact ⟨[x], [.error value], .call hx .done, .stop x rest value⟩
    | ok u =>
      obtain ⟨called, outcomes, hcalls, hbreaks⟩ := ih hrest
      exact ⟨x :: called, .ok ⟨⟩ :: outcomes, .call hx hcalls, hbreaks.cons x⟩

/-! ## The list of children -/

/-- The list leaves out what is absent and goes through nested structures in order: through the
arguments of initializers, through bindings at every depth, through cases with their bodies after
their tests, and through handlers. `held` lists what a binding holds. -/
structure Shape.Flattens (children : Shape α → List α) (held : Binding α → List α) : Prop where
  binary : ∀ left conversion right method lifted,
    children (.binary left conversion right method lifted) = left :: conversion.toList ++ [right]
  unary : ∀ operand method, children (.unary operand method) = operand.toList
  call : ∀ object method arguments,
    children (.call object method arguments) = object.toList ++ arguments
  memberAccess : ∀ object member, children (.memberAccess object member) = object.toList
  goto : ∀ jump target value, children (.goto jump target value) = value.toList
  label : ∀ target value, children (.label target value) = value.toList
  listInit : ∀ creation inits,
    children (.listInit creation inits) = creation :: inits.flatMap (·.arguments)
  memberInit : ∀ creation bindings,
    children (.memberInit creation bindings) = creation :: bindings.flatMap held
  assignment : ∀ stamp member value, held (.assignment stamp member value) = [value]
  list : ∀ stamp member inits, held (.list stamp member inits) = inits.flatMap (·.arguments)
  nested : ∀ stamp member bindings,
    held (.nested stamp member bindings) = bindings.flatMap held
  switch : ∀ subject cases otherwise comparison,
    children (.switch subject cases otherwise comparison) =
      subject :: (cases.flatMap fun branch => branch.tests ++ [branch.body]) ++ otherwise.toList
  tryCatch : ∀ body handlers cleanup fault,
    children (.tryCatch body handlers cleanup fault) =
      body :: (handlers.flatMap fun handler =>
        handler.bound.toList ++ handler.filter.toList ++ [handler.body]) ++
        cleanup.toList ++ fault.toList

/-- The children of a shape are listed flat. -/
theorem Shape.flattens_children :
    Flattens (α := α) Shape.children Binding.children where
  binary _ _ _ _ _ := rfl
  unary _ _ := rfl
  call _ _ _ := rfl
  memberAccess _ _ := rfl
  goto _ _ _ := rfl
  label _ _ := rfl
  listInit _ inits := by rw [children, ElementInit.argumentsOfList_eq_flatMap]
  memberInit _ bindings := by rw [children, Binding.childrenOfList_eq_flatMap]
  assignment _ _ _ := by rw [Binding.children]
  list _ _ inits := by rw [Binding.children, ElementInit.argumentsOfList_eq_flatMap]
  nested _ _ bindings := by rw [Binding.children, Binding.childrenOfList_eq_flatMap]
  switch _ cases _ _ := by
    rw [children, SwitchCase.childrenOfList_eq_flatMap]
    rfl
  tryCatch _ handlers _ _ := by
    rw [children, Handler.childrenOfList_eq_flatMap]
    rfl

namespace Node

/-! ## Walks -/

/-- How often a walk over the node reduces an extension. -/
def reductionsPerWalk (n : Node) : Nat := if n.shape.family = .extension then 1 else 0

/-- A walk over an extension reduces it once and goes on with the result, if there is one. -/
theorem walkChildren_eq_reduce {m : Type → Type} [Monad m] [LawfulMonad m] [MonadStamp m]
    {n : Node} {own : Stamp} {custom : Extension Node} (h : n.shape = .extension own custom)
    (act : Node → m PUnit) :
    n.walkChildren act = (do
      let reduced ← custom.reduce
      forM reduced.toList act) := by
  rw [walkChildren_of_extension h, Extension.reduce]
  simp only [bind_assoc, pure_bind, childrenAt_of_extension _ h]

/-- A walk calls its action on the children up to the first break. -/
theorem walkChildren_calls (n : Node) (f : Node → ExceptT ε (StateT σ Supply) PUnit)
    {w w' : Moment σ} {result : Except ε PUnit} (h : Runs (n.walkChildren f).run w result w') :
    ∃ called outcomes,
      Calls (fun child => (f child).run) (w.1, w.2 + n.reductionsPerWalk) called outcomes w' ∧
        Breaks (n.childrenAt w.2) called outcomes result := by
  rcases extension_or_family_ne n with ⟨own, custom, hshape⟩ | hfamily
  · have hone : n.reductionsPerWalk = 1 := if_pos (by rw [hshape]; rfl)
    have hrun : (n.walkChildren f).run = (do
        let stamp ← fresh
        (forM (n.childrenAt stamp) f).run) := by
      rw [walkChildren_of_extension hshape]
      exact ExceptT.run_bind_lift _ _
    rw [hrun, runs_bind] at h
    obtain ⟨stamp, w₁, hfresh, hloop⟩ := h
    obtain ⟨rfl, rfl⟩ := runs_fresh.mp hfresh
    rw [hone]
    exact Calls.of_forM hloop
  · have hnone : n.reductionsPerWalk = 0 := if_neg hfamily
    rw [walkChildren_eq_forM hfamily, ← childrenAt_of_family_ne w.2 hfamily] at h
    rw [hnone]
    exact Calls.of_forM h

/-- A walk is a loop with early exit over one list of children, whatever the action does. The list
is that of the shape, which is flat, or what an extension is reduced to, for which it is reduced
once in each walk. -/
theorem walk_breaks_at_first_break (e : Node) :
    (∀ (τ δ : Type) (f : Node → ExceptT δ (StateT τ Supply) PUnit) (state : τ) (next : Stamp),
      let run := (e.walkChildren f).run state next
      ∃ called outcomes,
        Calls (fun child => (f child).run) (state, next + e.reductionsPerWalk) called outcomes
          (run.1.2, run.2) ∧
        Breaks (e.childrenAt next) called outcomes run.1.1) ∧
    (e.shape.family ≠ .extension → ∀ next, e.childrenAt next = e.shape.children) ∧
    Shape.Flattens (α := Node) Shape.children Binding.children ∧
    (∀ own custom, e.shape = .extension own custom →
      (∀ next, e.childrenAt next = (custom.reduceAt next).toList) ∧
      ∀ (m : Type → Type) [Monad m] [LawfulMonad m] [MonadStamp m] (act : Node → m PUnit),
        e.walkChildren act = (do
          let reduced ← custom.reduce
          forM reduced.toList act)) := by
  refine ⟨fun τ δ f state next => e.walkChildren_calls f (runs_self _ (state, next)),
    fun hfamily next => childrenAt_of_family_ne next hfamily, Shape.flattens_children,
    fun own custom hshape => ⟨fun next => childrenAt_of_extension next hshape, ?_⟩⟩
  intro m _ _ _ act
  exact walkChildren_eq_reduce hshape act

/-- Counts nodes and leaves with the first that is a parameter. -/
def leavingWithParameter (n : Node) : ExceptT Node (StateT Nat Supply) PUnit := do
  modify (· + 1)
  if n.kind = .parameter then throw n

/-- An object is created; a member of one of its members is assigned to a parameter, and another of
its own to a default. -/
def sampleNesting (inner outer : Member) : Node :=
  ⟨6, .memberInit, .object, .memberInit ⟨2, .new, .object, .new none [] none⟩
    [.nested 5 outer [.assignment 3 inner sampleSubject],
      .assignment 4 outer ⟨1, .default, .object, .default⟩]⟩

/-- The walk is left from inside of the nested binding, after the second of three children. -/
theorem walk_breaks_sampleNesting :
    let e := sampleNesting ⟨"x", .object, .object, .field⟩ ⟨"point", .object, .object, .field⟩
    (e.walkChildren leavingWithParameter).run 0 7 = ((.error sampleSubject, 2), 7) ∧
      e.shape.children.length = 3 ∧
      ∃ called outcomes,
        Calls (fun child => (leavingWithParameter child).run) (0, 7) called outcomes (2, 7) ∧
          Breaks e.shape.children called outcomes (.error sampleSubject) := by
  intro e
  have hrun : (e.walkChildren leavingWithParameter).run 0 7 = ((.error sampleSubject, 2), 7) := rfl
  have hnone : e.reductionsPerWalk = 0 := rfl
  have hwalk := (walk_breaks_at_first_break e).1 Nat Node leavingWithParameter 0 7
  rw [hrun, hnone] at hwalk
  exact ⟨hrun, rfl, hwalk⟩

end Node

end ExprTree
