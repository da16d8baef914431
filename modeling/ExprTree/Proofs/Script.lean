import ExprTree.Proofs.QueryGuard

/-!
# The script of a comparison

What a comparison does can be written down before it starts, as a list of steps: checks, queries
that are entered, nodes whose parts are looked at. The comparison is this list run from the front
up to the first step that ends it. No step asks what the steps before it found, so the list is a
function of the two trees and the policy.

One shape at a time, the list says which checks are made, which parts are compared in which order
and what is left to the policy; that does not depend on the policy. The scripts of the parts are
then put in their places.
-/

namespace ExprTree

open CompareM

/-! ## Steps -/

/-- One step of a comparison. -/
inductive Step where
  /-- Goes on only if the condition holds. -/
  | check (condition : Bool) (aspect : Aspect)
  /-- Meets shapes that cannot be compared. -/
  | refuse (kind : Kind) (found : Family)
  /-- Enters the query with the given root. -/
  | enter (root : Node)
  /-- Turns to what two nodes of one kind and type hold. -/
  | inspect (a b : Node)

namespace Step

/-- What the step does. -/
def act : Step → CompareM Unit
  | check condition aspect => ensure condition aspect
  | refuse kind found => throw (.unsupported kind found)
  | enter root => note (.enteringQuery root)
  | inspect _ _ => pure ()

/-- Why the comparison ends at the step, if it does. -/
def halt? : Step → Option Halt
  | check condition aspect => if condition then none else some (.differs aspect)
  | refuse kind found => some (.unsupported kind found)
  | enter _ | inspect _ _ => none

/-- What the step reports. -/
def events : Step → List Event
  | check condition aspect => if condition then [] else [.treesDiffer aspect]
  | enter root => [.enteringQuery root]
  | refuse _ _ | inspect _ _ => []

/-- The steps up to the first that ends the comparison, and that one. -/
def executed : List Step → List Step
  | [] => []
  | step :: rest => step :: if step.halt?.isSome then [] else executed rest

/-- The steps do not end the comparison. -/
def Pass (steps : List Step) : Prop := ∀ step ∈ steps, step.halt? = none

/-- The result of a comparison that ended for the given reason, or passed. -/
def ending : Option Halt → Except Halt Unit
  | none => .ok ()
  | some halt => .error halt

variable {step : Step} {steps steps' rest : List Step}

@[simp] theorem pass_nil : Pass [] := by simp [Pass]

@[simp] theorem pass_cons_iff : Pass (step :: rest) ↔ step.halt? = none ∧ Pass rest := by
  simp [Pass]

@[simp] theorem pass_append_iff : Pass (steps ++ rest) ↔ Pass steps ∧ Pass rest := by
  simp only [Pass, List.mem_append]
  constructor
  · intro h
    exact ⟨fun step hs => h step (.inl hs), fun step hs => h step (.inr hs)⟩
  · rintro ⟨h, h'⟩ step (hs | hs)
    · exact h step hs
    · exact h' step hs

/-- Steps that pass are all executed, and so are those after them. -/
theorem executed_append (h : Pass steps) (rest : List Step) :
    executed (steps ++ rest) = steps ++ executed rest := by
  induction steps with
  | nil => rfl
  | cons step steps ih =>
    obtain ⟨hstep, hsteps⟩ := pass_cons_iff.mp h
    simp [executed, hstep, ih hsteps]

/-- Steps that pass are all executed. -/
theorem executed_of_pass (h : Pass steps) : executed steps = steps := by
  simpa [executed] using executed_append h []

/-- The step that ends the comparison is the last to be executed. -/
theorem executed_append_cons {halt : Halt} (h : Pass steps) (hs : step.halt? = some halt)
    (rest : List Step) : executed (steps ++ step :: rest) = steps ++ [step] := by
  simp [executed_append h, executed, hs]

/-- Steps all pass, or there is a first that does not. -/
theorem pass_or_halts (steps : List Step) : Pass steps ∨ ∃ passed step rest halt,
    steps = passed ++ step :: rest ∧ Pass passed ∧ step.halt? = some halt := by
  cases hfound : steps.findSome? halt? with
  | none => exact .inl (List.findSome?_eq_none_iff.mp hfound)
  | some halt =>
    obtain ⟨passed, step, rest, hsteps, hstep, hpassed⟩ := List.findSome?_eq_some_iff.mp hfound
    exact .inr ⟨passed, step, rest, halt, hsteps, hpassed, hstep⟩

/-- A step adds its reports and ends the comparison or not; the open pairs stay. -/
theorem run_act (step : Step) (progress : Progress) : step.act.run.run progress =
    (ending step.halt?,
      { progress with events := step.events.reverse ++ progress.events }) := by
  cases step with
  | check condition aspect => cases condition <;> rfl
  | _ => rfl

/-- Steps in sequence report what those of them report that are executed. -/
theorem run_forM_act (steps : List Step) (progress : Progress) :
    (forM steps act).run.run progress = (ending (steps.findSome? halt?), { progress with
      events := ((executed steps).flatMap events).reverse ++ progress.events }) := by
  induction steps generalizing progress with
  | nil => rfl
  | cons step rest ih =>
    rw [List.forM_cons, Settles.run_seq, run_act]
    cases hstep : step.halt? with
    | some halt => simp [ending, executed, hstep]
    | none => simp [ending, executed, hstep, ih]

end Step

/-! ## Stages -/

/-- A part of the comparison of two shapes. -/
inductive Stage (α : Type) where
  /-- Goes on only if the condition holds. -/
  | check (condition : Bool) (aspect : Aspect)
  /-- Compares two children. -/
  | child (x : α) (y : Node)
  /-- Compares the roots of two queries. -/
  | query (x : α) (y : Node)
  /-- Compares two payloads by the policy. -/
  | byPolicy (v w : Value Node)
  /-- Meets shapes that cannot be compared. -/
  | refuse (kind : Kind) (found : Family)

/-- The check that the policy makes of two payloads. -/
def ConstantPolicy.check (policy : ConstantPolicy) (v w : Value Node) : Step :=
  match policy with
  | .byReference => .check (v.same w) .constantInstance
  | .byValue => .check (v.beq w) .constantValue

variable {α β : Type}

namespace Stage

/-- What is done for the stage, given the comparison of what is held. -/
def act (policy : ConstantPolicy) (node : α → Node) (compare : α → Node → CompareM Unit) :
    Stage α → CompareM Unit
  | check condition aspect => ensure condition aspect
  | child x y => compare x y
  | query x y => do
    note (.enteringQuery (node x))
    compare x y
  | byPolicy v w => v.compareByPolicy policy w
  | refuse kind found => throw (.unsupported kind found)

/-- The steps of the stage, given the scripts of what is held. -/
def steps (policy : ConstantPolicy) (node : α → Node) (script : α → Node → List Step) :
    Stage α → List Step
  | check condition aspect => [.check condition aspect]
  | child x y => script x y
  | query x y => .enter (node x) :: script x y
  | byPolicy v w => [policy.check v w]
  | refuse kind found => [.refuse kind found]

end Stage

/-- The stages for optional children. -/
def optionStages : Option α → Option Node → List (Stage α)
  | some x, some y => [.child x y]
  | none, none => []
  | _, _ => [.check false .optionalChild]

/-- The stages for the items at the same places. -/
def itemStages {γ : Type} (stages : α → β → List (Stage γ)) (as : List α) (bs : List β) :
    List (Stage γ) :=
  (List.zipWith stages as bs).flatten

/-- The stages for the children at the same places. -/
def childStages (as : List α) (bs : List Node) : List (Stage α) :=
  List.zipWith .child as bs

namespace Value

mutual

/-- The stages for payloads of constants whose type is not directly comparable. -/
def stages (node : α → Node) : Value α → Value Node → List (Stage α)
  | .query x _, .query y _ => [.query x y]
  | .sequence _ as, .sequence _ bs =>
    .check (as.length = bs.length) .sequenceLength :: listStages node as bs
  | .scalar a, b => [.check ((Value.scalar a).beq b) .constantValue]
  | .text stamp a, b => [.check ((Value.text stamp a).beq b) .constantValue]
  -- two host objects, or payloads of different forms
  | a, b => [.byPolicy (a.map node) b]

/-- The stages for the items of two sequences. -/
def listStages (node : α → Node) : List (Value α) → List (Value Node) → List (Stage α)
  | a :: as, b :: bs => a.stages node b ++ listStages node as bs
  | _, _ => []

end

/-- The stages for payloads of constants of the given type. -/
def stagesAt (type : Ty) (node : α → Node) (a : Value α) (b : Value Node) : List (Stage α) :=
  if type.isDirectlyComparable then [.check ((a.map node).beq b) .constantValue]
  else a.stages node b

end Value

/-- The stages for two initializers. -/
def ElementInit.stages (a : ElementInit α) (b : ElementInit Node) : List (Stage α) :=
  .check (a.method = b.method) .addMethod ::
    .check (a.arguments.length = b.arguments.length) .argumentCount ::
      childStages a.arguments b.arguments

namespace Binding

mutual

/-- The stages for two bindings. -/
def stages : Binding α → Binding Node → List (Stage α)
  | .assignment _ member x, .assignment _ member' y =>
    [.check (member = member') .boundMember, .child x y]
  | .list _ member as, .list _ member' bs =>
    .check (member = member') .boundMember ::
      .check (as.length = bs.length) .initializerCount :: itemStages ElementInit.stages as bs
  | .nested _ member as, .nested _ member' bs =>
    .check (member = member') .boundMember ::
      .check (as.length = bs.length) .bindingCount :: listStages as bs
  | a, b => [.check (a.member = b.member) .boundMember, .check false .bindingKind]

/-- The stages for the bindings at the same places. -/
def listStages : List (Binding α) → List (Binding Node) → List (Stage α)
  | a :: as, b :: bs => a.stages b ++ listStages as bs
  | _, _ => []

end

end Binding

/-- The stages for two cases. -/
def SwitchCase.stages (a : SwitchCase α) (b : SwitchCase Node) : List (Stage α) :=
  .check (a.tests.length = b.tests.length) .testValueCount ::
    (childStages a.tests b.tests ++ [.child a.body b.body])

/-- The stages for two handlers. -/
def Handler.stages (a : Handler α) (b : Handler Node) : List (Stage α) :=
  .check (a.caught = b.caught) .caughtType ::
    (optionStages a.bound b.bound ++ optionStages a.filter b.filter ++ [.child a.body b.body])

/-- The stages for the shapes of two nodes of the given kind and type. -/
def Shape.stages (kind : Kind) (type : Ty) (node : α → Node) :
    Shape α → Shape Node → List (Stage α)
  | .binary left conversion right method lifted, .binary left' conversion' right' method' lifted' =>
    .check (method = method') .operatorMethod :: .check (lifted = lifted') .lifting ::
      .child left left' :: (optionStages conversion conversion' ++ [.child right right'])
  | .unary operand method, .unary operand' method' =>
    .check (method = method') .operatorMethod :: optionStages operand operand'
  | .call object method arguments, .call object' method' arguments' =>
    .check (arguments.length = arguments'.length) .argumentCount ::
      .check (method = method') .method ::
        (optionStages object object' ++ childStages arguments arguments')
  | .conditional test ifTrue ifFalse, .conditional test' ifTrue' ifFalse' =>
    [.child test test', .child ifTrue ifTrue', .child ifFalse ifFalse']
  | .invoke callee arguments, .invoke callee' arguments' =>
    .check (arguments.length = arguments'.length) .argumentCount ::
      .child callee callee' :: childStages arguments arguments'
  | .lambda body parameters _ _, .lambda body' parameters' _ _ =>
    .check (parameters.length = parameters'.length) .parameterCount ::
      (childStages parameters parameters' ++ [.child body body'])
  | .listInit creation inits, .listInit creation' inits' =>
    .check (inits.length = inits'.length) .initializerCount ::
      .child creation creation' :: itemStages ElementInit.stages inits inits'
  | .memberAccess object member, .memberAccess object' member' =>
    .check (member = member') .member :: optionStages object object'
  | .memberInit creation bindings, .memberInit creation' bindings' =>
    .check (bindings.length = bindings'.length) .bindingCount ::
      .child creation creation' :: Binding.listStages bindings bindings'
  | .new constructor arguments members, .new constructor' arguments' members' =>
    .check (arguments.length = arguments'.length) .argumentCount ::
      .check (constructor = constructor') .constructor ::
        .check (members = members') .initializedMembers :: childStages arguments arguments'
  | .newArray items, .newArray items' =>
    .check (items.length = items'.length) .elementCount :: childStages items items'
  | .typeBinary operand operandType, .typeBinary operand' operandType' =>
    [.check (operandType = operandType') .typeOperand, .child operand operand']
  | .block locals statements, .block locals' statements' =>
    .check (locals.length = locals'.length) .variableCount ::
      .check (statements.length = statements'.length) .expressionCount ::
        (childStages locals locals' ++ childStages statements statements')
  | .dynamic binder delegate arguments, .dynamic binder' delegate' arguments' =>
    .check (arguments.length = arguments'.length) .argumentCount ::
      .check (binder = binder') .binder :: .check (delegate = delegate') .delegateType ::
        childStages arguments arguments'
  | .goto jump target value, .goto jump' target' value' =>
    .check (jump = jump') .gotoKind :: .check (target.agrees target') .label ::
      optionStages value value'
  | .index object indexer arguments, .index object' indexer' arguments' =>
    .check (arguments.length = arguments'.length) .argumentCount ::
      .check (indexer = indexer') .indexer :: .child object object' ::
        childStages arguments arguments'
  | .label target value, .label target' value' =>
    .check (target.agrees target') .label :: optionStages value value'
  | .runtimeVariables locals, .runtimeVariables locals' =>
    .check (locals.length = locals'.length) .variableCount :: childStages locals locals'
  | .loop body breakTarget continueTarget, .loop body' breakTarget' continueTarget' =>
    [.check (agreeingTargets breakTarget breakTarget') .breakLabel,
      .check (agreeingTargets continueTarget continueTarget') .continueLabel, .child body body']
  | .switch subject cases otherwise comparison, .switch subject' cases' otherwise' comparison' =>
    .check (cases.length = cases'.length) .caseCount ::
      .check (comparison = comparison') .comparisonMethod :: .child subject subject' ::
        (itemStages SwitchCase.stages cases cases' ++ optionStages otherwise otherwise')
  | .tryCatch body handlers cleanup fault, .tryCatch body' handlers' cleanup' fault' =>
    .check (handlers.length = handlers'.length) .handlerCount :: .child body body' ::
      (itemStages Handler.stages handlers handlers' ++ optionStages cleanup cleanup' ++
        optionStages fault fault')
  | .parameter name _, .parameter name' _ => [.check (name = name') .parameterName]
  | .constant value, .constant value' => value.stagesAt type node value'
  | .extension _ _, .extension _ _ | .debugInfo _ _, .debugInfo _ _ | .default, .default => []
  | _, other => [.refuse kind other.family]

/-- The steps of the comparison of two trees. One node is equal to itself without any. -/
def Node.script (policy : ConstantPolicy) (a b : Node) : List Step :=
  if a.same b then []
  else .check (a.kind = b.kind) .nodeKind :: .check (a.type = b.type) .staticType ::
    .inspect a b :: (a.shape.attach.stages a.kind a.type Subtype.val b.shape).flatMap
      (Stage.steps policy Subtype.val fun ⟨child, _⟩ other => child.script policy other)
termination_by sizeOf a
decreasing_by exact sizeOf_lt_of_mem_handles (by assumption)

/-! ## The comparison runs the script -/

section Stages

variable {policy : ConstantPolicy} {node : α → Node} {compare : α → Node → CompareM Unit}

/-- The steps of stages do what the stages do, if the scripts do what the comparisons do. -/
theorem Stage.forM_steps {script : α → Node → List Step}
    (h : ∀ x y, forM (script x y) Step.act = compare x y) (stages : List (Stage α)) :
    forM (stages.flatMap (steps policy node script)) Step.act =
      forM stages (act policy node compare) := by
  have hone : ∀ stage : Stage α,
      forM (stage.steps policy node script) Step.act = stage.act policy node compare := by
    intro stage
    cases stage with
    | byPolicy v w =>
      cases policy <;>
        simp [steps, act, ConstantPolicy.check, Value.compareByPolicy, Step.act]
    | _ => simp [steps, act, Step.act, h]
  induction stages with
  | nil => rfl
  | cons stage stages ih => rw [List.flatMap_cons, List.forM_append, List.forM_cons, hone, ih]

/-- The stages for optional children compare them. -/
theorem forM_optionStages (a : Option α) (b : Option Node) :
    forM (optionStages a b) (Stage.act policy node compare) = compareOption compare a b := by
  cases a <;> cases b <;> simp [compareOption, optionStages, Stage.act, ensure]

/-- The stages for lists of children compare them. -/
theorem forM_childStages (as : List α) (bs : List Node) :
    forM (childStages as bs) (Stage.act policy node compare) = compareItems compare as bs := by
  induction as generalizing bs with
  | nil => rfl
  | cons a as ih =>
    cases bs with
    | nil => rfl
    | cons b bs =>
      rw [childStages, List.zipWith_cons_cons, List.forM_cons, ← childStages, ih]
      rfl

/-- The stages for lists of items compare them, if those for two items do. -/
theorem forM_itemStages {γ δ : Type} {compare' : γ → δ → CompareM Unit}
    {stages : γ → δ → List (Stage α)}
    (h : ∀ x y, forM (stages x y) (Stage.act policy node compare) = compare' x y) (as : List γ)
    (bs : List δ) :
    forM (itemStages stages as bs) (Stage.act policy node compare) =
      compareItems compare' as bs := by
  induction as generalizing bs with
  | nil => rfl
  | cons a as ih =>
    cases bs with
    | nil => rfl
    | cons b bs =>
      rw [itemStages, List.zipWith_cons_cons, List.flatten_cons, List.forM_append, h, ← itemStages,
        ih]
      rfl

/-- The stages for two initializers compare them. -/
theorem ElementInit.forM_stages (a : ElementInit α) (b : ElementInit Node) :
    forM (a.stages b) (Stage.act policy node compare) = a.compare compare b := by
  simp only [stages, List.forM_cons, Stage.act, forM_childStages, ElementInit.compare]

mutual

/-- The stages for two bindings compare them. -/
theorem Binding.forM_stages : ∀ (a : Binding α) (b : Binding Node),
    forM (a.stages b) (Stage.act policy node compare) = a.compare compare b
  | .assignment _ _ _, .assignment _ _ _ => by
    simp [stages, Stage.act, Binding.compare]
  | .list _ _ as, .list _ _ bs => by
    simp only [stages, List.forM_cons, Stage.act, forM_itemStages ElementInit.forM_stages,
      Binding.compare]
  | .nested _ _ as, .nested _ _ bs => by
    simp only [stages, List.forM_cons, Stage.act, Binding.forM_listStages as bs, Binding.compare]
  | .assignment _ _ _, .list _ _ _ | .assignment _ _ _, .nested _ _ _
  | .list _ _ _, .assignment _ _ _ | .list _ _ _, .nested _ _ _
  | .nested _ _ _, .assignment _ _ _ | .nested _ _ _, .list _ _ _ => by
    simp [stages, Stage.act, Binding.compare, ensure]

/-- The stages for two lists of bindings compare them. -/
theorem Binding.forM_listStages : ∀ (as : List (Binding α)) (bs : List (Binding Node)),
    forM (listStages as bs) (Stage.act policy node compare) = compareList compare as bs
  | [], _ => by simp only [listStages, List.forM_nil, compareList]
  | _ :: _, [] => by simp only [listStages, List.forM_nil, compareList]
  | a :: as, b :: bs => by
    simp only [listStages, List.forM_append, Binding.forM_stages a b, Binding.forM_listStages as bs,
      compareList]

end

/-- The stages for two cases compare them. -/
theorem SwitchCase.forM_stages (a : SwitchCase α) (b : SwitchCase Node) :
    forM (a.stages b) (Stage.act policy node compare) = a.compare compare b := by
  simp [stages, Stage.act, forM_childStages, SwitchCase.compare]

/-- The stages for two handlers compare them. -/
theorem Handler.forM_stages (a : Handler α) (b : Handler Node) :
    forM (a.stages b) (Stage.act policy node compare) = a.compare compare b := by
  simp [stages, Stage.act, forM_optionStages, Handler.compare]

namespace Value

mutual

/-- The stages for two payloads compare them without a guard. -/
theorem forM_stages : ∀ (a : Value α) (b : Value Node),
    forM (a.stages node b) (Stage.act policy node compare) =
      a.compareBy .unguarded policy node compare b
  | .query _ _, .query _ _ => by simp [stages, Stage.act, compareBy, Entry.unguarded]
  | .sequence _ as, .sequence _ bs => by
    simp only [stages, List.forM_cons, Stage.act, forM_listStages as bs, compareBy]
  | .query _ _, .scalar _ | .query _ _, .text _ _ | .query _ _, .sequence _ _
  | .query _ _, .object _ _ | .sequence _ _, .scalar _ | .sequence _ _, .text _ _
  | .sequence _ _, .query _ _ | .sequence _ _, .object _ _ | .scalar _, _ | .text _ _, _
  | .object _ _, _ => by simp [stages, Stage.act, compareBy, Value.compare, map]

/-- The stages for two lists of payloads compare them without a guard. -/
theorem forM_listStages : ∀ (as : List (Value α)) (bs : List (Value Node)),
    forM (listStages node as bs) (Stage.act policy node compare) =
      compareListBy .unguarded policy node compare as bs
  | [], _ => by simp only [listStages, List.forM_nil, compareListBy]
  | _ :: _, [] => by simp only [listStages, List.forM_nil, compareListBy]
  | a :: as, b :: bs => by
    simp only [listStages, List.forM_append, forM_stages a b, forM_listStages as bs, compareListBy]

end

/-- The stages for payloads of constants of one type compare them without a guard. -/
theorem forM_stagesAt (type : Ty) (a : Value α) (b : Value Node) :
    forM (a.stagesAt type node b) (Stage.act policy node compare) =
      a.compareAtBy .unguarded type policy node compare b := by
  unfold stagesAt compareAtBy
  split
  · simp [Stage.act]
  · exact forM_stages a b

end Value

/-- Shapes of different families cannot be compared. -/
theorem Shape.stages_of_family_ne {kind : Kind} {type : Ty} {s : Shape α} {t : Shape Node}
    (h : s.family ≠ t.family) : s.stages kind type node t = [.refuse kind t.family] := by
  cases s <;> cases t <;> first | rfl | exact absurd rfl h

/-- The stages for two shapes compare them without a guard. -/
theorem Shape.forM_stages {kind : Kind} {type : Ty} (s : Shape α) (t : Shape Node) :
    forM (s.stages kind type node t) (Stage.act policy node compare) =
      s.compareBy .unguarded kind type policy node compare t := by
  by_cases hfam : s.family = t.family
  · -- in each family the stages stand in the order of the checks and parts
    induction s, t, hfam using cases_of_family_eq with
    | constant v v' => exact Value.forM_stagesAt type v v'
    | listInit c is c' is' =>
      simp only [stages, List.forM_cons, Stage.act, forM_itemStages ElementInit.forM_stages]
      rfl
    | memberInit c bs c' bs' =>
      simp only [stages, List.forM_cons, Stage.act, Binding.forM_listStages]
      rfl
    | switch s cs o m s' cs' o' m' =>
      simp only [stages, List.forM_cons, List.forM_append, Stage.act,
        forM_itemStages SwitchCase.forM_stages, forM_optionStages]
      rfl
    | tryCatch b hs c f b' hs' c' f' =>
      simp only [stages, List.forM_cons, List.forM_append, bind_assoc, Stage.act,
        forM_itemStages Handler.forM_stages, forM_optionStages]
      rfl
    | _ =>
      simp only [stages, List.forM_cons, List.forM_append, List.forM_nil, bind_pure_unit, Stage.act,
        forM_childStages, forM_optionStages]
      rfl
  · rw [stages_of_family_ne hfam, compareBy]
    · rw [compare_of_family_ne hfam]
      simp [Stage.act]
    · rintro v v' rfl rfl
      exact hfam rfl

end Stages

namespace Node

/-- Without a guard, the comparison of two trees is its script. -/
theorem forM_script (policy : ConstantPolicy) (a b : Node) :
    forM (a.script policy b) Step.act = a.compareBy .unguarded policy b := by
  have hparts : ∀ (x : {child // child ∈ a.shape.handles}) (other : Node),
      forM (x.val.script policy other) Step.act = x.val.compareBy .unguarded policy other := by
    intro x other
    exact forM_script policy x.val other
  rw [script, compareBy]
  split
  · rfl
  · rw [List.forM_cons, List.forM_cons, List.forM_cons, Stage.forM_steps hparts, Shape.forM_stages]
    rfl
termination_by sizeOf a
decreasing_by exact sizeOf_lt_of_mem_handles x.property

variable {heap : Heap} {a : Node}

/-- In a heap, the comparison of two trees runs its script. -/
theorem run_compare (ha : a ∈ heap) (policy : ConstantPolicy) (b : Node) (before : List Event) :
    (a.compare policy b).run.run ⟨[], before⟩ =
      (forM (a.script policy b) Step.act).run.run ⟨[], before⟩ := by
  rw [forM_script, ← compareBy_guarded, run_compareBy_guarded ha]

/-- In a heap, a comparison ends where its script does and reports what the executed steps
report. -/
theorem comparison_eq (ha : a ∈ heap) (policy : ConstantPolicy) (b : Node) :
    a.comparison policy b = ⟨(a.script policy b).findSome? Step.halt?,
      (Step.executed (a.script policy b)).flatMap Step.events⟩ := by
  unfold comparison Comparer.run
  rw [run_compare ha, Step.run_forM_act]
  cases (a.script policy b).findSome? Step.halt? <;> simp [Step.ending]

/-- In a heap, two trees are equal if the whole script of their comparison passes. -/
theorem equals_iff_pass (ha : a ∈ heap) (policy : ConstantPolicy) (b : Node) :
    a.equals policy b = true ↔ Step.Pass (a.script policy b) := by
  rw [equals, comparison_eq ha, Comparison.equal, Option.isNone_iff_eq_none,
    List.findSome?_eq_none_iff]
  rfl

end Node

end ExprTree
