import ExprTree.Proofs.Comparison

/-!
# The guard of nested queries

While the roots of two queries are compared, their pair is open, and a pair that is open would not
be entered a second time. Trees are acyclic, so that never happens: whatever stands in the place of
the guard, the comparison runs in the same way, and it runs in that way without a guard too. Every
step closes the pairs that it opened, whether it passes or fails, and a comparer that was used
before answers like a new one.

A comparison with another way to enter queries differs from `Node.compare` at queries only. Two
such comparisons are related step by step, family by family.
-/

namespace ExprTree

open CompareM

/-! ## Steps of two comparisons -/

/-- A relation between steps that holds of checks that both make, and of sequences of related
steps. -/
structure StepRules (P : CompareM Unit → CompareM Unit → Prop) : Prop where
  /-- Doing nothing is related to doing nothing. -/
  pass : P (pure ()) (pure ())
  /-- A check that fails is related to itself. -/
  fail : ∀ aspect, P (differ aspect) (differ aspect)
  /-- Related steps are followed by related steps. -/
  seq : ∀ {first first' next next' : CompareM Unit}, P first first' → P next next' →
    P (do first; next) (do first'; next')

/-- A relation between steps that also holds where shapes cannot be compared. -/
structure StepRelation (P : CompareM Unit → CompareM Unit → Prop) : Prop extends StepRules P where
  /-- Shapes that cannot be compared are so on both sides. -/
  refuse : ∀ kind found, P (throw (.unsupported kind found)) (throw (.unsupported kind found))

namespace StepRules

variable {α β : Type} {P : CompareM Unit → CompareM Unit → Prop}

/-- A check is related to itself. -/
theorem check (hP : StepRules P) (condition : Bool) (aspect : Aspect) :
    P (ensure condition aspect) (ensure condition aspect) := by
  unfold ensure
  cases condition with
  | false => exact hP.fail aspect
  | true => exact hP.pass

/-- What follows a check needs to be related only if the check passes. -/
theorem check_seq (hP : StepRules P) {condition : Bool} {aspect : Aspect}
    {next next' : CompareM Unit} (h : condition = true → P next next') :
    P (do ensure condition aspect; next) (do ensure condition aspect; next') := by
  cases condition with
  | false => exact hP.fail aspect
  | true => exact h rfl

/-- What the policy decides is related to itself. -/
theorem byPolicy (hP : StepRules P) (policy : ConstantPolicy) (a b : Value Node) :
    P (a.compareByPolicy policy b) (a.compareByPolicy policy b) := by
  cases policy with
  | byValue => exact hP.check _ _
  | byReference => exact hP.check _ _

/-- Optional children are compared in related ways if children are. -/
theorem option (hP : StepRules P) {compare compare' : α → Node → CompareM Unit} (a : Option α)
    (b : Option Node) (h : ∀ x, ∀ y ∈ b.toList, P (compare x y) (compare' x y)) :
    P (compareOption compare a b) (compareOption compare' a b) := by
  cases a with
  | none =>
    cases b with
    | none => exact hP.pass
    | some b => exact hP.fail _
  | some a =>
    cases b with
    | none => exact hP.fail _
    | some b => exact h a b (by simp)

/-- Lists are compared in related ways if items are. -/
theorem items (hP : StepRules P) {compare compare' : α → β → CompareM Unit} (as : List α)
    (bs : List β) (h : ∀ x, ∀ y ∈ bs, P (compare x y) (compare' x y)) :
    P (compareItems compare as bs) (compareItems compare' as bs) := by
  induction as generalizing bs with
  | nil => exact hP.pass
  | cons a as ih =>
    cases bs with
    | nil => exact hP.pass
    | cons b bs =>
      have hrest := ih bs fun x y hy => h x y (List.mem_cons_of_mem b hy)
      exact hP.seq (h a b (by simp)) hrest

variable {compare compare' : α → Node → CompareM Unit}

/-- Lists of structures are compared in related ways if children are, provided that this is so for
each two structures. The children in a list of structures are `listed`. -/
theorem structures (hP : StepRules P) {κ κ' : Type} {act act' : κ → κ' → CompareM Unit}
    {parts : κ' → List Node} {listed : List κ' → List Node}
    (hlisted : ∀ ks, listed ks = ks.flatMap parts)
    (hone : ∀ a b, (∀ x, ∀ y ∈ parts b, P (compare x y) (compare' x y)) → P (act a b) (act' a b))
    (as : List κ) (bs : List κ') (h : ∀ x, ∀ y ∈ listed bs, P (compare x y) (compare' x y)) :
    P (compareItems act as bs) (compareItems act' as bs) := by
  rw [hlisted] at h
  refine hP.items as bs fun a b hb => hone a b fun x y hy => ?_
  exact h x y (List.mem_flatMap.mpr ⟨b, hb, hy⟩)

/-- Initializers are compared in related ways if children are. -/
theorem elementInit (hP : StepRules P) (a : ElementInit α) (b : ElementInit Node)
    (h : ∀ x, ∀ y ∈ b.arguments, P (compare x y) (compare' x y)) :
    P (a.compare compare b) (a.compare compare' b) :=
  hP.seq (hP.check _ _) (hP.seq (hP.check _ _) (hP.items _ _ h))

mutual

/-- Bindings are compared in related ways if children are. -/
theorem binding (hP : StepRules P) : ∀ (a : Binding α) (b : Binding Node),
    (∀ x, ∀ y ∈ b.children, P (compare x y) (compare' x y)) →
    P (a.compare compare b) (a.compare compare' b)
  | .assignment _ _ x, .assignment _ _ y, h =>
    hP.seq (hP.check _ _) (h x y (by simp [Binding.children]))
  | .list _ _ as, .list _ _ bs, h =>
    hP.seq (hP.check _ _) (hP.seq (hP.check _ _)
      (hP.structures ElementInit.argumentsOfList_eq_flatMap hP.elementInit as bs h))
  | .nested _ _ as, .nested _ _ bs, h =>
    hP.seq (hP.check _ _) (hP.seq (hP.check _ _) (hP.bindings as bs h))
  | .assignment _ _ _, .list _ _ _, _ | .assignment _ _ _, .nested _ _ _, _
  | .list _ _ _, .assignment _ _ _, _ | .list _ _ _, .nested _ _ _, _
  | .nested _ _ _, .assignment _ _ _, _ | .nested _ _ _, .list _ _ _, _ =>
    hP.seq (hP.check _ _) (hP.fail _)

/-- Lists of bindings are compared in related ways if children are. -/
theorem bindings (hP : StepRules P) : ∀ (as : List (Binding α)) (bs : List (Binding Node)),
    (∀ x, ∀ y ∈ Binding.childrenOfList bs, P (compare x y) (compare' x y)) →
    P (Binding.compareList compare as bs) (Binding.compareList compare' as bs)
  | [], _, _ => hP.pass
  | _ :: _, [], _ => hP.pass
  | a :: as, b :: bs, h =>
    hP.seq (hP.binding a b fun x y hy => h x y (List.mem_append_left _ hy))
      (hP.bindings as bs fun x y hy => h x y (List.mem_append_right _ hy))

end

/-- Cases are compared in related ways if children are. -/
theorem switchCase (hP : StepRules P) (a : SwitchCase α) (b : SwitchCase Node)
    (h : ∀ x, ∀ y ∈ b.children, P (compare x y) (compare' x y)) :
    P (a.compare compare b) (a.compare compare' b) := by
  have htests := hP.items a.tests b.tests fun x y hy => h x y (List.mem_append_left _ hy)
  have hbody := h a.body b.body (by simp [SwitchCase.children])
  exact hP.seq (hP.check _ _) (hP.seq htests hbody)

/-- Handlers are compared in related ways if children are. -/
theorem handler (hP : StepRules P) (a : Handler α) (b : Handler Node)
    (h : ∀ x, ∀ y ∈ b.children, P (compare x y) (compare' x y)) :
    P (a.compare compare b) (a.compare compare' b) := by
  have hbound := hP.option a.bound b.bound fun x y hy => h x y (by simp [Handler.children, hy])
  have hfilter := hP.option a.filter b.filter fun x y hy => h x y (by simp [Handler.children, hy])
  have hbody := h a.body b.body (by simp [Handler.children])
  exact hP.seq (hP.check _ _) (hP.seq hbound (hP.seq hfilter hbody))

/-- Shapes of one family are compared in related ways if children are and, where both are
constants, payloads. -/
theorem shape (hP : StepRules P) {kind : Kind} {type : Ty} {policy : ConstantPolicy}
    {node : α → Node} {s : Shape α} {t : Shape Node} (hfam : s.family = t.family)
    (h : ∀ x, ∀ y ∈ t.children, P (compare x y) (compare' x y))
    (hv : ∀ v v', s = .constant v → t = .constant v' →
      P (v.compareAt type policy node compare v') (v.compareAt type policy node compare' v')) :
    P (s.compare kind type policy node compare t) (s.compare kind type policy node compare' t) := by
  have hsome : ∀ a b, Option.toList b ⊆ t.children →
      P (compareOption compare a b) (compareOption compare' a b) := fun a b hb =>
    hP.option a b fun x y hy => h x y (hb hy)
  have hmany : ∀ as bs, bs ⊆ t.children →
      P (compareItems compare as bs) (compareItems compare' as bs) := fun as bs hb =>
    hP.items as bs fun x y hy => h x y (hb hy)
  -- the checks are the same on both sides, so only the order of the parts matters
  induction s, t, hfam using Shape.cases_of_family_eq with
  | binary l c r m f l' c' r' m' f' =>
    have hl := h l l' (by simp [Shape.children])
    have hc := hsome c c' (by simp [Shape.children])
    have hr := h r r' (by simp [Shape.children])
    exact hP.seq (hP.check _ _) (hP.seq (hP.check _ _) (hP.seq hl (hP.seq hc hr)))
  | unary o m o' m' => exact hP.seq (hP.check _ _) (hsome o o' (by simp [Shape.children]))
  | call o m as o' m' as' =>
    have ho := hsome o o' (by simp [Shape.children])
    have has := hmany as as' (by simp [Shape.children])
    exact hP.seq (hP.check _ _) (hP.seq (hP.check _ _) (hP.seq ho has))
  | conditional a b c a' b' c' =>
    have ha := h a a' (by simp [Shape.children])
    have hb := h b b' (by simp [Shape.children])
    have hc := h c c' (by simp [Shape.children])
    exact hP.seq ha (hP.seq hb hc)
  | invoke c as c' as' =>
    have hc := h c c' (by simp [Shape.children])
    have has := hmany as as' (by simp [Shape.children])
    exact hP.seq (hP.check _ _) (hP.seq hc has)
  | lambda b ps n t b' ps' n' t' =>
    have hps := hmany ps ps' (by simp [Shape.children])
    have hb := h b b' (by simp [Shape.children])
    exact hP.seq (hP.check _ _) (hP.seq hps hb)
  | listInit c is c' is' =>
    have hc := h c c' (by simp [Shape.children])
    have his := hP.structures ElementInit.argumentsOfList_eq_flatMap hP.elementInit is is'
      fun x y hy => h x y (List.mem_cons_of_mem _ hy)
    exact hP.seq (hP.check _ _) (hP.seq hc his)
  | memberAccess o m o' m' =>
    exact hP.seq (hP.check _ _) (hsome o o' (by simp [Shape.children]))
  | memberInit c bs c' bs' =>
    have hc := h c c' (by simp [Shape.children])
    have hbs := hP.bindings bs bs' fun x y hy => h x y (List.mem_cons_of_mem _ hy)
    exact hP.seq (hP.check _ _) (hP.seq hc hbs)
  | new c as ms c' as' ms' =>
    have has := hmany as as' (by simp [Shape.children])
    exact hP.seq (hP.check _ _) (hP.seq (hP.check _ _) (hP.seq (hP.check _ _) has))
  | newArray is is' => exact hP.seq (hP.check _ _) (hmany is is' (by simp [Shape.children]))
  | typeBinary o t o' t' => exact hP.seq (hP.check _ _) (h o o' (by simp [Shape.children]))
  | block ls ss ls' ss' =>
    have hls := hmany ls ls' (by simp [Shape.children])
    have hss := hmany ss ss' (by simp [Shape.children])
    exact hP.seq (hP.check _ _) (hP.seq (hP.check _ _) (hP.seq hls hss))
  | dynamic b d as b' d' as' =>
    have has := hmany as as' (by simp [Shape.children])
    exact hP.seq (hP.check _ _) (hP.seq (hP.check _ _) (hP.seq (hP.check _ _) has))
  | goto j t v j' t' v' =>
    have hv := hsome v v' (by simp [Shape.children])
    exact hP.seq (hP.check _ _) (hP.seq (hP.check _ _) hv)
  | index o i as o' i' as' =>
    have ho := h o o' (by simp [Shape.children])
    have has := hmany as as' (by simp [Shape.children])
    exact hP.seq (hP.check _ _) (hP.seq (hP.check _ _) (hP.seq ho has))
  | label t v t' v' => exact hP.seq (hP.check _ _) (hsome v v' (by simp [Shape.children]))
  | runtimeVariables ls ls' =>
    exact hP.seq (hP.check _ _) (hmany ls ls' (by simp [Shape.children]))
  | loop b x y b' x' y' =>
    have hb := h b b' (by simp [Shape.children])
    exact hP.seq (hP.check _ _) (hP.seq (hP.check _ _) hb)
  | switch s cs o m s' cs' o' m' =>
    have hs := h s s' (by simp [Shape.children])
    have hcs := hP.structures SwitchCase.childrenOfList_eq_flatMap hP.switchCase cs cs'
      fun x y hy => h x y (by simp [Shape.children, hy])
    have ho := hsome o o' (by simp [Shape.children])
    exact hP.seq (hP.check _ _) (hP.seq (hP.check _ _) (hP.seq hs (hP.seq hcs ho)))
  | tryCatch b hs c f b' hs' c' f' =>
    have hb := h b b' (by simp [Shape.children])
    have hhs := hP.structures Handler.childrenOfList_eq_flatMap hP.handler hs hs'
      fun x y hy => h x y (by simp [Shape.children, hy])
    have hc := hP.option c c' fun x y hy => h x y (by simp [Shape.children, hy])
    have hf := hP.option f f' fun x y hy => h x y (by simp [Shape.children, hy])
    exact hP.seq (hP.check _ _) (hP.seq hb (hP.seq hhs (hP.seq hc hf)))
  | parameter n r n' r' => exact hP.check _ _
  | constant v v' => exact hv v v' rfl rfl
  | extension _ _ _ _ | debugInfo _ _ _ _ | default => exact hP.pass

end StepRules

/-- Shapes are compared in related ways if children are and, where both are constants, payloads. -/
theorem StepRelation.shape {α : Type} {P : CompareM Unit → CompareM Unit → Prop}
    {compare compare' : α → Node → CompareM Unit} (hP : StepRelation P)
    (h : ∀ x y, P (compare x y) (compare' x y)) {kind : Kind} {type : Ty} {policy : ConstantPolicy}
    {node : α → Node} (s : Shape α) (t : Shape Node)
    (hv : ∀ v v', s = .constant v → t = .constant v' →
      P (v.compareAt type policy node compare v') (v.compareAt type policy node compare' v')) :
    P (s.compare kind type policy node compare t) (s.compare kind type policy node compare' t) := by
  by_cases hfam : s.family = t.family
  · exact hP.toStepRules.shape hfam (fun x y _ => h x y) hv
  · rw [Shape.compare_of_family_ne hfam, Shape.compare_of_family_ne hfam]
    exact hP.refuse _ _

/-! ## Ways to enter a query -/

/-- How two queries are compared, given the pair of their roots, the payloads and the comparison of
the roots. -/
abbrev Entry := Stamp × Stamp → Value Node → Value Node → CompareM Unit → CompareM Unit

namespace Entry

/-- The pair is open while the roots are compared; `again` is run for a pair that is open. -/
def guarded (again : Value Node → Value Node → CompareM Unit) : Entry := fun pair a b inner => do
  if (← get).entered.contains pair then again a b else within pair inner

/-- The roots are compared, and no pair is kept open. -/
def unguarded : Entry := fun _ _ _ inner => inner

end Entry

variable {α : Type}

namespace Value

mutual

/-- `Value.compare` with another way to enter queries. -/
def compareBy (enter : Entry) (policy : ConstantPolicy) (node : α → Node)
    (compareRoots : α → Node → CompareM Unit) : Value α → Value Node → CompareM Unit
  | .query a element, .query b element' =>
    enter ((node a).stamp, b.stamp) (.query (node a) element) (.query b element') do
      note (.enteringQuery (node a))
      compareRoots a b
  | .sequence _ as, .sequence _ bs => do
    ensure (as.length = bs.length) .sequenceLength
    compareListBy enter policy node compareRoots as bs
  | a, b => a.compare policy node compareRoots b

/-- `Value.compareList` with another way to enter queries. -/
def compareListBy (enter : Entry) (policy : ConstantPolicy) (node : α → Node)
    (compareRoots : α → Node → CompareM Unit) : List (Value α) → List (Value Node) → CompareM Unit
  | a :: as, b :: bs => do
    a.compareBy enter policy node compareRoots b
    compareListBy enter policy node compareRoots as bs
  | _, _ => pure ()

end

/-- `Value.compareAt` with another way to enter queries. -/
def compareAtBy (enter : Entry) (type : Ty) (policy : ConstantPolicy) (node : α → Node)
    (compareRoots : α → Node → CompareM Unit) (a : Value α) (b : Value Node) : CompareM Unit :=
  if type.isDirectlyComparable then ensure ((a.map node).beq b) .constantValue
  else a.compareBy enter policy node compareRoots b

end Value

/-- `Shape.compare` with another way to enter queries. -/
def Shape.compareBy (enter : Entry) (kind : Kind) (type : Ty) (policy : ConstantPolicy)
    (node : α → Node) (compare' : α → Node → CompareM Unit) :
    Shape α → Shape Node → CompareM Unit
  | .constant value, .constant value' =>
    value.compareAtBy enter type policy node compare' value'
  | s, t => s.compare kind type policy node compare' t

/-- `Node.compare` with another way to enter queries. -/
def Node.compareBy (enter : Entry) (policy : ConstantPolicy) (a b : Node) : CompareM Unit :=
  if a.same b then pure ()
  else do
    ensure (a.kind = b.kind) .nodeKind
    ensure (a.type = b.type) .staticType
    a.shape.attach.compareBy enter a.kind a.type policy Subtype.val
      (fun ⟨child, _⟩ other => child.compareBy enter policy other) b.shape
termination_by sizeOf a
decreasing_by exact sizeOf_lt_of_mem_handles (by assumption)

/-! ## The comparison is the guarded one -/

namespace Value

variable {policy : ConstantPolicy} {node : α → Node} {compareRoots : α → Node → CompareM Unit}

mutual

/-- Payloads are compared with a guard that leaves open pairs to the policy. -/
theorem compareBy_guarded : ∀ (a : Value α) (b : Value Node),
    a.compareBy (.guarded (compareByPolicy policy)) policy node compareRoots b =
      a.compare policy node compareRoots b
  | .query _ _, .query _ _ => by simp only [compareBy, compare, Entry.guarded]
  | .sequence _ as, .sequence _ bs => by simp only [compareBy, compare, compareListBy_guarded as bs]
  | .query _ _, .scalar _ | .query _ _, .text _ _ | .query _ _, .sequence _ _
  | .query _ _, .object _ _ | .sequence _ _, .scalar _ | .sequence _ _, .text _ _
  | .sequence _ _, .query _ _ | .sequence _ _, .object _ _ | .scalar _, _ | .text _ _, _
  | .object _ _, _ => by simp only [compareBy]

/-- Lists of payloads are compared with a guard that leaves open pairs to the policy. -/
theorem compareListBy_guarded : ∀ (as : List (Value α)) (bs : List (Value Node)),
    compareListBy (.guarded (compareByPolicy policy)) policy node compareRoots as bs =
      compareList policy node compareRoots as bs
  | [], _ => by simp only [compareListBy, compareList]
  | _ :: _, [] => by simp only [compareListBy, compareList]
  | a :: as, b :: bs => by
    simp only [compareListBy, compareList, compareBy_guarded a b, compareListBy_guarded as bs]

end

end Value

/-- Shapes are compared with a guard that leaves open pairs to the policy. -/
theorem Shape.compareBy_guarded {kind : Kind} {type : Ty} {policy : ConstantPolicy}
    {node : α → Node} {compare' : α → Node → CompareM Unit} (s : Shape α) (t : Shape Node) :
    s.compareBy (.guarded (Value.compareByPolicy policy)) kind type policy node compare' t =
      s.compare kind type policy node compare' t := by
  unfold compareBy
  split
  · rw [Value.compareAtBy, Value.compareBy_guarded]
    rfl
  · rfl

/-- Trees are compared with a guard that leaves open pairs to the policy. -/
theorem Node.compareBy_guarded (policy : ConstantPolicy) (a b : Node) :
    a.compareBy (.guarded (Value.compareByPolicy policy)) policy b = a.compare policy b := by
  have hchildren : (fun (x : {child // child ∈ a.shape.handles}) other =>
      x.val.compareBy (.guarded (Value.compareByPolicy policy)) policy other) =
        fun x other => x.val.compare policy other := by
    funext x other
    exact compareBy_guarded policy x.val other
  rw [compareBy, compare, Shape.compareBy_guarded]
  rw [hchildren]
termination_by sizeOf a
decreasing_by exact sizeOf_lt_of_mem_handles x.property

/-! ## What holds of every part of a comparison -/

/-- What holds of checks, of sequences of steps that it holds of, and of the comparison of queries
if it holds of that of their roots. -/
structure QueryRules (Q : CompareM Unit → Prop) : Prop where
  /-- It holds of doing nothing. -/
  pass : Q (pure ())
  /-- It holds of a check that fails. -/
  fail : ∀ aspect, Q (differ aspect)
  /-- It holds of a sequence if it holds of both steps. -/
  seq : ∀ {first next : CompareM Unit}, Q first → Q next → Q (do first; next)
  /-- It holds of noting an event. -/
  note : ∀ event, Q (note event)
  /-- It holds of a guard if it holds of both its branches. -/
  guarded : ∀ {again : Value Node → Value Node → CompareM Unit} {pair : Stamp × Stamp}
    {a b : Value Node} {inner : CompareM Unit}, Q (again a b) → Q inner →
    Q (Entry.guarded again pair a b inner)

namespace QueryRules

variable {Q : CompareM Unit → Prop}

/-- It holds of one step together with another. -/
theorem steps (hQ : QueryRules Q) : StepRules fun step step' => Q step ∧ Q step' where
  pass := ⟨hQ.pass, hQ.pass⟩
  fail aspect := ⟨hQ.fail aspect, hQ.fail aspect⟩
  seq hf hn := ⟨hQ.seq hf.1 hn.1, hQ.seq hf.2 hn.2⟩

/-- It holds of every check. -/
theorem check (hQ : QueryRules Q) (condition : Bool) (aspect : Aspect) :
    Q (ensure condition aspect) :=
  (hQ.steps.check condition aspect).1

/-- It holds of what the policy decides. -/
theorem byPolicy (hQ : QueryRules Q) (policy : ConstantPolicy) (a b : Value Node) :
    Q (a.compareByPolicy policy b) :=
  (hQ.steps.byPolicy policy a b).1

end QueryRules

namespace Value

variable {Q : CompareM Unit → Prop} {policy : ConstantPolicy} {node : α → Node}
  {compareRoots : α → Node → CompareM Unit}

mutual

/-- It holds of the comparison of payloads if it holds of that of roots. -/
theorem compare_holds (hQ : QueryRules Q) : ∀ (a : Value α) (b : Value Node),
    (∀ x, ∀ y ∈ b.roots, Q (compareRoots x y)) → Q (a.compare policy node compareRoots b)
  | .query x _, .query y _, h => by
    have hroots := hQ.seq (hQ.note (.enteringQuery (node x))) (h x y (by simp [roots]))
    simp only [compare]
    exact hQ.guarded (hQ.byPolicy policy _ _) hroots
  | .sequence _ as, .sequence _ bs, h => by
    simp only [compare]
    exact hQ.seq (hQ.check _ _) (compareList_holds hQ as bs h)
  | .query _ _, .scalar _, _ | .query _ _, .text _ _, _ | .query _ _, .sequence _ _, _
  | .query _ _, .object _ _, _ | .sequence _ _, .scalar _, _ | .sequence _ _, .text _ _, _
  | .sequence _ _, .query _ _, _ | .sequence _ _, .object _ _, _ | .object _ _, _, _ => by
    simp only [compare]
    exact hQ.byPolicy policy _ _
  | .scalar _, _, _ | .text _ _, _, _ => by
    simp only [compare]
    exact hQ.check _ _

/-- It holds of the comparison of lists of payloads if it holds of that of roots. -/
theorem compareList_holds (hQ : QueryRules Q) : ∀ (as : List (Value α)) (bs : List (Value Node)),
    (∀ x, ∀ y ∈ rootsOfList bs, Q (compareRoots x y)) →
    Q (compareList policy node compareRoots as bs)
  | [], _, _ => by
    simp only [compareList]
    exact hQ.pass
  | _ :: _, [], _ => by
    simp only [compareList]
    exact hQ.pass
  | a :: as, b :: bs, h => by
    have hb := compare_holds hQ a b fun x y hy => h x y (List.mem_append_left _ hy)
    have hbs := compareList_holds hQ as bs fun x y hy => h x y (List.mem_append_right _ hy)
    simp only [compareList]
    exact hQ.seq hb hbs

end

end Value

/-- What is known of its handles does not change the family of a shape. -/
theorem Shape.family_attach (shape : Shape Node) : shape.attach.family = shape.family := by
  cases shape <;> rfl

/-- It holds of the comparison of two trees if it holds wherever nodes of one kind in them have
shapes that cannot be compared. -/
theorem Node.compare_holds {Q : CompareM Unit → Prop} (hQ : QueryRules Q) (policy : ConstantPolicy)
    (a b : Node) (hrefuse : ∀ x y : Node, a.Reaches Shape.handles x → b.Reaches Shape.handles y →
      x.kind = y.kind → x.shape.family ≠ y.shape.family →
      Q (throw (.unsupported x.kind y.shape.family))) : Q (a.compare policy b) := by
  have hparts : ∀ (x : {child // child ∈ a.shape.handles}), ∀ other ∈ b.shape.handles,
      Q (x.val.compare policy other) := by
    intro x other ho
    refine compare_holds hQ policy x.val other fun x' y' hx' hy' => hrefuse x' y' ?_ ?_
    · exact reaches_iff.mpr (.inr ⟨x.val, x.property, hx'⟩)
    · exact reaches_iff.mpr (.inr ⟨other, ho, hy'⟩)
  have hconstants : ∀ (v : Value {child // child ∈ a.shape.handles}) v', b.shape = .constant v' →
      Q (v.compareAt a.type policy Subtype.val (fun x other => x.val.compare policy other) v') := by
    intro v v' hb
    unfold Value.compareAt
    split
    · exact hQ.check _ _
    · refine Value.compare_holds hQ v v' fun x y hy => hparts x y ?_
      rw [hb]
      exact hy
  have hshape : a.kind = b.kind → Q (a.shape.attach.compare a.kind a.type policy Subtype.val
      (fun x other => x.val.compare policy other) b.shape) := by
    intro hkind
    by_cases hfam : a.shape.attach.family = b.shape.family
    · have hchildren : ∀ (x : {child // child ∈ a.shape.handles}), ∀ y ∈ b.shape.children,
          Q (x.val.compare policy y) := fun x y hy =>
        hparts x y (Shape.mem_handles_of_mem_children hy)
      exact (hQ.steps.shape hfam (fun x y hy => ⟨hchildren x y hy, hchildren x y hy⟩)
        fun v v' _ hb => ⟨hconstants v v' hb, hconstants v v' hb⟩).1
    · rw [Shape.compare_of_family_ne hfam]
      rw [Shape.family_attach] at hfam
      exact hrefuse a b .refl .refl hkind hfam
  rw [compare]
  split
  · exact hQ.pass
  · have hrest : decide (a.kind = b.kind) = true → Q (do
        ensure (a.type = b.type) .staticType
        a.shape.attach.compare a.kind a.type policy Subtype.val
          (fun x other => x.val.compare policy other) b.shape) := fun hkind =>
      hQ.seq (hQ.check _ _) (hshape (of_decide_eq_true hkind))
    exact (hQ.steps.check_seq fun hkind => ⟨hrest hkind, hrest hkind⟩).1
termination_by sizeOf a
decreasing_by exact sizeOf_lt_of_mem_handles x.property

/-! ## Open pairs are closed again -/

/-- The step ends with the open pairs that it started with. -/
def Restores (step : CompareM Unit) : Prop :=
  ∀ progress, (step.run.run progress).2.entered = progress.entered

/-- Steps that restore the open pairs can be put in sequence. -/
theorem Restores.seq {first next : CompareM Unit} (hf : Restores first) (hn : Restores next) :
    Restores (do first; next) := by
  intro progress
  have hafter := hf progress
  rw [Settles.run_seq]
  generalize first.run.run progress = outcome at hafter ⊢
  rcases outcome with ⟨_ | _, after⟩
  · exact hafter
  · exact (hn after).trans hafter

/-- Noting an event leaves the open pairs alone. -/
theorem restores_note (event : Event) : Restores (note event) := fun _ => rfl

/-- A pair that was opened is closed at the end. -/
theorem restores_within {pair : Stamp × Stamp} {inner : CompareM Unit} (h : Restores inner) :
    Restores (within pair inner) := by
  intro progress
  have hinner := h { progress with entered := pair :: progress.entered }
  change ((inner.run.run { progress with entered := pair :: progress.entered }).2.entered.erase
    pair) = progress.entered
  rw [hinner, List.erase_cons_head]

/-- The guard leaves the open pairs alone if both its branches do. -/
theorem restores_guarded {again : Value Node → Value Node → CompareM Unit} {pair : Stamp × Stamp}
    {a b : Value Node} {inner : CompareM Unit} (ha : Restores (again a b)) (hi : Restores inner) :
    Restores (Entry.guarded again pair a b inner) := by
  intro progress
  change ((if progress.entered.contains pair then again a b else within pair inner :
    CompareM Unit).run.run progress).2.entered = progress.entered
  split
  · exact ha progress
  · exact restores_within hi progress

/-- Every part of a comparison restores the open pairs. -/
theorem queryRules_restores : QueryRules Restores where
  pass _ := rfl
  fail _ _ := rfl
  seq hf hn := hf.seq hn
  note := restores_note
  guarded := restores_guarded

/-- The comparison of payloads restores the open pairs if the comparison of roots does. -/
theorem Value.compare_restores {policy : ConstantPolicy} {node : α → Node}
    {compareRoots : α → Node → CompareM Unit} (h : ∀ x y, Restores (compareRoots x y))
    (a : Value α) (b : Value Node) : Restores (a.compare policy node compareRoots b) :=
  compare_holds queryRules_restores a b fun x y _ => h x y

/-- The comparison of two trees restores the open pairs, whatever these are and however it ends. -/
theorem Node.compare_restores (policy : ConstantPolicy) (a b : Node) :
    Restores (a.compare policy b) :=
  compare_holds queryRules_restores policy a b fun _ _ _ _ _ _ _ => rfl

/-! ## No pair is entered again -/

/-- The two steps, run while the given pairs are open, end in the same way with the same events, and
each leaves its open pairs as they are. -/
def Alike (opened opened' : List (Stamp × Stamp)) (step step' : CompareM Unit) : Prop :=
  ∀ before, ∃ result after, step.run.run ⟨opened, before⟩ = (result, ⟨opened, after⟩) ∧
    step'.run.run ⟨opened', before⟩ = (result, ⟨opened', after⟩)

section Alike

variable {opened opened' : List (Stamp × Stamp)}

/-- Checks are alike, and so are sequences of alike steps. -/
theorem stepRelation_alike : StepRelation (Alike opened opened') where
  pass before := ⟨.ok (), before, rfl, rfl⟩
  fail aspect before := ⟨.error (.differs aspect), .treesDiffer aspect :: before, rfl, rfl⟩
  refuse kind found before := ⟨.error (.unsupported kind found), before, rfl, rfl⟩
  seq := by
    intro first first' next next' hfirst hnext before
    obtain ⟨result, after, hrun, hrun'⟩ := hfirst before
    rw [Settles.run_seq, Settles.run_seq, hrun, hrun']
    cases result with
    | error halt => exact ⟨.error halt, after, rfl, rfl⟩
    | ok => exact hnext after

/-- A pair that is not open is entered, as it is without a guard. -/
theorem alike_guarded {again : Value Node → Value Node → CompareM Unit} {pair : Stamp × Stamp}
    {a b : Value Node} {inner inner' : CompareM Unit} (hp : pair ∉ opened)
    (h : Alike (pair :: opened) opened' inner inner') :
    Alike opened opened' (Entry.guarded again pair a b inner)
      (Entry.unguarded pair a b inner') := by
  intro before
  obtain ⟨result, after, hrun, hrun'⟩ := h before
  refine ⟨result, after, ?_, hrun'⟩
  have hguard : (Entry.guarded again pair a b inner).run.run ⟨opened, before⟩ =
      (if opened.contains pair then again a b else within pair inner : CompareM Unit).run.run
        ⟨opened, before⟩ := rfl
  have hwithin : (within pair inner).run.run ⟨opened, before⟩ =
      ((inner.run.run ⟨pair :: opened, before⟩).1,
        { (inner.run.run ⟨pair :: opened, before⟩).2 with
          entered := (inner.run.run ⟨pair :: opened, before⟩).2.entered.erase pair }) := rfl
  rw [hguard, if_neg (by simpa using hp), hwithin, hrun]
  simp

end Alike

namespace Value

variable {opened opened' : List (Stamp × Stamp)} {policy : ConstantPolicy} {node : α → Node}
  {again : Value Node → Value Node → CompareM Unit}
  {compareRoots compareRoots' : α → Node → CompareM Unit}

mutual

/-- Payloads are compared alike with and without a guard, if no query in them is open. -/
theorem compareBy_alike : ∀ (a : Value α) (b : Value Node),
    (∀ x ∈ a.roots, ∀ y, ((node x).stamp, y.stamp) ∉ opened ∧
      Alike (((node x).stamp, y.stamp) :: opened) opened' (compareRoots x y)
        (compareRoots' x y)) →
    Alike opened opened' (a.compareBy (.guarded again) policy node compareRoots b)
      (a.compareBy .unguarded policy node compareRoots' b)
  | .query x _, .query y _, h => by
    obtain ⟨hclosed, hroots⟩ := h x (by simp [roots]) y
    have hnote : Alike (((node x).stamp, y.stamp) :: opened) opened'
        (note (.enteringQuery (node x))) (note (.enteringQuery (node x))) :=
      fun before => ⟨.ok (), .enteringQuery (node x) :: before, rfl, rfl⟩
    simp only [compareBy]
    exact alike_guarded hclosed (stepRelation_alike.seq hnote hroots)
  | .sequence _ as, .sequence _ bs, h => by
    simp only [compareBy]
    exact stepRelation_alike.seq (stepRelation_alike.check _ _) (compareListBy_alike as bs h)
  | .query _ _, .scalar _, _ | .query _ _, .text _ _, _ | .query _ _, .sequence _ _, _
  | .query _ _, .object _ _, _ | .sequence _ _, .scalar _, _ | .sequence _ _, .text _ _, _
  | .sequence _ _, .query _ _, _ | .sequence _ _, .object _ _, _ | .object _ _, _, _ => by
    simp only [compareBy, compare]
    exact stepRelation_alike.byPolicy policy _ _
  | .scalar _, _, _ | .text _ _, _, _ => by
    simp only [compareBy, compare]
    exact stepRelation_alike.check _ _

/-- Lists of payloads are compared alike with and without a guard, if no query in them is open. -/
theorem compareListBy_alike : ∀ (as : List (Value α)) (bs : List (Value Node)),
    (∀ x ∈ rootsOfList as, ∀ y, ((node x).stamp, y.stamp) ∉ opened ∧
      Alike (((node x).stamp, y.stamp) :: opened) opened' (compareRoots x y)
        (compareRoots' x y)) →
    Alike opened opened' (compareListBy (.guarded again) policy node compareRoots as bs)
      (compareListBy .unguarded policy node compareRoots' as bs)
  | [], _, _ => by
    simp only [compareListBy]
    exact stepRelation_alike.pass
  | _ :: _, [], _ => by
    simp only [compareListBy]
    exact stepRelation_alike.pass
  | a :: as, b :: bs, h => by
    simp only [rootsOfList, List.mem_append] at h
    have ha := compareBy_alike a b fun x hx => h x (.inl hx)
    have has := compareListBy_alike as bs fun x hx => h x (.inr hx)
    simp only [compareListBy]
    exact stepRelation_alike.seq ha has

end

end Value

/-- Shapes are compared alike with and without a guard, if what they hold is and is not open. -/
theorem Shape.compareBy_alike {opened opened' : List (Stamp × Stamp)} {kind : Kind} {type : Ty}
    {policy : ConstantPolicy} {node : α → Node} {again : Value Node → Value Node → CompareM Unit}
    {compare compare' : α → Node → CompareM Unit}
    (h : ∀ x y, Alike opened opened' (compare x y) (compare' x y))
    (hroots : ∀ x y, ((node x).stamp, y.stamp) ∉ opened ∧
      Alike (((node x).stamp, y.stamp) :: opened) opened' (compare x y) (compare' x y))
    (s : Shape α) (t : Shape Node) :
    Alike opened opened' (s.compareBy (.guarded again) kind type policy node compare t)
      (s.compareBy .unguarded kind type policy node compare' t) := by
  by_cases hconstants : ∃ v v', s = .constant v ∧ t = .constant v'
  · obtain ⟨v, v', rfl, rfl⟩ := hconstants
    simp only [compareBy, Value.compareAtBy]
    split
    · exact stepRelation_alike.check _ _
    · exact Value.compareBy_alike v v' fun x _ => hroots x
  · have hsame : ∀ (enter : Entry) (compare : α → Node → CompareM Unit),
        s.compareBy enter kind type policy node compare t =
          s.compare kind type policy node compare t := by
      intro enter compare
      unfold compareBy
      split
      · exact absurd ⟨_, _, rfl, rfl⟩ hconstants
      · rfl
    rw [hsame, hsame]
    refine stepRelation_alike.shape h s t fun v v' hs ht => ?_
    exact absurd ⟨v, v', hs, ht⟩ hconstants

namespace Node

variable {heap : Heap}

/-- In a heap, trees are compared alike with and without a guard while nothing below the first one
is open. -/
theorem compareBy_alike {a : Node} {opened opened' : List (Stamp × Stamp)} (ha : a ∈ heap)
    (hclear : IsClear opened a) (again : Value Node → Value Node → CompareM Unit)
    (policy : ConstantPolicy) (b : Node) :
    Alike opened opened' (a.compareBy (.guarded again) policy b)
      (a.compareBy .unguarded policy b) := by
  have ih : ∀ (x : {child // child ∈ a.shape.handles}) other opened, IsClear opened x.val →
      Alike opened opened' (x.val.compareBy (.guarded again) policy other)
        (x.val.compareBy .unguarded policy other) := by
    intro x other opened hclear
    exact compareBy_alike (Heap.mem_of_mem_handles ha x.property) hclear again policy other
  have hchildren : ∀ (x : {child // child ∈ a.shape.handles}) other,
      Alike opened opened' (x.val.compareBy (.guarded again) policy other)
        (x.val.compareBy .unguarded policy other) := by
    intro x other
    exact ih x other opened (hclear.of_mem_handles x.property)
  have hroots : ∀ (x : {child // child ∈ a.shape.handles}) (other : Node),
      (x.val.stamp, other.stamp) ∉ opened ∧
        Alike ((x.val.stamp, other.stamp) :: opened) opened'
          (x.val.compareBy (.guarded again) policy other)
          (x.val.compareBy .unguarded policy other) := by
    intro x other
    have hx : x.val ∈ heap := Heap.mem_of_mem_handles ha x.property
    constructor
    · intro hmem
      exact hclear _ hmem x.val x.property x.val .refl rfl
    · -- the root that is opened is above what is compared next, so it is not met there
      exact ih x other _ (IsClear.cons hx (hclear.of_mem_handles x.property) other.stamp)
  have hshape : Alike opened opened'
      (a.shape.attach.compareBy (.guarded again) a.kind a.type policy Subtype.val
        (fun x other => x.val.compareBy (.guarded again) policy other) b.shape)
      (a.shape.attach.compareBy .unguarded a.kind a.type policy Subtype.val
        (fun x other => x.val.compareBy .unguarded policy other) b.shape) :=
    Shape.compareBy_alike hchildren hroots a.shape.attach b.shape
  rw [compareBy, compareBy]
  split
  · exact stepRelation_alike.pass
  · exact stepRelation_alike.seq (stepRelation_alike.check _ _)
      (stepRelation_alike.seq (stepRelation_alike.check _ _) hshape)
termination_by sizeOf a
decreasing_by exact sizeOf_lt_of_mem_handles x.property

/-- In a heap, a comparison with a guard runs like the one without, whatever is to be done with
pairs that are open. -/
theorem run_compareBy_guarded {a : Node} (ha : a ∈ heap)
    (again : Value Node → Value Node → CompareM Unit) (policy : ConstantPolicy) (b : Node)
    (before : List Event) :
    (a.compareBy (.guarded again) policy b).run.run ⟨[], before⟩ =
      (a.compareBy .unguarded policy b).run.run ⟨[], before⟩ := by
  have hstart : IsClear [] a := by simp [IsClear]
  have halike : Alike [] [] _ _ := compareBy_alike ha hstart again policy b
  obtain ⟨result, after, hrun, hrun'⟩ := halike before
  rw [hrun, hrun']

end Node

/-! ## One comparer for many pairs -/

namespace Comparer

/-- Compares pair after pair with one comparer. -/
def runAll (comparer : Comparer) : List (Node × Node) → List Comparison × Comparer
  | [] => ([], comparer)
  | (a, b) :: pairs =>
    let (answer, next) := comparer.run a b
    let (answers, last) := next.runAll pairs
    (answer :: answers, last)

/-- A comparer keeps its policy and has no open pairs after a comparison. -/
theorem run_snd (comparer : Comparer) (a b : Node) :
    (comparer.run a b).2 = ⟨comparer.policy, []⟩ := by
  have hrestored := a.compare_restores comparer.policy b ⟨[], []⟩
  have hrun : (comparer.run a b).2 = ⟨comparer.policy,
      ((a.compare comparer.policy b).run.run ⟨[], []⟩).2.entered⟩ := rfl
  rw [hrun, hrestored]

/-- What a comparer answers does not depend on what was compared before. -/
theorem runAll_fst (comparer : Comparer) (pairs : List (Node × Node)) :
    (comparer.runAll pairs).1 = pairs.map fun pair => pair.1.comparison comparer.policy pair.2 := by
  induction pairs generalizing comparer with
  | nil => rfl
  | cons pair pairs ih =>
    have hnext : (comparer.runAll (pair :: pairs)).1 =
        (comparer.run pair.1 pair.2).1 ::
          ((comparer.run pair.1 pair.2).2.runAll pairs).1 := rfl
    rw [hnext, ih, run_snd]
    rfl

end Comparer

namespace Node

/-- The guard of nested queries changes nothing and keeps nothing. In a heap, whatever stands in its
place runs in the same way, so it is never used, and the comparison without a guard is the same
too. The comparison of nodes and that of payloads leave the open pairs as they found them, however
they end, and a comparer that has been used answers like a new one and has no open pairs. -/
theorem guard_unobservable {heap : Heap} {a : Node} (ha : a ∈ heap) (policy : ConstantPolicy)
    (b : Node) :
    a.compareBy (.guarded (Value.compareByPolicy policy)) policy b = a.compare policy b ∧
      (∀ again before, (a.compareBy (.guarded again) policy b).run.run ⟨[], before⟩ =
        (a.compare policy b).run.run ⟨[], before⟩) ∧
      (∀ before, (a.compareBy .unguarded policy b).run.run ⟨[], before⟩ =
        (a.compare policy b).run.run ⟨[], before⟩) ∧
      (∀ x y : Node, Restores (x.compare policy y)) ∧
      (∀ (α : Type) (node : α → Node) (v : Value α) (v' : Value Node),
        Restores (v.compare policy node (fun x y => (node x).compare policy y) v')) ∧
      ∀ (comparer : Comparer) (pairs : List (Node × Node)),
        (comparer.runAll pairs).1 =
            pairs.map (fun pair => pair.1.comparison comparer.policy pair.2) ∧
          ∀ x y, (comparer.run x y).2 = ⟨comparer.policy, []⟩ := by
  have hguarded := compareBy_guarded policy a b
  have hunguarded : ∀ before, (a.compareBy .unguarded policy b).run.run ⟨[], before⟩ =
      (a.compare policy b).run.run ⟨[], before⟩ := by
    intro before
    rw [← hguarded, run_compareBy_guarded ha]
  have hagain : ∀ again before, (a.compareBy (.guarded again) policy b).run.run ⟨[], before⟩ =
      (a.compare policy b).run.run ⟨[], before⟩ := by
    intro again before
    rw [run_compareBy_guarded ha, hunguarded]
  refine ⟨hguarded, hagain, hunguarded, compare_restores policy, ?_, ?_⟩
  · intro α node v v'
    exact Value.compare_restores (fun x y => compare_restores policy (node x) y) v v'
  · intro comparer pairs
    exact ⟨comparer.runAll_fst pairs, comparer.run_snd⟩

/-- A constant that holds one query twice, and this query holds another one twice. -/
def nestedQueries (first : Stamp) : Node :=
  let parameter : Node := ⟨first, .parameter, .void, .parameter "p" false⟩
  let inner : Node := ⟨first + 2, .constant, .array .void 1,
    .constant (.sequence (first + 1) [.query parameter .void, .query parameter .void])⟩
  ⟨first + 4, .constant, .array .void 1,
    .constant (.sequence (first + 3) [.query inner .void, .query inner .void])⟩

/-- Queries that are entered again and again, one inside another, are never entered while they are
open: a guard that fails there does not fail. -/
theorem guard_unobservable_nestedQueries : ∃ heap : Heap, nestedQueries 0 ∈ heap ∧
    (nestedQueries 0).same (nestedQueries 5) = false ∧
    ((nestedQueries 0).compareBy (.guarded fun _ _ => differ .constantValue) .byReference
        (nestedQueries 5)).run.run ⟨[], []⟩ =
      ((nestedQueries 0).compare .byReference (nestedQueries 5)).run.run ⟨[], []⟩ := by
  obtain ⟨heap₁, -, hnext₁, hp⟩ := Heap.empty.exists_insert
    ⟨0, .parameter, .void, .parameter "p" false⟩ (Nat.le_refl _)
    (by simp [Shape.handles, Shape.children])
  obtain ⟨heap₂, -, hnext₂, hi⟩ := heap₁.exists_insert
    ⟨2, .constant, .array .void 1, .constant (.sequence 1
      [.query ⟨0, .parameter, .void, .parameter "p" false⟩ .void,
        .query ⟨0, .parameter, .void, .parameter "p" false⟩ .void])⟩
    (by simp [hnext₁]) (by simp [Shape.handles, Value.roots, Value.rootsOfList, hp])
  obtain ⟨heap₃, -, -, ho⟩ := heap₂.exists_insert (nestedQueries 0)
    (by simp [hnext₂, nestedQueries])
    (by simp [nestedQueries, Shape.handles, Value.roots, Value.rootsOfList, hi])
  exact ⟨heap₃, ho, rfl, (guard_unobservable ho .byReference (nestedQueries 5)).2.1 _ []⟩

end Node

end ExprTree
