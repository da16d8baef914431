import ExprTree.Proofs.OneTraversal

/-!
# Forward rewriting is pruned visiting

A rule that is run forward is asked about a node before the nodes below it, and if it replaces the
node, then it is not asked about those. So it is asked about nodes of the original tree only, about
each place at most once, and about a place exactly when nothing above it was replaced. A visit that
is cut short where the rule replaces a node asks the same questions in the same order. Every
replacement stands in the result at the place of the node that it replaces.

Both runs are compared with `Node.descend`, which asks the questions and builds nothing.
-/

namespace ExprTree

variable {α β σ : Type}

/-! ## Questions and answers at places -/

/-- A question to a rule, with the place of the node in the tree. -/
structure Visit where
  /-- The place of the node. -/
  place : List Nat
  /-- The node that the rule was given. -/
  node : Node
  /-- What the rule gave for it. -/
  answer : Node

namespace Visit

/-- The visit as seen from one step further up. -/
def under (i : Nat) (visit : Visit) : Visit := { visit with place := i :: visit.place }

/-- The question and the answer without the place. -/
def call (visit : Visit) : Node × Node := (visit.node, visit.answer)

/-- The rule gave back the node. -/
def IsKept (visit : Visit) : Prop := visit.answer.same visit.node = true

end Visit

/-- Asks about a node and, where it is kept, about the nodes below it. -/
def Node.descend (f : Node → StateM σ Node) (n : Node) : StateM σ (List Visit) := do
  let answer ← f n
  if answer.same n then
    let parts ← n.shape.children.attach.mapM fun child => child.val.descend f
    pure (⟨[], n, answer⟩ :: numbered Visit.under parts)
  else pure [⟨[], n, answer⟩]
termination_by sizeOf n
decreasing_by exact sizeOf_lt_of_mem_handles (Shape.mem_handles_of_mem_children child.property)

/-- A node that is kept is followed by the nodes below its children, one that is not by none. -/
theorem Node.descend_apply (f : Node → StateM σ Node) (n : Node) (s : σ) :
    n.descend f s =
      if (f n s).1.same n = true then
        (⟨[], n, (f n s).1⟩ ::
          numbered Visit.under (n.shape.children.mapM (descend f) (f n s).2).1,
          (n.shape.children.mapM (descend f) (f n s).2).2)
      else ([⟨[], n, (f n s).1⟩], (f n s).2) := by
  have hattach : (n.shape.children.attach.mapM fun child => child.val.descend f) =
      n.shape.children.mapM (descend f) := by
    conv_rhs => rw [← List.attach_map_subtype_val n.shape.children, List.mapM_map]
    rfl
  rw [descend, hattach, bind_apply]
  split <;> rfl

/-! ## The places that are asked about -/

/-- The visits are at places of the tree, at each one at most once, and at a place exactly when all
nodes above it were kept. -/
structure Node.IsPruned (n : Node) (visits : List Visit) : Prop where
  /-- The node in question is the one at the place. -/
  node : ∀ v ∈ visits, n.at? v.place = some v.node
  /-- No place is asked about twice. -/
  nodup : (visits.map Visit.place).Nodup
  /-- A place is asked about if all nodes above it were kept, and only then. -/
  mem_iff : ∀ p, p ∈ visits.map Visit.place ↔ (n.at? p).isSome = true ∧
    ∀ q, q <+: p → q ≠ p → ∃ v ∈ visits, v.place = q ∧ v.IsKept

/-- Items of related lists are related at each index. -/
theorem forall₂_getElem? {R : α → β → Prop} {xs : List α} {ys : List β} (h : List.Forall₂ R xs ys)
    {i : Nat} {y : β} (hy : ys[i]? = some y) : ∃ x, xs[i]? = some x ∧ R x y := by
  induction h generalizing i with
  | nil => simp at hy
  | cons hxy _ ih =>
    cases i with
    | zero =>
      rw [List.getElem?_cons_zero, Option.some.injEq] at hy
      rw [← hy]
      exact ⟨_, rfl, hxy⟩
    | succ i => exact ih hy

/-- Visits below a node are at places that begin with the number of a child. -/
theorem map_place_numbered (parts : List (List Visit)) :
    (numbered Visit.under parts).map Visit.place =
      numbered List.cons (parts.map (List.map Visit.place)) := by
  rw [map_numbered, numbered, numbered]
  congr 1
  refine List.ext_getElem (by simp) fun i hi hi' => ?_
  simp [Visit.under]

namespace Node.IsPruned

variable {n answer : Node} {parts : List (List Visit)}

/-- A node that is replaced is the only one that is asked about. -/
theorem of_replaced (h : answer.same n = false) : n.IsPruned [⟨[], n, answer⟩] := by
  constructor
  · simp [at?]
  · simp
  · intro p
    cases p with
    | nil => simp [at?]
    | cons i p =>
      constructor
      · simp
      · intro hp
        obtain ⟨v, hv, -, hk⟩ := hp.2 [] (by simp) (by simp)
        rw [List.mem_singleton] at hv
        rw [hv, Visit.IsKept, h] at hk
        simp at hk

/-- What is found one step down is found among the visits of the child. -/
theorem exists_visit_cons_iff {P : Visit → Prop} (hP : ∀ i v, P (v.under i) ↔ P v) {i : Nat}
    {p : List Nat} {part : List Visit} (hpart : parts[i]? = some part) :
    (∃ v ∈ (⟨[], n, answer⟩ :: numbered Visit.under parts : List Visit), v.place = i :: p ∧ P v) ↔
      ∃ v ∈ part, v.place = p ∧ P v := by
  constructor
  · intro h
    obtain ⟨v, hv, hplace, hPv⟩ := h
    rcases List.mem_cons.mp hv with rfl | hv
    · simp at hplace
    · obtain ⟨j, part', hpart', v', hv', rfl⟩ := mem_numbered.mp hv
      obtain ⟨rfl, hplace'⟩ := List.cons.inj hplace
      rw [hpart, Option.some.injEq] at hpart'
      rw [← hpart'] at hv'
      exact ⟨v', hv', hplace', (hP j v').mp hPv⟩
  · intro h
    obtain ⟨v, hv, hplace, hPv⟩ := h
    have hmem : v.under i ∈ numbered Visit.under parts :=
      mem_numbered.mpr ⟨i, part, hpart, v, hv, rfl⟩
    exact ⟨v.under i, List.mem_cons_of_mem _ hmem, congrArg (i :: ·) hplace, (hP i v).mpr hPv⟩

/-- A node that is kept is asked about together with those below it. -/
theorem of_kept (h : answer.same n = true)
    (hparts : List.Forall₂ IsPruned n.shape.children parts) :
    n.IsPruned (⟨[], n, answer⟩ :: numbered Visit.under parts) := by
  constructor
  · intro v hv
    rcases List.mem_cons.mp hv with rfl | hv
    · rfl
    · obtain ⟨i, part, hpart, v', hv', rfl⟩ := mem_numbered.mp hv
      obtain ⟨child, hc, hpruned⟩ := forall₂_getElem? hparts hpart
      exact (at?_cons hc v'.place).trans (hpruned.node v' hv')
  · rw [List.map_cons, map_place_numbered, List.nodup_cons]
    constructor
    · intro hmem
      obtain ⟨i, part, -, p, -, heq⟩ := mem_numbered.mp hmem
      simp at heq
    · refine nodup_numbered fun places hplaces => ?_
      obtain ⟨part, hpart, rfl⟩ := List.mem_map.mp hplaces
      obtain ⟨i, hi⟩ := List.mem_iff_getElem?.mp hpart
      obtain ⟨child, -, hpruned⟩ := forall₂_getElem? hparts hi
      exact hpruned.nodup
  · intro p
    cases p with
    | nil => simp [at?]
    | cons i p =>
      cases hpart : parts[i]? with
      | none =>
        constructor
        · intro hmem
          rw [List.map_cons, map_place_numbered, List.mem_cons, mem_numbered] at hmem
          obtain ⟨j, places, hj, q, -, heq⟩ := hmem.resolve_left (by simp)
          rw [(List.cons.inj heq).1, List.getElem?_map, hpart] at hj
          simp at hj
        · intro hp
          obtain ⟨inner, hinner⟩ := Option.isSome_iff_exists.mp hp.1
          rw [at?, Option.bind_eq_some_iff] at hinner
          obtain ⟨child, hc, -⟩ := hinner
          obtain ⟨part, hpart', -⟩ := forall₂_getElem? hparts.flip hc
          rw [hpart] at hpart'
          simp at hpart'
      | some part =>
        obtain ⟨child, hc, hpruned⟩ := forall₂_getElem? hparts hpart
        have hmem : (∃ v ∈ (⟨[], n, answer⟩ :: numbered Visit.under parts : List Visit),
            v.place = i :: p ∧ True) ↔ ∃ v ∈ part, v.place = p ∧ True :=
          exists_visit_cons_iff (fun _ _ => Iff.rfl) hpart
        simp only [and_true] at hmem
        rw [at?_cons hc, List.mem_map, hmem, ← List.mem_map, hpruned.mem_iff]
        refine and_congr_right fun _ => ⟨fun hq q hprefix hne => ?_, fun hq q hprefix hne => ?_⟩
        · rcases List.prefix_cons_iff.mp hprefix with rfl | ⟨q', rfl, hprefix'⟩
          · exact ⟨_, List.mem_cons_self, rfl, h⟩
          · have hne' : q' ≠ p := fun heq => hne (by rw [heq])
            exact (exists_visit_cons_iff (fun _ _ => Iff.rfl) hpart).mpr (hq q' hprefix' hne')
        · have hne' : i :: q ≠ i :: p := fun heq => hne (List.cons.inj heq).2
          exact (exists_visit_cons_iff (fun _ _ => Iff.rfl) hpart).mp
            (hq (i :: q) (List.cons_prefix_cons.mpr ⟨rfl, hprefix⟩) hne')

end Node.IsPruned

/-- The results of a list of actions are each the result of its action, run from some state. -/
theorem forall₂_mapM {g : α → StateM σ β} {R : α → β → Prop} {xs : List α}
    (h : ∀ x ∈ xs, ∀ s, R x (g x s).1) (s : σ) : List.Forall₂ R xs (xs.mapM g s).1 := by
  induction xs generalizing s with
  | nil => exact .nil
  | cons x xs ih =>
    rw [List.mapM_cons, bind_apply, bind_apply]
    exact .cons (h x (by simp) s) (ih (fun y hy => h y (List.mem_cons_of_mem _ hy)) _)

/-- The questions of a descent are at the places where nothing above is replaced. -/
theorem Node.descend_isPruned (f : Node → StateM σ Node) (n : Node) (s : σ) :
    n.IsPruned (n.descend f s).1 := by
  have hchildren : ∀ child ∈ n.shape.children, ∀ s, child.IsPruned (child.descend f s).1 := by
    intro child hc s
    exact descend_isPruned f child s
  rw [descend_apply]
  split
  case isTrue hs => exact .of_kept hs (forall₂_mapM hchildren _)
  case isFalse hs => exact .of_replaced (by simpa using hs)
termination_by sizeOf n
decreasing_by exact sizeOf_lt_of_mem_handles (Shape.mem_handles_of_mem_children hc)

/-! ## Runs that ask like a descent -/

/-- The rule as an action that draws no stamps. The rule may keep a state, from which it can also
take the stamps of the nodes that it creates; so what it does depends on that state and on the
questions, and not on the stamps that are drawn between them. -/
def quiet (f : α → StateM σ β) (x : α) : StateT σ Supply β := fun s => pure (f x s)

/-- A rule is run without time passing for the supply. -/
theorem runs_quiet {f : α → StateM σ β} {x : α} {b : β} {w w' : Moment σ}
    (h : Runs (quiet f x) w b w') : f x w.1 = (b, w'.1) ∧ w'.2 = w.2 := by
  have hrun : quiet f x w.1 w.2 = (f x w.1, w.2) := rfl
  rw [Runs, hrun, Prod.mk.injEq] at h
  exact ⟨h.1, h.2.symm⟩

/-- The run asked what a descent asks, and noted it; the visits are as described. -/
def AsksLike (f : Node → StateM σ Node) (n : Node) (P : List Visit → Prop)
    (w w' : Moment (List (Node × Node) × σ)) : Prop :=
  ∃ visits, n.descend f w.1.2 = (visits, w'.1.2) ∧ w'.1.1 = w.1.1 ++ visits.map Visit.call ∧
    P visits

/-- If the run for each item asks like a descent, then the pass over the items asks like the
descents of all of them. An invariant of the moments can be used for the single runs. -/
theorem Passes.asksLike {f : Node → StateM σ Node} {P : Node → β → List Visit → Prop}
    {I : Moment (List (Node × Node) × σ) → Prop}
    {g : Node → StateT (List (Node × Node) × σ) Supply β} {xs : List Node} {bs : List β}
    {w w' : Moment (List (Node × Node) × σ)} (hdraw : ∀ w, I w → I (w.1, w.2 + 1))
    (hI : ∀ x w b w', Runs (g x) w b w' → I w → I w')
    (hg : ∀ x ∈ xs, ∀ w b w', I w → Runs (g x) w b w' → AsksLike f x (P x b) w w') (hw : I w)
    (h : Passes g w xs bs w') :
    ∃ parts, xs.mapM (Node.descend f) w.1.2 = (parts, w'.1.2) ∧
      w'.1.1 = w.1.1 ++ parts.flatten.map Visit.call ∧
      ∀ (i : Nat) part, parts[i]? = some part →
        ∃ x b, xs[i]? = some x ∧ bs[i]? = some b ∧ P x b part := by
  induction h with
  | done => exact ⟨[], rfl, by simp, by simp⟩
  | @call w w₁ w₂ x b xs bs hx _ ih =>
    obtain ⟨part, hpart, hnoted, hP⟩ := hg x (by simp) w b w₁ hw hx
    obtain ⟨parts, hparts, hnoted', hPs⟩ :=
      ih (fun y hy => hg y (List.mem_cons_of_mem _ hy)) (hI x w b w₁ hx hw)
    refine ⟨part :: parts, ?_, ?_, ?_⟩
    · rw [List.mapM_cons, bind_apply, bind_apply, hpart, hparts]
      rfl
    · rw [hnoted', hnoted]
      simp
    · intro i part' hi
      cases i with
      | zero =>
        rw [List.getElem?_cons_zero, Option.some.injEq] at hi
        rw [← hi]
        exact ⟨x, b, rfl, rfl, hP⟩
      | succ i => exact hPs i part' hi
  | draw _ ih => exact ih hg (hdraw _ hw)

/-- The places do not matter for what is noted. -/
theorem map_call_numbered (parts : List (List Visit)) :
    (numbered Visit.under parts).map Visit.call = parts.flatten.map Visit.call := by
  rw [map_numbered, numbered, List.map_flatten]
  congr 1
  refine List.ext_getElem (by simp) fun i hi hi' => ?_
  simp [Visit.under, Visit.call]

namespace AsksLike

variable {f : Node → StateM σ Node} {n answer : Node} {P : List Visit → Prop}
  {w w₁ w' : Moment (List (Node × Node) × σ)}

/-- A run that asks about a node that is replaced, and then about nothing, asks like a descent. -/
theorem of_replaced (hf : Runs (recording (quiet f) n) w answer w') (hs : ¬ answer.same n = true)
    (hP : P [⟨[], n, answer⟩]) : AsksLike f n P w w' := by
  obtain ⟨hnoted, hrun⟩ := runs_recording hf
  obtain ⟨hfn, -⟩ := runs_quiet hrun
  refine ⟨[⟨[], n, answer⟩], ?_, hnoted, hP⟩
  rw [Node.descend_apply, hfn, if_neg hs]

/-- A run that asks about a node that is kept, and then about those below it, asks like a
descent. -/
theorem of_kept {parts : List (List Visit)} (hf : Runs (recording (quiet f) n) w answer w₁)
    (hs : answer.same n = true)
    (hparts : n.shape.children.mapM (Node.descend f) w₁.1.2 = (parts, w'.1.2))
    (hnoted : w'.1.1 = w₁.1.1 ++ parts.flatten.map Visit.call)
    (hP : P (⟨[], n, answer⟩ :: numbered Visit.under parts)) : AsksLike f n P w w' := by
  obtain ⟨hnoted₁, hrun⟩ := runs_recording hf
  obtain ⟨hfn, -⟩ := runs_quiet hrun
  refine ⟨⟨[], n, answer⟩ :: numbered Visit.under parts, ?_, ?_, hP⟩
  · rw [Node.descend_apply, hfn, if_pos hs, hparts]
  · rw [hnoted, hnoted₁, List.map_cons, map_call_numbered, List.append_assoc]
    rfl

end AsksLike

namespace Node

variable {f : Node → StateM σ Node}

/-- Tells whether the rule keeps the node, and notes what it was asked and what it answered. -/
def keeps (f : Node → StateM σ Node) (n : Node) :
    StateT (List (Node × Node) × σ) Supply Bool := do
  let answer ← recording (quiet f) n
  pure (answer.same n)

/-- A visit that is cut short where the rule replaces a node asks like a descent. -/
theorem visitWhile_asksLike {n : Node}
    (hn : ∀ inner, n.Reaches Shape.children inner → inner.IsIrreducible)
    {w w' : Moment (List (Node × Node) × σ)} {u : PUnit}
    (h : Runs (n.visitWhile (keeps f)) w u w') : AsksLike f n (fun _ => True) w w' := by
  rw [visitWhile, visitWith_eq] at h
  simp only [keeps, runs_bind, runs_pure] at h
  obtain ⟨kept, w₂, ⟨answer, w₁, hasked, rfl, rfl⟩, h⟩ := h
  by_cases hs : answer.same n = true
  · rw [if_pos hs] at h
    obtain ⟨us, hp⟩ := walkChildren_passes (hn n .refl) h
    obtain ⟨parts, hparts, hnoted, -⟩ := Passes.asksLike (P := fun _ _ _ => True)
      (I := fun _ => True) (fun _ _ => trivial) (fun _ _ _ _ _ _ => trivial)
      (fun child hc w b w' _ hchild => visitWhile_asksLike (forall_reaches_child hn hc) hchild)
      trivial hp
    exact .of_kept hasked hs hparts hnoted trivial
  · rw [if_neg hs, runs_pure] at h
    rw [h.2]
    exact .of_replaced hasked hs trivial
termination_by sizeOf n
decreasing_by exact sizeOf_lt_of_mem_handles (Shape.mem_handles_of_mem_children hc)

/-- A pass does not take the supply back if no run for an item does. -/
theorem passes_le {g : α → StateT σ Supply β} {xs : List α} {bs : List β} {w w' : Moment σ}
    (hg : ∀ x ∈ xs, ∀ w b w', Runs (g x) w b w' → w.2 ≤ w'.2) (h : Passes g w xs bs w') :
    w.2 ≤ w'.2 := by
  induction h with
  | done => exact le_refl _
  | call hx _ ih =>
    exact le_trans (hg _ (by simp) _ _ _ hx) (ih fun y hy => hg y (List.mem_cons_of_mem _ hy))
  | draw _ ih => exact le_trans (Nat.le_succ _) (ih hg)

/-- Forward rewriting does not take the supply back. -/
theorem rewrite_forward_le {n r : Node} {w w' : Moment (List (Node × Node) × σ)}
    (h : Runs (n.rewrite .forward (recording (quiet f))) w r w') : w.2 ≤ w'.2 := by
  rw [rewrite, foldWith, runs_bind] at h
  obtain ⟨answer, w₁, hasked, h⟩ := h
  obtain ⟨-, hquiet⟩ := runs_quiet (runs_recording hasked).2
  rw [← hquiet]
  by_cases hs : answer.same n = true
  · rw [if_pos hs] at h
    have hbound : KeepsBound 0 False fun child : Node =>
      child.rewrite .forward (recording (quiet f)) := fun hd => hd.elim
    obtain ⟨-, -, answers, hp, -⟩ := below_runs hbound (fun hd => hd.elim) (fun hd => hd.elim) h
    exact passes_le (fun child hc w b w' hchild => rewrite_forward_le hchild) hp
  · rw [if_neg hs, runs_pure] at h
    rw [h.2]
termination_by sizeOf n
decreasing_by exact sizeOf_lt_of_mem_handles (Shape.mem_handles_of_mem_children hc)

/-! ## Replacements in the result -/

/-- The replacements stand in the result at their places, and the result is the node only if nothing
was replaced. -/
structure Shows (n r : Node) (visits : List Visit) : Prop where
  /-- What replaces a node stands in its place. -/
  replaced : ∀ v ∈ visits, ¬ v.IsKept → r.at? v.place = some v.answer
  /-- The result is the node only if nothing was replaced. -/
  kept : r.same n = true → ∀ v ∈ visits, v.IsKept

end Node

/-- At each index stands the answer, unless it is the same instance as the node there. -/
theorem Stands.getElem? {xs rs ys : List Node} (h : Stands xs rs ys) {i : Nat} {x r : Node}
    (hx : xs[i]? = some x) (hr : rs[i]? = some r) :
    ∃ y, ys[i]? = some y ∧ (y = r ∨ r.same x = true) := by
  induction h generalizing i with
  | nil => simp at hx
  | given _ ih =>
    cases i with
    | zero => exact ⟨_, rfl, .inl (by simpa using hr)⟩
    | succ i => exact ih hx hr
  | kept hs _ ih =>
    cases i with
    | zero =>
      refine ⟨_, rfl, .inr ?_⟩
      rw [List.getElem?_cons_zero, Option.some.injEq] at hx hr
      rw [← hx, ← hr]
      exact hs
    | succ i => exact ih hx hr

namespace Node

/-- What is shown by the answers for the children is shown by the node over them. -/
theorem Shows.of_parts {n r answer : Node} {answers : List Node} {parts : List (List Visit)}
    (hs : answer.same n = true) (hstands : Stands n.shape.children answers r.shape.children)
    (hsame : r.same n = true →
      List.Forall₂ (fun a x => a.same x = true) answers n.shape.children)
    (hparts : ∀ (i : Nat) part, parts[i]? = some part → ∃ x a, n.shape.children[i]? = some x ∧
      answers[i]? = some a ∧ Shows x a part) :
    Shows n r (⟨[], n, answer⟩ :: numbered Visit.under parts) := by
  constructor
  · intro v hv hnot
    rcases List.mem_cons.mp hv with rfl | hv
    · exact absurd hs hnot
    · obtain ⟨i, part, hpart, v', hv', rfl⟩ := mem_numbered.mp hv
      obtain ⟨x, a, hx, ha, hshows⟩ := hparts i part hpart
      obtain ⟨y, hy, hcase⟩ := hstands.getElem? hx ha
      rcases hcase with rfl | hkept
      · exact (at?_cons hy v'.place).trans (hshows.replaced v' hv' hnot)
      · exact absurd (hshows.kept hkept v' hv') hnot
  · intro hr v hv
    rcases List.mem_cons.mp hv with rfl | hv
    · exact hs
    · obtain ⟨i, part, hpart, v', hv', rfl⟩ := mem_numbered.mp hv
      obtain ⟨x, a, hx, ha, hshows⟩ := hparts i part hpart
      obtain ⟨a', ha', hkept⟩ := forall₂_getElem? (hsame hr) hx
      rw [ha, Option.some.injEq] at ha'
      rw [← ha'] at hkept
      exact hshows.kept hkept v' hv'

variable {f : Node → StateM σ Node} {first : Stamp} {distinct : Prop}

/-- Forward rewriting asks like a descent, and its result shows what was replaced. -/
theorem rewrite_forward_asksLike {n r : Node} {w w' : Moment (List (Node × Node) × σ)}
    (hn : distinct → ∀ inner, n.Reaches Shape.children inner → inner.IsOld first)
    (hw : distinct → first ≤ w.2)
    (h : Runs (n.rewrite .forward (recording (quiet f))) w r w') :
    AsksLike f n (fun visits => distinct → Shows n r visits) w w' := by
  rw [rewrite, foldWith, runs_bind] at h
  obtain ⟨answer, w₁, hasked, h⟩ := h
  obtain ⟨-, hquiet⟩ := runs_quiet (runs_recording hasked).2
  rw [← hquiet] at hw
  by_cases hs : answer.same n = true
  · rw [if_pos hs] at h
    have hbound : KeepsBound first distinct fun child : Node =>
        child.rewrite .forward (recording (quiet f)) :=
      fun _ x w b w' hx hle => le_trans hle (rewrite_forward_le hx)
    obtain ⟨-, -, answers, hp, -, hd⟩ := below_runs hbound (fun hd => hn hd n .refl) hw h
    obtain ⟨parts, hparts, hnoted, hshows⟩ := Passes.asksLike
      (P := fun x a part => distinct → Shows x a part) (I := fun w => distinct → first ≤ w.2)
      (fun w hle hd => Nat.le_succ_of_le (hle hd))
      (fun x w b w' hx hle hd => hbound hd x w b w' hx (hle hd))
      (fun child hc w b w' hle hchild =>
        rewrite_forward_asksLike (fun hd => forall_reaches_child (hn hd) hc) hle hchild) hw hp
    refine .of_kept hasked hs hparts hnoted fun hdist => ?_
    obtain ⟨-, hstands, hsame⟩ := hd hdist
    refine .of_parts hs hstands hsame fun i part hpart => ?_
    obtain ⟨x, a, hx, ha, hxa⟩ := hshows i part hpart
    exact ⟨x, a, hx, ha, hxa hdist⟩
  · rw [if_neg hs, runs_pure] at h
    obtain ⟨rfl, rfl⟩ := h
    refine .of_replaced hasked hs fun _ => ⟨?_, fun hr => absurd hr hs⟩
    simp [at?]
termination_by sizeOf n
decreasing_by exact sizeOf_lt_of_mem_handles (Shape.mem_handles_of_mem_children hc)

/-- Forward rewriting is pruned visiting, if no extension in the tree can be reduced. A rule with a
state is asked the same questions, and ends in the same state, by a visit that is cut short where
the rule replaces a node. It is asked about nodes of the tree, about a place at most once and
exactly when all nodes above it were kept. If the stamps in the tree were drawn before, then each
replacement stands in the result in the place of the node that it replaces. -/
theorem rewrite_forward_eq_visitWhile (f : Node → StateM σ Node) (e : Node)
    (he : ∀ n, e.Reaches Shape.children n → n.IsIrreducible) (state : σ) (next next' : Stamp) :
    let run := e.rewrite .forward (recording (quiet f)) ([], state) next
    (e.visitWhile (keeps f) ([], state) next').1.2 = run.1.2 ∧
    ∃ visits : List Visit, run.1.2.1 = visits.map Visit.call ∧
      (∀ v ∈ visits, e.at? v.place = some v.node) ∧ (visits.map Visit.place).Nodup ∧
      (∀ p, p ∈ visits.map Visit.place ↔ (e.at? p).isSome = true ∧
        ∀ q, q <+: p → q ≠ p → ∃ v ∈ visits, v.place = q ∧ v.IsKept) ∧
      ((∀ n, e.Reaches Shape.children n → n.IsOld next) →
        ∀ v ∈ visits, ¬ v.IsKept → run.1.1.at? v.place = some v.answer) := by
  intro run
  have hrewrite : AsksLike f e
      (fun visits => (∀ n, e.Reaches Shape.children n → n.IsOld next) → Shows e run.1.1 visits)
      (([], state), next) (run.1.2, run.2) :=
    rewrite_forward_asksLike (fun hold => hold) (fun _ => le_refl next)
      (runs_self (e.rewrite .forward (recording (quiet f))) (([], state), next))
  have hvisit := visitWhile_asksLike he (runs_self (e.visitWhile (keeps f)) (([], state), next'))
  obtain ⟨visits, hvisits, hnoted, hshows⟩ := hrewrite
  obtain ⟨visits', hvisits', hnoted', -⟩ := hvisit
  -- both runs asked what the descent asks, which is determined by the rule and its state
  rw [hvisits, Prod.mk.injEq] at hvisits'
  obtain ⟨hsame, hstate⟩ := hvisits'
  rw [← hsame, ← hnoted] at hnoted'
  have hpruned := descend_isPruned f e state
  rw [hvisits] at hpruned
  refine ⟨Prod.ext hnoted' hstate.symm, visits, hnoted, hpruned.node, hpruned.nodup,
    hpruned.mem_iff, fun hold => (hshows hold).replaced⟩

/-- The stamps in the block are below six. -/
theorem isOld_of_reaches_sampleBlock {n : Node} (h : sampleBlock.Reaches Shape.children n) :
    n.IsOld 6 := by
  have hmem : n ∈ sampleBlock.nodes .forward := (mem_nodes_iff sampleBlock).mpr h
  rw [nodes_sampleBlock] at hmem
  simp only [List.mem_cons, List.not_mem_nil, or_false] at hmem
  rcases hmem with rfl | rfl | rfl | rfl | rfl | rfl
  all_goals
    constructor
    · decide
    · simp [sampleBlock, sampleSwitch, sampleSubject, Shape.nestedStamps]

/-- Replaces switches, and counts the questions. -/
def replacingSwitches (n : Node) : StateM Nat Node := do
  modify (· + 1)
  pure (if n.kind = .switch then sampleSubject else n)

/-- Negates switches. The state is a supply of stamps for the negations. -/
def negatingSwitches (n : Node) : StateM Stamp Node :=
  if n.kind = .switch then (Factory.negate n : Supply Node) else pure n

/-- The switch in the block is replaced, and nothing below it is asked about. The same holds if it
is replaced by a node that the rule creates, with a stamp from the supply in its state. -/
theorem rewrite_forward_sampleBlock :
    ((sampleBlock.visitWhile (keeps replacingSwitches) ([], 0) 6).1.2 =
        (sampleBlock.rewrite .forward (recording (quiet replacingSwitches)) ([], 0) 6).1.2 ∧
      ∃ visits : List Visit,
        (sampleBlock.rewrite .forward (recording (quiet replacingSwitches)) ([], 0) 6).1.2.1 =
          visits.map Visit.call ∧
        ∀ v ∈ visits, ¬ v.IsKept →
          (sampleBlock.rewrite .forward (recording (quiet replacingSwitches)) ([], 0) 6).1.1.at?
            v.place = some v.answer) ∧
    negatingSwitches sampleSwitch 100 =
      (⟨100, .negate, sampleSwitch.type, .unary sampleSwitch none⟩, 101) ∧
    (sampleBlock.visitWhile (keeps negatingSwitches) ([], 100) 6).1.2 =
        (sampleBlock.rewrite .forward (recording (quiet negatingSwitches)) ([], 100) 6).1.2 ∧
      ∃ visits : List Visit,
        (sampleBlock.rewrite .forward (recording (quiet negatingSwitches)) ([], 100) 6).1.2.1 =
          visits.map Visit.call ∧
        ∀ v ∈ visits, ¬ v.IsKept →
          (sampleBlock.rewrite .forward (recording (quiet negatingSwitches)) ([], 100) 6).1.1.at?
            v.place = some v.answer := by
  have hirreducible := fun n hn => isIrreducible_of_reaches_sampleBlock (n := n) hn
  have hold := fun n hn => isOld_of_reaches_sampleBlock (n := n) hn
  obtain ⟨hvisit, visits, hcalls, -, -, -, hreplaced⟩ :=
    rewrite_forward_eq_visitWhile replacingSwitches sampleBlock hirreducible 0 6 6
  obtain ⟨hvisit', visits', hcalls', -, -, -, hreplaced'⟩ :=
    rewrite_forward_eq_visitWhile negatingSwitches sampleBlock hirreducible 100 6 6
  exact ⟨⟨hvisit, visits, hcalls, hreplaced hold⟩, rfl, hvisit', visits', hcalls',
    hreplaced' hold⟩

end Node

end ExprTree
