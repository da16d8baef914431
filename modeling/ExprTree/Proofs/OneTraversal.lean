import ExprTree.Proofs.Places

/-!
# One traversal

Rewriting and visiting go through a tree in one order. A rule that is run backward is asked once for
each place, in the order in which a visit reports the nodes, and about a node of the kind and static
type that stands there: it is the node itself, or one that was built anew over other children. If
the rule keeps what it is given, then it is asked about the very nodes that a visit reports. The
same holds forward, where a visit that is never cut short and a search that never finds anything
meet the nodes in the same order.
-/

namespace ExprTree

variable {α β κ σ : Type}

/-! ## Rules that keep a record -/

/-- Runs the rule and notes what it was asked and what it answered. -/
def recording (f : Node → StateT σ Supply Node) (n : Node) :
    StateT (List (Node × Node) × σ) Supply Node := fun state => do
  let (answer, next) ← f n state.2
  pure (answer, (state.1 ++ [(n, answer)], next))

/-- A question is noted at the end of the record. -/
theorem runs_recording {f : Node → StateT σ Supply Node} {n r : Node}
    {w w' : Moment (List (Node × Node) × σ)} (h : Runs (recording f n) w r w') :
    w'.1.1 = w.1.1 ++ [(n, r)] ∧ Runs (f n) (w.1.2, w.2) r (w'.1.2, w'.2) := by
  have hrun : recording f n w.1 w.2 =
      (((f n w.1.2 w.2).1.1, (w.1.1 ++ [(n, (f n w.1.2 w.2).1.1)], (f n w.1.2 w.2).1.2)),
        (f n w.1.2 w.2).2) := rfl
  rw [Runs, hrun, Prod.mk.injEq, Prod.mk.injEq] at h
  obtain ⟨⟨rfl, hstate⟩, hnext⟩ := h
  rw [← hstate, ← hnext]
  exact ⟨rfl, rfl⟩

/-- What is noted in a pass over a list is what is noted for its items, one after the other. If the
parts of the record are as described by `P`, then the whole is as described by `Q`. -/
theorem Passes.record {f : α → StateT (List κ × σ) Supply β} {P : α → β → List κ → Prop}
    {Q : List α → List β → List κ → Prop} (hnil : Q [] [] [])
    (hcons : ∀ x b part xs bs parts, P x b part → Q xs bs parts →
      Q (x :: xs) (b :: bs) (part ++ parts)) {w w' : Moment (List κ × σ)} {xs : List α}
    {bs : List β} (hf : ∀ x ∈ xs, ∀ w b w', Runs (f x) w b w' →
      ∃ part, w'.1.1 = w.1.1 ++ part ∧ P x b part) (h : Passes f w xs bs w') :
    ∃ parts, w'.1.1 = w.1.1 ++ parts ∧ Q xs bs parts := by
  induction h with
  | done => exact ⟨[], by simp, hnil⟩
  | call hx _ ih =>
    obtain ⟨part, hpart, hP⟩ := hf _ (by simp) _ _ _ hx
    obtain ⟨parts, hparts, hQ⟩ := ih fun y hy => hf y (List.mem_cons_of_mem _ hy)
    refine ⟨part ++ parts, ?_, hcons _ _ _ _ _ _ hP hQ⟩
    rw [hparts, hpart, List.append_assoc]
  | draw _ ih => exact ih hf

namespace Node

/-- The kind and static type of a node. -/
def signature (n : Node) : Kind × Ty := (n.kind, n.type)

/-- All questions were answered with the node in question. -/
def AllKept (calls : List (Node × Node)) : Prop := ∀ call ∈ calls, call.2.same call.1 = true

/-- All of a record is kept if both parts of it are. -/
theorem allKept_append {calls calls' : List (Node × Node)} :
    AllKept (calls ++ calls') ↔ AllKept calls ∧ AllKept calls' := by
  simp [AllKept, or_imp, forall_and]

variable {f : Node → StateT σ Supply Node}

/-! ## Backward -/

/-- The record of nodes that are rewritten backward: it has their signatures in order, and they are
the nodes in question if all of them are kept. -/
structure BackwardRecord (nodes answers listed : List Node) (calls : List (Node × Node)) :
    Prop where
  /-- The questions are about nodes of the right kinds and types. -/
  signatures : calls.map (fun call => call.1.signature) = listed.map signature
  /-- If all is kept, the questions are about the nodes themselves. -/
  questions : AllKept calls → calls.map Prod.fst = listed
  /-- If all is kept, the answers are the nodes. -/
  answers : AllKept calls → List.Forall₂ (fun a x => a.same x = true) answers nodes

/-- Records that follow one another make a record. -/
theorem BackwardRecord.append {nodes nodes' answers answers' listed listed' : List Node}
    {calls calls' : List (Node × Node)} (h : BackwardRecord nodes answers listed calls)
    (h' : BackwardRecord nodes' answers' listed' calls') :
    BackwardRecord (nodes ++ nodes') (answers ++ answers') (listed ++ listed')
      (calls ++ calls') := by
  refine ⟨?_, fun hk => ?_, fun hk => ?_⟩
  · rw [List.map_append, List.map_append, h.signatures, h'.signatures]
  · obtain ⟨hk, hk'⟩ := allKept_append.mp hk
    rw [List.map_append, h.questions hk, h'.questions hk']
  · obtain ⟨hk, hk'⟩ := allKept_append.mp hk
    exact List.rel_append (h.answers hk) (h'.answers hk')

/-- Backward, the rule is asked about the nodes in the order of `Node.nodes`. -/
theorem rewrite_backward_record {n r : Node} {w w' : Moment (List (Node × Node) × σ)}
    (h : Runs (n.rewrite .backward (recording f)) w r w') :
    ∃ calls, w'.1.1 = w.1.1 ++ calls ∧ BackwardRecord [n] [r] (n.nodes .backward) calls := by
  rw [rewrite, foldWith, runs_bind] at h
  obtain ⟨rebuilt, w₁, hbelow, hasked⟩ := h
  have hbound : KeepsBound 0 False fun child : Node => child.rewrite .backward (recording f) :=
    fun hd => hd.elim
  obtain ⟨hkind, htype, answers, hp, hkept, -⟩ :=
    below_runs hbound (fun hd => hd.elim) (fun hd => hd.elim) hbelow
  obtain ⟨calls, hcalls, hrecord⟩ := Passes.record
    (P := fun child answer calls => BackwardRecord [child] [answer] (child.nodes .backward) calls)
    (Q := fun nodes answers calls =>
      BackwardRecord nodes answers (nodes.flatMap (Node.nodes .backward)) calls)
    ⟨rfl, fun _ => rfl, fun _ => .nil⟩ (fun _ _ _ _ _ _ hP hQ => hP.append hQ)
    (fun child hc w b w' hchild => rewrite_backward_record hchild) hp
  obtain ⟨hnoted, -⟩ := runs_recording hasked
  refine ⟨calls ++ [(rebuilt, r)], by rw [hnoted, hcalls, List.append_assoc], ?_⟩
  have hsignature : rebuilt.signature = n.signature := by rw [signature, hkind, htype, signature]
  have hself : AllKept (calls ++ [(rebuilt, r)]) → rebuilt = n ∧ r.same rebuilt = true := by
    intro hk
    obtain ⟨hk, hroot⟩ := allKept_append.mp hk
    exact ⟨hkept (hrecord.answers hk), hroot (rebuilt, r) (by simp)⟩
  rw [nodes_backward]
  constructor
  · rw [List.map_append, List.map_append, hrecord.signatures, List.map_singleton,
      List.map_singleton, hsignature]
  · intro hk
    rw [List.map_append, hrecord.questions (allKept_append.mp hk).1, List.map_singleton,
      (hself hk).1]
  · intro hk
    obtain ⟨hn, hr⟩ := hself hk
    rw [hn] at hr
    exact .cons hr .nil
termination_by sizeOf n
decreasing_by exact sizeOf_lt_of_mem_handles (Shape.mem_handles_of_mem_children hc)

/-! ## Forward -/

/-- Forward, a rule that keeps all that it is given is asked about the nodes in the order of
`Node.nodes`. -/
theorem rewrite_forward_record {n r : Node} {w w' : Moment (List (Node × Node) × σ)}
    (h : Runs (n.rewrite .forward (recording f)) w r w') :
    ∃ calls, w'.1.1 = w.1.1 ++ calls ∧ (AllKept calls → calls.map Prod.fst = n.nodes .forward) := by
  rw [rewrite, foldWith, runs_bind] at h
  obtain ⟨answer, w₁, hasked, h⟩ := h
  obtain ⟨hnoted, -⟩ := runs_recording hasked
  by_cases hs : answer.same n = true
  · rw [if_pos hs] at h
    have hbound : KeepsBound 0 False fun child : Node => child.rewrite .forward (recording f) :=
      fun hd => hd.elim
    obtain ⟨-, -, answers, hp, -⟩ :=
      below_runs hbound (fun hd => hd.elim) (fun hd => hd.elim) h
    obtain ⟨calls, hcalls, hrecord⟩ := Passes.record
      (P := fun child _ calls => AllKept calls → calls.map Prod.fst = child.nodes .forward)
      (Q := fun nodes _ calls =>
        AllKept calls → calls.map Prod.fst = nodes.flatMap (Node.nodes .forward))
      (fun _ => rfl) (fun _ _ _ _ _ _ hP hQ hk => by
        obtain ⟨hk, hk'⟩ := allKept_append.mp hk
        rw [List.map_append, hP hk, hQ hk', List.flatMap_cons])
      (fun child hc w b w' hchild => rewrite_forward_record hchild) hp
    refine ⟨(n, answer) :: calls, by simp [hcalls, hnoted], fun hk => ?_⟩
    have hbelow : AllKept calls := fun call hc => hk call (List.mem_cons_of_mem _ hc)
    rw [List.map_cons, hrecord hbelow, nodes_forward]
  · rw [if_neg hs, runs_pure] at h
    rw [h.2]
    refine ⟨[(n, answer)], hnoted, fun hk => ?_⟩
    exact absurd (hk (n, answer) (by simp)) hs
termination_by sizeOf n
decreasing_by exact sizeOf_lt_of_mem_handles (Shape.mem_handles_of_mem_children hc)

/-- Rewriting and visiting go through a tree in one order, if no extension in it can be reduced.
Backward, the rule is asked once for each place where there is a node, and the kinds and types that
it is asked about are those that a visit reports, in the same order. If the rule keeps all that it
is given, then it is asked about the nodes that a visit reports, and forward about those that a
visit reports which is never cut short; a search that never finds anything tests the same ones. -/
theorem rewrite_order_eq_visit_order (f : Node → StateT σ Supply Node) (e : Node)
    (he : ∀ n, e.Reaches Shape.children n → n.IsIrreducible) (state : σ) (next next' : Stamp) :
    let calls direction := (e.rewrite direction (recording f) ([], state) next).1.2.1
    let visited := (e.visit report [] next').1.2
    let entered := (e.visitWhile (fun n => do report n; pure true) [] next').1.2
    let tested := (e.find (fun n => do report n; pure false) [] next').1.2
    (e.places.Nodup ∧ (∀ place, place ∈ e.places ↔ (e.at? place).isSome = true) ∧
      (calls .backward).map (fun call => some call.1.signature) =
        e.places.map fun place => (e.at? place).map signature) ∧
    (calls .backward).map (fun call => call.1.signature) = visited.map signature ∧
    (AllKept (calls .backward) → (calls .backward).map Prod.fst = visited) ∧
    (AllKept (calls .forward) → (calls .forward).map Prod.fst = entered) ∧
    tested = entered := by
  intro calls visited entered tested
  have hvisited : visited = e.nodes .backward := visit_reports he (runs_self _ ([], next'))
  have hentered : entered = e.nodes .forward := visitWhile_reports he (runs_self _ ([], next'))
  have htested : tested = entered := by
    have hfind := find_of_fails report e
    exact congrArg (fun x => (x [] next').1.2) hfind
  have hbackward : BackwardRecord [e] [(e.rewrite .backward (recording f) ([], state) next).1.1]
      (e.nodes .backward) (calls .backward) := by
    obtain ⟨noted, hnoted, hrecord⟩ := rewrite_backward_record
      (runs_self (e.rewrite .backward (recording f)) (([], state), next))
    rw [List.nil_append] at hnoted
    rw [← hnoted] at hrecord
    exact hrecord
  have hforward : AllKept (calls .forward) → (calls .forward).map Prod.fst = e.nodes .forward := by
    obtain ⟨noted, hnoted, hrecord⟩ := rewrite_forward_record
      (runs_self (e.rewrite .forward (recording f)) (([], state), next))
    rw [List.nil_append] at hnoted
    rw [← hnoted] at hrecord
    exact hrecord
  have hplaces : (calls .backward).map (fun call => some call.1.signature) =
      e.places.map fun place => (e.at? place).map signature := by
    have hleft := congrArg (List.map some) hbackward.signatures
    have hright := congrArg (List.map (Option.map signature)) (map_at?_places e)
    simp only [List.map_map, Function.comp_def, Option.map_some] at hleft hright
    rw [hleft, hright]
  rw [hvisited, htested, hentered]
  exact ⟨⟨nodup_places e, mem_places_iff, hplaces⟩, hbackward.signatures, hbackward.questions,
    hforward, rfl⟩

/-- A block of an extension that cannot be reduced and a switch. -/
def sampleBlock : Node :=
  ⟨5, .block, .void,
    .block [] [⟨4, .extension, .void, .extension 3 (.sealed "tag" .void)⟩, sampleSwitch]⟩

/-- The nodes of the block, each before those below it. -/
theorem nodes_sampleBlock : sampleBlock.nodes .forward =
    [sampleBlock, ⟨4, .extension, .void, .extension 3 (.sealed "tag" .void)⟩, sampleSwitch,
      sampleSubject, sampleSubject, sampleSubject] := by
  simp [nodes_forward, sampleBlock, sampleSwitch, sampleSubject, Shape.children,
    SwitchCase.childrenOfList, SwitchCase.children]

/-- No node of the block can be reduced. -/
theorem isIrreducible_of_reaches_sampleBlock {n : Node}
    (h : sampleBlock.Reaches Shape.children n) : n.IsIrreducible := by
  have hmem : n ∈ sampleBlock.nodes .forward := (mem_nodes_iff sampleBlock).mpr h
  rw [nodes_sampleBlock] at hmem
  simp only [List.mem_cons, List.not_mem_nil, or_false] at hmem
  intro stamp custom hshape next
  rcases hmem with rfl | rfl | rfl | rfl | rfl | rfl
  case inr.inl =>
    cases hshape
    rfl
  all_goals cases hshape

/-- Keeps what it is given, and counts. -/
def counting (n : Node) : StateT Nat Supply Node := do
  modify (· + 1)
  pure n

/-- A rule that counts keeps all nodes of a tree. -/
theorem allKept_counting (direction : Direction) (e : Node) :
    AllKept (e.rewrite direction (recording counting) ([], 0) 6).1.2.1 := by
  have hnodes : ∀ (nodes : List Node) (w : Moment (List (Node × Node) × Nat)), AllKept w.1.1 →
      AllKept ((forM nodes fun n => discard (recording counting n)) w.1 w.2).1.2.1 := by
    intro nodes
    induction nodes with
    | nil => exact fun _ hw => hw
    | cons n rest ih =>
      intro w hw
      have hnoted : AllKept (w.1.1 ++ [(n, n)]) := allKept_append.mpr ⟨hw, by simp [AllKept]⟩
      exact ih ((w.1.1 ++ [(n, n)], w.1.2 + 1), w.2) hnoted
  have hkeeps : ∀ n, Keeps (recording counting) n := fun _ => rfl
  rw [rewrite_eq_of_keeps direction fun n _ => hkeeps n]
  exact hnodes (e.nodes direction) (([], 0), 6) (by simp [AllKept])

/-- A rule that counts is asked about the nodes of the block in the order of the visits. -/
theorem rewrite_order_sampleBlock :
    ((sampleBlock.rewrite .backward (recording counting) ([], 0) 6).1.2.1).map Prod.fst =
        (sampleBlock.visit report [] 6).1.2 ∧
      ((sampleBlock.rewrite .forward (recording counting) ([], 0) 6).1.2.1).map Prod.fst =
        (sampleBlock.visitWhile (fun n => do report n; pure true) [] 6).1.2 := by
  have horder := rewrite_order_eq_visit_order counting sampleBlock
    (fun n hn => isIrreducible_of_reaches_sampleBlock hn) 0 6 6
  exact ⟨horder.2.2.1 (allKept_counting .backward sampleBlock),
    horder.2.2.2.1 (allKept_counting .forward sampleBlock)⟩

end Node

end ExprTree
