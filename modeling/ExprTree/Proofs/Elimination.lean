import ExprTree.Proofs.Preservation
import ExprTree.Proofs.Searching
import ExprTree.Proofs.Substitution
import ExprTree.Proofs.Upkeep

/-!
# What a backward pass eliminates

Backward a rule is asked about a node after it has answered for all that is below. So it is enough
for a rule to clear the nodes that have nothing left to clear below them: then one pass clears the
whole tree. The invariant is that what has been rewritten is clear; a node that is rebuilt over
clear children has nothing to clear but itself.

Two uses are drawn from this. An instance that is replaced by a tree without it is not found again.
And a rule that leaves nothing which it would change gives back, in a second pass, the very tree
that the first one gave.
-/

namespace ExprTree

namespace Node

variable {σ : Type}

/-! ## Rules that clear what is clear below -/

/-- The rule answers with nodes of the heap as it is after the rule was run; `inv` says which states
the rule can be in. -/
structure IsRule (inv : Heap → σ → Prop) (f : Node → StateT σ Supply Node) : Prop where
  /-- A state of the rule stays one when the heap grows. -/
  mono : ∀ {heap heap' s}, heap ≤ heap' → inv heap s → inv heap' s
  /-- The answer is in a heap that has grown. -/
  gives : ∀ {heap s} (n : Node), inv heap s → n ∈ heap →
    ∃ heap', heap ≤ heap' ∧ ∃ r s', f n s heap.next = ((r, s'), heap'.next) ∧ inv heap' s' ∧
      r ∈ heap'

/-- Asked about a node with nothing as described below it, the rule answers with a tree in which
there is nothing as described. -/
def Eliminates (inv : Heap → σ → Prop) (f : Node → StateT σ Supply Node) (P : Node → Prop) : Prop :=
  ∀ heap s n, inv heap s → n ∈ heap → (∀ child ∈ n.shape.children, child.Free P) →
    (f n s heap.next).1.1.Free P

/-- The rule can be in the state, and the stamps below the first one are drawn. -/
def From (first : Stamp) (inv : Heap → σ → Prop) (heap : Heap) (s : σ) : Prop :=
  first ≤ heap.next ∧ inv heap s

/-- Drawn stamps stay drawn, and a state of the rule stays one. -/
theorem From.mono {first : Stamp} (inv : Heap → σ → Prop)
    (mono : ∀ {heap heap' s}, heap ≤ heap' → inv heap s → inv heap' s) {heap heap' : Heap} {s : σ}
    (hle : heap ≤ heap') (h : From first inv heap s) : From first inv heap' s :=
  ⟨le_trans h.1 hle.1, mono hle h.2⟩

/-- Actions run in heaps that grow, as in `heapLogic`, and draw no stamp below the first one. -/
abbrev laterLogic (first : Stamp) (inv : Heap → σ → Prop)
    (mono : ∀ {heap heap' s}, heap ≤ heap' → inv heap s → inv heap' s) :
    StampLogic (StateT σ Supply) :=
  { heapLogic (From first inv) (From.mono inv mono) with
    bound := first
    ensures_fresh := by
      intro heap s hs
      have hs' : From first inv heap.draw s := From.mono inv mono heap.le_draw hs
      exact ⟨heap.draw, heap.le_draw, heap.next, s, rfl, hs', hs.1⟩ }

/-- Both nodes are in the heap, and what takes the place of the first is as described. -/
structure Becomes (Q : Node → Prop) (heap : Heap) (n r : Node) : Prop where
  /-- The node is in the heap. -/
  mem : n ∈ heap
  /-- What takes its place is in the heap. -/
  mem' : r ∈ heap
  /-- What takes its place is as described. -/
  holds : Q r

/-- What a node has become it has become in later heaps. -/
theorem Becomes.later {Q : Node → Prop} {heap heap' : Heap} {n r : Node} (h : Becomes Q heap n r)
    (hle : heap ≤ heap') : Becomes Q heap' n r :=
  ⟨Heap.mem_of_le hle h.mem, Heap.mem_of_le hle h.mem', h.holds⟩

section Pass

variable {inv : Heap → σ → Prop} {f : Node → StateT σ Supply Node} {P : Node → Prop} {first : Stamp}
  {heap : Heap} {n : Node}

/-- A node that is rebuilt over clear trees is clear below. If it is given back instead, then its
own children are the clear trees. -/
theorem rebuild_clear_below {mono : ∀ {heap heap' s}, heap ≤ heap' → inv heap s → inv heap' s}
    {shape : Shape Node} (hn : n ∈ heap) (hold : ∀ stamp ∈ n.shape.nestedStamps, stamp < first)
    (hleaf : n.shape.isLeaf = false)
    (hshape : n.shape.Rewritten first (Becomes (Free P) heap) shape) :
    (laterLogic first inv mono).Ensures heap (n.rebuild shape) fun heap' r =>
      Becomes (fun r => ∀ child ∈ r.shape.children, child.Free P) heap' n r := by
  unfold rebuild
  split
  case isTrue hidentical =>
    have hself : List.Forall₂ (Becomes (Free P) heap) n.shape.children n.shape.children := by
      refine forall₂_keep (fun x y hxy (hsame : True → y.same x = true) => ?_) hshape.children
        fun _ => hshape.same_children hold hidentical
      have heq : y = x := Heap.eq_of_same hxy.mem' hxy.mem (hsame trivial)
      exact ⟨hxy.mem, hxy.mem, heq ▸ hxy.holds⟩
    refine StampLogic.ensures_pure _ ⟨hn, hn, fun child hc => ?_⟩
    exact (List.forall₂_same.mp hself child hc).holds
  case isFalse =>
    have hchildren : ∀ child ∈ shape.children, child ∈ heap ∧ child.Free P := by
      intro child hc
      obtain ⟨old, -, hbecomes⟩ := exists_of_mem_forall₂ hshape.children hc
      exact ⟨hbecomes.mem', hbecomes.holds⟩
    have hleaf' : shape.isLeaf = false := by
      rw [← Shape.isLeaf_eq_of_frame_eq hshape.frame]
      exact hleaf
    have hholds : ∀ child ∈ shape.handles, child ∈ heap := by
      intro child hc
      rw [Shape.handles_eq_children hleaf'] at hc
      exact (hchildren child hc).1
    have hmake : (heapLogic (From first inv) (From.mono inv mono)).Ensures heap
        (make n.kind n.type shape) _ := ensures_make n.kind n.type shape hholds
    refine StampLogic.ensures_mono (L := laterLogic first inv mono) hmake fun heap' hle r hr => ?_
    obtain ⟨hmem, rfl⟩ := hr
    exact ⟨Heap.mem_of_le hle hn, hmem, fun child hc => (hchildren child hc).2⟩

/-- Asked about a node that is clear below, the rule clears it. -/
theorem IsRule.ensures_clear (hf : IsRule inv f) (hP : Eliminates inv f P) (hn : n ∈ heap)
    (hbelow : ∀ child ∈ n.shape.children, child.Free P) :
    (laterLogic first inv hf.mono).Ensures heap (f n) fun heap' r =>
      Becomes (Free P) heap' n r := by
  intro s hs
  obtain ⟨heap', hle, r, s', hrun, hs', hr⟩ := hf.gives n hs.2 hn
  have hfree := hP heap s n hs.2 hn hbelow
  rw [hrun] at hfree
  exact ⟨heap', hle, r, s', hrun, ⟨le_trans hs.1 hle.1, hs'⟩, Heap.mem_of_le hle hn, hr, hfree⟩

/-- A backward pass clears a tree whose nested structures stand below the first stamp. -/
theorem rewrite_clear (hf : IsRule inv f) (hP : Eliminates inv f P) (hn : n ∈ heap)
    (hold : ∀ inner, n.Reaches Shape.children inner → ∀ stamp ∈ inner.shape.nestedStamps,
      stamp < first) :
    (laterLogic first inv hf.mono).Yields heap (n.rewrite .backward f) fun heap' r =>
      Becomes (Free P) heap' n r := by
  have htracks : (laterLogic first inv hf.mono).Tracks True (Becomes (Free P)) := by
    constructor
    · intro x w w' y hle h
      exact h.later hle
    · intro w x y h hsame
      have heq : y = x := Heap.eq_of_same h.mem' h.mem (hsame trivial)
      exact ⟨h.mem, h.mem, heq ▸ h.holds⟩
  -- before the rule is asked only what is below the node is clear; its answer clears the node too
  refine foldWith_yields (Q := Becomes fun r => ∀ child ∈ r.shape.children, child.Free P)
    (fun n => n ∈ heap ∧ ∀ inner, n.Reaches Shape.children inner →
      ∀ stamp ∈ inner.shape.nestedStamps, stamp < first)
    htracks ?_ ?_ ?_ ?_ ?_ ?_ n ⟨hn, hold⟩
  · intro n w w' r hle h
    exact h.later hle
  · intro n hgood child hc
    exact ⟨Heap.mem_of_mem_children hgood.1 hc, forall_reaches_child hgood.2 hc⟩
  · intro _ n hgood
    exact hgood.2 n .refl
  · intro n hgood hleaf heap' hle
    have hmem := Heap.mem_of_le hle hgood.1
    exact ⟨hmem, hmem, by simp [Shape.children_eq_nil hleaf]⟩
  · intro n hgood hleaf heap' hle shape hshape
    exact rebuild_clear_below (Heap.mem_of_le hle hgood.1) (hgood.2 n .refl) hleaf hshape
  · intro n below _ hbelow
    refine ⟨fun w w' r hle h => h.later hle, fun w hw => ?_⟩
    refine StampLogic.ensures_bind _ (hbelow.after w hw) fun w' _ rebuilt hr => ?_
    have hasked : (laterLogic first inv hf.mono).Ensures w' (f rebuilt) _ :=
      hf.ensures_clear hP hr.mem' hr.holds
    refine StampLogic.ensures_mono hasked fun w'' hle r hr' => ?_
    exact ⟨Heap.mem_of_le hle hr.mem, hr'.mem', hr'.holds⟩

/-- What a backward pass gives is in the heap as it is then, and is clear. -/
theorem exists_heap_rewrite_free (hf : IsRule inv f) (hP : Eliminates inv f P) {state : σ}
    (hstate : inv heap state) (hn : n ∈ heap)
    (hold : ∀ inner, n.Reaches Shape.children inner → ∀ stamp ∈ inner.shape.nestedStamps,
      stamp < heap.next) :
    let run := n.rewrite .backward f state heap.next
    ∃ heap' ≥ heap, heap'.next = run.2 ∧ run.1.1 ∈ heap' ∧ run.1.1.Free P := by
  intro run
  obtain ⟨heap', hle, r, s', hrun, -, hr⟩ :=
    (rewrite_clear hf hP hn hold).after heap (le_refl heap) state ⟨le_refl _, hstate⟩
  have hrun' : run = ((r, s'), heap'.next) := hrun
  rw [hrun']
  exact ⟨heap', hle, rfl, hr.mem', hr.holds⟩

end Pass

/-! ## Replacing an instance for good -/

section Replacing

variable {target replacement n : Node} {heap : Heap}

/-- Where the replacement exists, replacing is a rule. -/
theorem isRule_replacing (target replacement : Node) :
    IsRule (fun heap (_ : σ) => replacement ∈ heap) (replacing target replacement) := by
  refine ⟨fun hle h => Heap.mem_of_le hle h, ?_⟩
  intro heap s n hreplacement hn
  refine ⟨heap, le_refl heap, if n.same target then replacement else n, s, rfl, hreplacement, ?_⟩
  split
  · exact hreplacement
  · exact hn

/-- If the target does not occur in the replacement, then replacing eliminates what is said of no
other node than the target. -/
theorem eliminates_replacing (hlacks : replacement.Lacks target) {P : Node → Prop}
    (hP : ∀ n, P n → n.same target = true) :
    Eliminates (fun heap (_ : σ) => replacement ∈ heap) (replacing target replacement) P := by
  intro heap s n _ _ hbelow
  by_cases hsame : n.same target = true
  · rw [replacing_of_same hsame]
    exact fun inner hr hinner => hlacks inner hr (hP inner hinner)
  · rw [replacing_of_not_same hsame]
    exact free_iff.mpr ⟨fun hn => hsame (hP n hn), hbelow⟩

/-- Neither of the trees has an extension that can be reduced. -/
def BothIrreducible (a b : Node) : Prop :=
  (∀ inner, a.Reaches Shape.children inner → inner.IsIrreducible) ∧
    ∀ inner, b.Reaches Shape.children inner → inner.IsIrreducible

/-- Rebuilding makes no extensions. -/
theorem upkeep_irreducible : Upkeep BothIrreducible where
  left h := ⟨h.1, h.1⟩
  right h := ⟨h.2, h.2⟩
  trans h h' := ⟨h.1, h'.2⟩
  child h child hc := ⟨forall_reaches_child h.1 hc, forall_reaches_child h.1 hc⟩
  rebuilt := by
    intro n shape stamp hn hleaf hshape
    refine ⟨hn.1, forall_reaches_iff.mpr ⟨fun own custom hextension => ?_, fun child hc => ?_⟩⟩
    · have hleaf' : shape.isLeaf = false := by
        rw [← Shape.isLeaf_eq_of_frame_eq hshape.frame]
        exact hleaf
      rw [show shape = .extension own custom from hextension] at hleaf'
      cases hleaf'
    · obtain ⟨old, -, hboth⟩ := exists_of_mem_forall₂ hshape.children hc
      exact hboth.2

/-- Where nothing can be reduced, a walk meets the nodes that a folder meets. -/
theorem nodes_unfold (stamp : Stamp) {n : Node} (direction : Direction)
    (h : ∀ inner, n.Reaches Shape.children inner → inner.IsIrreducible) :
    (n.unfold stamp).nodes direction = n.nodes direction := by
  have hentered : n.childrenAt stamp = n.shape.children := by
    unfold childrenAt
    split
    case h_1 own custom hshape =>
      rw [h n .refl own custom hshape stamp, hshape]
      rfl
    case h_2 => rfl
  have hbelow : (n.shape.children.map (unfold stamp)).flatMap (Unfolded.nodes direction) =
      n.shape.children.flatMap (nodes direction) := by
    rw [List.flatMap_map]
    refine List.flatMap_congr fun child hc => ?_
    exact nodes_unfold stamp direction (forall_reaches_child h hc)
  rw [unfold_eq, hentered]
  cases direction with
  | forward => rw [nodes_forward, Unfolded.nodes, hbelow]
  | backward => rw [nodes_backward, Unfolded.nodes, hbelow]
termination_by sizeOf n
decreasing_by exact sizeOf_lt_of_mem_handles (Shape.mem_handles_of_mem_children hc)

/-- An instance is not found in a tree that lacks it and in which nothing can be reduced. -/
theorem findNode_eq_none (hn : n ∈ heap) (htarget : target ∈ heap) (hlacks : n.Lacks target)
    (hirreducible : ∀ inner, n.Reaches Shape.children inner → inner.IsIrreducible) (state : σ)
    {next : Stamp} (hnext : heap.next ≤ next) :
    (findNode (m := StateT σ Supply) n target state next).1.1 = none := by
  refine (findNode_eq hn htarget state hnext).2 fun hmem => ?_
  rw [nodes_unfold heap.next .forward hirreducible, mem_nodes_iff] at hmem
  exact hlacks target hmem (same_self target)

end Replacing

/-! ## One pass and a second one -/

variable {inv : Heap → σ → Prop} {f : Node → StateT σ Supply Node} {heap : Heap} {e : Node}

/-- A pass in which the rule gives back every node gives back the tree. -/
theorem rewrite_eq_of_free {n : Node} (direction : Direction)
    (h : n.Free fun inner => ¬ Keeps f inner) (state : σ) (next : Stamp) :
    (n.rewrite direction f state next).1.1 = n := by
  have hkeeps : ∀ inner, n.Reaches Shape.children inner → Keeps f inner :=
    fun inner hr => not_not.mp (h inner hr)
  have hrun := runs_self (n.rewrite direction f) (state, next)
  rw [rewrite_eq_of_keeps direction hkeeps, runs_bind] at hrun
  obtain ⟨_, _, -, hlast⟩ := hrun
  rw [rewrite_eq_of_keeps direction hkeeps]
  exact (runs_pure.mp hlast).1

/-- A backward pass eliminates from every tree what its rule eliminates. An instance that is
replaced by a tree without it is not found afterwards, if nothing in the two trees can be reduced.
If the rule eliminates the nodes that it does not give back, then a second pass gives back the tree
that the first one gave. -/
theorem backward_pass_eliminates (hf : IsRule inv f) (state : σ) (hstate : inv heap state)
    (he : e ∈ heap)
    (hold : ∀ n, e.Reaches Shape.children n → ∀ stamp ∈ n.shape.nestedStamps, stamp < heap.next) :
    let r := (e.rewrite .backward f state heap.next).1.1
    (∀ P, Eliminates inv f P → r.Free P) ∧
    (∀ target ∈ heap, ∀ replacement ∈ heap, replacement.Lacks target →
      (∀ n, e.Reaches Shape.children n → n.IsIrreducible) →
      (∀ n, replacement.Reaches Shape.children n → n.IsIrreducible) →
      let rule : Node → StateT σ Supply Node := replacing target replacement
      let run := e.rewrite .backward rule state heap.next
      ∀ (τ : Type) (state' : τ) (next : Stamp), run.2 ≤ next →
        (findNode (m := StateT τ Supply) run.1.1 target state' next).1.1 = none) ∧
    (Eliminates inv f (fun n => ¬ Keeps f n) → ∀ state' next,
      (r.rewrite .backward f state' next).1.1 = r) := by
  intro r
  have hfree : ∀ P, Eliminates inv f P → r.Free P := by
    intro P hP
    obtain ⟨heap', -, -, -, hr⟩ := exists_heap_rewrite_free hf hP hstate he hold
    exact hr
  refine ⟨hfree, ?_, fun hP state' next => rewrite_eq_of_free .backward (hfree _ hP) state' next⟩
  intro target htarget replacement hreplacement hlacks hirreducible hirreducible' rule run τ state'
    next hnext
  have hpass : ∃ heap' ≥ heap, heap'.next = run.2 ∧ run.1.1 ∈ heap' ∧ run.1.1.Lacks target :=
    exists_heap_rewrite_free (isRule_replacing target replacement)
      (eliminates_replacing hlacks fun _ h => h) hreplacement he hold
  obtain ⟨heap', hle, hend, hmem, hclear⟩ := hpass
  have hcalls : Answered BothIrreducible
      (e.rewrite .backward (recording rule) ([], state) heap.next).1.2.1 := by
    refine forall_recorded (fun n s stamp hn => ?_) .backward e state heap.next
    refine ⟨hn.1, ?_⟩
    change ∀ inner, (if n.same target then replacement else n).Reaches Shape.children inner → _
    split
    · exact hirreducible'
    · exact hn.1
  have hboth := upkeep_irreducible.rewrite ⟨hirreducible, hirreducible⟩ hcalls
  refine findNode_eq_none hmem (Heap.mem_of_le hle htarget) hclear hboth.2 state' ?_
  rw [hend]
  exact hnext

/-- A default value. -/
def sampleDefault : Node := ⟨3, .default, .void, .default⟩

/-- The default value is all there is in its tree. -/
theorem eq_of_reaches_sampleDefault {n : Node} (h : sampleDefault.Reaches Shape.children n) :
    n = sampleDefault := by
  rcases reaches_iff.mp h with heq | ⟨child, hc, -⟩
  · exact heq.symm
  · cases hc

/-- Where the parameter of a switch is replaced by a default value, it is not found afterwards, and
a second pass gives back the switch that the first one made. -/
theorem backward_pass_sampleSwitch :
    let rule : Node → StateT Unit Supply Node := replacing sampleSubject sampleDefault
    let run := sampleSwitch.rewrite .backward rule () 4
    run.1.1.Lacks sampleSubject ∧
      (findNode (m := StateT Unit Supply) run.1.1 sampleSubject () run.2).1.1 = none ∧
      (run.1.1.rewrite .backward rule () run.2).1.1 = run.1.1 := by
  intro rule run
  obtain ⟨heap, hswitch, hsubject, hnext⟩ := exists_heap_sampleSwitch
  obtain ⟨heap', hle, hnext', hdefault⟩ := heap.exists_insert sampleDefault
    (by simp [hnext, sampleDefault])
    (by simp [sampleDefault, Shape.handles, Shape.children])
  have hold : ∀ n, sampleSwitch.Reaches Shape.children n → ∀ stamp ∈ n.shape.nestedStamps,
      stamp < heap'.next := by
    intro n hr stamp hs
    rw [hnext']
    exact Nat.lt_of_lt_of_le ((isOld_of_reaches_sampleSwitch hr).nested stamp hs) (by decide)
  have hlacks : sampleDefault.Lacks sampleSubject := by
    intro n hr
    rw [eq_of_reaches_sampleDefault hr]
    decide
  have hchanged : ∀ n, ¬ Keeps rule n → n.same sampleSubject = true := by
    intro n hn
    by_contra hother
    have hrule : rule n = pure n := replacing_of_not_same hother
    exact hn (by rw [Keeps, hrule]; rfl)
  have hirreducible : ∀ n, sampleSwitch.Reaches Shape.children n → n.IsIrreducible := by
    intro n hr own custom hshape
    rcases eq_or_eq_of_reaches_sampleSwitch hr with rfl | rfl <;> cases hshape
  have hirreducible' : ∀ n, sampleDefault.Reaches Shape.children n → n.IsIrreducible := by
    intro n hr own custom hshape
    rw [eq_of_reaches_sampleDefault hr] at hshape
    cases hshape
  obtain ⟨hfree, hfound, hsecond⟩ := backward_pass_eliminates
    (isRule_replacing sampleSubject sampleDefault) () hdefault (Heap.mem_of_le hle hswitch) hold
  rw [hnext'] at hfree hfound hsecond
  exact ⟨hfree _ (eliminates_replacing hlacks fun _ h => h),
    hfound sampleSubject (Heap.mem_of_le hle hsubject) sampleDefault hdefault hlacks hirreducible
      hirreducible' Unit () run.2 (le_refl _),
    hsecond (eliminates_replacing hlacks hchanged) () run.2⟩

end Node

end ExprTree
