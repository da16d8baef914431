import ExprTree.Proofs.Heap
import ExprTree.Proofs.Rewriting
import Mathlib.Data.Nat.Basic

/-!
# Instances that are kept

Whoever rewrites a tree can see from the identity of the result whether anything was done. If the
rule gives back every node that it is given, then so does the rewriting, in both directions, and it
draws no stamps of its own. Forward the converse holds too: a node that is replaced, however deep,
makes every node above it be created anew.

The nodes of a tree are here those that a folder reaches. These are the children, the children of
the children and so on; what is inside of a payload or an extension is not among them.
-/

namespace ExprTree

variable {α : Type} {m : Type → Type} [Monad m]

/-! ## Actions that give back what is there -/

/-- Items are the same as themselves if each one is. -/
@[simp] theorem sameItems_self {β : Type} {same : β → β → Bool} (hs : ∀ b, same b b = true)
    (items : List β) : sameItems same items items = true :=
  sameItems_iff.mpr (List.forall₂_same.mpr fun b _ => hs b)

/-- A node is the same as itself. -/
@[simp] theorem Node.same_self (node : Node) : node.same node = true := by simp [Node.same]

/-- An initializer is the same as itself. -/
@[simp] theorem ElementInit.same_self (init : ElementInit Node) : init.same init = true := by
  simp [same]

/-- A binding is the same as itself. -/
@[simp] theorem Binding.same_self (binding : Binding Node) : binding.same binding = true := by
  simp [same]

/-- A case is the same as itself. -/
@[simp] theorem SwitchCase.same_self (branch : SwitchCase Node) : branch.same branch = true := by
  simp [same]

/-- A handler is the same as itself. -/
@[simp] theorem Handler.same_self (handler : Handler Node) : handler.same handler = true := by
  simp [same]

/-- A label target is the same as itself. -/
@[simp] theorem LabelTarget.same_self (target : LabelTarget) : target.same target = true := by
  simp [same]

/-- An optional label target is the same as itself. -/
@[simp] theorem sameTarget_self (target : Option LabelTarget) :
    sameTarget target target = true := by
  cases target <;> simp [sameTarget]

/-- An optional node is the same as itself. -/
@[simp] theorem sameOption_self (node : Option Node) : sameOption node node = true :=
  sameOption_iff.mpr (forall₂_same_self node.toList)

/-- Nodes are the same as themselves. -/
@[simp] theorem sameNodes_self (nodes : List Node) : sameNodes nodes nodes = true :=
  sameItems_self Node.same_self nodes

/-- A binding over what it already holds is the binding. -/
theorem Binding.update_self [MonadStamp m] (binding : Binding Node) :
    (binding.update binding : m (Binding Node)) = pure binding := by
  have hi : binding.identical binding = true := by
    cases binding <;> simp [identical]
  rw [update, if_pos hi]

/-- A shape that is rewritten from below is identical to itself. -/
theorem Shape.identical_self {shape : Shape Node} (h : shape.isLeaf = false) :
    shape.identical shape = true := by
  cases shape <;> simp_all [identical, isLeaf]

/-- Runs the action of an item and gives the node that the item stands for. -/
def keeping (act : α → m PUnit) (old : α → Node) (x : α) : m Node := do
  act x
  pure (old x)

section Keeping

variable [LawfulMonad m] (act : α → m PUnit) (old : α → Node)

/-- If the structures of a list are given back after the actions of their parts, then the list is
given back after the actions of all parts. -/
theorem mapM_keeping_parts {κ κ' : Type} {g : κ → m κ'} {parts : κ → List α} {h : κ → κ'}
    (hg : ∀ k, g k = (do forM (parts k) act; pure (h k))) (items : List κ) :
    items.mapM g = (do forM (items.flatMap parts) act; pure (items.map h)) := by
  induction items with
  | nil => simp
  | cons k rest ih => simp [ih, hg]

/-- Actions that give back the items of a list are run one by one, and the list is given back. -/
theorem mapM_keeping (items : List α) :
    items.mapM (keeping act old) = (do forM items act; pure (items.map old)) := by
  have hsingle : ∀ x, keeping act old x = (do forM [x] act; pure (old x)) := by
    intro x
    simp [keeping]
  rw [mapM_keeping_parts act hsingle, List.flatMap_singleton']

/-- An action that gives back an optional item is run if the item is there. -/
theorem mapM_option_keeping (item : Option α) :
    item.mapM (keeping act old) = (do forM item.toList act; pure (item.map old)) := by
  cases item <;> simp [keeping]

variable [MonadStamp m]

/-- An initializer whose arguments are given back is given back. -/
theorem ElementInit.rewrite_keeping (init : ElementInit α) :
    init.rewrite old (keeping act old) = (do forM init.arguments act; pure (init.map old)) := by
  simp [rewrite, mapM_keeping, update, map]

mutual

/-- A binding whose handles are given back is given back. -/
theorem Binding.rewrite_keeping : ∀ binding : Binding α,
    binding.rewrite old (keeping act old) =
      (do forM binding.children act; pure (binding.map old))
  | .assignment stamp member value => by
    simp [rewrite, keeping, children, map, update_self]
  | .list stamp member initializers => by
    simp [rewrite, mapM_keeping_parts act (ElementInit.rewrite_keeping act old), children, map,
      ElementInit.argumentsOfList_eq_flatMap, update_self]
  | .nested stamp member bindings => by
    simp [rewrite, rewriteList_keeping bindings, children, map, update_self]

/-- Bindings whose handles are given back are given back. -/
theorem Binding.rewriteList_keeping : ∀ bindings : List (Binding α),
    rewriteList old (keeping act old) bindings =
      (do forM (childrenOfList bindings) act; pure (mapList old bindings))
  | [] => by simp [rewriteList, childrenOfList, mapList]
  | binding :: rest => by
    simp [rewriteList, Binding.rewrite_keeping binding, rewriteList_keeping rest, childrenOfList,
      mapList]

end

/-- A case whose handles are given back is given back. -/
theorem SwitchCase.rewrite_keeping (branch : SwitchCase α) :
    branch.rewrite old (keeping act old) =
      (do forM branch.children act; pure (branch.map old)) := by
  simp [rewrite, mapM_keeping, keeping, update, map, children]

/-- A handler whose handles are given back is given back. -/
theorem Handler.rewrite_keeping (handler : Handler α) :
    handler.rewrite old (keeping act old) =
      (do forM handler.children act; pure (handler.map old)) := by
  simp [rewrite, mapM_option_keeping, keeping, update, map, children]

/-- A shape whose children are given back is given back, and no stamp is drawn for it. -/
theorem Shape.rewrite_keeping (shape : Shape α) :
    shape.rewrite old (keeping act old) = (do forM shape.children act; pure (shape.map old)) := by
  have hx : ∀ x, keeping act old x = (do act x; pure (old x)) := fun _ => rfl
  cases shape <;> simp [rewrite, children, map, hx, mapM_keeping, mapM_option_keeping,
    mapM_keeping_parts act (ElementInit.rewrite_keeping act old), Binding.rewriteList_keeping,
    mapM_keeping_parts act (SwitchCase.rewrite_keeping act old),
    mapM_keeping_parts act (Handler.rewrite_keeping act old),
    ElementInit.argumentsOfList_eq_flatMap, SwitchCase.childrenOfList_eq_flatMap,
    Handler.childrenOfList_eq_flatMap]

end Keeping

/-! ## The nodes of a tree in order -/

namespace Node

/-- The nodes that a folder reaches, each one before what is below it (forward) or after it
(backward). -/
def nodes (direction : Direction) (node : Node) : List Node :=
  let below := node.shape.children.attach.flatMap fun ⟨child, _⟩ => nodes direction child
  match direction with
  | .backward => below ++ [node]
  | .forward => node :: below
termination_by sizeOf node
decreasing_by exact sizeOf_lt_of_mem_handles (Shape.mem_handles_of_mem_children (by assumption))

/-- Backward, a node comes after the nodes below its children. -/
theorem nodes_backward (node : Node) :
    node.nodes .backward = node.shape.children.flatMap (nodes .backward) ++ [node] := by
  rw [nodes, List.flatMap_subtype (g := nodes .backward) (fun _ _ => rfl), List.unattach_attach]

/-- Forward, a node comes before the nodes below its children. -/
theorem nodes_forward (node : Node) :
    node.nodes .forward = node :: node.shape.children.flatMap (nodes .forward) := by
  rw [nodes, List.flatMap_subtype (g := nodes .forward) (fun _ _ => rfl), List.unattach_attach]

/-- The nodes of a tree are those that are reached through children. -/
theorem mem_nodes_iff {direction : Direction} {inner : Node} (node : Node) :
    inner ∈ node.nodes direction ↔ node.Reaches Shape.children inner := by
  have hchildren : inner ∈ node.shape.children.flatMap (nodes direction) ↔
      ∃ child ∈ node.shape.children, child.Reaches Shape.children inner := by
    rw [List.mem_flatMap]
    refine exists_congr fun child => and_congr_right fun hc => ?_
    exact mem_nodes_iff child
  rw [reaches_iff, ← hchildren]
  cases direction with
  | backward =>
    rw [nodes_backward, List.mem_append, List.mem_singleton, or_comm, eq_comm]
  | forward =>
    rw [nodes_forward, List.mem_cons, eq_comm]
termination_by sizeOf node
decreasing_by exact sizeOf_lt_of_mem_handles (Shape.mem_handles_of_mem_children hc)

end Node

/-! ## Rules that give back what they are given -/

/-- Running a list of lists of actions is running all of them. -/
theorem forM_flatMap [LawfulMonad m] {β : Type} (act : β → m PUnit) (parts : α → List β)
    (items : List α) : forM (items.flatMap parts) act = forM items fun x => forM (parts x) act := by
  induction items with
  | nil => rfl
  | cons x rest ih => simp [ih]

namespace Node

variable [MonadStamp m] [LawfulMonad m] {step : Node → m Node → m Node} {f : Node → m Node}

/-- What is below a node is given back, after the actions of the children, if each child is. -/
theorem rebuild_keeping {act : Node → m PUnit} {fold : Node → m Node} {n : Node}
    (hfold : ∀ child ∈ n.shape.children, fold child = (do act child; pure child)) :
    (if n.shape.isLeaf then pure n else do
      let shape ← n.shape.attach.rewrite Subtype.val fun ⟨child, _⟩ => fold child
      n.rebuild shape) = (do forM n.shape.children act; pure n) := by
  by_cases hl : n.shape.isLeaf = true
  · rw [if_pos hl, Shape.children_eq_nil hl]
    simp
  · have hl' : n.shape.isLeaf = false := by simpa using hl
    have hkeeping : (fun x : {child // child ∈ n.shape.handles} => fold x.val) =
        keeping (fun x => act x.val) Subtype.val := by
      funext x
      have hx : x.val ∈ n.shape.children := by
        rw [← Shape.handles_eq_children hl']
        exact x.property
      exact hfold x.val hx
    have hrebuild : (n.rebuild n.shape : m Node) = pure n := by
      rw [rebuild, if_pos (Shape.identical_self hl')]
    rw [if_neg hl, hkeeping, Shape.rewrite_keeping, Shape.map_attach,
      ← Shape.children_attach n.shape, List.forM_map]
    simp [hrebuild]

/-- A folder gives back a tree, after the actions of its nodes, if each step does so where what is
below is given back. -/
theorem foldWith_keeping (act : Node → m PUnit) (good : Node → Prop)
    (hchildren : ∀ n, good n → ∀ child ∈ n.shape.children, good child)
    (hstep : ∀ n, good n → step n (do forM n.shape.children act; pure n) = (do act n; pure n))
    (n : Node) (hn : good n) : n.foldWith step = (do act n; pure n) := by
  have hbelow : ∀ child ∈ n.shape.children, child.foldWith step = (do act child; pure child) := by
    intro child hc
    exact foldWith_keeping act good hchildren hstep child (hchildren n hn child hc)
  rw [foldWith, rebuild_keeping hbelow, hstep n hn]
termination_by sizeOf n
decreasing_by exact sizeOf_lt_of_mem_handles (Shape.mem_handles_of_mem_children hc)

/-- The rule gives back the node whenever it is run on it. -/
def Keeps (f : Node → m Node) (n : Node) : Prop := f n = (do discard (f n); pure n)

/-- If a rule gives back all nodes of a tree, then rewriting runs it on each of them in order, draws
no stamps besides, and gives back the tree. -/
theorem rewrite_eq_of_keeps (direction : Direction) {n : Node}
    (hn : ∀ inner, n.Reaches Shape.children inner → Keeps f inner) :
    n.rewrite direction f =
      (do forM (n.nodes direction) fun inner => discard (f inner); pure n) := by
  have hchildren : ∀ n : Node, (∀ inner, n.Reaches Shape.children inner → Keeps f inner) →
      ∀ child ∈ n.shape.children, ∀ inner, child.Reaches Shape.children inner → Keeps f inner := by
    intro n hn child hc inner hr
    exact hn inner (reaches_iff.mpr (.inr ⟨child, hc, hr⟩))
  cases direction with
  | backward =>
    refine foldWith_keeping (fun n => forM (n.nodes .backward) fun inner => discard (f inner)) _
      hchildren ?_ n hn
    intro n hn
    have hkeeps : f n = (do discard (f n); pure n) := hn n .refl
    rw [nodes_backward, List.forM_append, forM_flatMap, bind_assoc, pure_bind]
    nth_rewrite 1 [hkeeps]
    simp
  | forward =>
    refine foldWith_keeping (fun n => forM (n.nodes .forward) fun inner => discard (f inner)) _
      hchildren ?_ n hn
    intro n hn
    have hkeeps : f n = (do discard (f n); pure n) := hn n .refl
    rw [nodes_forward, List.forM_cons, forM_flatMap]
    nth_rewrite 1 [hkeeps]
    simp

end Node

/-! ## Results that are the nodes they were -/

/-- Structures that are the same as the ones they were made from are those, if no old stamp is
drawn. -/
theorem eq_of_sameItems {κ : Type} {bound : Stamp} {stamp : κ → Stamp} {same : κ → κ → Bool}
    (hsame : ∀ k' k, same k' k = true → stamp k' = stamp k) {was now : List κ}
    (h : List.Forall₂ (fun k k' => k' = k ∨ bound ≤ stamp k') was now)
    (hi : sameItems same now was = true) (hb : ∀ k ∈ was, stamp k < bound) : now = was :=
  eq_of_stamps_eq h ((sameItems_iff.mp hi).imp hsame) hb

/-- A shape that is identical to the one it was made from has the same children, if no old stamp is
drawn. -/
theorem Shape.Rewritten.same_children {bound : Stamp} {R : Node → Node → Prop}
    {was now : Shape Node} (h : was.Rewritten bound R now)
    (hs : ∀ stamp ∈ was.nestedStamps, stamp < bound) (hi : now.identical was = true) :
    List.Forall₂ (fun y x => y.same x = true) now.children was.children := by
  have hfam : now.family = was.family := by
    refine (family_eq_of_skeleton_eq ?_).symm
    rw [skeleton, skeleton, h.frame]
  have hn := h.nested
  clear h
  induction now, was, hfam using cases_of_family_eq with
  | binary left' conversion' right' _ _ left conversion right =>
    simp only [identical, Bool.and_eq_true, sameOption_iff] at hi
    obtain ⟨⟨⟨⟨hleft, hright⟩, hconversion⟩, -⟩, -⟩ := hi
    exact .cons hleft (List.rel_append hconversion (.cons hright .nil))
  | call object' _ arguments' object _ arguments =>
    simp only [identical, Bool.and_eq_true, sameOption_iff, sameNodes, sameItems_iff] at hi
    exact List.rel_append hi.1.1 hi.1.2
  | block locals' statements' locals statements =>
    simp only [identical, Bool.and_eq_true, sameNodes, sameItems_iff] at hi
    exact List.rel_append hi.1 hi.2
  | listInit creation' now creation was =>
    simp only [identical, Bool.and_eq_true] at hi
    have heq : now = was := eq_of_sameItems (by simp [ElementInit.same]) hn hi.2 fun k hk =>
      hs k.stamp (List.mem_map_of_mem hk)
    rw [heq]
    exact .cons hi.1 (forall₂_same_self _)
  | memberInit creation' now creation was =>
    simp only [identical, Bool.and_eq_true] at hi
    have heq : now = was := eq_of_sameItems (by simp [Binding.same]) hn hi.2 fun k hk =>
      hs k.stamp (Binding.stamp_mem_stampsOfList hk)
    rw [heq]
    exact .cons hi.1 (forall₂_same_self _)
  | switch subject' now otherwise' comparison' subject was otherwise comparison =>
    simp only [identical, Bool.and_eq_true] at hi
    obtain ⟨⟨⟨hsubject, hcases⟩, hotherwise⟩, -⟩ := hi
    have heq : now = was := eq_of_sameItems (by simp [SwitchCase.same]) hn hcases fun k hk =>
      hs k.stamp (List.mem_map_of_mem hk)
    rw [heq]
    exact .cons hsubject (List.rel_append (forall₂_same_self _) (sameOption_iff.mp hotherwise))
  | tryCatch body' now cleanup' fault' body was cleanup fault =>
    simp only [identical, Bool.and_eq_true] at hi
    obtain ⟨⟨⟨hbody, hhandlers⟩, hcleanup⟩, hfault⟩ := hi
    have heq : now = was := eq_of_sameItems (by simp [Handler.same]) hn hhandlers fun k hk =>
      hs k.stamp (List.mem_map_of_mem hk)
    rw [heq]
    exact .cons hbody (List.rel_append (List.rel_append (forall₂_same_self _)
      (sameOption_iff.mp hcleanup)) (sameOption_iff.mp hfault))
  | _ =>
    simp only [identical, Bool.and_eq_true, sameOption_iff, sameNodes, sameItems_iff] at hi
    simp [Shape.children, hi]

/-- Actions are run at stamps not below the first one, and do not take the supply back. -/
abbrev supplyLogic (first : Stamp) : StampLogic Supply where
  World := Stamp
  order := inferInstance
  bound := first
  Ensures next x post := first ≤ next → next ≤ (x next).2 ∧ post (x next).2 (x next).1
  ensures_pure := by
    intro β next b post hp _
    exact ⟨le_refl next, hp⟩
  ensures_bind := by
    intro β γ next x k mid post hx hk hfirst
    obtain ⟨hle, hmid⟩ := hx hfirst
    obtain ⟨hle', hpost⟩ := hk (x next).2 hle (x next).1 hmid (le_trans hfirst hle)
    exact ⟨le_trans hle hle', hpost⟩
  ensures_fresh := by
    intro next hfirst
    exact ⟨Nat.le_succ next, hfirst⟩

namespace Node

/-- Which nodes a rule gives back does not depend on when it is run, after the first stamp: the rule
gives back the node or always gives a node of another identity. It does not take the supply back. -/
structure IsPure (first : Stamp) (f : Node → Supply Node) (n : Node) : Prop where
  /-- The supply is never taken back. -/
  le : ∀ next, first ≤ next → next ≤ (f n next).2
  /-- The node is always given back, or never. -/
  keeps_or : Keeps f n ∨ ∀ next, first ≤ next → (f n next).1.same n = false

/-- The stamps of the node and of the structures nested in it were drawn before. -/
structure IsOld (first : Stamp) (n : Node) : Prop where
  /-- The stamp of the node was drawn before. -/
  stamp : n.stamp < first
  /-- The stamps of the nested structures were drawn before. -/
  nested : ∀ stamp ∈ n.shape.nestedStamps, stamp < first

variable {first : Stamp} {f : Node → Supply Node}

/-- If the result is the node, then the rule gives back the nodes that are reached through its
children. -/
def KeptBelow (f : Node → Supply Node) (n r : Node) : Prop :=
  r.same n = true → ∀ child ∈ n.shape.children, ∀ inner, child.Reaches Shape.children inner →
    Keeps f inner

/-- If the result is the node, then the rule gives back all nodes of the tree. -/
def KeptThrough (f : Node → Supply Node) (n r : Node) : Prop :=
  r.same n = true → ∀ inner, n.Reaches Shape.children inner → Keeps f inner

/-- A rebuilt node is the node only if the rule gives back what is below it. -/
theorem rebuild_keptBelow {n : Node} {shape : Shape Node} (hn : n.IsOld first)
    (h : n.shape.Rewritten first (KeptThrough f) shape) (next : Stamp) :
    (supplyLogic first).Ensures next (n.rebuild shape) fun _ r => KeptBelow f n r := by
  unfold rebuild
  split
  case isTrue hi =>
    refine StampLogic.ensures_pure _ fun _ child hc => ?_
    have hsame := h.same_children hn.nested hi
    have hself : List.Forall₂ (KeptThrough f) n.shape.children n.shape.children :=
      forall₂_keep (fun x y hxy hs _ => hxy (hs trivial)) h.children fun _ => hsame
    exact List.forall₂_same.mp hself child hc (same_self child)
  case isFalse =>
    intro hfirst
    refine ⟨Nat.le_succ next, fun hs => ?_⟩
    have hstamp : next = n.stamp := by
      rw [same, decide_eq_true_eq] at hs
      exact hs
    rw [hstamp] at hfirst
    exact absurd hfirst (Nat.not_le_of_lt hn.stamp)

/-- A pure rule that gives the node gives it back whenever it is run. -/
theorem IsPure.ensures_keeps {n : Node} (hf : IsPure first f n) (next : Stamp) :
    (supplyLogic first).Ensures next (f n) fun _ r => r.same n = true → Keeps f n := by
  intro hfirst
  refine ⟨hf.le next hfirst, fun hs => ?_⟩
  rcases hf.keeps_or with hkeeps | hnever
  · exact hkeeps
  · rw [hnever next hfirst] at hs
    simp at hs

/-- A forward step gives the node only if the rule gives back the node and what is below it. -/
theorem forward_step_keptThrough {n : Node} {below : Supply Node} (hf : IsPure first f n)
    (hbelow : (supplyLogic first).Yields first below fun _ r => KeptBelow f n r) :
    (supplyLogic first).Yields first
      (do let replaced ← f n; if replaced.same n then below else pure replaced)
      fun _ r => KeptThrough f n r := by
  refine ⟨fun w w' r _ h => h, fun w hw => ?_⟩
  refine StampLogic.ensures_bind _ (hf.ensures_keeps w) fun w' hw' replaced hkeeps => ?_
  split
  case isTrue hs =>
    refine StampLogic.ensures_mono (hbelow.after w' (le_trans hw hw')) fun w'' _ r hr => ?_
    intro hsame inner hreach
    rcases reaches_iff.mp hreach with heq | ⟨child, hc, hreach'⟩
    · rw [← heq]
      exact hkeeps hs
    · exact hr hsame child hc inner hreach'
  case isFalse hs =>
    exact StampLogic.ensures_pure _ fun hsame => absurd hsame hs

/-- Forward rewriting gives the node only if the rule gives back all nodes of the tree. -/
theorem rewrite_forward_keptThrough {n : Node}
    (hn : ∀ inner, n.Reaches Shape.children inner → inner.IsOld first ∧ IsPure first f inner) :
    (supplyLogic first).Yields first (n.rewrite .forward f) fun _ r => KeptThrough f n r := by
  have htracks : (supplyLogic first).Tracks True fun _ => KeptThrough f := by
    constructor
    · intro x w w' y _ h
      exact h
    · intro w x y h hs _
      exact h (hs trivial)
  refine foldWith_yields (Q := fun _ => KeptBelow f)
    (fun n => ∀ inner, n.Reaches Shape.children inner → inner.IsOld first ∧ IsPure first f inner)
    htracks ?_ ?_ ?_ ?_ ?_ ?_ n hn
  · intro n w w' r _ h
    exact h
  · intro n hn child hc inner hr
    exact hn inner (reaches_iff.mpr (.inr ⟨child, hc, hr⟩))
  · intro _ n hn
    exact (hn n .refl).1.nested
  · intro n _ hl w _ _ child hc
    rw [Shape.children_eq_nil hl] at hc
    simp at hc
  · intro n hn _ w _ shape hshape
    exact rebuild_keptBelow (hn n .refl).1 hshape w
  · intro n below hn hbelow
    exact forward_step_keptThrough (hn n .refl).2 hbelow

/-- Identity tells whether a tree was touched. If a rule gives back all nodes of a tree, then
rewriting in either direction gives back the tree and draws no stamps but those that the rule draws
itself. If the rule is pure, forward rewriting gives the tree in no other case. -/
theorem rewrite_same_iff_keeps (f : Node → Supply Node) (e : Node) :
    ((∀ n, e.Reaches Shape.children n → Keeps f n) → ∀ direction,
      e.rewrite direction f = (do forM (e.nodes direction) fun n => discard (f n); pure e)) ∧
    ∀ first, (∀ n, e.Reaches Shape.children n → n.IsOld first ∧ IsPure first f n) →
      ((e.rewrite .forward f first).1.same e = true ↔
        ∀ n, e.Reaches Shape.children n → Keeps f n) := by
  constructor
  · intro hkeeps direction
    exact rewrite_eq_of_keeps direction hkeeps
  · intro first he
    constructor
    · intro hsame
      have hthrough := (rewrite_forward_keptThrough he).after first (le_refl first)
      exact (hthrough (le_refl first)).2 hsame
    · intro hkeeps
      rw [rewrite_eq_of_keeps .forward hkeeps]
      exact same_self e

/-- A parameter. -/
def sampleSubject : Node := ⟨0, .parameter, .void, .parameter (some "x") false⟩

/-- A switch over a parameter with one case that tests and gives the parameter. -/
def sampleSwitch : Node :=
  ⟨2, .switch, .void, .switch sampleSubject [⟨1, [sampleSubject], sampleSubject⟩] none none⟩

/-- The nodes of the switch are the switch and the parameter. -/
theorem eq_or_eq_of_reaches_sampleSwitch {n : Node} (h : sampleSwitch.Reaches Shape.children n) :
    n = sampleSwitch ∨ n = sampleSubject := by
  have hmem : n ∈ sampleSwitch.nodes .forward := (mem_nodes_iff sampleSwitch).mpr h
  simpa [nodes_forward, sampleSwitch, sampleSubject, Shape.children, SwitchCase.childrenOfList,
    SwitchCase.children] using hmem

/-- The stamps in the switch are below three. -/
theorem isOld_of_reaches_sampleSwitch {n : Node} (h : sampleSwitch.Reaches Shape.children n) :
    n.IsOld 3 := by
  rcases eq_or_eq_of_reaches_sampleSwitch h with rfl | rfl
  · exact ⟨by decide, by simp [sampleSwitch, Shape.nestedStamps]⟩
  · exact ⟨by decide, by simp [sampleSubject, Shape.nestedStamps]⟩

/-- Creates parameters anew and gives back all other nodes. -/
def freshParameter (n : Node) : Supply Node :=
  if n.kind = .parameter then make n.kind n.type n.shape else pure n

/-- Creating parameters anew is pure. -/
theorem isPure_freshParameter {n : Node} (hn : n.stamp < first) :
    IsPure first freshParameter n := by
  by_cases hk : n.kind = .parameter
  · refine ⟨fun next _ => ?_, .inr fun next hfirst => ?_⟩
    · rw [freshParameter, if_pos hk]
      exact Nat.le_succ next
    · have hne : next ≠ n.stamp := Nat.ne_of_gt (Nat.lt_of_lt_of_le hn hfirst)
      rw [freshParameter, if_pos hk, same, decide_eq_false_iff_not]
      exact hne
  · have hpure : freshParameter n = pure n := by rw [freshParameter, if_neg hk]
    refine ⟨fun next _ => ?_, .inl ?_⟩
    · rw [hpure]
      exact le_refl next
    · rw [Keeps, hpure]
      rfl

/-- A switch whose parameter is created anew is another one. A switch that is left alone is given
back, and no stamp is drawn. -/
theorem rewrite_sampleSwitch :
    (sampleSwitch.rewrite .forward freshParameter 3).1.same sampleSwitch = false ∧
      (sampleSwitch.rewrite .backward pure : Supply Node) 3 = (sampleSwitch, 3) := by
  constructor
  · have hiff := (rewrite_same_iff_keeps freshParameter sampleSwitch).2 3 fun n hn =>
      ⟨isOld_of_reaches_sampleSwitch hn,
        isPure_freshParameter (isOld_of_reaches_sampleSwitch hn).stamp⟩
    rw [Bool.eq_false_iff, ne_eq, hiff]
    intro hkeeps
    have hsubject : sampleSwitch.Reaches Shape.children sampleSubject :=
      reaches_iff.mpr (.inr ⟨sampleSubject, by simp [sampleSwitch, Shape.children], .refl⟩)
    have hrun := congrFun (hkeeps sampleSubject hsubject) 3
    have hstamp : (3 : Stamp) = 0 := congrArg (fun result => result.1.stamp) hrun
    simp at hstamp
  · have heq := (rewrite_same_iff_keeps pure sampleSwitch).1 (fun n _ => rfl) .backward
    have hnodes : sampleSwitch.nodes .backward =
        [sampleSubject, sampleSubject, sampleSubject, sampleSwitch] := by
      simp [nodes_backward, sampleSwitch, sampleSubject, Shape.children, SwitchCase.childrenOfList,
        SwitchCase.children]
    rw [heq, hnodes]
    rfl

end Node

end ExprTree
