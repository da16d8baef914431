import ExprTree.Proofs.Simulation
import ExprTree.Proofs.Sharing

/-!
# Substitution in both directions

A rule that replaces one instance by a tree can be used forward and backward. Forward it is asked
about the nodes of the tree, and not about what is below the instance. Backward it is asked about
rebuilt nodes too, and what is below the instance is rewritten before the instance is replaced. The
results are the same up to what was drawn, for two reasons: below an instance it does not occur
again, and a rebuilt node is not mistaken for it.

What a substitution does is said case by case: an occurrence is replaced, a tree without one is
kept, and a node above one is rebuilt over what its children become.
-/

namespace ExprTree

variable {α β σ : Type}

/-! ## Answers one by one -/

/-- What is known of each answer is known of all answers in a pass. -/
theorem Passes.forall₂ {f : α → StateT σ Supply β} {R : α → β → Prop} {first : Stamp}
    {w w' : Moment σ} {items : List α} {answers : List β} (hf : KeepsBound first True f)
    (hR : ∀ x ∈ items, ∀ w b w', first ≤ w.2 → Runs (f x) w b w' → R x b) (hw : first ≤ w.2)
    (h : Passes f w items answers w') : List.Forall₂ R items answers := by
  induction h with
  | done => exact .nil
  | call hx _ ih =>
    have hhead := hR _ List.mem_cons_self _ _ _ hw hx
    exact .cons hhead (ih (fun x hx => hR x (List.mem_cons_of_mem _ hx)) (hf trivial _ _ _ _ hx hw))
  | draw _ ih => exact ih hR (Nat.le_succ_of_le hw)

/-- Lists that are related to a third one are related to each other if their items are. -/
theorem forall₂_of_common {γ : Type} {R : α → β → Prop} {S : α → γ → Prop} {T : β → γ → Prop}
    {xs : List α} {ys : List β} {zs : List γ} (h : List.Forall₂ R xs ys) (h' : List.Forall₂ S xs zs)
    (hT : ∀ x ∈ xs, ∀ y z, R x y → S x z → T y z) : List.Forall₂ T ys zs := by
  induction h generalizing zs with
  | nil =>
    cases h'
    exact .nil
  | cons hxy _ ih =>
    cases h' with
    | cons hxz hrest =>
      have htail := ih hrest fun x hx => hT x (List.mem_cons_of_mem _ hx)
      exact .cons (hT _ List.mem_cons_self _ _ hxy hxz) htail

/-- The action does not take the supply back, whatever it is compared with. -/
def drawing (σ : Type) : Simulation (StateT σ Supply) (StateT σ Supply) where
  Alike x _ := ∀ w b w', Runs x w b w' → w.2 ≤ w'.2
  pass b := by
    intro w c w' h
    rw [(runs_pure.mp h).2]
  seq hx hk := by
    intro w c w'' h
    obtain ⟨b, w', hfirst, hsecond⟩ := runs_bind.mp h
    exact le_trans (hx _ _ _ hfirst) (hk b _ _ _ hsecond)
  draw := by
    intro w stamp w' h
    rw [(runs_fresh.mp h).2]
    exact Nat.le_succ _

/-- Rewriting draws stamps but does not take any back if the rule does not. -/
theorem drawsOnly_rewrite {f : Node → StateT σ Supply Node} (hf : DrawsOnly f)
    (direction : Direction) : DrawsOnly (Node.rewrite direction f) := by
  intro n state next
  have hrule : ∀ n, (drawing σ).Alike (f n) (f n) := fun n w r w' hrun => hf.le_of_runs hrun
  exact (drawing σ).rewrite hrule direction n _ _ _
    (runs_self (n.rewrite direction f) (state, next))

namespace Node

/-! ## Rewriting node by node -/

section Steps

variable {m : Type → Type} [Monad m] [MonadStamp m]

/-- Forward the rule is asked about the node, and what is below is rewritten if it is kept. -/
theorem rewrite_forward_eq (f : Node → m Node) (n : Node) :
    n.rewrite .forward f = (do
      let replaced ← f n
      if replaced.same n then n.foldChildren (rewrite .forward f) else pure replaced) :=
  foldWith_eq _ n

/-- Backward the rule is asked about the node over what was rewritten below. -/
theorem rewrite_backward_eq (f : Node → m Node) (n : Node) :
    n.rewrite .backward f = (do f (← n.foldChildren (rewrite .backward f))) :=
  foldWith_eq _ n

/-- A node is given back if each child is. -/
theorem foldChildren_of_keeps [LawfulMonad m] {fold : Node → m Node} {n : Node}
    (h : ∀ child ∈ n.shape.children, fold child = pure child) : n.foldChildren fold = pure n := by
  have hkeeping : n.foldChildren fold = (do forM n.shape.children fun _ => pure ⟨⟩; pure n) :=
    rebuild_keeping fun child hc => by rw [h child hc, pure_bind]
  have hnothing : ∀ children : List Node, (forM children fun _ => pure ⟨⟩ : m PUnit) = pure ⟨⟩ := by
    intro children
    induction children with
    | nil => rfl
    | cons child rest ih => rw [List.forM_cons, pure_bind, ih]
  rw [hkeeping, hnothing, pure_bind]

/-- Rewriting does nothing if the rule gives back all nodes of the tree. -/
theorem rewrite_eq_pure [LawfulMonad m] {f : Node → m Node} {n : Node} (direction : Direction)
    (h : ∀ inner, n.Reaches Shape.children inner → f inner = pure inner) :
    n.rewrite direction f = pure n := by
  have hbelow : n.foldChildren (rewrite direction f) = pure n :=
    foldChildren_of_keeps fun child hc => rewrite_eq_pure direction (forall_reaches_child h hc)
  cases direction with
  | forward => rw [rewrite_forward_eq, h n .refl, pure_bind, if_pos (same_self n), hbelow]
  | backward => rw [rewrite_backward_eq, hbelow, pure_bind, h n .refl]
termination_by sizeOf n
decreasing_by exact sizeOf_lt_of_mem_handles (Shape.mem_handles_of_mem_children hc)

end Steps

/-- What was old stays old. -/
theorem IsOld.mono {n : Node} {first next : Stamp} (h : n.IsOld first) (hle : first ≤ next) :
    n.IsOld next :=
  ⟨Nat.lt_of_lt_of_le h.stamp hle, fun stamp hs => Nat.lt_of_lt_of_le (h.nested stamp hs) hle⟩

/-! ## What a substitution gives -/

/-- No node of the tree is as described. The nodes are those that a folder reaches. -/
def Free (P : Node → Prop) (n : Node) : Prop := ∀ inner, n.Reaches Shape.children inner → ¬ P inner

/-- The instance does not occur in the tree. -/
abbrev Lacks (n target : Node) : Prop := n.Free fun inner => inner.same target = true

/-- A tree is free of what is described if the node is not so and its children are free of it. -/
theorem free_iff {P : Node → Prop} {n : Node} :
    n.Free P ↔ ¬ P n ∧ ∀ child ∈ n.shape.children, child.Free P :=
  forall_reaches_iff

end Node

/-- A component above occurrences of an instance is made anew, and otherwise kept. -/
def Component.Remade (first : Stamp) (target : Node) (was now : Component Node) : Prop :=
  (now = was ∧ ∀ part ∈ was.parts, part.Lacks target) ∨
    (first ≤ now.stamp ∧ ¬ ∀ part ∈ was.parts, part.Lacks target)

namespace Node

/-- The second tree is the first one with the replacement in the place of the target. -/
inductive Substituted (first : Stamp) (target replacement : Node) : Node → Node → Prop where
  /-- The target is replaced by that very instance. -/
  | replaced {n : Node} : n.same target = true →
    Substituted first target replacement n replacement
  /-- A tree in which the target does not occur is kept as it is. -/
  | kept {n : Node} : n.Lacks target → Substituted first target replacement n n
  /-- A node above the target is made anew over what its children become. -/
  | rebuilt {n r : Node} : n.same target = false → ¬ n.Lacks target → first ≤ r.stamp →
    r.kind = n.kind → r.type = n.type → r.shape.frame = n.shape.frame →
    List.Forall₂ (Substituted first target replacement) n.shape.children r.shape.children →
    List.Forall₂ (fun was now => was.component.Remade first target now.component)
      n.shape.components r.shape.components →
    Substituted first target replacement n r

/-- The trees are the same but for the identities of nodes and components that were drawn. -/
inductive SameButDrawn (first : Stamp) : Node → Node → Prop where
  /-- The trees are one instance. -/
  | refl (n : Node) : SameButDrawn first n n
  /-- The nodes were drawn, and what is below them is the same but for such identities. -/
  | drawn {a b : Node} : first ≤ a.stamp → first ≤ b.stamp → a.kind = b.kind → a.type = b.type →
    a.shape.frame = b.shape.frame →
    List.Forall₂ (SameButDrawn first) a.shape.children b.shape.children →
    List.Forall₂ (fun x y => x.component = y.component ∨
      first ≤ x.component.stamp ∧ first ≤ y.component.stamp) a.shape.components b.shape.components →
    SameButDrawn first a b

namespace Substituted

variable {first : Stamp} {target replacement n r : Node}

/-- What an old node becomes is the node if and only if the target does not occur in it. -/
theorem same_iff (hreplacement : replacement.same target = false) (hn : n.stamp < first)
    (h : Substituted first target replacement n r) : r.same n = true ↔ n.Lacks target := by
  cases h with
  | replaced htarget =>
    have hstamp : n.stamp = target.stamp := of_decide_eq_true htarget
    have hother : replacement.same n = false := by
      rw [same, hstamp]
      exact hreplacement
    rw [hother]
    exact iff_of_false (by simp) fun hlacks => hlacks n .refl htarget
  | kept hlacks => exact iff_of_true (same_self n) hlacks
  | rebuilt _ hoccurs hdrawn =>
    refine iff_of_false (fun hsame => ?_) hoccurs
    have hstamp : r.stamp = n.stamp := of_decide_eq_true hsame
    rw [hstamp] at hdrawn
    exact absurd hn (Nat.not_lt_of_le hdrawn)

/-- What becomes of a tree without the target is the tree. -/
theorem eq_of_lacks (hlacks : n.Lacks target) (h : Substituted first target replacement n r) :
    r = n := by
  cases h with
  | replaced htarget => exact absurd htarget (hlacks n .refl)
  | kept => rfl
  | rebuilt _ hoccurs => exact absurd hlacks hoccurs

/-- What old nodes become are the nodes if and only if the target does not occur in them. -/
theorem forall₂_same_iff (hreplacement : replacement.same target = false)
    {nodes results : List Node} (hnodes : ∀ n ∈ nodes, n.stamp < first)
    (h : List.Forall₂ (Substituted first target replacement) nodes results) :
    List.Forall₂ (fun r n => r.same n = true) results nodes ↔ ∀ n ∈ nodes, n.Lacks target := by
  induction h with
  | nil => simp
  | cons hhead _ ih =>
    rw [List.forall₂_cons, List.forall_mem_cons,
      ih fun n hn => hnodes n (List.mem_cons_of_mem _ hn),
      hhead.same_iff hreplacement (hnodes _ List.mem_cons_self)]

/-- All that becomes of a tree by the same substitution is the same but for what was drawn. -/
theorem sameButDrawn {n a b : Node} (ha : Substituted first target replacement n a)
    (hb : Substituted first target replacement n b) : SameButDrawn first a b := by
  cases ha with
  | replaced htarget =>
    cases hb with
    | replaced => exact .refl replacement
    | kept hlacks => exact absurd htarget (hlacks n .refl)
    | rebuilt hother => simp [htarget] at hother
  | kept hlacks =>
    rw [hb.eq_of_lacks hlacks]
    exact .refl _
  | rebuilt hother hoccurs hdrawn hkind htype hframe hchildren hcomponents =>
    cases hb with
    | replaced htarget => simp [htarget] at hother
    | kept hlacks => exact absurd hlacks hoccurs
    | rebuilt _ _ hdrawn' hkind' htype' hframe' hchildren' hcomponents' =>
      refine .drawn hdrawn hdrawn' (hkind.trans hkind'.symm) (htype.trans htype'.symm)
        (hframe.trans hframe'.symm) (forall₂_of_common hchildren hchildren' ?_)
        (forall₂_of_common hcomponents hcomponents' ?_)
      · intro child hc a b ha hb
        exact sameButDrawn ha hb
      · intro was _ x y hx hy
        rcases hx with ⟨hx, hlacks⟩ | ⟨hx, hoccurs⟩ <;>
          rcases hy with ⟨hy, hlacks'⟩ | ⟨hy, hoccurs'⟩
        · exact .inl (hx.trans hy.symm)
        · exact absurd hlacks hoccurs'
        · exact absurd hlacks' hoccurs
        · exact .inr ⟨hx, hy⟩
termination_by sizeOf n
decreasing_by exact sizeOf_lt_of_mem_handles (Shape.mem_handles_of_mem_children hc)

end Substituted

/-! ## One step -/

variable {heap : Heap} {target replacement n r : Node} {w w' : Moment σ}

/-- A component is kept in a step if the target occurs in none of its parts, and is made anew
otherwise. -/
theorem remade_of_reused (hreplacement : replacement.same target = false) {first : Stamp}
    {was now : Placed Node} {answers : List Node} (hwas : was ∈ n.shape.components)
    (hnow : now ∈ r.shape.components) (hreused : was.Reused w.2 now) (hw : first ≤ w.2)
    (hsame : List.Forall₂ (fun node answer => node.same answer = true) r.shape.children answers)
    (hold : ∀ child ∈ n.shape.children, child.stamp < first)
    (hanswers : List.Forall₂ (Substituted first target replacement) n.shape.children answers) :
    was.component.Remade first target now.component := by
  have hshared := shared_of_reused hreused hnow hsame
  have hparts : was.cut n.shape.children = was.component.parts := Shape.cut_children hwas
  have hcut : List.Forall₂ (Substituted first target replacement) was.component.parts
      (was.cut answers) := by
    rw [← hparts]
    exact List.forall₂_take _ (List.forall₂_drop _ hanswers)
  have holdParts : ∀ part ∈ was.component.parts, part.stamp < first := by
    intro part hp
    rw [← hparts] at hp
    exact hold part (List.mem_of_mem_drop (List.mem_of_mem_take hp))
  have hiff := hshared.same_iff.trans (Substituted.forall₂_same_iff hreplacement holdParts hcut)
  by_cases hkept : now.component.stamp = was.component.stamp
  · exact .inl ⟨hshared.kept hkept, hiff.mp hkept⟩
  · exact .inr ⟨le_trans hw (hshared.drawn hkept), fun hlacks => hkept (hiff.mpr hlacks)⟩

/-- A step above the target makes the node anew over what its children become. -/
theorem foldChildren_substituted {fold : Node → StateT σ Supply Node} (hfold : DrawsOnly fold)
    (hreplacement : replacement.same target = false) (hmem : n ∈ heap) (hn : n.IsOld heap.next)
    (hw : heap.next ≤ w.2) (hother : n.same target = false) (hoccurs : ¬ n.Lacks target)
    (hchild : ∀ child ∈ n.shape.children, ∀ w a w', heap.next ≤ w.2 → Runs (fold child) w a w' →
      Substituted heap.next target replacement child a)
    (h : Runs (n.foldChildren fold) w r w') :
    heap.next ≤ r.stamp ∧ Substituted heap.next target replacement n r := by
  obtain ⟨hkind, htype, answers, hpasses, -, hdistinct⟩ :=
    below_runs hfold.keepsBound (fun _ => hn) (fun _ => hw) h
  obtain ⟨-, hstands, hsame⟩ := hdistinct trivial
  have hold : ∀ child ∈ n.shape.children, child.stamp < heap.next :=
    fun child hc => heap.below child (Heap.mem_of_mem_children hmem hc)
  have hanswers : List.Forall₂ (Substituted heap.next target replacement) n.shape.children
      answers := hpasses.forall₂ hfold.keepsBound hchild hw
  have hchildren : r.shape.children = answers := by
    refine hstands.eq_answers fun pair hp hpair => ?_
    have hsub := (List.forall₂_iff_zip.mp hanswers).2 hp
    have hlt := hold pair.1 (List.of_mem_zip hp).1
    exact hsub.eq_of_lacks ((hsub.same_iff hreplacement hlt).mp hpair)
  have hnew : r.same n ≠ true := by
    intro hkept
    have hlacks := (Substituted.forall₂_same_iff hreplacement hold hanswers).mp (hsame hkept)
    exact hoccurs (free_iff.mpr ⟨by simp [hother], hlacks⟩)
  have hreused := foldChildren_components hfold (hn.mono hw) h
  rcases runs_foldChildren hfold (hn.mono hw) h with heq | ⟨shape, w₁, -, heq, -, hle, hframe⟩
  · rw [heq] at hnew
    exact absurd (same_self n) hnew
  · have hstamp : heap.next ≤ r.stamp := by
      rw [heq]
      exact le_trans hw hle
    have hframe' : r.shape.frame = n.shape.frame := by rw [heq, hframe]
    refine ⟨hstamp, .rebuilt hother hoccurs hstamp hkind htype hframe' (hchildren ▸ hanswers) ?_⟩
    rw [List.forall₂_iff_zip] at hreused ⊢
    refine ⟨hreused.1, fun hpair => ?_⟩
    have hmems := List.of_mem_zip hpair
    exact remade_of_reused hreplacement hmems.1 hmems.2 (hreused.2 hpair) hw hstands.same_answers
      hold hanswers

/-! ## The rule in both directions -/

/-- Gives the replacement for the target, and gives back all other nodes. -/
def replacing {m : Type → Type} [Monad m] (target replacement n : Node) : m Node :=
  pure (if n.same target then replacement else n)

/-- Replacing draws no stamps. -/
theorem drawsOnly_replacing (target replacement : Node) :
    DrawsOnly (replacing target replacement : Node → StateT σ Supply Node) :=
  fun _ _ next => le_refl next

/-- The target is replaced. -/
theorem replacing_of_same {m : Type → Type} [Monad m] (h : n.same target = true) :
    replacing target replacement n = (pure replacement : m Node) := by rw [replacing, if_pos h]

/-- Other nodes are given back. -/
theorem replacing_of_not_same {m : Type → Type} [Monad m] (h : ¬ n.same target = true) :
    replacing target replacement n = (pure n : m Node) := by rw [replacing, if_neg h]

/-- Below an instance it does not occur again. -/
theorem lacks_of_mem_children (hmem : n ∈ heap) (h : n.same target = true) {child : Node}
    (hc : child ∈ n.shape.children) : child.Lacks target := by
  intro inner hr hsame
  have hne := Heap.stamp_ne_of_below hmem (Shape.mem_handles_of_mem_children hc) hr.through_handles
  have hinner : inner.stamp = target.stamp := of_decide_eq_true hsame
  have hn : n.stamp = target.stamp := of_decide_eq_true h
  exact hne (hinner.trans hn.symm)

/-- A tree without the target is given back. -/
theorem rewrite_replacing_of_lacks {m : Type → Type} [Monad m] [LawfulMonad m] [MonadStamp m]
    (direction : Direction) (h : n.Lacks target) :
    n.rewrite direction (replacing target replacement) = (pure n : m Node) :=
  rewrite_eq_pure direction fun inner hr => replacing_of_not_same (h inner hr)

/-- The target itself becomes the replacement, after what is below it was given back if that is
rewritten first. -/
theorem rewrite_replacing_of_same {m : Type → Type} [Monad m] [LawfulMonad m] [MonadStamp m]
    (direction : Direction) (hreplacement : replacement.same target = false) (hmem : n ∈ heap)
    (h : n.same target = true) :
    n.rewrite direction (replacing target replacement) = (pure replacement : m Node) := by
  cases direction with
  | forward =>
    have hstamp : n.stamp = target.stamp := of_decide_eq_true h
    have hother : ¬ replacement.same n = true := by
      rw [same, hstamp]
      exact Bool.eq_false_iff.mp hreplacement
    rw [rewrite_forward_eq, replacing_of_same h, pure_bind, if_neg hother]
  | backward =>
    have hbelow : n.foldChildren (rewrite .backward (replacing target replacement)) =
        (pure n : m Node) := foldChildren_of_keeps fun child hc =>
      rewrite_replacing_of_lacks .backward (lacks_of_mem_children hmem h hc)
    rw [rewrite_backward_eq, hbelow, pure_bind, replacing_of_same h]

/-- A node above the target is rebuilt, and what is rebuilt is not mistaken for the target. -/
theorem runs_rewrite_replacing {direction : Direction} (hother : ¬ n.same target = true)
    (hnew : ∀ r w',
      Runs (n.foldChildren (rewrite direction (replacing target replacement))) w r w' →
      ¬ r.same target = true)
    (h : Runs (n.rewrite direction (replacing target replacement)) w r w') :
    Runs (n.foldChildren (rewrite direction (replacing target replacement))) w r w' := by
  cases direction with
  | forward =>
    rw [rewrite_forward_eq, replacing_of_not_same hother, pure_bind, if_pos (same_self n)] at h
    exact h
  | backward =>
    rw [rewrite_backward_eq, runs_bind] at h
    obtain ⟨r₁, w₁, hbelow, hasked⟩ := h
    rw [replacing_of_not_same (hnew r₁ w₁ hbelow), runs_pure] at hasked
    rw [hasked.1, hasked.2]
    exact hbelow

/-- What rewriting gives is the tree with the replacement in the place of the target. -/
theorem rewrite_substituted (hreplacement : replacement.same target = false)
    (htarget : target ∈ heap) {direction : Direction} {n r : Node} {w w' : Moment σ}
    (hmem : n ∈ heap)
    (hn : ∀ inner, n.Reaches Shape.children inner → inner.IsOld heap.next) (hw : heap.next ≤ w.2)
    (h : Runs (n.rewrite direction (replacing target replacement)) w r w') :
    Substituted heap.next target replacement n r := by
  by_cases hlacks : n.Lacks target
  · rw [rewrite_replacing_of_lacks direction hlacks, runs_pure] at h
    rw [h.1]
    exact .kept hlacks
  by_cases hsame : n.same target = true
  · rw [rewrite_replacing_of_same direction hreplacement hmem hsame, runs_pure] at h
    rw [h.1]
    exact .replaced hsame
  -- what remains is a node above the target, for which the two directions take the same step
  have hstep : ∀ r w', Runs (n.foldChildren (rewrite direction (replacing target replacement))) w r
      w' → heap.next ≤ r.stamp ∧ Substituted heap.next target replacement n r := by
    intro r w' hrun
    refine foldChildren_substituted (drawsOnly_rewrite (drawsOnly_replacing target replacement)
      direction) hreplacement hmem (hn n .refl) hw (by simpa using hsame) hlacks ?_ hrun
    intro child hc w a w' hw hrun
    exact rewrite_substituted hreplacement htarget (Heap.mem_of_mem_children hmem hc)
      (forall_reaches_child hn hc) hw hrun
  have hnew : ∀ r w', Runs (n.foldChildren (rewrite direction (replacing target replacement))) w r
      w' → ¬ r.same target = true := by
    intro r w' hrun hr
    have hstamp : r.stamp = target.stamp := of_decide_eq_true hr
    have hdrawn := (hstep r w' hrun).1
    rw [hstamp] at hdrawn
    exact absurd (heap.below target htarget) (Nat.not_lt_of_le hdrawn)
  exact (hstep r w' (runs_rewrite_replacing hsame hnew h)).2
termination_by sizeOf n
decreasing_by exact sizeOf_lt_of_mem_handles (Shape.mem_handles_of_mem_children hc)

/-- Forward and backward substitution agree. From whatever moments they start, the results are the
same but for identities that were drawn. Unless the replacement is the target, each occurrence of
the target becomes the replacement, trees without one are kept, and the nodes above occurrences are
rebuilt. Nothing is done if the target does not occur or is its own replacement. -/
theorem forward_backward_substitution_agree {e : Node} (he : e ∈ heap) (htarget : target ∈ heap)
    (hreplacement : replacement ∈ heap)
    (hold : ∀ n, e.Reaches Shape.children n → ∀ stamp ∈ n.shape.nestedStamps, stamp < heap.next) :
    let rule : Node → StateT σ Supply Node := replacing target replacement
    (∀ state state' next next', heap.next ≤ next → heap.next ≤ next' →
      SameButDrawn heap.next (e.rewrite .forward rule state next).1.1
        (e.rewrite .backward rule state' next').1.1) ∧
    (replacement.same target = false → ∀ direction state next, heap.next ≤ next →
      Substituted heap.next target replacement e (e.rewrite direction rule state next).1.1) ∧
    (e.Lacks target ∨ replacement.same target = true → ∀ direction,
      e.rewrite direction rule = pure e) := by
  intro rule
  have hin : ∀ n, e.Reaches Shape.children n → n ∈ heap :=
    fun n hr => Heap.mem_of_reaches he hr.through_handles
  have hisOld : ∀ n, e.Reaches Shape.children n → n.IsOld heap.next :=
    fun n hr => ⟨heap.below n (hin n hr), hold n hr⟩
  have hsubstituted : replacement.same target = false → ∀ direction state next, heap.next ≤ next →
      Substituted heap.next target replacement e (e.rewrite direction rule state next).1.1 := by
    intro hother direction state next hnext
    exact rewrite_substituted hother htarget he hisOld hnext
      (runs_self (e.rewrite direction rule) (state, next))
  have hnothing : e.Lacks target ∨ replacement.same target = true → ∀ direction,
      e.rewrite direction rule = pure e := by
    intro hkeeps direction
    rcases hkeeps with hlacks | hself
    · exact rewrite_replacing_of_lacks direction hlacks
    · refine rewrite_eq_pure direction fun n hr => ?_
      by_cases hn : n.same target = true
      · have heq : n = target := Heap.eq_of_same (hin n hr) htarget hn
        have heq' : replacement = target := Heap.eq_of_same hreplacement htarget hself
        exact (replacing_of_same hn).trans (by rw [heq, heq'])
      · exact replacing_of_not_same hn
  refine ⟨fun state state' next next' hnext hnext' => ?_, hsubstituted, hnothing⟩
  by_cases hself : replacement.same target = true
  · rw [hnothing (.inr hself) .forward, hnothing (.inr hself) .backward]
    exact .refl e
  · have hother : replacement.same target = false := by simpa using hself
    exact (hsubstituted hother .forward state next hnext).sameButDrawn
      (hsubstituted hother .backward state' next' hnext')

/-- A switch over a parameter can be created. -/
theorem exists_heap_sampleSwitch :
    ∃ heap : Heap, sampleSwitch ∈ heap ∧ sampleSubject ∈ heap ∧ heap.next = 3 := by
  obtain ⟨heap₁, -, hnext₁, hsubject⟩ := Heap.empty.exists_insert sampleSubject (Nat.le_refl _)
    (by simp [sampleSubject, Shape.handles, Shape.children])
  obtain ⟨heap₂, hle, hnext₂, hswitch⟩ := heap₁.exists_insert sampleSwitch
    (by simp [hnext₁, sampleSubject, sampleSwitch])
    (by simp [sampleSwitch, Shape.handles, Shape.children, SwitchCase.childrenOfList,
      SwitchCase.children, hsubject])
  exact ⟨heap₂, hswitch, Heap.mem_of_le hle hsubject, hnext₂⟩

/-- The negation of a parameter. -/
def sampleNegation : Node := ⟨3, .negate, .void, .unary (some sampleSubject) none⟩

/-- In a switch over a parameter, with a case that tests and gives the parameter, all three
occurrences become its negation, and the switch and its case are made anew. -/
theorem substitution_sampleSwitch :
    let rule : Node → StateT Unit Supply Node := replacing sampleSubject sampleNegation
    ∃ heap : Heap, sampleSwitch ∈ heap ∧ sampleSubject ∈ heap ∧ sampleNegation ∈ heap ∧
      heap.next ≤ 4 ∧
      SameButDrawn heap.next (sampleSwitch.rewrite .forward rule () 4).1.1
        (sampleSwitch.rewrite .backward rule () 9).1.1 ∧
      Substituted heap.next sampleSubject sampleNegation sampleSwitch
        (sampleSwitch.rewrite .forward rule () 4).1.1 := by
  intro rule
  obtain ⟨heap, hswitch, hsubject, hnext⟩ := exists_heap_sampleSwitch
  obtain ⟨heap', hle, hnext', hnegation⟩ := heap.exists_insert sampleNegation
    (by simp [hnext, sampleNegation])
    (by simp [sampleNegation, Shape.handles, Shape.children, hsubject])
  have hold : ∀ n, sampleSwitch.Reaches Shape.children n → ∀ stamp ∈ n.shape.nestedStamps,
      stamp < heap'.next := by
    intro n hr stamp hs
    rw [hnext']
    exact Nat.lt_of_lt_of_le ((isOld_of_reaches_sampleSwitch hr).nested stamp hs) (by decide)
  have hfour : heap'.next ≤ 4 := Nat.le_of_eq hnext'
  have hnine : heap'.next ≤ 9 := Nat.le_trans hfour (by decide)
  have hswitch' := Heap.mem_of_le hle hswitch
  have hsubject' := Heap.mem_of_le hle hsubject
  obtain ⟨hagree, hsubstituted, -⟩ :=
    forward_backward_substitution_agree (σ := Unit) hswitch' hsubject' hnegation hold
  exact ⟨heap', hswitch', hsubject', hnegation, hfour, hagree () () 4 9 hfour hnine,
    hsubstituted rfl .forward () 4 hfour⟩

end Node

end ExprTree
