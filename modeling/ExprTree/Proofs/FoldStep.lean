import ExprTree.Proofs.Walking

/-!
# One step of a folder

A folder goes from a node to its children in one step: it gives each child to a function that
answers with a node, in the order of a walk, and builds the node anew over the answers. The function
may do what it likes in between; nothing is assumed of it but that it does not take back stamps that
were drawn.

The step changes nothing but the children. The result has the kind and type of the node and the
frame of its shape, and a walk over the result meets the answers where a walk over the node meets
the children.
-/

namespace ExprTree

variable {σ : Type}

/-! ## Actions that draw stamps -/

/-- Actions are run at stamps not below the first one, with a state, and do not take the supply
back. -/
abbrev drawLogic (σ : Type) (first : Stamp) : StampLogic (StateT σ Supply) where
  World := Stamp
  order := inferInstance
  bound := first
  Ensures next x post := first ≤ next → ∀ state b w', Runs x (state, next) b w' →
    next ≤ w'.2 ∧ post w'.2 b
  ensures_pure := by
    intro β next b post hp _ state c w' hrun
    obtain ⟨rfl, rfl⟩ := runs_pure.mp hrun
    exact ⟨le_refl next, hp⟩
  ensures_bind := by
    intro β γ next x k mid post hx hk hfirst state c w'' hrun
    obtain ⟨b, w', hrun₁, hrun₂⟩ := runs_bind.mp hrun
    obtain ⟨hle, hmid⟩ := hx hfirst state b w' hrun₁
    obtain ⟨hle', hpost⟩ := hk w'.2 hle b hmid (le_trans hfirst hle) w'.1 c w'' hrun₂
    exact ⟨le_trans hle hle', hpost⟩
  ensures_fresh := by
    intro next hfirst state stamp w' hrun
    obtain ⟨rfl, rfl⟩ := runs_fresh.mp hrun
    exact ⟨Nat.le_succ _, hfirst⟩

/-- The function draws stamps but does not take any back. -/
def DrawsOnly {α : Type} (fold : α → StateT σ Supply Node) : Prop :=
  ∀ x state next, next ≤ (fold x state next).2

namespace DrawsOnly

variable {α : Type} {fold : α → StateT σ Supply Node} {first : Stamp}

/-- The supply is not taken back in a run. -/
theorem le_of_runs (h : DrawsOnly fold) {x : α} {r : Node} {w w' : Moment σ}
    (hrun : Runs (fold x) w r w') : w.2 ≤ w'.2 := by
  have hle := h x w.1 w.2
  rw [Runs] at hrun
  rw [hrun] at hle
  exact hle

/-- Stamps that are drawn later are not below those drawn before. -/
theorem keepsBound (h : DrawsOnly fold) : KeepsBound first True fold :=
  fun _ _ _ _ _ hrun hfirst => le_trans hfirst (h.le_of_runs hrun)

/-- The function answers with some node. -/
theorem yields (h : DrawsOnly fold) (next : Stamp) (x : α) :
    (drawLogic σ first).Yields next (fold x) fun _ _ => True :=
  ⟨fun _ _ _ _ _ => trivial, fun _ _ _ _ _ _ hrun => ⟨h.le_of_runs hrun, trivial⟩⟩

end DrawsOnly

/-- Any answer will do for any child. -/
theorem tracks_any (first : Stamp) : (drawLogic σ first).Tracks True fun _ _ _ => True :=
  ⟨fun _ _ _ _ _ _ => trivial, fun _ _ _ _ _ => trivial⟩

/-! ## Answers that stand in a result -/

namespace Stands

variable {children answers nodes : List Node}

/-- What stands in the place of a child is the same instance as the answer. -/
theorem same_answers (h : Stands children answers nodes) :
    List.Forall₂ (fun node answer => node.same answer = true) nodes answers := by
  induction h with
  | nil => exact .nil
  | given _ ih => exact .cons (Node.same_self _) ih
  | kept hs _ ih =>
    have hstamp := of_decide_eq_true hs
    exact .cons (decide_eq_true hstamp.symm) ih

/-- If answers that are the instance of their child are that child, then the answers themselves
stand there. -/
theorem eq_answers (h : Stands children answers nodes)
    (hsame : ∀ pair ∈ children.zip answers, pair.2.same pair.1 = true → pair.2 = pair.1) :
    nodes = answers := by
  induction h with
  | nil => rfl
  | given _ ih =>
    rw [ih fun pair hp => hsame pair (List.mem_cons_of_mem _ hp)]
  | @kept child answer _ _ _ hs _ ih =>
    have hanswer : answer = child := hsame (child, answer) List.mem_cons_self hs
    rw [ih fun pair hp => hsame pair (List.mem_cons_of_mem _ hp), hanswer]

end Stands

/-- The operand of an extension is not one of its children. -/
theorem Shape.children_eq_nil_of_extension {α : Type} {shape : Shape α}
    (h : shape.family = .extension) : shape.children = [] := by
  cases shape <;> first | rfl | cases h

namespace Node

section Steps

variable {m : Type → Type} [Monad m] [MonadStamp m]

/-- Gives the children of a node to the function and builds the node over the answers. -/
def foldChildren (fold : Node → m Node) (n : Node) : m Node :=
  if n.shape.isLeaf then pure n
  else do
    let shape ← n.shape.attach.rewrite Subtype.val fun x => fold x.val
    n.rebuild shape

/-- A folder takes one step at each node. -/
theorem foldWith_eq (step : Node → m Node → m Node) (n : Node) :
    n.foldWith step = step n (n.foldChildren (foldWith step)) := by
  rw [foldWith]
  rfl

variable [LawfulMonad m]

/-- A node without children is given back, and the function is not called. -/
theorem foldChildren_of_children_eq_nil (fold : Node → m Node) {n : Node}
    (h : n.shape.children = []) : n.foldChildren fold = pure n := by
  have hkeeping : n.foldChildren fold = (do forM n.shape.children fun _ => pure ⟨⟩; pure n) :=
    rebuild_keeping (by simp [h])
  rw [hkeeping, h, List.forM_nil, pure_bind]

/-- A walk over a node that is no extension runs over its children. -/
theorem walkChildren_eq_forM {n : Node} (h : n.shape.family ≠ .extension) (act : Node → m PUnit) :
    n.walkChildren act = forM n.shape.children act := by
  unfold walkChildren walkBelow
  split
  case h_1 stamp custom hshape =>
    rw [hshape] at h
    exact absurd rfl h
  case h_2 =>
    rw [Shape.walk_eq_forM, ← Shape.children_attach n.shape, List.forM_map]

end Steps

variable {fold : Node → StateT σ Supply Node} {e r : Node} {w w' : Moment σ}

/-- A step gives back the node, or a node over a shape with the frame of its own that stands at the
last stamp drawn. -/
theorem runs_foldChildren (hfold : DrawsOnly fold) (he : e.IsOld w.2)
    (h : Runs (e.foldChildren fold) w r w') :
    r = e ∨ ∃ shape w₁, Runs (e.shape.attach.rewrite Subtype.val fun x => fold x.val) w shape w₁ ∧
      r = ⟨w₁.2, e.kind, e.type, shape⟩ ∧ w' = (w₁.1, w₁.2 + 1) ∧ w.2 ≤ w₁.2 ∧
      e.shape.frame = shape.frame := by
  by_cases hleaf : e.shape.isLeaf = true
  · rw [foldChildren, if_pos hleaf, runs_pure] at h
    exact .inl h.1
  · rw [foldChildren, if_neg hleaf, runs_bind] at h
    obtain ⟨shape, w₁, hshape, hrebuild⟩ := h
    unfold rebuild at hrebuild
    split at hrebuild
    case isTrue =>
      rw [runs_pure] at hrebuild
      exact .inl hrebuild.1
    case isFalse =>
      have hyields := Shape.rewrite_attach_yields (tracks_any w.2) e.shape (fun _ => he.nested)
        fun x _ => hfold.yields w.2 x.val
      obtain ⟨hle, hrewritten⟩ := hyields.after w.2 (le_refl _) (le_refl _) w.1 shape w₁ hshape
      simp only [make, runs_bind, runs_fresh, runs_pure] at hrebuild
      obtain ⟨stamp, w₂, ⟨rfl, rfl⟩, rfl, rfl⟩ := hrebuild
      exact .inr ⟨shape, w₁, hshape, rfl, rfl, hle, hrewritten.frame⟩

/-- A folder takes one step at each node, and the step changes the children and nothing else. The
result has the kind and type of the node and the frame of its shape. The function is called once for
each child, in order, and its answers are what the result has for children: the same instances, and
the same nodes unless an answer has the identity of its child and is another node. The children are
listed as walks over the two nodes meet them. An extension or a node without children is given back,
and the function is not called. -/
theorem foldChildren_changes_children_only (hfold : DrawsOnly fold) {next : Stamp}
    (he : e.IsOld next) (state : σ) :
    let run := e.foldChildren fold state next
    let r := run.1.1
    (∀ step : Node → StateT σ Supply Node → StateT σ Supply Node,
      e.foldWith step = step e (e.foldChildren (foldWith step))) ∧
    (r.kind = e.kind ∧ r.type = e.type ∧ r.shape.frame = e.shape.frame) ∧
    (∃ answers, Passes fold (state, next) e.shape.children answers (run.1.2, run.2) ∧
      List.Forall₂ (fun node answer => node.same answer = true) r.shape.children answers ∧
      ((∀ pair ∈ e.shape.children.zip answers, pair.2.same pair.1 = true → pair.2 = pair.1) →
        r.shape.children = answers)) ∧
    (e.shape.family ≠ .extension → ∀ (τ : Type) (act : Node → StateT τ Supply PUnit),
      e.walkChildren act = forM e.shape.children act ∧
        r.walkChildren act = forM r.shape.children act) ∧
    (e.shape.family = .extension ∨ e.shape.children = [] → e.foldChildren fold = pure e) := by
  intro run r
  have hrun : Runs (e.foldChildren fold) (state, next) r (run.1.2, run.2) := runs_self _ _
  obtain ⟨hkind, htype, answers, hpasses, -, hdistinct⟩ :=
    below_runs hfold.keepsBound (fun _ => he) (fun _ => le_refl next) hrun
  obtain ⟨-, hstands, -⟩ := hdistinct trivial
  have hframe : r.shape.frame = e.shape.frame := by
    rcases runs_foldChildren hfold he hrun with hr | ⟨shape, w₁, -, hr, -, -, hframe⟩
    · rw [hr]
    · rw [hr, hframe]
  have hfamily : r.shape.family = e.shape.family := by
    refine Shape.family_eq_of_skeleton_eq ?_
    rw [Shape.skeleton, Shape.skeleton, hframe]
  refine ⟨fun step => foldWith_eq step e, ⟨hkind, htype, hframe⟩,
    ⟨answers, hpasses, hstands.same_answers, hstands.eq_answers⟩,
    fun hextension τ act => ⟨walkChildren_eq_forM hextension act, ?_⟩, fun hbare => ?_⟩
  · rw [← hfamily] at hextension
    exact walkChildren_eq_forM hextension act
  · exact foldChildren_of_children_eq_nil fold (hbare.elim Shape.children_eq_nil_of_extension id)

/-- Makes a copy of each node and counts them. -/
def copying (n : Node) : StateT Nat Supply Node := do
  modify (· + 1)
  make n.kind n.type n.shape

/-- Making copies draws stamps. -/
theorem drawsOnly_copying : DrawsOnly copying := fun _ _ next => Nat.le_succ next

/-- A step that copies the children of a switch makes three copies, and the new switch, with a new
case, is over them. -/
theorem foldChildren_copying_sampleSwitch :
    let r := (sampleSwitch.foldChildren copying 0 3).1.1
    r.kind = .switch ∧ r.shape.frame = sampleSwitch.shape.frame ∧
      ∃ answers,
        Passes copying (0, 3) [sampleSubject, sampleSubject, sampleSubject] answers (3, 8) ∧
        List.Forall₂ (fun node answer => node.same answer = true) r.shape.children answers := by
  have hold : sampleSwitch.IsOld 3 := isOld_of_reaches_sampleSwitch .refl
  obtain ⟨-, ⟨hkind, -, hframe⟩, ⟨answers, hpasses, hsame, -⟩, -⟩ :=
    foldChildren_changes_children_only drawsOnly_copying hold 0
  exact ⟨hkind, hframe, answers, hpasses, hsame⟩

end Node

end ExprTree
