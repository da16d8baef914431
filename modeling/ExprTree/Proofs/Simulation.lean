import ExprTree.Proofs.OneTraversal

/-!
# Rewriting in two monads

The rewriting of a tree only puts actions in sequence and draws stamps. So if a relation between the
actions of two monads is kept by sequences and by drawing stamps, then it holds between two
rewritings whose rules are related. In particular a rule that keeps a record of its run rewrites
trees as the rule alone does.
-/

namespace ExprTree

variable {m m' : Type → Type} [Monad m] [MonadStamp m] [Monad m'] [MonadStamp m']

/-- A relation between the actions of two monads that go through the same steps. -/
structure Simulation (m m' : Type → Type) [Monad m] [MonadStamp m] [Monad m'] [MonadStamp m'] where
  /-- The two actions are related. -/
  Alike : {β : Type} → m β → m' β → Prop
  /-- A result that is there is there on both sides. -/
  pass : ∀ {β : Type} (b : β), Alike (pure b) (pure b)
  /-- Related actions are followed by related actions. -/
  seq : ∀ {β γ : Type} {x : m β} {y : m' β} {k : β → m γ} {l : β → m' γ}, Alike x y →
    (∀ b, Alike (k b) (l b)) → Alike (x >>= k) (y >>= l)
  /-- A stamp is drawn on both sides. -/
  draw : Alike fresh fresh

namespace Simulation

variable {α β γ : Type}

/-- One of two actions is run, the same on both sides. -/
theorem choice (S : Simulation m m') (condition : Bool) (b : β) {x : m β} {y : m' β}
    (h : S.Alike x y) :
    S.Alike (if condition then pure b else x) (if condition then pure b else y) := by
  cases condition with
  | false => exact h
  | true => exact S.pass b

/-- What is made of a drawn stamp is made of it on both sides. -/
theorem made (S : Simulation m m') (g : Stamp → β) :
    S.Alike (fresh >>= fun stamp => pure (g stamp)) (fresh >>= fun stamp => pure (g stamp)) :=
  S.seq S.draw fun stamp => S.pass (g stamp)

/-- A binding is updated in the same way on both sides. -/
theorem update (S : Simulation m m') (binding contents : Binding Node) :
    S.Alike (binding.update contents) (binding.update contents) :=
  S.choice _ _ (S.made _)

section Items

variable [LawfulMonad m] [LawfulMonad m']

/-- What is made of a result is made of it on both sides. -/
theorem map (S : Simulation m m') {x : m β} {y : m' β} (h : S.Alike x y) (g : β → γ) :
    S.Alike (g <$> x) (g <$> y) := by
  rw [map_eq_pure_bind, map_eq_pure_bind]
  exact S.seq h fun b => S.pass (g b)

/-- Items of a list are given results in related ways. -/
theorem list (S : Simulation m m') {f : α → m β} {g : α → m' β} (h : ∀ x, S.Alike (f x) (g x))
    (items : List α) : S.Alike (items.mapM f) (items.mapM g) := by
  induction items with
  | nil =>
    rw [List.mapM_nil, List.mapM_nil]
    exact S.pass []
  | cons x rest ih =>
    rw [List.mapM_cons, List.mapM_cons]
    exact S.seq (h x) fun b => S.seq ih fun bs => S.pass (b :: bs)

/-- An optional item is given a result in related ways. -/
theorem option (S : Simulation m m') {f : α → m β} {g : α → m' β} (h : ∀ x, S.Alike (f x) (g x))
    (item : Option α) : S.Alike (item.mapM f) (item.mapM g) := by
  cases item with
  | none => exact S.pass none
  | some x =>
    rw [Option.mapM_some, Option.mapM_some]
    exact S.map (h x) some

end Items

variable {old : α → Node} {f : α → m Node} {g : α → m' Node}

/-- Initializers are rewritten in related ways if their arguments are. -/
theorem elementInit [LawfulMonad m] [LawfulMonad m'] (S : Simulation m m')
    (h : ∀ x, S.Alike (f x) (g x)) (init : ElementInit α) :
    S.Alike (init.rewrite old f) (init.rewrite old g) :=
  S.seq (S.list h init.arguments) fun _ => S.choice _ _ (S.made _)

mutual

/-- Bindings are rewritten in related ways if what they hold is. -/
theorem binding [LawfulMonad m] [LawfulMonad m'] (S : Simulation m m')
    (h : ∀ x, S.Alike (f x) (g x)) : ∀ binding : Binding α,
    S.Alike (binding.rewrite old f) (binding.rewrite old g)
  | .assignment stamp member value => by
    rw [Binding.rewrite, Binding.rewrite]
    exact S.seq (h value) fun value' => S.update _ _
  | .list stamp member inits => by
    rw [Binding.rewrite, Binding.rewrite]
    exact S.seq (S.list (S.elementInit h) inits) fun inits' => S.update _ _
  | .nested stamp member bindings => by
    rw [Binding.rewrite, Binding.rewrite]
    exact S.seq (S.bindings h bindings) fun bindings' => S.update _ _

/-- Lists of bindings are rewritten in related ways if what they hold is. -/
theorem bindings [LawfulMonad m] [LawfulMonad m'] (S : Simulation m m')
    (h : ∀ x, S.Alike (f x) (g x)) : ∀ bindings : List (Binding α),
    S.Alike (Binding.rewriteList old f bindings) (Binding.rewriteList old g bindings)
  | [] => S.pass []
  | binding :: rest => by
    rw [Binding.rewriteList, Binding.rewriteList]
    exact S.seq (S.binding h binding) fun binding' =>
      S.seq (S.bindings h rest) fun rest' => S.pass (binding' :: rest')

end

variable [LawfulMonad m] [LawfulMonad m']

/-- Cases are rewritten in related ways if what they hold is. -/
theorem switchCase (S : Simulation m m') (h : ∀ x, S.Alike (f x) (g x)) (branch : SwitchCase α) :
    S.Alike (branch.rewrite old f) (branch.rewrite old g) :=
  S.seq (S.list h branch.tests) fun _ => S.seq (h branch.body) fun _ => S.choice _ _ (S.made _)

/-- Handlers are rewritten in related ways if what they hold is. -/
theorem handler (S : Simulation m m') (h : ∀ x, S.Alike (f x) (g x)) (handler : Handler α) :
    S.Alike (handler.rewrite old f) (handler.rewrite old g) :=
  S.seq (S.option h handler.bound) fun _ => S.seq (S.option h handler.filter) fun _ =>
    S.seq (h handler.body) fun _ => S.choice _ _ (S.made _)

/-- Shapes are rewritten in related ways if their children are. -/
theorem shape (S : Simulation m m') (h : ∀ x, S.Alike (f x) (g x)) (shape : Shape α) :
    S.Alike (shape.rewrite old f) (shape.rewrite old g) := by
  cases shape with
  | binary left conversion right method lifted =>
    exact S.seq (h left) fun _ => S.seq (S.option h conversion) fun _ =>
      S.seq (h right) fun _ => S.pass _
  | conditional test ifTrue ifFalse =>
    exact S.seq (h test) fun _ => S.seq (h ifTrue) fun _ => S.seq (h ifFalse) fun _ => S.pass _
  | call object method arguments =>
    exact S.seq (S.option h object) fun _ => S.seq (S.list h arguments) fun _ => S.pass _
  | invoke first rest | lambda first rest _ _ | index first _ rest =>
    exact S.seq (h first) fun _ => S.seq (S.list h rest) fun _ => S.pass _
  | block locals statements =>
    exact S.seq (S.list h locals) fun _ => S.seq (S.list h statements) fun _ => S.pass _
  | listInit creation inits =>
    exact S.seq (h creation) fun _ => S.seq (S.list (S.elementInit h) inits) fun _ => S.pass _
  | memberInit creation bindings =>
    exact S.seq (h creation) fun _ => S.seq (S.bindings h bindings) fun _ => S.pass _
  | switch subject branches otherwise comparison =>
    exact S.seq (h subject) fun _ => S.seq (S.list (S.switchCase h) branches) fun _ =>
      S.seq (S.option h otherwise) fun _ => S.pass _
  | tryCatch body handlers cleanup fault =>
    exact S.seq (h body) fun _ => S.seq (S.list (S.handler h) handlers) fun _ =>
      S.seq (S.option h cleanup) fun _ => S.seq (S.option h fault) fun _ => S.pass _
  | unary part _ | memberAccess part _ | goto _ _ part | label _ part =>
    exact S.seq (S.option h part) fun _ => S.pass _
  | new _ parts _ | newArray parts | dynamic _ _ parts | runtimeVariables parts =>
    exact S.seq (S.list h parts) fun _ => S.pass _
  | typeBinary part _ | loop part _ _ => exact S.seq (h part) fun _ => S.pass _
  | extension _ _ | debugInfo _ _ | parameter _ _ | constant _ | default => exact S.pass _

/-- Folders with related steps are related. -/
theorem foldWith (S : Simulation m m') {step : Node → m Node → m Node}
    {step' : Node → m' Node → m' Node}
    (h : ∀ n x y, S.Alike x y → S.Alike (step n x) (step' n y)) (n : Node) :
    S.Alike (n.foldWith step) (n.foldWith step') := by
  rw [Node.foldWith, Node.foldWith]
  refine h n _ _ (S.choice _ _ (S.seq (S.shape (fun child => ?_) _) fun shape => ?_))
  · exact S.foldWith h child.val
  · exact S.choice _ _ (S.made _)
termination_by sizeOf n
decreasing_by exact Node.sizeOf_lt_of_mem_handles child.property

/-- Rewritings with related rules are related. -/
theorem rewrite (S : Simulation m m') {f : Node → m Node} {g : Node → m' Node}
    (h : ∀ n, S.Alike (f n) (g n)) (direction : Direction) (n : Node) :
    S.Alike (n.rewrite direction f) (n.rewrite direction g) := by
  cases direction with
  | backward => exact S.foldWith (fun _ _ _ hbelow => S.seq hbelow h) n
  | forward =>
    refine S.foldWith (fun n below below' hbelow => S.seq (h n) fun replaced => ?_) n
    by_cases hs : replaced.same n = true
    · rw [if_pos hs, if_pos hs]
      exact hbelow
    · rw [if_neg hs, if_neg hs]
      exact S.pass replaced

end Simulation

/-! ## Records -/

section Records

variable {κ σ : Type}

/-- The first action runs as the second one does, apart from what it has in its state besides. -/
def runningAs : Simulation (StateT (κ × σ) Supply) (StateT σ Supply) where
  Alike x y := ∀ w b w', Runs x w b w' → Runs y (w.1.2, w.2) b (w'.1.2, w'.2)
  pass b := by
    intro w c w' h
    rw [runs_pure] at h ⊢
    rw [h.2]
    exact ⟨h.1, rfl⟩
  seq hx hk := by
    intro w c w'' h
    rw [runs_bind] at h ⊢
    obtain ⟨b, w', hfirst, hsecond⟩ := h
    exact ⟨b, _, hx _ _ _ hfirst, hk b _ _ _ hsecond⟩
  draw := by
    intro w stamp w' h
    rw [runs_fresh] at h ⊢
    rw [h.2]
    exact ⟨h.1, rfl⟩

/-- All that is noted while the action runs is as described, whatever it is compared with. -/
def noting (P : κ → Prop) :
    Simulation (StateT (List κ × σ) Supply) (StateT (List κ × σ) Supply) where
  Alike x _ := ∀ w b w', Runs x w b w' → (∀ call ∈ w.1.1, P call) → ∀ call ∈ w'.1.1, P call
  pass b := by
    intro w c w' h hw
    rw [runs_pure] at h
    rw [h.2]
    exact hw
  seq hx hk := by
    intro w c w'' h hw
    rw [runs_bind] at h
    obtain ⟨b, w', hfirst, hsecond⟩ := h
    exact hk b _ _ _ hsecond (hx _ _ _ hfirst hw)
  draw := by
    intro w stamp w' h hw
    rw [runs_fresh] at h
    rw [h.2]
    exact hw

namespace Node

variable {f : Node → StateT σ Supply Node}

/-- A rule that keeps a record gives the tree that the rule alone gives. -/
theorem rewrite_recording (direction : Direction) (n : Node) (calls : List (Node × Node))
    (state : σ) (next : Stamp) :
    (n.rewrite direction (recording f) (calls, state) next).1.1 =
      (n.rewrite direction f state next).1.1 := by
  have hrule : ∀ n, runningAs.Alike (recording f n) (f n) :=
    fun _ _ _ _ h => (runs_recording h).2
  have halike := runningAs.rewrite hrule direction n
  have hrun := halike _ _ _ (runs_self (n.rewrite direction (recording f)) ((calls, state), next))
  rw [Runs] at hrun
  rw [hrun]

/-- If all that the rule can answer is as described, then so is all that is recorded. -/
theorem forall_recorded {P : Node × Node → Prop}
    (h : ∀ n state next, P (n, (f n state next).1.1)) (direction : Direction) (n : Node)
    (state : σ) (next : Stamp) :
    ∀ call ∈ (n.rewrite direction (recording f) ([], state) next).1.2.1, P call := by
  have hrule : ∀ n, (noting P).Alike (recording f n) (recording f n) := by
    intro n w r w' hrun hw call hc
    obtain ⟨hnoted, hasked⟩ := runs_recording hrun
    rw [hnoted, List.mem_append, List.mem_singleton] at hc
    rcases hc with hc | rfl
    · exact hw call hc
    · have hanswer := h n w.1.2 w.2
      rw [hasked] at hanswer
      exact hanswer
  have hall := (noting P).rewrite hrule direction n
  exact hall _ _ _ (runs_self _ (([], state), next)) (by simp)

end Node

end Records

end ExprTree
