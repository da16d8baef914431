import ExprTree.Proofs.Agreement
import ExprTree.Proofs.World

/-!
# What an update changes

An update is given what an instance is to hold and answers with an instance that holds it: the old
one if it already does, or a new one. It goes by identities, so that it may compare many fields at
once without looking into them. In a world, where instances at one stamp are equal, the comparison
decides whether anything changes at all: no field of any family is left out, and nothing else
counts. Payloads of constants are compared in a way of their own and are not the subject here.

Nodes, initializers, bindings, cases and handlers are all updated by the same choice between the old
instance and a new one, and what follows from the choice is proved once.
-/

namespace ExprTree

/-! ## Comparing instances -/

namespace World

variable (world : World)

section Items

variable {κ : Type} {inst : κ → Instance} {same : κ → κ → Bool}

/-- Comparing items of a world by identity is comparing them. -/
theorem same_iff_eq (hinst : Function.Injective inst)
    (hsame : ∀ x y, same x y = true ↔ (inst x).stamp = (inst y).stamp) {x y : κ}
    (hx : inst x ∈ world) (hy : inst y ∈ world) : same x y = true ↔ x = y := by
  rw [hsame]
  constructor
  · intro h
    exact hinst (eq_of_stamp_eq hx hy h)
  · rintro rfl
    rfl

/-- Comparing lists of items of a world by identity, place by place, is comparing them. -/
theorem sameItems_iff_eq (hinst : Function.Injective inst)
    (hsame : ∀ x y, same x y = true ↔ (inst x).stamp = (inst y).stamp) {xs ys : List κ}
    (hxs : world.HasAll (xs.map inst)) (hys : world.HasAll (ys.map inst)) :
    sameItems same xs ys = true ↔ xs = ys := by
  have hitems : ∀ x ∈ xs, ∀ y ∈ ys, (same x y = true ↔ x = y) := by
    intro x hx y hy
    exact world.same_iff_eq hinst hsame (hxs _ (List.mem_map_of_mem hx))
      (hys _ (List.mem_map_of_mem hy))
  rw [sameItems_iff, ← List.forall₂_eq_eq_eq]
  constructor
  · exact fun h => forall₂_imp_of_mem h fun x hx y hy => (hitems x hx y hy).mp
  · exact fun h => forall₂_imp_of_mem h fun x hx y hy => (hitems x hx y hy).mpr

/-- Of instances in a world that are a stamp and contents, the stamp decides the contents. -/
theorem stamp_eq_iff {inst : Stamp → κ → Instance}
    (hstamp : ∀ stamp x, (inst stamp x).stamp = stamp) {stamp stamp' : Stamp} {x y : κ}
    (hinst : inst stamp x = inst stamp' y → stamp = stamp' ∧ x = y)
    (hx : inst stamp x ∈ world) (hy : inst stamp' y ∈ world) :
    stamp = stamp' ↔ stamp = stamp' ∧ x = y := by
  constructor
  · intro h
    refine hinst (eq_of_stamp_eq hx hy ?_)
    rw [hstamp, hstamp, h]
  · exact And.left

end Items

/-- Nodes of a world are the same only if they are equal. -/
theorem node_same_iff {a b : Node} (ha : .node a ∈ world) (hb : .node b ∈ world) :
    a.same b = true ↔ a = b :=
  world.same_iff_eq (fun _ _ => Instance.node.inj) (by simp [Node.same, Instance.stamp]) ha hb

/-- Lists of nodes of a world are the same only if they are equal. -/
theorem sameNodes_iff {as bs : List Node} (ha : world.HasAll (as.map .node))
    (hb : world.HasAll (bs.map .node)) : sameNodes as bs = true ↔ as = bs :=
  world.sameItems_iff_eq (fun _ _ => Instance.node.inj) (by simp [Node.same, Instance.stamp]) ha hb

/-- Optional nodes of a world are the same only if they are equal. -/
theorem sameOption_iff {a b : Option Node} (ha : world.HasAll (a.toList.map .node))
    (hb : world.HasAll (b.toList.map .node)) : sameOption a b = true ↔ a = b := by
  cases a with
  | none => cases b <;> simp [sameOption]
  | some a =>
    cases b with
    | none => simp [sameOption]
    | some b => simp_all [sameOption, world.node_same_iff]

/-- Targets of a world are the same only if they are equal. -/
theorem target_same_iff {a b : LabelTarget} (ha : .target a ∈ world) (hb : .target b ∈ world) :
    a.same b = true ↔ a = b :=
  world.same_iff_eq (fun _ _ => Instance.target.inj)
    (by simp [LabelTarget.same, Instance.stamp]) ha hb

/-- Optional targets of a world are the same only if they are equal. -/
theorem sameTarget_iff {a b : Option LabelTarget} (ha : world.HasAll (a.toList.map .target))
    (hb : world.HasAll (b.toList.map .target)) : sameTarget a b = true ↔ a = b := by
  cases a with
  | none => cases b <;> simp [sameTarget]
  | some a =>
    cases b with
    | none => simp [sameTarget]
    | some b => simp_all [sameTarget, world.target_same_iff]

/-- Lists of components of one kind in a world are the same only if they are equal. -/
theorem sameComponents_iff {κ : Type} (component : κ → Component Node) (same : κ → κ → Bool)
    (hinj : ∀ x y, component x = component y → x = y)
    (hsame : ∀ x y, same x y = decide ((component x).stamp = (component y).stamp)) {xs ys : List κ}
    (hxs : world.HasAll (xs.map fun x => .component (component x)))
    (hys : world.HasAll (ys.map fun x => .component (component x))) :
    sameItems same xs ys = true ↔ xs = ys :=
  world.sameItems_iff_eq (fun x y h => hinj x y (Instance.component.inj h))
    (by simp [hsame, Instance.stamp]) hxs hys

end World

namespace Shape

/-- Identical shapes are of one family. -/
theorem family_eq_of_identical {shape shape' : Shape Node} (h : shape.identical shape' = true) :
    shape.family = shape'.family := by
  unfold identical at h
  split at h <;> first | rfl | cases h

/-- In a world, shapes of one family other than that of constants are identical only if they are
equal. -/
theorem identical_iff_eq_of_family_eq {world : World} {shape shape' : Shape Node}
    (hc : shape.family ≠ .constant) (hs : world.HasAll shape.instances)
    (hs' : world.HasAll shape'.instances) (hfam : shape.family = shape'.family) :
    shape.identical shape' = true ↔ shape = shape' := by
  induction shape, shape', hfam using cases_of_family_eq with
  | constant => exact absurd rfl hc
  | extension stamp custom stamp' custom' =>
    simp only [instances, World.hasAll_cons, World.hasAll_nil, and_true] at hs hs'
    rw [identical, decide_eq_true_eq, extension.injEq]
    exact world.stamp_eq_iff (fun _ _ => rfl) Instance.extension.inj hs hs'
  | _ =>
    simp only [instances, children, List.map_append, List.map_cons, List.map_nil,
      World.hasAll_cons, World.hasAll_append, World.hasAll_nil, and_true] at hs hs'
    -- each family compares all of its fields, though not in their order
    simp [identical, hs, hs', world.node_same_iff, world.sameOption_iff, world.sameNodes_iff,
      world.target_same_iff, world.sameTarget_iff,
      world.sameComponents_iff .initializer ElementInit.same (by simp) fun _ _ => rfl,
      world.sameComponents_iff .binding Binding.same (by simp) fun _ _ => rfl,
      world.sameComponents_iff .branch SwitchCase.same (by simp) fun _ _ => rfl,
      world.sameComponents_iff .handler Handler.same (by simp) fun _ _ => rfl] <;>
      tauto

/-- In a world, a shape of a family other than that of constants is identical only to itself. -/
theorem identical_iff_eq {world : World} {shape shape' : Shape Node}
    (hc : shape.family ≠ .constant) (hs : world.HasAll shape.instances)
    (hs' : world.HasAll shape'.instances) : shape.identical shape' = true ↔ shape = shape' := by
  constructor
  · intro h
    exact (identical_iff_eq_of_family_eq hc hs hs' (family_eq_of_identical h)).mp h
  · intro h
    exact (identical_iff_eq_of_family_eq hc hs hs' (congrArg family h)).mpr h

end Shape

/-- In a world, bindings are identical only if they are equal but for their identities. -/
theorem Binding.identical_iff_eq {world : World} {binding binding' : Binding Node}
    (hb : world.HasAll (Component.binding binding).instances)
    (hb' : world.HasAll (Component.binding binding').instances) :
    binding.identical binding' = true ↔ binding.withStamp 0 = binding'.withStamp 0 := by
  cases binding <;> cases binding' <;>
    simp_all [identical, withStamp, Component.instances, world.node_same_iff,
      world.sameComponents_iff .initializer ElementInit.same (by simp) fun _ _ => rfl,
      world.sameComponents_iff .binding Binding.same (by simp) fun _ _ => rfl]

/-! ## The choice between the old instance and a new one -/

/-- The run of an update that is to give the instance `was` the contents `wanted`. -/
structure Updated {κ δ : Type} (inst : κ → Instance) (contents : κ → δ) (world : World) (was : κ)
    (wanted : δ) (run : κ × Stamp) : Prop where
  /-- The result has the contents that are wanted. -/
  contents_eq : contents run.1 = wanted
  /-- The result is the old instance exactly if that had them already. -/
  same_iff : (inst run.1).stamp = (inst was).stamp ↔ contents was = wanted
  /-- The old instance is answered as it is, and no stamp is drawn. -/
  kept : contents was = wanted → run = (was, world.next)
  /-- A new instance stands at the one stamp that is drawn. -/
  made : contents was ≠ wanted → (inst run.1).stamp = world.next ∧ run.2 = world.next + 1
  /-- All instances that were there are as they were. -/
  grown : ∃ world' ≥ world, world'.next = run.2 ∧ inst run.1 ∈ world'

/-- An update keeps the old instance if it is identical to what is wanted and makes a new one
otherwise. -/
theorem Updated.of_choice {κ δ : Type} {inst : κ → Instance} {contents : κ → δ} {world : World}
    {was new : κ} {wanted : δ} {identical : Bool} (hwas : inst was ∈ world)
    (hidentical : identical = true ↔ contents was = wanted) (hnew : contents new = wanted)
    (hstamp : (inst new).stamp = world.next) (hheld : world.HasAll (inst new).held) :
    Updated inst contents world was wanted
      (if identical then (was, world.next) else (new, world.next + 1)) := by
  cases identical with
  | true =>
    have hkept : contents was = wanted := hidentical.mp rfl
    exact ⟨hkept, ⟨fun _ => hkept, fun _ => rfl⟩, fun _ => rfl, fun h => absurd hkept h,
      ⟨world, le_refl world, rfl, hwas⟩⟩
  | false =>
    have hmade : contents was ≠ wanted := fun h => Bool.noConfusion (hidentical.mpr h)
    have hne : (inst new).stamp ≠ (inst was).stamp := by
      rw [hstamp]
      exact (Nat.ne_of_lt (world.below _ hwas)).symm
    obtain ⟨world', hle, hnext, hmem⟩ := world.exists_insert (inst new) (Nat.le_of_eq hstamp.symm)
      hheld
    rw [hstamp] at hnext
    exact ⟨hnew, ⟨fun h => absurd h hne, fun h => absurd h hmade⟩, fun h => absurd h hmade,
      fun _ => ⟨hstamp, rfl⟩, ⟨world', hle, hnext, hmem⟩⟩

variable {world : World}

/-- What an initializer is besides its identity. -/
def ElementInit.contents (init : ElementInit Node) : Method × List Node :=
  (init.method, init.arguments)

/-- An initializer is updated without loss. -/
theorem ElementInit.update_updated {init : ElementInit Node} {arguments : List Node}
    (hinit : .component (.initializer init) ∈ world) (ha : world.HasAll (arguments.map .node)) :
    Updated (fun init => .component (.initializer init)) contents world init
      (init.method, arguments) (init.update (m := Supply) arguments world.next) := by
  have hidentical : sameNodes arguments init.arguments = true ↔
      init.contents = (init.method, arguments) := by
    rw [world.sameNodes_iff ha (World.hasAll_held hinit)]
    simp [contents, eq_comm]
  rw [update, ite_apply]
  exact .of_choice hinit hidentical rfl rfl ha

/-- What a binding is besides its identity. -/
def Binding.contents (binding : Binding Node) : Binding Node := binding.withStamp 0

/-- A binding is updated without loss. -/
theorem Binding.update_updated {binding wanted : Binding Node}
    (hb : .component (.binding binding) ∈ world)
    (hw : world.HasAll (Component.binding wanted).instances) :
    Updated (fun binding => .component (.binding binding)) contents world binding wanted.contents
      (binding.update (m := Supply) wanted world.next) := by
  have hidentical : wanted.identical binding = true ↔ binding.contents = wanted.contents := by
    rw [identical_iff_eq hw (World.hasAll_held hb)]
    exact eq_comm
  rw [update, ite_apply]
  refine .of_choice hb hidentical ?_ ?_ ?_
  · cases wanted <;> rfl
  · cases wanted <;> rfl
  · cases wanted <;> exact hw

/-- What a case is besides its identity. -/
def SwitchCase.contents (branch : SwitchCase Node) : List Node × Node := (branch.tests, branch.body)

/-- A case is updated without loss. -/
theorem SwitchCase.update_updated {branch : SwitchCase Node} {tests : List Node} {body : Node}
    (hbranch : .component (.branch branch) ∈ world) (ht : world.HasAll (tests.map .node))
    (hb : .node body ∈ world) :
    Updated (fun branch => .component (.branch branch)) contents world branch (tests, body)
      (branch.update (m := Supply) tests body world.next) := by
  have hheld := World.hasAll_held hbranch
  simp only [Instance.held, Component.instances, children, List.map_append, List.map_cons,
    List.map_nil, World.hasAll_append, World.hasAll_cons] at hheld
  have hidentical : (sameNodes tests branch.tests && body.same branch.body) = true ↔
      branch.contents = (tests, body) := by
    rw [Bool.and_eq_true, world.sameNodes_iff ht hheld.1, world.node_same_iff hb hheld.2.1]
    simp [contents, eq_comm]
  rw [update, ite_apply]
  refine .of_choice hbranch hidentical rfl rfl ?_
  simp [Instance.held, Component.instances, children, ht, hb]

/-- What a handler is besides its identity. -/
def Handler.contents (handler : Handler Node) : Ty × Option Node × Option Node × Node :=
  (handler.caught, handler.bound, handler.filter, handler.body)

/-- A handler is updated without loss. -/
theorem Handler.update_updated {handler : Handler Node} {bound filter : Option Node} {body : Node}
    (hhandler : .component (.handler handler) ∈ world)
    (hbound : world.HasAll (bound.toList.map .node))
    (hfilter : world.HasAll (filter.toList.map .node)) (hb : .node body ∈ world) :
    Updated (fun handler => .component (.handler handler)) contents world handler
      (handler.caught, bound, filter, body)
      (handler.update (m := Supply) bound filter body world.next) := by
  have hheld := World.hasAll_held hhandler
  simp only [Instance.held, Component.instances, children, List.map_append, List.map_cons,
    List.map_nil, World.hasAll_append, World.hasAll_cons] at hheld
  obtain ⟨⟨hbound', hfilter'⟩, hb', -⟩ := hheld
  have hidentical : (sameOption bound handler.bound && sameOption filter handler.filter &&
      body.same handler.body) = true ↔
      handler.contents = (handler.caught, bound, filter, body) := by
    rw [Bool.and_eq_true, Bool.and_eq_true, world.sameOption_iff hbound hbound',
      world.sameOption_iff hfilter hfilter', world.node_same_iff hb hb']
    simp [contents, eq_comm, and_assoc]
  rw [update, ite_apply]
  refine .of_choice hhandler hidentical rfl rfl ?_
  simp [Instance.held, Component.instances, children, hbound, hfilter, hb]

namespace Node

/-- What a node is besides its identity. -/
def contents (node : Node) : Kind × Ty × Shape Node := (node.kind, node.type, node.shape)

/-- A node that is no constant is updated without loss by a shape of its family. -/
theorem rebuild_updated {node : Node} {shape : Shape Node} (hnode : .node node ∈ world)
    (hshape : world.HasAll shape.instances) (hc : shape.family ≠ .constant) :
    Updated .node contents world node (node.kind, node.type, shape)
      (node.rebuild (m := Supply) shape world.next) := by
  have hidentical : shape.identical node.shape = true ↔
      node.contents = (node.kind, node.type, shape) := by
    rw [Shape.identical_iff_eq hc hshape (World.hasAll_held hnode)]
    simp [contents, eq_comm]
  rw [rebuild, ite_apply]
  exact .of_choice hnode hidentical rfl rfl hshape

/-- A node is updated by a shape of its family. -/
theorem update_of_family_eq {node : Node} {shape : Shape Node} (h : shape.family = node.family)
    (next : Stamp) : node.update (m := Supply) shape next =
      (.ok (node.rebuild (m := Supply) shape next).1,
        (node.rebuild (m := Supply) shape next).2) := by
  rw [update, if_pos h]
  rfl

/-- A node is not updated by a shape of another family. -/
theorem update_of_family_ne {node : Node} {shape : Shape Node} (h : shape.family ≠ node.family)
    (next : Stamp) :
    node.update (m := Supply) shape next = (.error ⟨node.kind, shape.family⟩, next) := by
  rw [update, if_neg h]
  rfl

end Node

/-- Updates lose and invent nothing. A node that is no constant refuses the shapes of other
families, and no others. Where it does not, and wherever an initializer, a binding, a case or a
handler is updated, the result has the old contents but for what is given, and it is the old
instance exactly if nothing changes. -/
theorem updates_lose_and_invent_nothing (world : World) :
    (∀ (node : Node) (shape : Shape Node), .node node ∈ world → world.HasAll shape.instances →
      node.family ≠ .constant →
      (∀ error, (node.update (m := Supply) shape world.next).1 = .error error ↔
        shape.family ≠ node.family ∧ error = ⟨node.kind, shape.family⟩) ∧
      (shape.family = node.family → ∃ run : Node × Stamp,
        node.update (m := Supply) shape world.next = (.ok run.1, run.2) ∧
          Updated .node Node.contents world node (node.kind, node.type, shape) run)) ∧
    (∀ (init : ElementInit Node) (arguments : List Node), .component (.initializer init) ∈ world →
      world.HasAll (arguments.map .node) →
      Updated (fun init => .component (.initializer init)) ElementInit.contents world init
        (init.method, arguments) (init.update (m := Supply) arguments world.next)) ∧
    (∀ binding wanted : Binding Node, .component (.binding binding) ∈ world →
      world.HasAll (Component.binding wanted).instances →
      Updated (fun binding => .component (.binding binding)) Binding.contents world binding
        wanted.contents (binding.update (m := Supply) wanted world.next)) ∧
    (∀ (branch : SwitchCase Node) (tests : List Node) (body : Node),
      .component (.branch branch) ∈ world → world.HasAll (tests.map .node) → .node body ∈ world →
      Updated (fun branch => .component (.branch branch)) SwitchCase.contents world branch
        (tests, body) (branch.update (m := Supply) tests body world.next)) ∧
    ∀ (handler : Handler Node) (bound filter : Option Node) (body : Node),
      .component (.handler handler) ∈ world → world.HasAll (bound.toList.map .node) →
      world.HasAll (filter.toList.map .node) → .node body ∈ world →
      Updated (fun handler => .component (.handler handler)) Handler.contents world handler
        (handler.caught, bound, filter, body)
        (handler.update (m := Supply) bound filter body world.next) := by
  refine ⟨fun node shape hnode hshape hc => ⟨fun error => ?_, fun hfam => ?_⟩,
    fun _ _ => ElementInit.update_updated, fun _ _ => Binding.update_updated,
    fun _ _ _ => SwitchCase.update_updated, fun _ _ _ _ => Handler.update_updated⟩
  · by_cases hfam : shape.family = node.family
    · simp [Node.update_of_family_eq hfam, hfam]
    · simp [Node.update_of_family_ne hfam, hfam, eq_comm]
  · rw [← hfam] at hc
    exact ⟨_, Node.update_of_family_eq hfam world.next, Node.rebuild_updated hnode hshape hc⟩

/-- A jump with a value to a label at the given stamp. -/
def sampleBreak (label : Stamp) : Node :=
  ⟨3, .goto, .void,
    .goto .breaking ⟨label, .void, some "end"⟩ (some ⟨2, .default, .void, .default⟩)⟩

/-- The jump can be created in a world with two labels that differ only in their identity. -/
theorem exists_world_sampleBreak : ∃ world : World, .node (sampleBreak 0) ∈ world ∧
    world.HasAll (sampleBreak 1).shape.instances := by
  obtain ⟨world₁, -, hnext₁, hfirst⟩ := World.empty.exists_insert
    (.target ⟨0, .void, some "end"⟩) (Nat.zero_le _) World.hasAll_nil
  obtain ⟨world₂, hle₂, hnext₂, hsecond⟩ := world₁.exists_insert
    (.target ⟨1, .void, some "end"⟩) (Nat.le_of_eq hnext₁) World.hasAll_nil
  obtain ⟨world₃, hle₃, hnext₃, hvalue⟩ := world₂.exists_insert
    (.node ⟨2, .default, .void, .default⟩) (Nat.le_of_eq hnext₂) World.hasAll_nil
  have hfirst' := World.mem_of_le hle₃ (World.mem_of_le hle₂ hfirst)
  obtain ⟨world₄, hle₄, -, hjump⟩ := world₃.exists_insert (.node (sampleBreak 0))
    (Nat.le_of_eq hnext₃) (by simp [Instance.held, sampleBreak, Shape.instances, hfirst', hvalue])
  have hsecond' := World.mem_of_le hle₄ (World.mem_of_le hle₃ hsecond)
  have hvalue' := World.mem_of_le hle₄ hvalue
  exact ⟨world₄, hjump, by simp [sampleBreak, Shape.instances, hsecond', hvalue']⟩

/-- A jump is not the same when it leads to another label of the same name and type. -/
theorem sampleBreak_updated : ∃ world : World, .node (sampleBreak 0) ∈ world ∧
    world.HasAll (sampleBreak 1).shape.instances ∧ (sampleBreak 0).family ≠ .constant ∧
    ∃ run : Node × Stamp,
      (sampleBreak 0).update (m := Supply) (sampleBreak 1).shape world.next = (.ok run.1, run.2) ∧
        run.1.shape = (sampleBreak 1).shape ∧ run.1.stamp = world.next := by
  obtain ⟨world, hnode, hshape⟩ := exists_world_sampleBreak
  have hc : (sampleBreak 0).family ≠ .constant := by decide
  obtain ⟨run, hrun, hupdated⟩ :=
    ((updates_lose_and_invent_nothing world).1 _ _ hnode hshape hc).2 rfl
  have hne : (sampleBreak 0).contents ≠
      ((sampleBreak 0).kind, (sampleBreak 0).type, (sampleBreak 1).shape) := by
    simp [sampleBreak, Node.contents]
  have hcontents := hupdated.contents_eq
  simp only [Node.contents, Prod.mk.injEq] at hcontents
  exact ⟨world, hnode, hshape, hc, run, hrun, hcontents.2.2, (hupdated.made hne).1⟩

end ExprTree
