import ExprTree.Proofs.Sharing

/-!
# Worlds

Not only nodes have an identity. Nested structures, label targets and extensions have one too, and
so have the payloads that are shared: strings, sequences and host objects. A world records which
instance stands at which stamp, whatever it is. It is to updates what a heap of nodes is to
comparisons: instances of one world at one stamp are equal, what an instance holds is in the world
too, and a world grows when instances are created and never changes otherwise.
-/

namespace ExprTree

/-- Something that has an identity. -/
inductive Instance where
  | node (item : Node)
  /-- A structure that is nested in a node. -/
  | component (item : Component Node)
  | target (item : LabelTarget)
  | extension (stamp : Stamp) (custom : Extension Node)
  /-- The string of a payload. -/
  | text (stamp : Stamp) (value : String)
  /-- The sequence of a payload. -/
  | sequence (stamp : Stamp) (items : List (Value Node))
  /-- The host object of a payload. -/
  | object (stamp : Stamp) (host : HostObject)

/-! ## What an instance holds -/

/-- The instances that the payload holds. -/
def Value.instances : Value Node → List Instance
  | .scalar _ => []
  | .text stamp value => [.text stamp value]
  | .sequence stamp items => [.sequence stamp items]
  | .query root _ => [.node root]
  | .object stamp host => [.object stamp host]

/-- The instances that the component holds. -/
def Component.instances : Component Node → List Instance
  | .initializer item => item.arguments.map .node
  | .binding (.assignment _ _ value) => [.node value]
  | .binding (.list _ _ initializers) => initializers.map fun init => .component (.initializer init)
  | .binding (.nested _ _ bindings) => bindings.map fun binding => .component (.binding binding)
  | .branch item => item.children.map .node
  | .handler item => item.children.map .node

/-- The instances that the shape holds. -/
def Shape.instances : Shape Node → List Instance
  | .listInit creation initializers =>
    .node creation :: initializers.map fun init => .component (.initializer init)
  | .memberInit creation bindings =>
    .node creation :: bindings.map fun binding => .component (.binding binding)
  | .goto _ target value | .label target value => .target target :: value.toList.map .node
  | .loop body breakTarget continueTarget =>
    .node body :: (breakTarget.toList ++ continueTarget.toList).map .target
  | .switch subject branches otherwise _ =>
    .node subject ::
      (branches.map (fun branch => .component (.branch branch)) ++ otherwise.toList.map .node)
  | .tryCatch body handlers cleanup fault =>
    .node body ::
      (handlers.map (fun handler => .component (.handler handler)) ++
        (cleanup.toList ++ fault.toList).map .node)
  | .extension stamp custom => [.extension stamp custom]
  | .constant value => value.instances
  | shape => shape.children.map .node

namespace Instance

/-- The identity of the instance. -/
def stamp : Instance → Stamp
  | .node item => item.stamp
  | .component item => item.stamp
  | .target item => item.stamp
  | .extension stamp _ | .text stamp _ | .sequence stamp _ | .object stamp _ => stamp

/-- The instances that the instance holds. -/
def held : Instance → List Instance
  | .node item => item.shape.instances
  | .component item => item.instances
  | .extension _ custom => custom.operand?.toList.map .node
  | .sequence _ items => items.flatMap Value.instances
  | .target _ | .text _ _ | .object _ _ => []

end Instance

/-! ## The instances that exist -/

/-- The instances that exist, each at its stamp. -/
structure World where
  /-- The instance at a stamp, if there is one. -/
  instance? : Stamp → Option Instance
  /-- The stamp that is drawn next. -/
  next : Stamp
  /-- What an instance holds exists too. -/
  closed : ∀ x : Instance, instance? x.stamp = some x →
    ∀ part ∈ x.held, instance? part.stamp = some part
  /-- Stamps not yet drawn have no instance. -/
  below : ∀ x : Instance, instance? x.stamp = some x → x.stamp < next

namespace World

variable {world world' : World} {x y : Instance}

/-- The instance stands at its own stamp. -/
instance : Membership Instance World where
  mem world x := world.instance? x.stamp = some x

/-- One stamp has one instance. -/
theorem eq_of_stamp_eq (hx : x ∈ world) (hy : y ∈ world) (h : x.stamp = y.stamp) : x = y := by
  have hx' : world.instance? x.stamp = some x := hx
  have hy' : world.instance? y.stamp = some y := hy
  rw [h, hy'] at hx'
  exact (Option.some.inj hx').symm

/-- The instances are all in the world. -/
def HasAll (world : World) (xs : List Instance) : Prop := ∀ x ∈ xs, x ∈ world

/-- No instances are all in the world. -/
@[simp] theorem hasAll_nil : world.HasAll [] := fun _ h => absurd h List.not_mem_nil

/-- The instances of a list are in the world if the first is and the others are. -/
@[simp] theorem hasAll_cons {xs : List Instance} :
    world.HasAll (x :: xs) ↔ x ∈ world ∧ world.HasAll xs :=
  List.forall_mem_cons

/-- The instances of two lists are in the world if those of each are. -/
@[simp] theorem hasAll_append {xs ys : List Instance} :
    world.HasAll (xs ++ ys) ↔ world.HasAll xs ∧ world.HasAll ys :=
  List.forall_mem_append

/-- What an instance of the world holds is in the world. -/
theorem hasAll_held (hx : x ∈ world) : world.HasAll x.held := world.closed x hx

/-- A world is extended by instances at stamps drawn later. -/
instance : Preorder World where
  le world world' := world.next ≤ world'.next ∧ ∀ x ∈ world, x ∈ world'
  le_refl world := ⟨Nat.le_refl _, fun _ h => h⟩
  le_trans _ _ _ h h' := ⟨Nat.le_trans h.1 h'.1, fun x hx => h'.2 x (h.2 x hx)⟩

/-- Instances stay in a world that grows. -/
theorem mem_of_le (h : world ≤ world') (hx : x ∈ world) : x ∈ world' := h.2 x hx

/-- The world before anything was created. -/
def empty : World where
  instance? _ := none
  next := 0
  closed _ h := by simp at h
  below _ h := by simp at h

/-- The world after an instance was created from instances of the world. -/
def insert (world : World) (x : Instance) (fresh : world.next ≤ x.stamp)
    (holds : world.HasAll x.held) : World where
  instance? stamp := if stamp = x.stamp then some x else world.instance? stamp
  next := x.stamp + 1
  closed y hy part hpart := by
    have old : part ∈ world := by
      split at hy
      · cases hy
        exact holds part hpart
      · exact world.closed y hy part hpart
    have hlt : part.stamp < x.stamp := Nat.lt_of_lt_of_le (world.below part old) fresh
    rw [if_neg (Nat.ne_of_lt hlt)]
    exact old
  below y hy := by
    split at hy
    · cases hy
      exact Nat.lt_succ_self _
    · exact Nat.lt_succ_of_lt (Nat.lt_of_lt_of_le (world.below y hy) fresh)

section Insert

variable {fresh : world.next ≤ x.stamp} {holds : world.HasAll x.held}

/-- A created instance is in the world. -/
theorem mem_insert_self : x ∈ world.insert x fresh holds := if_pos rfl

/-- What was in the world stays there when an instance is created. -/
theorem mem_insert_of_mem (hy : y ∈ world) : y ∈ world.insert x fresh holds := by
  have hlt : y.stamp < x.stamp := Nat.lt_of_lt_of_le (world.below y hy) fresh
  exact (if_neg (Nat.ne_of_lt hlt)).trans hy

/-- An instance can be created from instances of the world. -/
theorem exists_insert (world : World) (x : Instance) (fresh : world.next ≤ x.stamp)
    (holds : world.HasAll x.held) :
    ∃ world' ≥ world, world'.next = x.stamp + 1 ∧ x ∈ world' :=
  ⟨world.insert x fresh holds,
    ⟨Nat.le_trans fresh (Nat.le_succ _), fun _ hy => mem_insert_of_mem hy⟩, rfl, mem_insert_self⟩

end Insert

end World

end ExprTree
