import ExprTree.Proofs.Coherence
import ExprTree.Proofs.Fields

/-!
# Paths through trees and views

A path is a list of slots. In a tree it leads from node to node, field by field. Only the reduction
of an extension does not stand in a field: it is built when it is asked for, so the node at the end
of a path depends on the stamps of the reductions on the way.

In a view a path leads from cell to cell, as far as slots were resolved. A view mirrors the tree if
each path through its cells ends at the node to which it leads in the tree, for one choice of
stamps. A view grows if more is resolved and what was resolved stays.
-/

namespace ExprTree

/-! ## Paths through the tree -/

namespace Node

variable {e n : Node} {slot : Slot} {stampOf : List Slot → Stamp}

/-- The node that is found in a slot of a node. What an extension is reduced to has the stamp. -/
def shownAt (stamp : Stamp) (slot : Slot) (n : Node) : Option Node :=
  match n.shape, slot with
  | .extension _ custom, .reduction => custom.reduceAt stamp
  | shape, slot => shape.field? slot

/-- How often a node is reduced to find what is in a slot. -/
def reductionsFor (slot : Slot) (n : Node) : Nat :=
  match n.shape, slot with
  | .extension _ _, .reduction => 1
  | _, _ => 0

/-- The node to which a path leads. `stampOf` has the stamps of the reductions on the way, each by
the path up to it. -/
def follow (stampOf : List Slot → Stamp) : List Slot → Node → Option Node
  | [], n => some n
  | slot :: rest, n =>
    (n.shownAt (stampOf [slot]) slot).bind (follow (fun path => stampOf (slot :: path)) rest)

/-- A path leads on from where its first part leads to. -/
theorem follow_append (path rest : List Slot) :
    e.follow stampOf (path ++ rest) =
      (e.follow stampOf path).bind (follow (fun more => stampOf (path ++ more)) rest) := by
  induction path generalizing e stampOf with
  | nil => rfl
  | cons slot path ih =>
    rw [List.cons_append, follow, follow, Option.bind_assoc]
    exact congrArg _ (funext fun child => ih)

/-- What is found in the slot of a reduction. -/
theorem shownAt_reduction {own : Stamp} {custom : Extension Node}
    (h : n.shape = .extension own custom) (stamp : Stamp) :
    n.shownAt stamp .reduction = custom.reduceAt stamp ∧ n.reductionsFor .reduction = 1 := by
  simp [shownAt, reductionsFor, h]

/-- What is found in another slot stands in a field. -/
theorem shownAt_of_ne (h : ∀ own custom, n.shape = .extension own custom → slot ≠ .reduction)
    (stamp : Stamp) : n.shownAt stamp slot = n.shape.field? slot ∧ n.reductionsFor slot = 0 := by
  unfold shownAt reductionsFor
  split
  · rename_i own custom hshape
    exact absurd rfl (h own custom hshape)
  · exact ⟨rfl, rfl⟩

/-- Nothing is found where nothing is shown. -/
theorem shownAt_hidden (n : Node) (stamp : Stamp) :
    n.shownAt stamp .hidden = none ∧ n.reductionsFor .hidden = 0 := by
  have hne : ∀ own custom, n.shape = .extension own custom → Slot.hidden ≠ .reduction := nofun
  rw [← n.shape.field?_hidden]
  exact shownAt_of_ne hne stamp

/-- What stands in a field is found in its slot. -/
theorem shownAt_of_field? {child : Node} (h : n.shape.field? slot = some child) (stamp : Stamp) :
    n.shownAt stamp slot = some child ∧ n.reductionsFor slot = 0 := by
  have hne : ∀ own custom, n.shape = .extension own custom → slot ≠ .reduction := by
    intro own custom hshape
    rw [hshape] at h
    cases h
  rw [← h]
  exact shownAt_of_ne hne stamp

/-- In the slot of a handle that handle is found, or nothing. -/
theorem shownAt_of_mem_handles {child found : Node} {stamp : Stamp}
    (h : (slot, child) ∈ n.shape.slotted.handles) (hfound : n.shownAt stamp slot = some found) :
    found = child := by
  rcases Shape.hidden_or_field?_of_mem_handles h with rfl | hfield
  · rw [(shownAt_hidden n stamp).1] at hfound
    cases hfound
  · rw [(shownAt_of_field? hfield stamp).1] at hfound
    exact (Option.some.inj hfound).symm

/-- What is found in a slot of a coherent node is coherent. -/
theorem AllCoherent.shownAt (h : e.AllCoherent) {stamp : Stamp}
    (hn : e.shownAt stamp slot = some n) : n.AllCoherent := by
  unfold Node.shownAt at hn
  split at hn
  · rename_i own custom hshape
    exact h.of_leads (.reduction hshape hn)
  · rw [← Shape.lookup_children_slotted] at hn
    exact h.of_leads (.child (Shape.mem_children_of_lookup hn))

/-- A path from a coherent node leads to coherent nodes. -/
theorem AllCoherent.follow {path : List Slot} (h : e.AllCoherent)
    (hn : e.follow stampOf path = some n) : n.AllCoherent := by
  induction path generalizing e stampOf with
  | nil =>
    obtain rfl := Option.some.inj hn
    exact h
  | cons slot rest ih =>
    obtain ⟨child, hchild, hrest⟩ := Option.bind_eq_some_iff.mp hn
    exact ih (h.shownAt hchild) hrest

end Node

/-! ## What a view has resolved -/

namespace View

variable {view view' child : View} {found : Option View} {slot : Slot} {next : Stamp}
  {path rest : List Slot} {stampOf : List Slot → Stamp}

/-- What a slot shows is what is found in it. -/
theorem shown?_eq (view : View) (slot : Slot) : view.shown? (m := Supply) slot = fun next =>
    (view.node.shownAt next slot, next + view.node.reductionsFor slot) := by
  unfold shown?
  split
  · rename_i own custom hshape
    funext next
    obtain ⟨hshown, hone⟩ := Node.shownAt_reduction hshape next
    rw [hshown, hone]
    rfl
  · funext next
    obtain ⟨hshown, hnone⟩ := view.node.shownAt_hidden next
    rw [hshown, hnone]
    rfl
  · rename_i hne
    funext next
    obtain ⟨hshown, hnone⟩ := Node.shownAt_of_ne hne next
    rw [hshown, hnone, Shape.lookup_children_slotted]
    rfl

/-- What is put in the cell of a slot is found there, and other cells stay as they are. -/
theorem lookup_put {β : Type} {shown : β} {cells : List (Slot × β)} {other : Slot} :
    (put slot shown cells).lookup other =
      if other = slot then some shown else cells.lookup other := by
  induction cells with
  | nil =>
    rw [put, List.lookup_cons]
    split <;> simp_all
  | cons cell rest ih =>
    rw [put]
    split
    · rename_i hcell
      subst hcell
      rw [List.lookup_cons, List.lookup_cons]
      split <;> simp_all
    · rename_i hcell
      rw [List.lookup_cons, List.lookup_cons, ih]
      split <;> simp_all

/-- The cell of a slot holds what was put there. -/
@[simp] theorem cached?_store_self : (view.store slot found).cached? slot = some found := by
  rw [cached?, store, cells, lookup_put, if_pos rfl]

/-- The cells of other slots hold what they held. -/
theorem cached?_store_of_ne {other : Slot} (h : other ≠ slot) :
    (view.store slot found).cached? other = view.cached? other := by
  rw [cached?, store, cells, lookup_put, if_neg h, cached?]

/-- What a slot showed is shown again, and nothing is drawn. -/
theorem resolve_of_cached (h : view.cached? slot = some found) :
    view.resolve (m := Supply) slot next = ((found, view), next) := by
  unfold resolve
  rw [h]
  rfl

/-- What is found in a slot is put in its cell. -/
theorem resolve_of_not_cached (h : view.cached? slot = none)
    (hfound : (view.node.shownAt next slot).map wrap = found) :
    view.resolve (m := Supply) slot next =
      ((found, view.store slot found), next + view.node.reductionsFor slot) := by
  unfold resolve
  rw [h]
  dsimp only
  rw [bind_apply, shown?_eq, ← hfound]
  rfl

/-- What a slot showed stays in its cell when slots are resolved. -/
theorem cached?_resolve_of_cached {other : Slot} (h : view.cached? other = some found) :
    (view.resolve (m := Supply) slot next).1.2.cached? other = some found := by
  cases hslot : view.cached? slot with
  | some shown => rwa [resolve_of_cached hslot]
  | none =>
    have hne : other ≠ slot := by
      rintro rfl
      rw [hslot] at h
      cases h
    rw [resolve_of_not_cached hslot rfl]
    exact (cached?_store_of_ne hne).trans h

/-- What a slot shows is in its cell from then on. -/
theorem cached?_resolve : (view.resolve (m := Supply) slot next).1.2.cached? slot =
    some (view.resolve (m := Supply) slot next).1.1 := by
  cases hslot : view.cached? slot with
  | some shown => rw [resolve_of_cached hslot, hslot]
  | none => rw [resolve_of_not_cached hslot rfl, cached?_store_self]

/-- What a slot showed stays in its cell when slots are read. -/
theorem cached?_read_of_cached {slots : List Slot} (h : view.cached? slot = some found) :
    (view.read (m := Supply) slots next).1.2.cached? slot = some found := by
  induction slots generalizing view next with
  | nil => exact h
  | cons first rest ih => exact ih (cached?_resolve_of_cached h)

/-- Reading gives an answer for each slot, which is what its cell holds from then on. -/
theorem read_answers (slots : List Slot) (view : View) (next : Stamp) :
    (view.read (m := Supply) slots next).1.1.map Prod.fst = slots ∧
      ∀ cell ∈ (view.read (m := Supply) slots next).1.1,
        (view.read (m := Supply) slots next).1.2.cached? cell.1 = some cell.2 := by
  induction slots generalizing view next with
  | nil => exact ⟨rfl, nofun⟩
  | cons slot rest ih =>
    obtain ⟨hslots, hcells⟩ := ih (view.resolve (m := Supply) slot next).1.2
      (view.resolve (m := Supply) slot next).2
    have hfirst : ((view.resolve (m := Supply) slot next).1.2.read (m := Supply) rest
        (view.resolve (m := Supply) slot next).2).1.2.cached? slot =
          some (view.resolve (m := Supply) slot next).1.1 := cached?_read_of_cached cached?_resolve
    exact ⟨congrArg (slot :: ·) hslots, List.forall_mem_cons.mpr ⟨hfirst, hcells⟩⟩

/-! ## Paths through a view -/

/-- What a view has resolved at the end of a path: nothing yet, or that nothing is there, or a
view. -/
def at? : List Slot → View → Option (Option View)
  | [], view => some (some view)
  | slot :: rest, view => (view.cached? slot).bind (·.elim (some none) (at? rest))

/-- The node that a view has resolved at the end of a path. -/
def nodeAt? (path : List Slot) (view : View) : Option (Option Node) :=
  (view.at? path).map (·.map node)

/-- A path leads on from where its first part leads to. -/
theorem at?_append : view.at? (path ++ rest) =
    (view.at? path).bind (·.elim (some none) (at? rest)) := by
  induction path generalizing view with
  | nil => rfl
  | cons slot path ih =>
    rw [List.cons_append, at?, at?, Option.bind_assoc]
    refine congrArg _ (funext fun found => ?_)
    cases found with
    | none => rfl
    | some child => exact ih

/-- One slot leads to what is in its cell. -/
theorem at?_singleton : view.at? [slot] = view.cached? slot := by
  rw [at?]
  cases view.cached? slot with
  | none => rfl
  | some found => cases found <;> rfl

/-- A slot of the view at the end of a path leads to what is in its cell. -/
theorem at?_concat (h : view.at? path = some (some child)) :
    view.at? (path ++ [slot]) = child.cached? slot := by
  rw [at?_append, h]
  exact at?_singleton

/-- The first slot of a path leads to the view in its cell. -/
theorem at?_cons_of_cached (h : view.cached? slot = some (some child)) :
    view.at? (slot :: rest) = child.at? rest := by
  rw [at?, h]
  rfl

/-- The node of what is at the end of a path. -/
theorem nodeAt?_of_at? (h : view.at? path = some found) :
    view.nodeAt? path = some (found.map node) := by
  rw [nodeAt?, h]
  rfl

/-- A path of nodes leads on from where its first part leads to. -/
theorem nodeAt?_append : view.nodeAt? (path ++ rest) =
    (view.at? path).bind (·.elim (some none) (nodeAt? rest)) := by
  rw [nodeAt?, at?_append, Option.map_bind]
  refine congrArg _ (funext fun found => ?_)
  cases found <;> rfl

/-- A path of nodes leads on from the view at the end of its first part. -/
theorem nodeAt?_append_of_at? (h : view.at? path = some (some child)) :
    view.nodeAt? (path ++ rest) = child.nodeAt? rest := by
  rw [nodeAt?_append, h]
  rfl

/-- The first slot of a path of nodes is looked up in its cell. -/
theorem nodeAt?_cons : view.nodeAt? (slot :: rest) =
    (view.cached? slot).bind (·.elim (some none) (nodeAt? rest)) := by
  rw [← List.singleton_append, nodeAt?_append, at?_singleton]

/-- The first slot of a path of nodes leads to the view in its cell. -/
theorem nodeAt?_cons_of_cached (h : view.cached? slot = some (some child)) :
    view.nodeAt? (slot :: rest) = child.nodeAt? rest := by
  rw [nodeAt?, at?_cons_of_cached h, nodeAt?]

/-- One slot leads to the node of what is in its cell. -/
theorem nodeAt?_singleton : view.nodeAt? [slot] = (view.cached? slot).map (·.map node) := by
  rw [nodeAt?, at?_singleton]

/-- All that a view has resolved is found in the tree. -/
def Mirrors (stampOf : List Slot → Stamp) (view : View) : Prop :=
  ∀ path found, view.nodeAt? path = some found → view.node.follow stampOf path = found

/-- A view mirrors the tree if the nodes in its cells are found there and the views in its cells
mirror what is below. -/
theorem mirrors_iff : view.Mirrors stampOf ↔ ∀ slot found, view.cached? slot = some found →
    view.node.shownAt (stampOf [slot]) slot = found.map node ∧
      ∀ child ∈ found, child.Mirrors fun path => stampOf (slot :: path) := by
  constructor
  · intro h slot found hcached
    have hshown : view.node.shownAt (stampOf [slot]) slot = found.map node := by
      have hfollow := h [slot] (found.map node) (nodeAt?_of_at? (at?_singleton.trans hcached))
      rw [Node.follow] at hfollow
      exact (Option.bind_fun_some _).symm.trans hfollow
    refine ⟨hshown, fun child hchild path node hnode => ?_⟩
    obtain rfl := Option.mem_def.mp hchild
    have hfollow := h (slot :: path) node ((nodeAt?_cons_of_cached hcached).trans hnode)
    rwa [Node.follow, hshown] at hfollow
  · intro h path shown hpath
    cases path with
    | nil => exact Option.some.inj hpath
    | cons slot rest =>
      rw [nodeAt?_cons] at hpath
      obtain ⟨found, hcached, hrest⟩ := Option.bind_eq_some_iff.mp hpath
      obtain ⟨hshown, hbelow⟩ := h slot found hcached
      rw [Node.follow, hshown]
      cases found with
      | none => exact Option.some.inj hrest
      | some child => exact hbelow child rfl rest shown hrest

/-- A view that has resolved nothing mirrors every tree that it is the root of. -/
theorem mirrors_wrap (n : Node) : (wrap n).Mirrors stampOf := mirrors_iff.mpr nofun

/-- A view still mirrors the tree after something that does was put in a cell. -/
theorem Mirrors.store (h : view.Mirrors stampOf)
    (hshown : view.node.shownAt (stampOf [slot]) slot = found.map node)
    (hbelow : ∀ child ∈ found, child.Mirrors fun path => stampOf (slot :: path)) :
    (view.store slot found).Mirrors stampOf := by
  refine mirrors_iff.mpr fun other shown hcached => ?_
  by_cases heq : other = slot
  · subst heq
    rw [cached?_store_self] at hcached
    obtain rfl := Option.some.inj hcached
    exact ⟨hshown, hbelow⟩
  · rw [cached?_store_of_ne heq] at hcached
    exact mirrors_iff.mp h other shown hcached

/-- What a view has resolved mirrors the tree from there on. -/
theorem Mirrors.of_at? (h : view.Mirrors stampOf) (hchild : view.at? path = some (some child)) :
    view.node.follow stampOf path = some child.node ∧
      child.Mirrors fun rest => stampOf (path ++ rest) := by
  have hnode : view.node.follow stampOf path = some child.node :=
    h path _ (nodeAt?_of_at? hchild)
  refine ⟨hnode, fun rest found hfound => ?_⟩
  have hfollow := h (path ++ rest) found ((nodeAt?_append_of_at? hchild).trans hfound)
  rwa [Node.follow_append, hnode] at hfollow

/-- All that the first view has resolved is also resolved by the second one, with the same nodes. -/
def Grows (view view' : View) : Prop :=
  ∀ path found, view.nodeAt? path = some found → view'.nodeAt? path = some found

/-- A view grows from itself. -/
theorem Grows.refl (view : View) : view.Grows view := fun _ _ => id

/-- Views grow on. -/
theorem Grows.trans {view'' : View} (h : view.Grows view') (h' : view'.Grows view'') :
    view.Grows view'' := fun path found hpath => h' path found (h path found hpath)

/-- The node stays the same. -/
theorem Grows.node_eq (h : view.Grows view') : view'.node = view.node :=
  Option.some.inj (Option.some.inj (h [] _ rfl))

/-- A view grows if a cell is filled, or if what is in it grows. -/
theorem grows_store (h : ∀ old, view.cached? slot = some old → Option.Rel Grows old found) :
    view.Grows (view.store slot found) := by
  intro path shown hpath
  cases path with
  | nil => exact hpath
  | cons first rest =>
    rw [nodeAt?_cons] at hpath ⊢
    by_cases heq : first = slot
    · subst heq
      rw [cached?_store_self]
      obtain ⟨old, hcached, hrest⟩ := Option.bind_eq_some_iff.mp hpath
      cases h old hcached with
      | none => exact hrest
      | some hgrows => exact hgrows rest shown hrest
    · rwa [cached?_store_of_ne heq]

/-- If a view grows, so does what it has resolved. -/
theorem Grows.at? {found' : Option View} (h : view.Grows view')
    (hfound : view.at? path = some found) (hfound' : view'.at? path = some found') :
    Option.Rel Grows found found' := by
  have hnode := h path (found.map node) (nodeAt?_of_at? hfound)
  rw [nodeAt?_of_at? hfound'] at hnode
  cases found with
  | none =>
    cases found' with
    | none => exact .none
    | some child' => cases hnode
  | some child =>
    cases found' with
    | none => cases hnode
    | some child' =>
      refine .some fun rest shown hrest => ?_
      have hpath := h (path ++ rest) shown ((nodeAt?_append_of_at? hfound).trans hrest)
      rwa [nodeAt?_append_of_at? hfound'] at hpath

end View

end ExprTree
