import ExprTree.Proofs.ViewPaths

/-!
# What views are taken apart into

For a view the parts of a node are named by slots and places. What stands there can also be read off
the node, family by family. The two agree: a view is taken apart into views of exactly the nodes
that are its parts, and into the structures that are nested in it, which are taken apart in the same
way. This holds whatever the view has resolved before, since only the reduction of an extension
depends on the time at which it is asked for.
-/

namespace ExprTree

/-! ## Parts as they stand in a node -/

/-- The parts of a nested structure. -/
def Nested.components : Nested Node → List (Part (Option Node) (Option (Nested Node)))
  | .initializer added => [.datum (.method added.method), .nodes (added.arguments.map some)]
  | .binding (.assignment _ member value) => [.datum (.member member), .node value]
  | .binding (.list _ member initializers) =>
    [.datum (.member member), .nested (initializers.map fun added => some (.initializer added))]
  | .binding (.nested _ member bindings) =>
    [.datum (.member member), .nested (bindings.map fun bound => some (.binding bound))]
  | .branch selected => [.nodes (selected.tests.map some), .node selected.body]
  | .handler handling =>
    [.datum (.type handling.caught), .node handling.bound, .node handling.filter,
      .node handling.body]

namespace Node

/-- The parts of a node. An extension is shown with what it was reduced to. -/
def components (reduction : Option Node) (n : Node) :
    List (Part (Option Node) (Option (Nested Node))) :=
  match n.shape with
  | .binary left _ right _ _ => [.node left, .node right]
  | .unary operand _ => [.node operand, .datum (.type n.type)]
  | .typeBinary operand type => [.node operand, .datum (.type type)]
  | .call object method arguments =>
    [.node object, .datum (.method method), .nodes (arguments.map some)]
  | .conditional test ifTrue ifFalse => [.node test, .node ifTrue, .node ifFalse]
  | .invoke callee arguments => [.node callee, .nodes (arguments.map some)]
  | .lambda body parameters _ _ => [.nodes (parameters.map some), .node body]
  | .dynamic binder _ arguments => [.datum (.binder binder), .nodes (arguments.map some)]
  | .memberAccess object member => [.node object, .datum (.member member)]
  | .new constructor arguments _ =>
    [.datum (.constructor constructor), .nodes (arguments.map some)]
  | .listInit creation initializers =>
    [.node creation, .nested (initializers.map fun added => some (.initializer added))]
  | .memberInit creation bindings =>
    [.node creation, .nested (bindings.map fun bound => some (.binding bound))]
  | .newArray items => [.nodes (items.map some), .datum (.type n.type)]
  | .index object indexer arguments =>
    [.node object, .datum (.indexer indexer), .nodes (arguments.map some)]
  | .runtimeVariables locals => [.nodes (locals.map some), .datum (.type n.type)]
  | .block locals statements => [.nodes (locals.map some), .nodes (statements.map some)]
  | .goto jump target value => [.datum (.jump jump), .datum (.target target), .node value]
  | .label target value => [.datum (.target target), .node value]
  | .loop body breakTarget continueTarget =>
    [.node body, .datum (.exit breakTarget), .datum (.exit continueTarget)]
  | .switch subject cases otherwise _ =>
    [.node subject, .nested (cases.map fun selected => some (.branch selected)), .node otherwise]
  | .tryCatch body handlers cleanup fault =>
    [.node body, .nested (handlers.map fun handling => some (.handler handling)), .node cleanup,
      .node fault]
  | .extension _ custom => [.datum (.extension custom), .node reduction]
  | .debugInfo document _ => [.datum (.document document), .datum (.type n.type)]
  | .parameter name _ => [.datum (.name name), .datum (.type n.type)]
  | .constant value => [.datum (.payload value), .datum (.type n.type)]
  | .default => [.datum (.type n.type)]

end Node

/-! ## Slots and places name the parts -/

variable {α γ δ : Type}

namespace Part

/-- A node is replaced. -/
@[simp] theorem map_node (f : Slot → γ) (g : Place → δ) (slot : Slot) :
    map f g (.node slot) = .node (f slot) := rfl

/-- What is shown as it is stays. -/
@[simp] theorem map_datum (f : Slot → γ) (g : Place → δ) (given : Datum) :
    map f g (.datum given) = .datum given := rfl

/-- The nodes of parts whose nodes are replaced. -/
theorem flatMap_items_map (f : Slot → γ) (parts : List (Part Slot Place)) :
    (parts.map (map f id)).flatMap items = (parts.flatMap items).map f := by
  rw [List.flatMap_map, List.map_flatMap]
  refine List.flatMap_congr fun part _ => ?_
  cases part <;> rfl

end Part

/-- The items of a list are found in their slots. -/
theorem map_slotsOf {f : Slot → Option α} {slot : Nat → Slot} {items : List α}
    (h : ∀ i, f (slot i) = items[i]?) : (slotsOf slot items).map f = items.map some := by
  have hfrom : ∀ i (rest : List α), (∀ k, f (slot (i + k)) = rest[k]?) →
      ((slotted slot i rest).map Prod.fst).map f = rest.map some := by
    intro i rest
    induction rest generalizing i with
    | nil => exact fun _ => rfl
    | cons item rest ih =>
      intro hrest
      have hitem : f (slot i) = some item := hrest 0
      have hrest' : ∀ k, f (slot (i + 1 + k)) = rest[k]? := by
        intro k
        rw [Nat.add_right_comm]
        exact hrest (k + 1)
      rw [slotted, List.map_cons, List.map_cons, List.map_cons, hitem, ih (i + 1) hrest']
  exact hfrom 0 items fun k => by rw [Nat.zero_add, h]

/-- The items of a list are found in the slots of the part. -/
theorem Part.map_listed {f : Slot → Option α} {g : Place → δ} {slot : Nat → Slot} {items : List α}
    (h : ∀ i, f (slot i) = items[i]?) : (listed slot items).map f g = .nodes (items.map some) :=
  congrArg Part.nodes (map_slotsOf h)

/-- The items of a list are found at the places of the part. -/
theorem Part.map_placed {f : Slot → γ} {g : Place → Option δ} {place : Nat → Place} {items : List α}
    (k : α → δ) (h : ∀ i, g (place i) = items[i]?.map k) :
    (placed place items).map f g = .nested (items.map fun item => some (k item)) := by
  refine congrArg Part.nested (List.ext_getElem? fun i => ?_)
  rw [List.getElem?_map, List.getElem?_mapIdx, List.getElem?_map, Option.map_map]
  cases hitem : items[i]? with
  | none => rfl
  | some item =>
    rw [Option.map_some, Function.comp_apply, h, hitem]
    rfl

/-- One more number leads to a binding that is nested in the one before. -/
theorem Binding.findIn?_concat {path : List Nat} {bindings : List (Binding α)} {found : Binding α}
    (h : findIn? path bindings = some found) (i : Nat) :
    findIn? (path ++ [i]) bindings = found.bindings[i]? := by
  have hbelow : ∀ (path : List Nat) (binding : Binding α), find? path binding = some found →
      find? (path ++ [i]) binding = found.bindings[i]? := by
    intro path
    induction path with
    | nil =>
      intro binding hfound
      obtain rfl := Option.some.inj hfound
      exact Option.bind_fun_some _
    | cons j rest ih =>
      intro binding hfound
      obtain ⟨next, hnext, hrest⟩ := Option.bind_eq_some_iff.mp hfound
      rw [List.cons_append, find?, hnext]
      exact ih next hrest
  cases path with
  | nil => cases h
  | cons j rest =>
    obtain ⟨next, hnext, hrest⟩ := Option.bind_eq_some_iff.mp h
    rw [List.cons_append, findIn?, hnext]
    exact hbelow rest next hrest

namespace Node

variable {n : Node}

/-- In the slots and at the places of a node stand its parts. -/
theorem map_opened (n : Node) (stamp : Stamp) :
    n.opened.map (Part.map (n.shownAt stamp) (Shape.nested? · n.shape)) =
      n.components (n.shownAt stamp .reduction) := by
  obtain ⟨own, kind, type, shape⟩ := n
  cases shape with
  | listInit creation initializers =>
    simp [opened, components, Part.map_placed Nested.initializer, Shape.nested?, shownAt,
      Shape.field?]
  | memberInit creation bindings =>
    have hbindings : ∀ i, Binding.findIn? [i] bindings = bindings[i]? := fun _ =>
      Option.bind_fun_some _
    simp [opened, components, Part.map_placed Nested.binding, Shape.nested?, hbindings,
      shownAt, Shape.field?]
  | switch subject cases otherwise comparison =>
    simp [opened, components, Part.map_placed Nested.branch, Shape.nested?, shownAt,
      Shape.field?]
  | tryCatch body handlers cleanup fault =>
    simp [opened, components, Part.map_placed Nested.handler, Shape.nested?, shownAt,
      Shape.field?]
  | _ => simp [opened, components, Part.map_listed, shownAt, Shape.field?]

/-- In the slots and at the places of a nested structure stand its parts. -/
theorem map_opened_nested (n : Node) (stamp : Stamp) {place : Place} {nested : Nested Node}
    (h : n.shape.nested? place = some nested) :
    (nested.opened place).map (Part.map (n.shownAt stamp) (Shape.nested? · n.shape)) =
      nested.components := by
  obtain ⟨own, kind, type, shape⟩ := n
  cases shape with
  | listInit creation initializers =>
    cases place with
    | initializer i =>
      obtain ⟨added, hadded, rfl⟩ := Option.map_eq_some_iff.mp h
      simp [Nested.opened, ElementInit.opened, Nested.components, Part.map_listed, shownAt,
        Shape.field?, ElementInit.argument?, hadded]
    | _ => cases h
  | memberInit creation bindings =>
    cases place with
    | binding path =>
      obtain ⟨bound, hbound, rfl⟩ := Option.map_eq_some_iff.mp h
      cases bound with
      | assignment _ member value =>
        simp [Nested.opened, Binding.opened, Nested.components, shownAt, Shape.field?,
          hbound, Binding.value?]
      | list _ member initializers =>
        simp [Nested.opened, Binding.opened, Nested.components,
          Part.map_placed Nested.initializer, Shape.nested?, hbound, Binding.initializers]
      | nested _ member bindings =>
        simp [Nested.opened, Binding.opened, Nested.components,
          Part.map_placed Nested.binding, Shape.nested?, Binding.findIn?_concat hbound,
          Binding.bindings]
    | bindingInitializer path i =>
      obtain ⟨bound, hbound, hitem⟩ := Option.bind_eq_some_iff.mp h
      obtain ⟨added, hadded, rfl⟩ := Option.map_eq_some_iff.mp hitem
      simp [Nested.opened, ElementInit.opened, Nested.components, Part.map_listed, shownAt,
        Shape.field?, ElementInit.argument?, hbound, hadded]
    | _ => cases h
  | switch subject cases otherwise comparison =>
    cases place with
    | branch i =>
      obtain ⟨selected, hselected, rfl⟩ := Option.map_eq_some_iff.mp h
      simp [Nested.opened, SwitchCase.opened, Nested.components, Part.map_listed, shownAt,
        Shape.field?, hselected]
    | _ => cases h
  | tryCatch body handlers cleanup fault =>
    cases place with
    | handler i =>
      obtain ⟨handling, hhandling, rfl⟩ := Option.map_eq_some_iff.mp h
      simp [Nested.opened, Handler.opened, Nested.components, shownAt, Shape.field?,
        hhandling]
    | _ => cases h
  | _ => cases h

/-- What is found in a slot does not depend on the stamp, except for the reduction. -/
theorem shownAt_eq_of_ne {slot : Slot} (h : slot ≠ .reduction) (n : Node) (stamp stamp' : Stamp) :
    n.shownAt stamp slot = n.shownAt stamp' slot := by
  rw [(shownAt_of_ne (fun _ _ _ => h) stamp).1, (shownAt_of_ne (fun _ _ _ => h) stamp').1]

end Node

/-! ## Views of the parts -/

namespace View

variable {view : View} {stampOf : List Slot → Stamp}

/-- The cells hold what was found in their slots. -/
def Shows (view : View) : Prop :=
  ∀ slot found, view.cached? slot = some found →
    ∃ stamp, view.node.shownAt stamp slot = found.map node

/-- A view that mirrors the tree shows what is in its slots. -/
theorem Mirrors.shows (h : view.Mirrors stampOf) : view.Shows := fun slot found hcached =>
  ⟨stampOf [slot], (mirrors_iff.mp h slot found hcached).1⟩

/-- Resolving a slot changes neither the node nor that cells hold what was found. -/
theorem Shows.resolve (h : view.Shows) (slot : Slot) (now : Stamp) :
    (view.resolve (m := Supply) slot now).1.2.node = view.node ∧
      (view.resolve (m := Supply) slot now).1.2.Shows := by
  cases hslot : view.cached? slot with
  | some found =>
    rw [resolve_of_cached hslot]
    exact ⟨rfl, h⟩
  | none =>
    rw [resolve_of_not_cached hslot rfl]
    refine ⟨rfl, fun other found hcached => ?_⟩
    by_cases heq : other = slot
    · subst heq
      rw [cached?_store_self, Option.some.injEq] at hcached
      refine ⟨now, ?_⟩
      rw [← hcached, Option.map_map]
      exact Option.map_id'.symm
    · rw [cached?_store_of_ne heq] at hcached
      exact h other found hcached

/-- Reading slots changes neither the node nor that cells hold what was found. -/
theorem Shows.read (h : view.Shows) (slots : List Slot) (now : Stamp) :
    (view.read (m := Supply) slots now).1.2.node = view.node ∧
      (view.read (m := Supply) slots now).1.2.Shows := by
  induction slots generalizing view now with
  | nil => exact ⟨rfl, h⟩
  | cons slot rest ih =>
    obtain ⟨hnode, hshows⟩ := h.resolve slot now
    obtain ⟨hnode', hshows'⟩ := ih hshows (view.resolve (m := Supply) slot now).2
    exact ⟨hnode'.trans hnode, hshows'⟩

/-- The answers to slots that are read are what the cells hold then. -/
theorem read_eq_cells (slots : List Slot) (view : View) (now : Stamp) :
    (view.read (m := Supply) slots now).1.1 = slots.map fun slot =>
      (slot, ((view.read (m := Supply) slots now).1.2.cached? slot).join) := by
  obtain ⟨hslots, hcells⟩ := read_answers slots view now
  generalize view.read (m := Supply) slots now = outcome at hslots hcells ⊢
  rw [← hslots, List.map_map]
  refine (List.map_id _).symm.trans (List.map_congr_left fun cell hcell => ?_)
  rw [Function.comp_apply, hcells cell hcell]
  rfl

/-- Parts are filled with what is answered when their slots are read. -/
theorem zip_fill (parts : List (Part Slot Place)) (view : View) (now : Stamp) :
    (((parts.flatMap Part.items).zip ((view.fill (m := Supply) parts now).1.1.flatMap Part.items),
      (view.fill (m := Supply) parts now).1.2), (view.fill (m := Supply) parts now).2) =
        view.read (m := Supply) (parts.flatMap Part.items) now := by
  have hanswers := read_eq_cells (parts.flatMap Part.items) view now
  rw [List.map_prod_left_eq_zip, ← Part.flatMap_items_map] at hanswers
  exact congrArg (fun answers => ((answers, _), _)) hanswers.symm

/-- Once slots are read, their cells hold views of what is found in them. -/
theorem Shows.cells (h : view.Shows) (slots : List Slot) (now : Stamp) : ∃ stamp,
    ∀ slot ∈ slots, ((view.read (m := Supply) slots now).1.2.cached? slot).join.map node =
      view.node.shownAt stamp slot := by
  obtain ⟨hnode, hshows⟩ := h.read slots now
  have hcell : ∀ slot ∈ slots, ∃ stamp,
      ((view.read (m := Supply) slots now).1.2.cached? slot).join.map node =
        view.node.shownAt stamp slot := by
    intro slot hslot
    obtain ⟨hslots, hcells⟩ := read_answers slots view now
    rw [← hslots, List.mem_map] at hslot
    obtain ⟨cell, hcell, rfl⟩ := hslot
    obtain ⟨stamp, hstamp⟩ := hshows cell.1 cell.2 (hcells cell hcell)
    exact ⟨stamp, by rw [hcells cell hcell, ← hnode, hstamp]; rfl⟩
  -- the reduction fixes the stamp; for the other slots any stamp will do
  by_cases hmem : Slot.reduction ∈ slots
  · obtain ⟨stamp, hstamp⟩ := hcell .reduction hmem
    refine ⟨stamp, fun slot hslot => ?_⟩
    by_cases heq : slot = .reduction
    · rw [heq, hstamp]
    · obtain ⟨stamp', hstamp'⟩ := hcell slot hslot
      rw [hstamp', Node.shownAt_eq_of_ne heq]
  · refine ⟨now, fun slot hslot => ?_⟩
    obtain ⟨stamp', hstamp'⟩ := hcell slot hslot
    rw [hstamp', Node.shownAt_eq_of_ne fun heq => hmem (heq ▸ hslot)]

/-- Parts are filled with views of what is found in their slots. -/
theorem Shows.fill (h : view.Shows) (parts : List (Part Slot Place)) (now : Stamp)
    (g : Place → Option (Nested Node)) : ∃ stamp,
    (view.fill (m := Supply) parts now).1.1.map (Part.map (·.map node) g) =
      parts.map (Part.map (view.node.shownAt stamp) g) := by
  obtain ⟨stamp, hcells⟩ := h.cells (parts.flatMap Part.items) now
  refine ⟨stamp, ?_⟩
  have hfill : (view.fill (m := Supply) parts now).1.1 = parts.map (Part.map (fun slot =>
      ((view.read (m := Supply) (parts.flatMap Part.items) now).1.2.cached? slot).join) id) := rfl
  rw [hfill, List.map_map]
  refine List.map_congr_left fun part hpart => ?_
  have hitems := fun slot (hslot : slot ∈ part.items) =>
    hcells slot (List.mem_flatMap.mpr ⟨part, hpart, hslot⟩)
  cases part with
  | node slot => exact congrArg Part.node (hitems slot (by simp [Part.items]))
  | nodes slots =>
    refine congrArg Part.nodes ?_
    rw [List.map_map]
    exact List.map_congr_left fun slot hslot => hitems slot hslot
  | nested places => simp [Part.map]
  | datum given => rfl

/-- A view is taken apart into views of the parts of its node. -/
theorem Shows.deconstruct (h : view.Shows) (now : Stamp) : ∃ stamp,
    (view.deconstruct (m := Supply) now).1.1.map
        (Part.map (·.map node) (Shape.nested? · view.node.shape)) =
      view.node.components (view.node.shownAt stamp .reduction) := by
  obtain ⟨stamp, hparts⟩ := h.fill view.node.opened now (Shape.nested? · view.node.shape)
  exact ⟨stamp, hparts.trans (view.node.map_opened stamp)⟩

/-- The view of a nested structure is taken apart into views of the parts of that structure. -/
theorem Shows.deconstructAt (h : view.Shows) (place : Place) (now : Stamp) :
    (view.deconstructAt (m := Supply) place now).1.1.map
        (·.map (Part.map (·.map node) (Shape.nested? · view.node.shape))) =
      (view.node.shape.nested? place).map Nested.components := by
  unfold View.deconstructAt
  cases hnested : view.node.shape.nested? place with
  | none => rfl
  | some nested =>
    obtain ⟨stamp, hparts⟩ := h.fill (nested.opened place) now (Shape.nested? · view.node.shape)
    exact congrArg some (hparts.trans (view.node.map_opened_nested stamp hnested))

end View

end ExprTree
