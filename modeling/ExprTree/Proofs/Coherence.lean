import ExprTree.Proofs.Preservation
import ExprTree.Proofs.QueryGuard
import ExprTree.Proofs.Slots
import ExprTree.Proofs.Upkeep
import ExprTree.Proofs.WellFormed

/-!
# Coherent trees

A node is coherent if its shape is that of its kind. Factories, updates and rewritings give trees
that are coherent throughout: a factory checks the kind that it is given, an update refuses shapes
of another family, and a rewriting keeps the frame of each shape that it rebuilds.

Views and comparisons rely on it. A view is chosen by the kind of a node and reads its shape, and a
comparison looks at two shapes after it has found the kinds to be equal. In coherent trees neither
of them ever meets a shape that it cannot deal with.
-/

namespace ExprTree

namespace Node

variable {e n child r : Node}

/-- All that the tree holds is coherent, inside of extensions and payloads too. -/
def AllCoherent (n : Node) : Prop :=
  ∀ inner, n.Reaches Shape.handles inner → inner.isCoherent = true

/-- A tree is coherent if its root is and all that the root holds. -/
theorem allCoherent_iff : n.AllCoherent ↔
    n.kind.family = n.shape.family ∧ ∀ child ∈ n.shape.handles, child.AllCoherent :=
  forall_reaches_iff.trans (and_congr_left' decide_eq_true_iff)

/-! ## Trees that are made are coherent -/

/-- An update gives the node itself or one with the new shape, which is of the family of the
kind. -/
theorem update_eq_ok {shape : Shape Node} {next : Stamp}
    (h : (n.update (m := Supply) shape next).1 = .ok r) :
    shape.family = n.kind.family ∧ (r = n ∨ r = ⟨next, n.kind, n.type, shape⟩) := by
  unfold update rebuild at h
  split at h
  · rename_i hfamily
    refine ⟨hfamily, ?_⟩
    split at h
    · exact .inl (Except.ok.inj h).symm
    · exact .inr (Except.ok.inj h).symm
  · cases h

/-- A tree that comes from calls of factories, from updates that were not refused, and from
rewritings by rules that answered with such trees. -/
inductive Made : Node → Prop where
  | returned {operands : List Node} {next : Stamp} {r : Node}
      (factory : Factory.Returns operands next r) (held : ∀ x ∈ operands, Made x) : Made r
  | updated {n r : Node} {shape : Shape Node} {next : Stamp} (node : Made n)
      (held : ∀ x ∈ shape.handles, Made x)
      (accepted : (n.update (m := Supply) shape next).1 = .ok r) : Made r
  | rewritten {σ : Type} {e : Node} (tree : Made e) (direction : Direction)
      (f : Node → StateT σ Supply Node) (state : σ) (next : Stamp)
      (answers : ∀ call ∈ (e.rewrite direction (recording f) ([], state) next).1.2.1, Made call.2) :
    Made (e.rewrite direction f state next).1.1

/-- Coherence goes down to children and up from them. -/
theorem upkeep_allCoherent : Upkeep fun a b => a.AllCoherent ∧ b.AllCoherent where
  left h := ⟨h.1, h.1⟩
  right h := ⟨h.2, h.2⟩
  trans h h' := ⟨h.1, h'.2⟩
  child hn child hc := by
    have hchild := (allCoherent_iff.mp hn.1).2 child (Shape.mem_handles_of_mem_children hc)
    exact ⟨hchild, hchild⟩
  rebuilt := by
    intro n shape stamp hn hleaf hshape
    have hleaf' : shape.isLeaf = false := by
      rw [← Shape.isLeaf_eq_of_frame_eq hshape.frame]
      exact hleaf
    refine ⟨hn.1, allCoherent_iff.mpr ⟨?_, fun child hc => ?_⟩⟩
    · rw [(allCoherent_iff.mp hn.1).1]
      refine Shape.family_eq_of_skeleton_eq ?_
      rw [Shape.skeleton, Shape.skeleton, hshape.frame]
    · rw [Shape.handles_eq_children hleaf'] at hc
      obtain ⟨old, -, h⟩ := exists_of_mem_forall₂ hshape.children hc
      exact h.2

/-- What is made is coherent. -/
theorem Made.allCoherent (h : e.Made) : e.AllCoherent := by
  induction h with
  | returned factory _ ih =>
    obtain ⟨hwf, hhandles⟩ := factory.wellFormed
    exact allCoherent_iff.mpr ⟨hwf.coherent, hhandles ▸ ih⟩
  | updated _ _ accepted ihn ih =>
    obtain ⟨hfamily, rfl | rfl⟩ := update_eq_ok accepted
    · exact ihn
    · exact allCoherent_iff.mpr ⟨hfamily.symm, ih⟩
  | rewritten _ direction f state next _ ihe ih =>
    have hcalls : Answered (fun a b => a.AllCoherent ∧ b.AllCoherent)
        (rewrite direction (recording f) _ ([], state) next).1.2.1 := fun call hc hold =>
      ⟨hold.1, ih call hc⟩
    exact (upkeep_allCoherent.rewrite ⟨ihe, ihe⟩ hcalls).2

/-- From a node one gets to its children, to what an extension is reduced to, and to the roots of
the queries in a constant. -/
inductive Leads : Node → Node → Prop where
  | child {n child : Node} (held : child ∈ n.shape.children) : Leads n child
  | reduction {n r : Node} {stamp : Stamp} {custom : Extension Node} {next : Stamp}
      (extended : n.shape = .extension stamp custom)
      (reduced : (custom.reduce (m := Supply) next).1 = some r) : Leads n r
  | root {n root : Node} {value : Value Node} (payload : n.shape = .constant value)
      (held : root ∈ value.roots) : Leads n root

/-- What an extension of coherent nodes is reduced to is coherent. -/
theorem allCoherent_of_reduceAt {custom : Extension Node} {stamp : Stamp}
    (h : ∀ x ∈ custom.operand?.toList, x.AllCoherent) (hr : custom.reduceAt stamp = some r) :
    r.AllCoherent := by
  cases custom with
  | doubled operand =>
    have hoperand : operand.AllCoherent := h operand (by simp [Extension.operand?])
    obtain rfl := Option.some.inj hr
    refine allCoherent_iff.mpr ⟨rfl, fun child hc => ?_⟩
    obtain rfl : child = operand := by simpa [Shape.handles, Shape.children] using hc
    exact hoperand
  | standIn operand =>
    obtain rfl := Option.some.inj hr
    exact h operand (by simp [Extension.operand?])
  | sealed tag type => cases hr
  | other text type prototype anew =>
    simp only [Extension.reduceAt, Option.map_eq_some_iff] at hr
    obtain ⟨held, rfl, rfl⟩ := hr
    have hheld : held.AllCoherent := h held (by simp [Extension.operand?])
    obtain ⟨hown, hbelow⟩ := allCoherent_iff.mp hheld
    split
    · exact allCoherent_iff.mpr ⟨hown, hbelow⟩
    · exact hheld

/-- What a coherent tree leads to is coherent. -/
theorem AllCoherent.of_leads (h : n.AllCoherent) (hr : n.Leads r) : r.AllCoherent := by
  have hhandles := (allCoherent_iff.mp h).2
  cases hr with
  | child held => exact hhandles r (Shape.mem_handles_of_mem_children held)
  | reduction extended reduced =>
    rw [extended] at hhandles
    exact allCoherent_of_reduceAt hhandles reduced
  | root payload held =>
    rw [payload] at hhandles
    exact hhandles r held

/-- What a coherent tree leads to in any number of steps is coherent. -/
theorem AllCoherent.of_leads_many (h : e.AllCoherent) (hr : Relation.ReflTransGen Leads e r) :
    r.AllCoherent := by
  induction hr with
  | refl => exact h
  | tail _ hstep ih => exact ih.of_leads hstep

end Node

/-! ## Views are dispatched and read without fault -/

namespace View

variable {e child : Node} {view shown : View} {slot : Slot} {next : Stamp}

/-- The views are chosen by the families of the kinds. -/
theorem familyFor_eq_family (kind : Kind) : familyFor kind = kind.family := by
  cases kind <;> rfl

/-- The node has the shape which its view is chosen for. -/
theorem family_eq_familyFor (h : e.AllCoherent) : e.shape.family = familyFor e.kind := by
  rw [familyFor_eq_family]
  exact (Node.allCoherent_iff.mp h).1.symm

/-- Reads a slot and makes sure that the node has the shape which the view was chosen for, and that
what the slot shows has the shape of its kind. -/
def ask (slot : Slot) (view : View) : Supply (Except ViewError (Option View × View)) := do
  if view.node.shape.family = familyFor view.variant then
    match view.cached? slot with
    | some shown => return .ok (shown, view)
    | none =>
      match ← view.shown? slot with
      | some child =>
        match dispatch child with
        | .ok shown => return .ok (some shown, view.store slot shown)
        | .error error => return .error error
      | none => return .ok (none, view.store slot none)
  else
    return .error ⟨familyFor view.variant, view.node.kind⟩

/-- A view of the tree that was got by dispatching its root and by reading slots of such views, in
any order, with whatever such views in its cells. -/
inductive Obtained (e : Node) : View → Prop where
  | root {view : View} (dispatched : dispatch e = .ok view) : Obtained e view
  | shown {view shown after : View} {slot : Slot} {next : Stamp} (asked : Obtained e view)
      (read : (view.ask slot next).1 = .ok (some shown, after)) : Obtained e shown
  | after {view after : View} {found : Option View} {slot : Slot} {next : Stamp}
      (asked : Obtained e view) (read : (view.ask slot next).1 = .ok (found, after)) :
    Obtained e after
  | stored {view shown : View} {slot : Slot} (outer : Obtained e view) (inner : Obtained e shown) :
    Obtained e (view.store slot shown)

/-- The nodes of the view and of the views in its cells are coherent. -/
inductive AllCoherent : View → Prop where
  | mk {node : Node} {cells : List (Slot × Option View)} (coherent : node.AllCoherent)
      (held : ∀ cell ∈ cells, ∀ shown ∈ cell.2, AllCoherent shown) : AllCoherent (.mk node cells)

/-- A coherent node is dispatched to the view of its kind. -/
theorem dispatch_eq_ok (h : e.AllCoherent) : dispatch e = .ok (wrap e) :=
  if_pos (family_eq_familyFor h)

/-- The node of a coherent view is coherent. -/
theorem AllCoherent.node (h : view.AllCoherent) : view.node.AllCoherent := by
  cases h with
  | mk coherent held => exact coherent

/-- What is in a cell of a coherent view is coherent. -/
theorem AllCoherent.of_cached (h : view.AllCoherent) {found : Option View}
    (hc : view.cached? slot = some found) : ∀ shown ∈ found, shown.AllCoherent := by
  cases h with
  | mk coherent held =>
    obtain ⟨before, after, hcells, -⟩ := List.lookup_eq_some_iff.mp hc
    exact held (slot, found) (by simp [View.cells] at hcells; simp [hcells])

/-- A view of a coherent node that has resolved nothing is coherent. -/
theorem AllCoherent.wrap (h : e.AllCoherent) : (wrap e).AllCoherent := .mk h (by simp)

/-- A coherent view can be put in a cell of a coherent view. -/
theorem AllCoherent.store (h : view.AllCoherent) {found : Option View}
    (hs : ∀ shown ∈ found, shown.AllCoherent) (slot : Slot) :
    (view.store slot found).AllCoherent := by
  cases h with
  | mk coherent held =>
    refine .mk coherent fun cell hc => ?_
    rcases mem_put hc with rfl | hc
    · exact hs
    · exact held cell hc

/-- A slot shows what an extension is reduced to, or nothing, or a child. -/
theorem shown?_cases (slot : Slot) (view : View) :
    (∃ stamp custom, view.node.shape = .extension stamp custom ∧
      view.shown? (m := Supply) slot = custom.reduce) ∨
    view.shown? (m := Supply) slot = pure none ∨
    view.shown? (m := Supply) slot = pure (view.node.shape.slotted.children.lookup slot) := by
  unfold shown?
  split
  · rename_i stamp custom hshape
    exact .inl ⟨stamp, custom, hshape, rfl⟩
  · exact .inr (.inl rfl)
  · exact .inr (.inr rfl)

/-- What a slot of a coherent node shows is coherent. -/
theorem allCoherent_of_shown (h : view.node.AllCoherent)
    (hs : (view.shown? (m := Supply) slot next).1 = some child) : child.AllCoherent := by
  rcases shown?_cases slot view with ⟨stamp, custom, hshape, hread⟩ | hread | hread
  · rw [hread] at hs
    exact h.of_leads (.reduction hshape hs)
  · rw [hread] at hs
    cases hs
  · rw [hread] at hs
    exact h.of_leads (.child (Shape.mem_children_of_lookup hs))

/-- Reading a slot of a coherent view raises no fault. -/
theorem ask_eq (h : view.AllCoherent) (slot : Slot) :
    view.ask slot = Except.ok <$> view.resolve slot := by
  have hnode := h.node
  funext next
  unfold ask resolve
  rw [variant, if_pos (family_eq_familyFor hnode)]
  cases hcached : view.cached? slot with
  | some shown => rfl
  | none =>
    dsimp only
    rw [map_bind, bind_apply, bind_apply]
    cases hshown : (view.shown? (m := Supply) slot next).1 with
    | none => rfl
    | some child =>
      have hchild : dispatch child = .ok (wrap child) :=
        dispatch_eq_ok (allCoherent_of_shown hnode hshown)
      simp only [hchild]
      rfl

/-- What a coherent view resolves is coherent, and so is the view with what it resolved. -/
theorem AllCoherent.resolve (h : view.AllCoherent) (slot : Slot) (next : Stamp) :
    (∀ shown ∈ (view.resolve (m := Supply) slot next).1.1, shown.AllCoherent) ∧
      (view.resolve (m := Supply) slot next).1.2.AllCoherent := by
  unfold View.resolve
  cases hcached : view.cached? slot with
  | some found => exact ⟨h.of_cached hcached, h⟩
  | none =>
    dsimp only
    rw [bind_apply]
    have hfound : ∀ shown ∈ (view.shown? (m := Supply) slot next).1.map View.wrap,
        shown.AllCoherent := by
      intro shown hs
      obtain ⟨child, hchild, rfl⟩ := Option.map_eq_some_iff.mp hs
      exact .wrap (allCoherent_of_shown h.node hchild)
    exact ⟨hfound, h.store hfound slot⟩

/-- All views that are got from a coherent tree are coherent. -/
theorem Obtained.allCoherent (he : e.AllCoherent) (h : Obtained e view) : view.AllCoherent := by
  induction h with
  | root dispatched =>
    rw [dispatch_eq_ok he] at dispatched
    obtain rfl := Except.ok.inj dispatched
    exact .wrap he
  | @shown view shown after slot next asked read ih =>
    rw [ask_eq ih] at read
    have hread : (view.resolve (m := Supply) slot next).1 = (some shown, after) :=
      Except.ok.inj read
    exact (ih.resolve slot next).1 shown (congrArg Prod.fst hread)
  | @after view after found slot next asked read ih =>
    rw [ask_eq ih] at read
    have hread : (view.resolve (m := Supply) slot next).1 = (found, after) := Except.ok.inj read
    have hafter : (view.resolve (m := Supply) slot next).1.2 = after := congrArg Prod.snd hread
    rw [← hafter]
    exact (ih.resolve slot next).2
  | stored outer inner ih ih' =>
    refine ih.store (fun shown hs => ?_) _
    obtain rfl := Option.some.inj hs
    exact ih'

end View

/-! ## Comparisons meet no shape that they cannot compare -/

/-- The step never ends at shapes that cannot be compared. -/
def Accepts (step : CompareM Unit) : Prop :=
  ∀ progress kind found, (step.run.run progress).1 ≠ .error (.unsupported kind found)

/-- Every part of a comparison accepts what it is given if the comparison of nodes does. -/
theorem queryRules_accepts : QueryRules Accepts where
  pass _ _ _ := nofun
  fail _ _ _ _ := nofun
  seq := by
    intro first next hfirst hnext progress kind found
    have hdone := hfirst progress kind found
    rw [Settles.run_seq]
    generalize first.run.run progress = outcome at hdone ⊢
    rcases outcome with ⟨_ | _, after⟩
    · exact hdone
    · exact hnext after kind found
  note _ _ _ _ := nofun
  guarded := by
    intro again pair a b inner hagain hinner progress kind found
    change ((if progress.entered.contains pair then again a b else CompareM.within pair inner :
      CompareM Unit).run.run progress).1 ≠ _
    split
    · exact hagain progress kind found
    · exact hinner { progress with entered := pair :: progress.entered } kind found

namespace Node

variable {e e' : Node}

/-- The comparison of coherent trees meets no shapes that cannot be compared. -/
theorem compare_accepts (he : e.AllCoherent) (he' : e'.AllCoherent) (policy : ConstantPolicy) :
    Accepts (e.compare policy e') := by
  refine compare_holds queryRules_accepts policy e e' fun x y hx hy hkind hfamily => ?_
  have hx' : x.kind.family = x.shape.family := of_decide_eq_true (he x hx)
  have hy' : y.kind.family = y.shape.family := of_decide_eq_true (he' y hy)
  exact absurd (by rw [← hx', ← hy', hkind]) hfamily

/-- A comparer does not end at shapes that cannot be compared if the comparison does not. -/
theorem halt_ne_unsupported {comparer : Comparer} (h : Accepts (e.compare comparer.policy e'))
    (kind : Kind) (found : Family) :
    (comparer.run e e').1.halt ≠ some (.unsupported kind found) := by
  have haccepts := h ⟨[], []⟩ kind found
  unfold Comparer.run
  generalize (e.compare comparer.policy e').run.run ⟨[], []⟩ = outcome at haccepts ⊢
  obtain ⟨result, progress⟩ := outcome
  cases result with
  | ok _ => exact nofun
  | error halt =>
    intro hhalt
    exact haccepts (congrArg Except.error (Option.some.inj hhalt))

/-- All that a tree leads to is coherent if the tree comes from factories, updates and rewritings.
So each such node is dispatched to the view of its kind; no view that is got from it by reading
slots finds a shape that it was not chosen for; and no comparison with another such node ends at
shapes that cannot be compared. -/
theorem made_leads_to_no_fault (he : e.Made) {n : Node}
    (hn : Relation.ReflTransGen Leads e n) :
    n.isCoherent = true ∧ View.dispatch n = .ok (View.wrap n) ∧
      (∀ view, View.Obtained n view → ∀ slot, view.ask slot = Except.ok <$> view.resolve slot) ∧
      ∀ e' n' : Node, e'.Made → Relation.ReflTransGen Leads e' n' →
        ∀ (comparer : Comparer) (kind : Kind) (found : Family),
          (comparer.run n n').1.halt ≠ some (.unsupported kind found) := by
  have hcoherent : n.AllCoherent := he.allCoherent.of_leads_many hn
  refine ⟨hcoherent n .refl, View.dispatch_eq_ok hcoherent, ?_, ?_⟩
  · intro view hview slot
    exact View.ask_eq (hview.allCoherent hcoherent) slot
  · intro e' n' he' hn' comparer kind found
    have hcoherent' : n'.AllCoherent := he'.allCoherent.of_leads_many hn'
    exact halt_ne_unsupported (compare_accepts hcoherent hcoherent' comparer.policy) kind found

/-- A variable. -/
def sampleOperand : Node := ⟨0, .parameter, .i32, .parameter (some "x") false⟩

/-- The variable doubled. -/
def sampleExtension : Node := ⟨2, .extension, .i32, .extension 1 (.doubled sampleOperand)⟩

/-- A query for the variable. -/
def sampleQuery : Node := ⟨3, .constant, .object, .constant (.query sampleOperand .i32)⟩

/-- The query after the extension. -/
def sampleSequence : Node :=
  ⟨4, .block, .object, .block [] [sampleExtension, sampleQuery]⟩

/-- The block with its statements the other way round. -/
def sampleUpdated : Node :=
  ⟨5, .block, .object, .block [] [sampleQuery, sampleExtension]⟩

/-- Asked about any node, answers with its negation. -/
def negating (n : Node) : StateT Unit Supply Node := Factory.negate n

/-- The updated block comes from factories and an update. -/
theorem sampleUpdated_made : sampleUpdated.Made := by
  have hoperand : Factory.Returns [] 0 sampleOperand := .inl ⟨_, .parameter .i32 "x", rfl⟩
  have hextension : Factory.Returns [sampleOperand] 1 sampleExtension :=
    .inl ⟨_, .extension (.doubled sampleOperand), rfl⟩
  have hquery : Factory.Returns [sampleOperand] 3 sampleQuery :=
    .inl ⟨_, .typedConstant (.query sampleOperand .i32) .object, rfl⟩
  have hsequence : Factory.Returns [sampleExtension, sampleQuery] 4 sampleSequence :=
    .inr ⟨_, .block [] [sampleExtension, sampleQuery], rfl⟩
  have made₀ : sampleOperand.Made := .returned hoperand (by simp)
  have made₁ : sampleExtension.Made := .returned hextension (by simp [made₀])
  have made₂ : sampleQuery.Made := .returned hquery (by simp [made₀])
  have made₃ : sampleSequence.Made := .returned hsequence (by simp [made₁, made₂])
  have hupdate : (sampleSequence.update (m := Supply) sampleUpdated.shape 5).1 =
      .ok sampleUpdated := rfl
  have hhandles : ∀ x ∈ sampleUpdated.shape.handles, x.Made := by
    simp [sampleUpdated, Shape.handles, Shape.children, made₁, made₂]
  exact .updated made₃ hhandles hupdate

/-- The negation of the updated block comes from a rewriting. -/
theorem rewrite_sampleUpdated_made : (sampleUpdated.rewrite .forward negating () 6).1.1.Made := by
  have hrecord : (sampleUpdated.rewrite .forward (recording negating) ([], ()) 6).1.2.1 =
      [(sampleUpdated, (Factory.negate (m := Supply) sampleUpdated 6).1)] := by
    rw [rewrite, foldWith]
    rfl
  have hnegation : Factory.Returns [sampleUpdated] 6
      (Factory.negate (m := Supply) sampleUpdated 6).1 := .inl ⟨_, .negate sampleUpdated, rfl⟩
  refine .rewritten sampleUpdated_made .forward negating () 6 fun call hc => ?_
  rw [hrecord] at hc
  obtain rfl := List.mem_singleton.mp hc
  exact .returned hnegation (by simp [sampleUpdated_made])

/-- The root of the query in the updated block raises no fault when it is looked at or compared. -/
theorem made_leads_to_no_fault_sampleUpdated :
    sampleUpdated.Made ∧ Relation.ReflTransGen Leads sampleUpdated sampleOperand ∧
      (sampleUpdated.rewrite .forward negating () 6).1.1.Made ∧
      View.dispatch sampleOperand = .ok (View.wrap sampleOperand) ∧
      ∀ (comparer : Comparer) (kind : Kind) (found : Family),
        (comparer.run sampleOperand (sampleUpdated.rewrite .forward negating () 6).1.1).1.halt ≠
          some (.unsupported kind found) := by
  have hquery : Leads sampleUpdated sampleQuery := .child (by simp [sampleUpdated, Shape.children])
  have hroot : Leads sampleQuery sampleOperand := .root rfl (by simp [Value.roots])
  have hleads : Relation.ReflTransGen Leads sampleUpdated sampleOperand :=
    .tail (.single hquery) hroot
  obtain ⟨-, hdispatch, -, hcompare⟩ := made_leads_to_no_fault sampleUpdated_made hleads
  exact ⟨sampleUpdated_made, hleads, rewrite_sampleUpdated_made, hdispatch,
    hcompare _ _ rewrite_sampleUpdated_made .refl⟩

end Node

end ExprTree
