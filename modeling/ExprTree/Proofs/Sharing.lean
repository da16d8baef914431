import ExprTree.Proofs.FoldStep

/-!
# What a step of a folder shares

Initializers, bindings, cases and handlers are instances of their own inside a shape, and bindings
are nested in one another. A step of a folder decides for each of them, and for the node, whether
the old instance is kept. The components of a shape are listed at every depth, each with its place
among the children of the shape, so that the answers for the children inside it can be cut out of
the answers for the shape.

An instance is kept if and only if each child inside of it is answered by its own instance. What is
not kept stands at a stamp that was drawn in the step.
-/

namespace ExprTree

variable {α β σ : Type}

/-! ## Components of a shape -/

/-- A structure that is nested in a shape. -/
inductive Component (α : Type) where
  /-- An initializer of a list or of a binding. -/
  | initializer (item : ElementInit α)
  /-- A binding. -/
  | binding (item : Binding α)
  /-- A case of a switch. -/
  | branch (item : SwitchCase α)
  /-- A handler of a try. -/
  | handler (item : Handler α)

namespace Component

/-- The identity of the component. -/
def stamp : Component α → Stamp
  | .initializer item => item.stamp
  | .binding item => item.stamp
  | .branch item => item.stamp
  | .handler item => item.stamp

/-- The handles inside the component, at every depth. -/
def parts : Component α → List α
  | .initializer item => item.arguments
  | .binding item => item.children
  | .branch item => item.children
  | .handler item => item.children

end Component

/-- A component and the number of children of the shape that come before its parts. -/
structure Placed (α : Type) where
  /-- How many children come before. -/
  before : Nat
  /-- The component. -/
  component : Component α

/-- The items that stand where the parts of the component stand among the children. -/
def Placed.cut (placed : Placed α) (items : List β) : List β :=
  (items.drop placed.before).take placed.component.parts.length

/-- The components of a list, one after the other. -/
def listed {κ : Type} (component : κ → Component α) (before : Nat) : List κ → List (Placed α)
  | [] => []
  | item :: rest =>
    ⟨before, component item⟩ :: listed component (before + (component item).parts.length) rest

namespace Binding

mutual

/-- The components inside a binding. -/
def inside (before : Nat) : Binding α → List (Placed α)
  | .assignment _ _ _ => []
  | .list _ _ initializers => listed .initializer before initializers
  | .nested _ _ bindings => components before bindings

/-- The bindings of a list and the components inside them. -/
def components (before : Nat) : List (Binding α) → List (Placed α)
  | [] => []
  | binding :: rest => ⟨before, .binding binding⟩ ::
    (binding.inside before ++ components (before + binding.children.length) rest)

end

/-- The identity of a binding says nothing about what is inside. -/
@[simp] theorem inside_withStamp (before : Nat) (stamp : Stamp) (binding : Binding α) :
    (binding.withStamp stamp).inside before = binding.inside before := by
  cases binding <;> simp [withStamp, inside]

end Binding

namespace Shape

/-- The components of a shape, at every depth. -/
def components : Shape α → List (Placed α)
  | .listInit _ initializers => listed .initializer 1 initializers
  | .memberInit _ bindings => Binding.components 1 bindings
  | .switch _ branches _ _ => listed .branch 1 branches
  | .tryCatch _ handlers _ _ => listed .handler 1 handlers
  | _ => []

/-- Four families have components. -/
theorem components_eq_nil {shape : Shape α}
    (h : shape.family ∉ [Family.listInit, .memberInit, .switch, .tryCatch]) :
    shape.components = [] := by
  cases shape <;> first | rfl | simp [family] at h

end Shape

/-! ## Components and children -/

/-- The parts of a component are cut out where there are as many children before them as was
counted. -/
theorem Placed.cut_append {component : Component α} (before after : List α) :
    (Placed.mk before.length component).cut (before ++ (component.parts ++ after)) =
      component.parts := by
  rw [cut, List.drop_left, List.take_left]

/-- The parts of components of a list are cut out of what the list holds. -/
theorem cut_listed {κ : Type} {component : κ → Component α} {placed : Placed α} {items : List κ}
    (before after : List α) (h : placed ∈ listed component before.length items) :
    placed.cut (before ++ (items.flatMap (fun item => (component item).parts) ++ after)) =
      placed.component.parts := by
  induction items generalizing before with
  | nil => simp [listed] at h
  | cons item rest ih =>
    rw [List.flatMap_cons, List.append_assoc]
    rcases List.mem_cons.mp h with rfl | h
    · exact Placed.cut_append before _
    · rw [← List.length_append] at h
      have hrest := ih (before ++ (component item).parts) h
      rw [List.append_assoc] at hrest
      exact hrest

mutual

/-- The parts of components inside a binding are cut out of what the binding holds. -/
theorem Binding.cut_inside {placed : Placed α} : ∀ (binding : Binding α) (before after : List α),
    placed ∈ binding.inside before.length →
    placed.cut (before ++ (binding.children ++ after)) = placed.component.parts
  | .assignment _ _ _, before, after, h => by simp [inside] at h
  | .list _ _ inits, before, after, h => by
    have hcut := cut_listed before after h
    rw [children, ElementInit.argumentsOfList_eq_flatMap]
    exact hcut
  | .nested _ _ bindings, before, after, h => by
    rw [inside] at h
    exact Binding.cut_components bindings before after h

/-- The parts of bindings and of components inside them are cut out of what the bindings hold. -/
theorem Binding.cut_components {placed : Placed α} :
    ∀ (bindings : List (Binding α)) (before after : List α),
    placed ∈ components before.length bindings →
    placed.cut (before ++ (childrenOfList bindings ++ after)) = placed.component.parts
  | [], before, after, h => by simp [components] at h
  | binding :: rest, before, after, h => by
    rw [components, List.mem_cons, List.mem_append] at h
    rw [childrenOfList, List.append_assoc]
    rcases h with rfl | h | h
    · exact Placed.cut_append before _
    · exact Binding.cut_inside binding before _ h
    · rw [← List.length_append] at h
      have hrest := Binding.cut_components rest (before ++ binding.children) after h
      rw [List.append_assoc] at hrest
      exact hrest

end

/-- The parts of a component are the children of the shape at its place. -/
theorem Shape.cut_children {placed : Placed α} {shape : Shape α} (h : placed ∈ shape.components) :
    placed.cut shape.children = placed.component.parts := by
  cases shape with
  | listInit creation inits =>
    have hcut := cut_listed [creation] [] h
    rw [List.append_nil] at hcut
    rw [children, ElementInit.argumentsOfList_eq_flatMap]
    exact hcut
  | memberInit creation bindings =>
    have hcut := Binding.cut_components bindings [creation] [] h
    rw [List.append_nil] at hcut
    exact hcut
  | switch subject branches otherwise comparison =>
    have hcut := cut_listed [subject] otherwise.toList h
    rw [children, SwitchCase.childrenOfList_eq_flatMap]
    exact hcut
  | tryCatch body handlers cleanup fault =>
    have hcut := cut_listed [body] (cleanup.toList ++ fault.toList) h
    rw [children, Handler.childrenOfList_eq_flatMap, List.append_assoc]
    exact hcut
  | _ => simp [components] at h

/-! ## Sharing -/

/-- A component before and after a step in which the answers were given for its parts. The old
instance is kept if and only if each part is answered by its own instance; a new one stands at a
stamp that was drawn. -/
structure Component.Shared (first : Stamp) (answers : List Node) (was now : Component Node) :
    Prop where
  /-- The instance is the old one if and only if the answers are the parts. -/
  same_iff : now.stamp = was.stamp ↔
    List.Forall₂ (fun answer part => answer.same part = true) answers was.parts
  /-- The old instance is as it was. -/
  kept : now.stamp = was.stamp → now = was
  /-- A new instance stands at a stamp that was drawn. -/
  drawn : now.stamp ≠ was.stamp → first ≤ now.stamp

/-- Lists of instances are the same as a third list if they are the same as each other. -/
theorem forall₂_same_congr {nodes nodes' others : List Node}
    (h : List.Forall₂ (fun node node' => node.same node' = true) nodes nodes') :
    List.Forall₂ (fun node other => node.same other = true) nodes others ↔
      List.Forall₂ (fun node other => node.same other = true) nodes' others := by
  induction h generalizing others with
  | nil => rfl
  | @cons node node' _ _ hsame _ ih =>
    have hstamp : node.stamp = node'.stamp := of_decide_eq_true hsame
    cases others with
    | nil => simp
    | cons other rest => rw [List.forall₂_cons, List.forall₂_cons, ih, Node.same, Node.same, hstamp]

/-- Only the identities of the answers matter. -/
theorem Component.Shared.congr {first : Stamp} {answers answers' : List Node}
    {was now : Component Node} (h : Shared first answers was now)
    (hanswers : List.Forall₂ (fun node answer => node.same answer = true) answers answers') :
    Shared first answers' was now :=
  ⟨h.same_iff.trans (forall₂_same_congr hanswers), h.kept, h.drawn⟩

/-- The second component has the place and size of the first, and what it holds decides whether it
is the first. -/
structure Placed.Reused (first : Stamp) (was now : Placed Node) : Prop where
  /-- The place is the same. -/
  before : now.before = was.before
  /-- There are as many parts as before. -/
  length : now.component.parts.length = was.component.parts.length
  /-- The component is kept if and only if its parts are. -/
  shared : was.component.Shared first now.component.parts now.component

namespace Placed.Reused

variable {first : Stamp}

/-- What is kept is reused. -/
theorem refl (placed : Placed Node) : placed.Reused first placed :=
  ⟨rfl, rfl, ⟨fun _ => forall₂_same_self _, fun _ => rfl⟩, fun _ => rfl, fun h => absurd rfl h⟩

/-- Components that are all kept are all reused. -/
theorem refl_list (components : List (Placed Node)) :
    List.Forall₂ (Placed.Reused first) components components :=
  List.forall₂_same.mpr fun placed _ => refl placed

end Placed.Reused

/-- What stands in a part of a rewriting is the same as what was there if and only if the part is
kept. -/
theorem Handles.same_iff {first : Stamp} {f : α → StateT σ Supply Node} {old : α → Node}
    {w w' : Moment σ} {items : List α} {now : List Node} {kept : Prop}
    (h : Handles first True f old w items now kept w') (hw : first ≤ w.2) :
    first ≤ w'.2 ∧ now.length = (items.map old).length ∧
      (kept ↔ List.Forall₂ (fun node part => node.same part = true) now (items.map old)) := by
  obtain ⟨answers, hpasses, hkept, hdistinct⟩ := h fun _ => hw
  obtain ⟨hfirst, hstands, hsame⟩ := hdistinct trivial
  have hcongr := @forall₂_same_congr _ _ (items.map old) hstands.same_answers
  have hlength : now.length = answers.length := hstands.same_answers.length_eq
  rw [List.length_map, hpasses.length_eq]
  exact ⟨hfirst, hlength, ⟨fun hk => hcongr.mpr (hsame hk), fun hs => hkept (hcongr.mp hs)⟩⟩

/-! ## Components of a rewriting -/

section Rewriting

variable {first : Stamp} {f : α → StateT σ Supply Node} {old : α → Node} {w w' : Moment σ}

/-- A component whose parts were asked for is reused: it is kept if and only if they are, and
otherwise a stamp was drawn for it. -/
theorem Handles.reused {κ φ : Type} {frame : κ → φ} {x : StateT σ Supply κ} {items : List α}
    {was now : κ} {kept : Prop} (component : κ → Component Node) (before : Nat)
    (h : Handles first True f old w items (component now).parts kept w') (hw : first ≤ w.2)
    (hx : (drawLogic σ first).Yields w.2 x fun _ => Reworked frame (fun k => (component k).parts)
      (fun k => (component k).stamp) first (fun _ _ => True) was)
    (hrun : Runs x w now w') (hparts : (component was).parts = items.map old)
    (hkept : kept ↔ (component now).stamp = (component was).stamp)
    (hstamp : (component was).stamp < first) :
    first ≤ w'.2 ∧ Placed.Reused first ⟨before, component was⟩ ⟨before, component now⟩ := by
  obtain ⟨hw', hlength, hsame⟩ := h.same_iff hw
  rw [← hparts] at hlength hsame
  obtain ⟨-, hreworked⟩ := hx.after w.2 (le_refl _) hw w.1 now w' hrun
  have hnow := hreworked.kept
  refine ⟨hw', rfl, hlength, hkept.symm.trans hsame, fun heq => ?_, fun hne => ?_⟩
  · rcases hnow with rfl | hdrawn
    · rfl
    · rw [heq] at hdrawn
      exact absurd hstamp (Nat.not_lt_of_le hdrawn)
  · exact hnow.resolve_left fun heq => hne (by rw [heq])

/-- An initializer is kept if and only if its arguments are. -/
theorem ElementInit.rewrite_reused {init : ElementInit α} {init' : ElementInit Node}
    (hf : DrawsOnly f) (hs : init.stamp < first) (before : Nat) (hw : first ≤ w.2)
    (h : Runs (init.rewrite old f) w init' w') :
    first ≤ w'.2 ∧
      Placed.Reused first ⟨before, .initializer (init.map old)⟩ ⟨before, .initializer init'⟩ := by
  have hhandles := rewrite_handles hf.keepsBound (fun _ => hs) h
  have hyields := @rewrite_yields _ _ _ _ _ old _ _ w.2 _ _ (tracks_any first) init
    fun x _ => hf.yields w.2 x
  exact hhandles.reused .initializer before hw hyields h rfl decide_eq_true_iff hs

/-- A case is kept if and only if its tests and its body are. -/
theorem SwitchCase.rewrite_reused {branch : SwitchCase α} {branch' : SwitchCase Node}
    (hf : DrawsOnly f) (hs : branch.stamp < first) (before : Nat) (hw : first ≤ w.2)
    (h : Runs (branch.rewrite old f) w branch' w') :
    first ≤ w'.2 ∧
      Placed.Reused first ⟨before, .branch (branch.map old)⟩ ⟨before, .branch branch'⟩ := by
  have hhandles := rewrite_handles hf.keepsBound (fun _ => hs) h
  have hyields := @rewrite_yields _ _ _ _ _ old _ _ w.2 _ _ (tracks_any first) branch
    fun x _ => hf.yields w.2 x
  have hparts := children_map old branch
  exact hhandles.reused .branch before hw hyields h hparts decide_eq_true_iff hs

/-- A handler is kept if and only if its variable, its filter and its body are. -/
theorem Handler.rewrite_reused {handler : Handler α} {handler' : Handler Node}
    (hf : DrawsOnly f) (hs : handler.stamp < first) (before : Nat) (hw : first ≤ w.2)
    (h : Runs (handler.rewrite old f) w handler' w') :
    first ≤ w'.2 ∧
      Placed.Reused first ⟨before, .handler (handler.map old)⟩ ⟨before, .handler handler'⟩ := by
  have hhandles := rewrite_handles hf.keepsBound (fun _ => hs) h
  have hyields := @rewrite_yields _ _ _ _ _ old _ _ w.2 _ _ (tracks_any first) handler
    fun x _ => hf.yields w.2 x
  have hparts := children_map old handler
  exact hhandles.reused .handler before hw hyields h hparts decide_eq_true_iff hs

/-- A binding is kept if and only if all handles in it are. -/
theorem Binding.rewrite_reused {binding : Binding α} {binding' : Binding Node}
    (hf : DrawsOnly f) (hs : ∀ stamp ∈ binding.stamps, stamp < first) (before : Nat)
    (hw : first ≤ w.2) (h : Runs (binding.rewrite old f) w binding' w') :
    first ≤ w'.2 ∧
      Placed.Reused first ⟨before, .binding (binding.map old)⟩ ⟨before, .binding binding'⟩ := by
  have hstamp : (binding.map old).stamp < first := by
    cases binding <;> exact hs _ List.mem_cons_self
  have hhandles := rewrite_handles hf.keepsBound binding (fun _ => hs) h
  have hyields := @rewrite_yields _ _ _ _ _ old _ _ w.2 _ _ (tracks_any first) binding (fun _ => hs)
    fun x _ => hf.yields w.2 x
  have hparts := children_map old binding
  exact hhandles.reused .binding before hw hyields h hparts decide_eq_true_iff hstamp

/-- Components that are rewritten one by one are reused if each of them is. -/
theorem listed_reused {κ κ' : Type} {g : κ → StateT σ Supply κ'} {image : κ → κ'}
    {component : κ' → Component Node} {ks : List κ} {ks' : List κ'}
    (hg : ∀ k ∈ ks, ∀ w k' w' before, first ≤ w.2 → Runs (g k) w k' w' →
      first ≤ w'.2 ∧ Placed.Reused first ⟨before, component (image k)⟩ ⟨before, component k'⟩)
    (before : Nat) (hw : first ≤ w.2) (h : Runs (ks.mapM g) w ks' w') :
    List.Forall₂ (Placed.Reused first) (listed component before (ks.map image))
      (listed component before ks') := by
  induction ks generalizing w ks' before with
  | nil =>
    rw [List.mapM_nil, runs_pure] at h
    obtain ⟨rfl, rfl⟩ := h
    exact .nil
  | cons k ks ih =>
    simp only [List.mapM_cons, runs_bind, runs_pure] at h
    obtain ⟨k', w₁, hk, ks'', w₂, hks, rfl, rfl⟩ := h
    obtain ⟨hw₁, hreused⟩ := hg k List.mem_cons_self w k' w₁ before hw hk
    have hrest := ih (fun k hk => hg k (List.mem_cons_of_mem _ hk))
      (before + (component (image k)).parts.length) hw₁ hks
    have hlength : (component k').parts.length = (component (image k)).parts.length :=
      hreused.length
    rw [List.map_cons, listed, listed, hlength]
    exact .cons hreused hrest

/-- The initializers of a list are reused. -/
theorem ElementInit.mapM_rewrite_reused {inits : List (ElementInit α)}
    {inits' : List (ElementInit Node)} (hf : DrawsOnly f) (hs : ∀ init ∈ inits, init.stamp < first)
    (before : Nat) (hw : first ≤ w.2)
    (h : Runs (inits.mapM (ElementInit.rewrite old f)) w inits' w') :
    List.Forall₂ (Placed.Reused first) (listed .initializer before (inits.map (·.map old)))
      (listed .initializer before inits') :=
  listed_reused (fun init hi _ _ _ before hw hinit =>
    rewrite_reused hf (hs init hi) before hw hinit) before hw h

/-- What is inside a binding is reused if it is in the contents that the binding is updated to. -/
theorem Binding.update_inside {was contents now : Binding Node} (before : Nat)
    (hc : List.Forall₂ (Placed.Reused first) (was.inside before) (contents.inside before))
    (h : Runs (was.update contents) w now w') :
    List.Forall₂ (Placed.Reused first) (was.inside before) (now.inside before) := by
  unfold update at h
  split at h
  case isTrue =>
    obtain ⟨rfl, -⟩ := runs_pure.mp h
    exact Placed.Reused.refl_list _
  case isFalse =>
    obtain ⟨stamp, w₁, -, hnow⟩ := runs_bind.mp h
    obtain ⟨rfl, -⟩ := runs_pure.mp hnow
    rw [inside_withStamp]
    exact hc

mutual

/-- What is inside a binding is reused, at every depth. -/
theorem Binding.rewrite_inside (hf : DrawsOnly f) : ∀ (binding : Binding α)
    {binding' : Binding Node} {w w' : Moment σ} (before : Nat),
    (∀ stamp ∈ binding.stamps, stamp < first) → first ≤ w.2 →
    Runs (binding.rewrite old f) w binding' w' →
    List.Forall₂ (Placed.Reused first) ((binding.map old).inside before) (binding'.inside before)
  | .assignment stamp member value, binding', w, w', before, _, _, h => by
    rw [rewrite, runs_bind] at h
    obtain ⟨value', w₁, -, hupdate⟩ := h
    exact update_inside before .nil hupdate
  | .list stamp member inits, binding', w, w', before, hs, hw, h => by
    rw [rewrite, runs_bind] at h
    obtain ⟨inits', w₁, hinits, hupdate⟩ := h
    refine update_inside before ?_ hupdate
    refine ElementInit.mapM_rewrite_reused hf (fun init hi => ?_) before hw hinits
    exact hs init.stamp (List.mem_cons_of_mem _ (List.mem_map_of_mem hi))
  | .nested stamp member bindings, binding', w, w', before, hs, hw, h => by
    rw [rewrite, runs_bind] at h
    obtain ⟨bindings', w₁, hbindings, hupdate⟩ := h
    refine update_inside before ?_ hupdate
    simp only [map, inside]
    refine Binding.rewriteList_components hf bindings before (fun inner hi => ?_) hw hbindings
    exact hs inner (List.mem_cons_of_mem _ hi)

/-- Bindings and what is inside of them are reused, at every depth. -/
theorem Binding.rewriteList_components (hf : DrawsOnly f) : ∀ (bindings : List (Binding α))
    {bindings' : List (Binding Node)} {w w' : Moment σ} (before : Nat),
    (∀ stamp ∈ stampsOfList bindings, stamp < first) → first ≤ w.2 →
    Runs (rewriteList old f bindings) w bindings' w' →
    List.Forall₂ (Placed.Reused first) (components before (mapList old bindings))
      (components before bindings')
  | [], bindings', w, w', before, _, _, h => by
    rw [rewriteList, runs_pure] at h
    obtain ⟨rfl, rfl⟩ := h
    exact .nil
  | binding :: rest, bindings', w, w', before, hs, hw, h => by
    simp only [rewriteList, runs_bind, runs_pure] at h
    obtain ⟨binding', w₁, hb, rest', w₂, hrest, rfl, rfl⟩ := h
    have hstamps : ∀ stamp ∈ binding.stamps, stamp < first := fun stamp hm =>
      hs stamp (List.mem_append_left _ hm)
    obtain ⟨hw₁, hreused⟩ := rewrite_reused hf hstamps before hw hb
    have hlength : binding'.children.length = (binding.map old).children.length := hreused.length
    have hinside := Binding.rewrite_inside hf binding before hstamps hw hb
    have htail := Binding.rewriteList_components hf rest
      (before + (binding.map old).children.length)
      (fun stamp hm => hs stamp (List.mem_append_right _ hm)) hw₁ hrest
    rw [mapList, components, components, hlength]
    exact .cons hreused (List.rel_append hinside htail)

end

/-- The components of a shape are reused when its children are rewritten. -/
theorem Shape.rewrite_components {shape : Shape α} {shape' : Shape Node} (hf : DrawsOnly f)
    (hs : ∀ stamp ∈ shape.nestedStamps, stamp < first) (hw : first ≤ w.2)
    (h : Runs (shape.rewrite old f) w shape' w') :
    List.Forall₂ (Placed.Reused first) (shape.map old).components shape'.components := by
  obtain ⟨-, hrewritten⟩ := (rewrite_yields (tracks_any first) shape (fun _ => hs)
    fun x _ => hf.yields w.2 x).after w.2 (le_refl _) hw w.1 shape' w' h
  have hfamily : shape'.family = (shape.map old).family := by
    refine family_eq_of_skeleton_eq ?_
    rw [skeleton, skeleton, hrewritten.frame]
  cases shape with
  | listInit creation inits =>
    simp only [rewrite, runs_bind, runs_pure] at h
    obtain ⟨creation', w₁, hcreation, inits', w₂, hinits, rfl, rfl⟩ := h
    have hw₁ := le_trans hw (hf.le_of_runs hcreation)
    refine ElementInit.mapM_rewrite_reused hf (fun init hi => ?_) 1 hw₁ hinits
    exact hs init.stamp (List.mem_map_of_mem hi)
  | memberInit creation bindings =>
    simp only [rewrite, runs_bind, runs_pure] at h
    obtain ⟨creation', w₁, hcreation, bindings', w₂, hbindings, rfl, rfl⟩ := h
    have hw₁ := le_trans hw (hf.le_of_runs hcreation)
    exact Binding.rewriteList_components hf bindings 1 hs hw₁ hbindings
  | switch subject branches otherwise comparison =>
    simp only [rewrite, runs_bind, runs_pure] at h
    obtain ⟨subject', w₁, hsubject, branches', w₂, hbranches, otherwise', w₃, -, rfl, rfl⟩ := h
    have hw₁ := le_trans hw (hf.le_of_runs hsubject)
    refine listed_reused (fun branch hb _ _ _ before hw hbranch => ?_) 1 hw₁ hbranches
    exact SwitchCase.rewrite_reused hf (hs branch.stamp (List.mem_map_of_mem hb)) before hw hbranch
  | tryCatch body handlers cleanup fault =>
    simp only [rewrite, runs_bind, runs_pure] at h
    obtain ⟨body', w₁, hbody, handlers', w₂, hhandlers, cleanup', w₃, -, fault', w₄, -, rfl, rfl⟩
      := h
    have hw₁ := le_trans hw (hf.le_of_runs hbody)
    refine listed_reused (fun handler hh _ _ _ before hw hhandler => ?_) 1 hw₁ hhandlers
    exact Handler.rewrite_reused hf (hs handler.stamp (List.mem_map_of_mem hh)) before hw hhandler
  | _ =>
    -- the result is of the same family, and this one has no components
    have hnil : shape'.components = [] := components_eq_nil (by rw [hfamily]; simp [map, family])
    rw [hnil]
    exact .nil

end Rewriting

namespace Node

variable {fold : Node → StateT σ Supply Node} {e r : Node} {w w' : Moment σ}

/-- The components of a node are reused in a step. -/
theorem foldChildren_components (hfold : DrawsOnly fold) (he : e.IsOld w.2)
    (h : Runs (e.foldChildren fold) w r w') :
    List.Forall₂ (Placed.Reused w.2) e.shape.components r.shape.components := by
  rcases runs_foldChildren hfold he h with rfl | ⟨shape, w₁, hshape, rfl, -, -, -⟩
  · exact Placed.Reused.refl_list _
  · have hmap := Shape.map_attach e.shape
    have hstamps : ∀ stamp ∈ e.shape.attach.nestedStamps, stamp < w.2 := by
      rw [← Shape.nestedStamps_map Subtype.val, hmap]
      exact he.nested
    have hdraws : DrawsOnly fun x : {child // child ∈ e.shape.handles} => fold x.val :=
      fun x => hfold x.val
    have hreused := Shape.rewrite_components hdraws hstamps (le_refl w.2) hshape
    rw [hmap] at hreused
    exact hreused

/-- What a component holds after a step is the same as the answers for its parts, so that these
decide whether it is kept. -/
theorem shared_of_reused {first : Stamp} {answers : List Node} {was now : Placed Node}
    (h : was.Reused first now) (hnow : now ∈ r.shape.components)
    (hanswers : List.Forall₂ (fun node answer => node.same answer = true) r.shape.children
      answers) :
    was.component.Shared first (was.cut answers) now.component := by
  refine h.shared.congr ?_
  rw [← Shape.cut_children hnow, Placed.cut, Placed.cut, h.before, h.length]
  exact List.forall₂_take _ (List.forall₂_drop _ hanswers)

/-- A step of a folder shares all that it can. The result is the node if and only if each child is
answered by its own instance, and otherwise it stands at the last stamp that was drawn. The answers
stand in it, or the children themselves where these are the same instances. Each initializer,
binding, case and handler, at every depth, is the old instance if and only if each child inside of
it is answered by its own instance, and otherwise it stands at a stamp that was drawn. -/
theorem foldChildren_shares_exactly (hfold : DrawsOnly fold) {next : Stamp} (he : e.IsOld next)
    (state : σ) :
    let run := e.foldChildren fold state next
    let r := run.1.1
    ∃ answers, Passes fold (state, next) e.shape.children answers (run.1.2, run.2) ∧
      (r.same e = true ↔
        List.Forall₂ (fun answer child => answer.same child = true) answers e.shape.children) ∧
      (r.same e = true → r = e) ∧
      (r.same e = false → next ≤ r.stamp ∧ run.2 = r.stamp + 1) ∧
      Stands e.shape.children answers r.shape.children ∧
      List.Forall₂ (fun was now => was.component.Shared next (was.cut answers) now.component)
        e.shape.components r.shape.components := by
  intro run r
  have hrun : Runs (e.foldChildren fold) (state, next) r (run.1.2, run.2) := runs_self _ _
  obtain ⟨-, -, answers, hpasses, hkept, hdistinct⟩ :=
    below_runs hfold.keepsBound (fun _ => he) (fun _ => le_refl next) hrun
  obtain ⟨-, hstands, hsame⟩ := hdistinct trivial
  have hself : r = e → r.same e = true := fun heq => heq ▸ same_self e
  refine ⟨answers, hpasses, ⟨hsame, fun h => hself (hkept h)⟩, fun h => hkept (hsame h),
    fun hnew => ?_, hstands, ?_⟩
  · rcases runs_foldChildren hfold he hrun with heq | ⟨shape, w₁, -, heq, hlast, hle, -⟩
    · simp [hself heq] at hnew
    · rw [heq]
      exact ⟨hle, congrArg Prod.snd hlast⟩
  · have hreused := foldChildren_components hfold he hrun
    rw [List.forall₂_iff_zip] at hreused ⊢
    refine ⟨hreused.1, fun hpair => ?_⟩
    have hnow := (List.of_mem_zip hpair).2
    exact shared_of_reused (hreused.2 hpair) hnow hstands.same_answers

/-- A member. -/
def sampleMember : Member := ⟨"point", .object, .object, .field⟩

/-- An object is created, and two members of one of its members are assigned, the first to a
parameter. -/
def sampleObject : Node :=
  ⟨6, .memberInit, .object, .memberInit ⟨2, .new, .object, .new none [] none⟩
    [.nested 5 sampleMember [.assignment 3 sampleMember sampleSubject,
      .assignment 4 sampleMember ⟨1, .default, .object, .default⟩]]⟩

/-- The stamps in the object are below seven. -/
theorem isOld_sampleObject : sampleObject.IsOld 7 :=
  ⟨by decide, by simp [sampleObject, Shape.nestedStamps, Binding.stampsOfList, Binding.stamps]⟩

/-- Makes copies of parameters, counts them, and gives back all other nodes. -/
def copyingParameters (n : Node) : StateT Nat Supply Node :=
  if n.kind = .parameter then copying n else pure n

/-- Making copies of parameters draws stamps. -/
theorem drawsOnly_copyingParameters : DrawsOnly copyingParameters := by
  intro n state next
  unfold copyingParameters
  split
  · exact drawsOnly_copying n state next
  · exact le_refl next

/-- The step over the object makes anew the assignment of the parameter and the binding around it,
but keeps the other assignment. -/
theorem foldChildren_copyingParameters_sampleObject :
    let run := sampleObject.foldChildren copyingParameters 0 7
    run.1.1.same sampleObject = false ∧ run.2 = run.1.1.stamp + 1 ∧
      run.1.1.shape.components.map (fun placed => placed.component.stamp) = [9, 8, 4] ∧
      ∃ answers, Passes copyingParameters (0, 7) sampleObject.shape.children answers (1, 11) ∧
        List.Forall₂ (fun was now => was.component.Shared 7 (was.cut answers) now.component)
          sampleObject.shape.components run.1.1.shape.components := by
  intro run
  have hnew : run.1.1.same sampleObject = false := rfl
  obtain ⟨answers, hpasses, -, -, hlast, -, hshared⟩ :=
    foldChildren_shares_exactly drawsOnly_copyingParameters isOld_sampleObject 0
  exact ⟨hnew, (hlast hnew).2, rfl, answers, hpasses, hshared⟩

end Node

end ExprTree
