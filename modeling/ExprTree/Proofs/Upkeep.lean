import ExprTree.Proofs.Simulation

/-!
# What rewriting keeps up

A property of trees survives rewriting if it goes down to the children of a node, and up from the
children that take their place to the node that is built over them. Then it is enough that the rule
keeps it up in each answer. The answers that count are those that the run at hand gives, so what is
asked of the rule is asked of the record of its run.

The property is given as a relation between a tree and what takes its place; a tree that is related
to itself has the property.
-/

namespace ExprTree

open Node

/-! ## Runs with a record -/

/-- A record is extended by what is noted later. -/
instance : Preorder (List (Node × Node)) where
  le calls calls' := calls <+: calls'
  le_refl := List.prefix_refl
  le_trans _ _ _ := List.IsPrefix.trans

/-- Actions run with a record that grows, and end with what is known of the whole record. -/
abbrev recordLogic (σ : Type) : StampLogic (StateT (List (Node × Node) × σ) Supply) where
  World := List (Node × Node)
  order := inferInstance
  bound := 0
  Ensures calls x post := ∀ state next b w', Runs x ((calls, state), next) b w' →
    calls <+: w'.1.1 ∧ post w'.1.1 b
  ensures_pure := by
    intro β calls b post hp state next c w' hrun
    obtain ⟨rfl, rfl⟩ := runs_pure.mp hrun
    exact ⟨List.prefix_refl calls, hp⟩
  ensures_bind := by
    intro β γ calls x k mid post hx hk state next c w'' hrun
    obtain ⟨b, w', hfirst, hsecond⟩ := runs_bind.mp hrun
    obtain ⟨hle, hmid⟩ := hx state next b w' hfirst
    obtain ⟨hle', hpost⟩ := hk w'.1.1 hle b hmid w'.1.2 w'.2 c w'' hsecond
    exact ⟨hle.trans hle', hpost⟩
  ensures_fresh := by
    intro calls state next stamp w' hrun
    obtain ⟨rfl, rfl⟩ := runs_fresh.mp hrun
    exact ⟨List.prefix_refl calls, Nat.zero_le _⟩

/-- Each tree that has the property and that the rule was asked about was answered with one that
keeps it up. -/
def Answered (U : Node → Node → Prop) (calls : List (Node × Node)) : Prop :=
  ∀ call ∈ calls, U call.1 call.1 → U call.1 call.2

/-- Unless some answer was amiss, the second tree keeps up what the first has. -/
def KeptUp (U : Node → Node → Prop) (calls : List (Node × Node)) (a b : Node) : Prop :=
  Answered U calls → U a b

/-- The relation between trees and what takes their place is that of a property which goes down to
children and up from them. -/
structure Upkeep (U : Node → Node → Prop) : Prop where
  /-- Only a tree with the property is kept up. -/
  left : ∀ {a b}, U a b → U a a
  /-- What keeps it up has the property too. -/
  right : ∀ {a b}, U a b → U b b
  /-- What takes the place of a tree can be replaced again. -/
  trans : ∀ {a b c}, U a b → U b c → U a c
  /-- The property goes down to the children. -/
  child : ∀ {n}, U n n → ∀ child ∈ n.shape.children, U child child
  /-- A node over children that keep it up keeps it up. -/
  rebuilt : ∀ {n : Node} {shape : Shape Node} {stamp : Stamp}, U n n →
    n.shape.isLeaf = false → n.shape.Rewritten 0 U shape → U n ⟨stamp, n.kind, n.type, shape⟩

namespace Upkeep

variable {σ : Type} {U : Node → Node → Prop} {calls : List (Node × Node)} {n : Node}

/-- What is kept up stays so while the record grows. -/
theorem tracks (hU : Upkeep U) : (recordLogic σ).Tracks False (KeptUp U) := by
  constructor
  · intro x calls calls' y hle h hcalls
    exact h fun call hc => hcalls call (List.IsPrefix.subset hle hc)
  · intro calls x y h _ hcalls
    exact hU.left (h hcalls)

/-- The answer of the rule keeps up what the node in question has. -/
theorem ensures_recording {f : Node → StateT σ Supply Node} (hn : KeptUp U calls n n) :
    (recordLogic σ).Ensures calls (recording f n) fun calls' r => KeptUp U calls' n r := by
  intro state next r w' hrun
  obtain ⟨hnoted, -⟩ := runs_recording hrun
  rw [hnoted]
  refine ⟨List.prefix_append _ _, fun hcalls => ?_⟩
  have hold : U n n := hn fun call hc => hcalls call (List.mem_append_left _ hc)
  exact hcalls (n, r) (by simp) hold

/-- A rebuilt node keeps up what the old one has if its children do. -/
theorem ensures_rebuild (hU : Upkeep U) (hn : U n n) (hleaf : n.shape.isLeaf = false)
    {shape : Shape Node} (hshape : n.shape.Rewritten 0 (KeptUp U calls) shape) :
    (recordLogic σ).Ensures calls (n.rebuild shape) fun calls' r => KeptUp U calls' n r := by
  unfold rebuild
  split
  · exact StampLogic.ensures_pure _ fun _ => hn
  · refine StampLogic.ensures_bind _ (StampLogic.ensures_fresh _) fun calls' hle stamp _ => ?_
    refine StampLogic.ensures_pure _ fun hcalls => ?_
    have hold : Answered U calls := fun call hc => hcalls call (List.IsPrefix.subset hle hc)
    have hrewritten : n.shape.Rewritten 0 U shape :=
      ⟨hshape.frame, hshape.children.imp fun _ _ h => h hold, hshape.nested⟩
    exact hU.rebuilt hn hleaf hrewritten

/-- A folder keeps up what trees have if its step does so where what is below does. -/
theorem foldWith_yields (hU : Upkeep U) {step : Node → StateT (List (Node × Node) × σ) Supply Node →
      StateT (List (Node × Node) × σ) Supply Node}
    (hstep : ∀ n below, U n n →
      (recordLogic σ).Yields calls below (fun calls' r => KeptUp U calls' n r) →
      (recordLogic σ).Yields calls (step n below) fun calls' r => KeptUp U calls' n r)
    (hn : U n n) :
    (recordLogic σ).Yields calls (n.foldWith step) fun calls' r => KeptUp U calls' n r := by
  refine Node.foldWith_yields (Q := KeptUp U) (fun n => U n n) hU.tracks hU.tracks.lasting
    ?_ ?_ ?_ ?_ hstep n hn
  · intro n hn
    exact hU.child hn
  · intro hfalse
    exact hfalse.elim
  · intro n hn _ calls _ _
    exact hn
  · intro n hn hleaf calls' _ shape hshape
    exact hU.ensures_rebuild hn hleaf hshape

/-- A rule whose answers are not amiss keeps up what a tree has. -/
theorem rewrite_yields (hU : Upkeep U) (f : Node → StateT σ Supply Node) (direction : Direction)
    (hn : U n n) :
    (recordLogic σ).Yields [] (n.rewrite direction (recording f)) fun calls r =>
      KeptUp U calls n r := by
  cases direction with
  | backward =>
    refine hU.foldWith_yields (fun n below hn hbelow => ⟨hbelow.lasting, fun calls hw => ?_⟩) hn
    refine StampLogic.ensures_bind _ (hbelow.after calls hw) fun calls' _ rebuilt hr => ?_
    have hasked := ensures_recording (f := f) fun hcalls => hU.right (hr hcalls)
    refine StampLogic.ensures_mono hasked fun calls'' hle r hr' hcalls => ?_
    exact hU.trans (hU.tracks.lasting n calls' calls'' rebuilt hle hr hcalls) (hr' hcalls)
  | forward =>
    refine hU.foldWith_yields (fun n below hn hbelow => ⟨hbelow.lasting, fun calls hw => ?_⟩) hn
    refine StampLogic.ensures_bind _ (ensures_recording fun _ => hn) fun calls' hle r hr => ?_
    split
    · exact hbelow.after calls' (le_trans hw hle)
    · exact StampLogic.ensures_pure _ hr

/-- If each answer in the record of a run keeps up what was asked about, then so does the result for
the tree that was rewritten. -/
theorem rewrite (hU : Upkeep U) {f : Node → StateT σ Supply Node} {direction : Direction}
    {state : σ} {next : Stamp} (hn : U n n)
    (hcalls : Answered U (n.rewrite direction (recording f) ([], state) next).1.2.1) :
    U n (n.rewrite direction f state next).1.1 := by
  have hrun := (hU.rewrite_yields f direction hn).after [] (le_refl _) state next _ _
    (runs_self _ (([], state), next))
  rw [← rewrite_recording direction n [] state next]
  exact hrun.2 hcalls

end Upkeep

end ExprTree
