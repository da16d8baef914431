import ExprTree.Proofs.NormalForm
import ExprTree.Proofs.Preservation
import ExprTree.Proofs.Upkeep
import ExprTree.Proofs.WellFormed

/-!
# Rewriting well-formed trees

A rebuilt node is not checked again and keeps its kind and static type. It is well formed all the
same if each child was replaced by one of its kind and type, since what the factories demand of the
children and the type that they work out depend on the kinds and types of the children only. So a
rule that gives well-formed trees, each of the kind and type of the node in question, rewrites
well-formed trees to well-formed trees, in both directions.
-/

namespace ExprTree

open Node

/-! ## Parts that look alike -/

namespace Node

variable {nodes nodes' : List Node}

/-- Nodes that look alike are of one kind. -/
theorem kind_eq_of_signature_eq {a b : Node} (h : a.signature = b.signature) : a.kind = b.kind :=
  congrArg Prod.fst h

/-- Nodes that look alike are of one type. -/
theorem type_eq_of_signature_eq {a b : Node} (h : a.signature = b.signature) : a.type = b.type :=
  congrArg Prod.snd h

/-- Lists that look alike have nodes of the same kinds. -/
theorem map_kind_eq_of_signatures_eq (h : nodes.map signature = nodes'.map signature) :
    nodes.map (·.kind) = nodes'.map (·.kind) := by
  have hkinds := congrArg (List.map Prod.fst) h
  rw [List.map_map, List.map_map] at hkinds
  exact hkinds

/-- Lists that look alike have nodes of the same types. -/
theorem map_type_eq_of_signatures_eq (h : nodes.map signature = nodes'.map signature) :
    nodes.map (·.type) = nodes'.map (·.type) := by
  have htypes := congrArg (List.map Prod.snd) h
  rw [List.map_map, List.map_map] at htypes
  exact htypes

/-- Lists that look alike are lists of parameters together. -/
theorem forall_parameter_of_signatures_eq (h : nodes.map signature = nodes'.map signature)
    (hp : ∀ p ∈ nodes, p.kind = .parameter) : ∀ p ∈ nodes', p.kind = .parameter := by
  have hkinds : ∀ kind ∈ nodes.map (·.kind), kind = .parameter := by simpa using hp
  rw [map_kind_eq_of_signatures_eq h] at hkinds
  simpa using hkinds

/-- Lists that look alike are equally long. -/
theorem length_eq_of_signatures_eq (h : nodes.map signature = nodes'.map signature) :
    nodes.length = nodes'.length := by
  simpa using congrArg List.length h

/-- Lists that look alike have last nodes of one type. -/
theorem exists_last_of_signatures_eq (h : nodes.map signature = nodes'.map signature) {type : Ty}
    (hl : ∃ last ∈ nodes.getLast?, type = last.type) :
    ∃ last ∈ nodes'.getLast?, type = last.type := by
  have hlast : type ∈ (nodes.map (·.type)).getLast? := by
    obtain ⟨last, hmem, rfl⟩ := hl
    rw [List.getLast?_map]
    exact Option.mem_map_of_mem _ hmem
  rw [map_type_eq_of_signatures_eq h, List.getLast?_map] at hlast
  obtain ⟨last, hmem, htype⟩ := Option.map_eq_some_iff.mp hlast
  exact ⟨last, hmem, htype.symm⟩

end Node

/-- The type of an operator depends on the types of its operands only. -/
theorem Factory.binaryType_congr {left left' right right' : Node} (hl : left.type = left'.type)
    (hr : right.type = right'.type) (kind : Kind) (method : Option Method) (lifted : Bool) :
    binaryType kind left right method lifted = binaryType kind left' right' method lifted := by
  unfold binaryType
  rw [hl, hr]

/-- The type of a switch depends on the types of its branches only. -/
theorem Factory.switchType_congr {branches branches' : List (SwitchCase Node)}
    {otherwise otherwise' : Option Node}
    (hb : branches.map (fun branch => branch.body.type) =
      branches'.map (fun branch => branch.body.type))
    (ho : otherwise.map (·.type) = otherwise'.map (·.type)) :
    switchType branches otherwise = switchType branches' otherwise' := by
  cases branches with
  | nil =>
    obtain rfl : branches' = [] := by simpa using hb.symm
    cases otherwise <;> cases otherwise' <;> simp_all [switchType]
  | cons branch rest =>
    cases branches' with
    | nil => simp at hb
    | cons branch' rest' => exact (List.cons.inj hb).1

/-- Parts that fit together still do so when each node is replaced by one that looks alike. -/
theorem Shape.Fits.congr {kind : Kind} {type : Ty} {was now : Shape Node}
    (h : was.Fits kind type) (hleaf : was.isLeaf = false) (hframe : was.frame = now.frame)
    (hchildren : was.children.map signature = now.children.map signature) :
    now.Fits kind type := by
  have hleaf' : now.isLeaf = false := by
    rw [← isLeaf_eq_of_frame_eq hframe]
    exact hleaf
  -- with signatures in the place of children the two are one shape, identities and names apart
  have hskeleton : (was.map signature).skeleton = (now.map signature).skeleton := by
    rw [skeleton_map, skeleton_map, skeleton, skeleton, hframe]
  have halike : (was.map signature).unstamp.bare = (now.map signature).unstamp.bare := by
    refine bare_unstamp_eq_of_skeleton_eq hskeleton ?_ ?_
    · rw [children_map, children_map, hchildren]
    · rw [payloads_map, payloads_map, payloads_eq_nil hleaf, payloads_eq_nil hleaf']
  have hfamily : was.family = now.family := by
    refine family_eq_of_skeleton_eq ?_
    rw [skeleton, skeleton, hframe]
  clear hskeleton hframe hchildren hleaf'
  induction was, now, hfamily using cases_of_family_eq with
  | binary l c r m f l' c' r' m' f' =>
    obtain ⟨hl, -, hr, rfl, rfl⟩ := binary.inj halike
    have htype := Factory.binaryType_congr (type_eq_of_signature_eq hl)
      (type_eq_of_signature_eq hr) kind m f
    exact h.trans htype
  | call o m as o' m' as' =>
    obtain ⟨-, rfl, ha⟩ := call.inj halike
    exact ⟨h.1.trans (length_eq_of_signatures_eq ha), h.2⟩
  | invoke c as c' as' =>
    obtain ⟨hc, -⟩ := invoke.inj halike
    rw [Fits, ← type_eq_of_signature_eq hc]
    exact h
  | lambda b ps n t b' ps' n' t' =>
    obtain ⟨hb, hp, -, -⟩ := lambda.inj halike
    refine ⟨forall_parameter_of_signatures_eq hp h.1, ?_⟩
    rw [← map_type_eq_of_signatures_eq hp, ← type_eq_of_signature_eq hb]
    exact h.2
  | listInit c is c' is' =>
    obtain ⟨hc, -⟩ := listInit.inj halike
    rw [Fits, ← kind_eq_of_signature_eq hc, ← type_eq_of_signature_eq hc]
    exact h
  | memberInit c is c' is' =>
    obtain ⟨hc, -⟩ := memberInit.inj halike
    rw [Fits, ← kind_eq_of_signature_eq hc, ← type_eq_of_signature_eq hc]
    exact h
  | memberAccess o m o' m' =>
    obtain ⟨-, rfl⟩ := memberAccess.inj halike
    exact h
  | new c as ms c' as' ms' =>
    obtain ⟨rfl, ha, rfl⟩ := new.inj halike
    cases c with
    | none =>
      obtain ⟨rfl, hm⟩ := h
      exact ⟨by simpa using ha.symm, hm⟩
    | some c =>
      obtain ⟨hcount, hmembers, htype⟩ := h
      rw [length_eq_of_signatures_eq ha] at hcount hmembers
      exact ⟨hcount, hmembers, htype⟩
  | newArray is is' =>
    have hi := newArray.inj halike
    rw [Fits, ← length_eq_of_signatures_eq hi]
    exact h
  | block ls ss ls' ss' =>
    obtain ⟨hl, hs⟩ := block.inj halike
    exact ⟨forall_parameter_of_signatures_eq hl h.1, exists_last_of_signatures_eq hs h.2⟩
  | dynamic b d as b' d' as' =>
    obtain ⟨-, rfl, -⟩ := dynamic.inj halike
    exact h
  | index o i as o' i' as' =>
    obtain ⟨ho, rfl, -⟩ := index.inj halike
    cases i with
    | none =>
      rw [Fits, ← type_eq_of_signature_eq ho]
      exact h
    | some member => exact h
  | label t v t' v' =>
    obtain ⟨ht, -⟩ := label.inj halike
    have htype := congrArg LabelTarget.type ht
    exact h.trans htype
  | runtimeVariables ls ls' =>
    exact ⟨forall_parameter_of_signatures_eq (runtimeVariables.inj halike) h.1, h.2⟩
  | loop b x y b' x' y' =>
    obtain ⟨-, hx, -⟩ := loop.inj halike
    have htypes : x.map (·.type) = x'.map (·.type) := by
      simpa [Function.comp_def, LabelTarget.bare] using congrArg (Option.map LabelTarget.type) hx
    rw [Fits, ← htypes]
    exact h
  | switch s cs o m s' cs' o' m' =>
    obtain ⟨-, hb, ho, -⟩ := switch.inj halike
    have hbodies := congrArg (List.map fun branch => branch.body.2) hb
    have htypes := congrArg (Option.map Prod.snd) ho
    simp only [List.map_map, Option.map_map] at hbodies htypes
    exact h.trans (Factory.switchType_congr hbodies htypes)
  | tryCatch b hs c f b' hs' c' f' =>
    obtain ⟨hb, -⟩ := tryCatch.inj halike
    exact h.trans (type_eq_of_signature_eq hb)
  | unary | conditional | typeBinary | goto => exact h
  | extension | debugInfo | parameter | constant | default => simp [isLeaf] at hleaf

/-! ## Well-formed trees -/

namespace Node

variable {σ : Type} {via : Shape Node → List Node}

/-- All nodes of the tree are well formed; `via` says which nodes count. -/
def AllWellFormed (via : Shape Node → List Node) (n : Node) : Prop :=
  ∀ inner, n.Reaches via inner → inner.WellFormed

/-- The nodes of a tree are its root and those of the trees below it. -/
theorem allWellFormed_iff {n : Node} : n.AllWellFormed via ↔
    n.WellFormed ∧ ∀ child ∈ via n.shape, child.AllWellFormed via :=
  forall_reaches_iff

/-- A factory that is given well-formed trees returns a well-formed tree. -/
theorem allWellFormed_of_returns (hvia : ∀ shape, via shape ⊆ shape.handles)
    {operands : List Node} {next : Stamp} {r : Node} (hr : Factory.Returns operands next r)
    (h : ∀ x ∈ operands, x.AllWellFormed via) : r.AllWellFormed via := by
  obtain ⟨hwf, hhandles⟩ := hr.wellFormed
  refine allWellFormed_iff.mpr ⟨hwf, fun child hc => h child ?_⟩
  rw [← hhandles]
  exact hvia r.shape hc

/-- The second tree upholds the first: both are well formed, and their roots are of one kind and
type. -/
structure Upholds (via : Shape Node → List Node) (a b : Node) : Prop where
  /-- The first tree is well formed. -/
  left : a.AllWellFormed via
  /-- The second tree is well formed. -/
  right : b.AllWellFormed via
  /-- The roots look alike. -/
  signature : b.signature = a.signature

/-- Trees that uphold one another can be chained. -/
theorem Upholds.trans {a b c : Node} (h : Upholds via a b) (h' : Upholds via b c) :
    Upholds via a c :=
  ⟨h.left, h'.right, h'.signature.trans h.signature⟩

/-- A node with children that uphold those of a well-formed node is well formed. -/
theorem Upholds.of_rewritten (hvia : ∀ shape, via shape ⊆ shape.handles)
    {n : Node} (hn : n.AllWellFormed via) (hleaf : n.shape.isLeaf = false) {shape : Shape Node}
    {bound stamp : Stamp} (hshape : n.shape.Rewritten bound (Upholds via) shape) :
    Upholds via n ⟨stamp, n.kind, n.type, shape⟩ := by
  have hleaf' : shape.isLeaf = false := by
    rw [← Shape.isLeaf_eq_of_frame_eq hshape.frame]
    exact hleaf
  have hsignatures : n.shape.children.map Node.signature = shape.children.map Node.signature := by
    rw [← List.forall₂_eq_eq_eq, List.forall₂_map_left_iff, List.forall₂_map_right_iff]
    exact hshape.children.imp fun _ _ h => h.signature.symm
  have hwf := hn n .refl
  refine ⟨hn, allWellFormed_iff.mpr ⟨⟨?_, ?_⟩, fun child hc => ?_⟩, rfl⟩
  · rw [hwf.coherent]
    refine Shape.family_eq_of_skeleton_eq ?_
    rw [Shape.skeleton, Shape.skeleton, hshape.frame]
  · exact hwf.fits.congr hleaf hshape.frame hsignatures
  · have hchild : child ∈ shape.children := by
      rw [← Shape.handles_eq_children hleaf']
      exact hvia shape hc
    obtain ⟨old, -, h⟩ := exists_of_mem_forall₂ hshape.children hchild
    exact h.right

/-- Each well-formed tree that the rule was asked about was answered with a well-formed tree of the
same kind and type. -/
def AllUpheld (via : Shape Node → List Node) (calls : List (Node × Node)) : Prop :=
  ∀ call ∈ calls, call.1.AllWellFormed via →
    call.2.AllWellFormed via ∧ call.2.kind = call.1.kind ∧ call.2.type = call.1.type

/-- Unless some answer was amiss, the second tree upholds the first. -/
def UpholdsAfter (via : Shape Node → List Node) (calls : List (Node × Node)) (a b : Node) : Prop :=
  AllUpheld via calls → Upholds via a b

/-- A record of such answers keeps up that trees are well formed. -/
theorem AllUpheld.answered {calls : List (Node × Node)} (h : AllUpheld via calls) :
    Answered (Upholds via) calls := by
  intro call hc hold
  obtain ⟨hnew, hkind, htype⟩ := h call hc hold.left
  exact ⟨hold.left, hnew, Prod.ext hkind htype⟩

section Rules

variable (hvia : ∀ shape, shape.children ⊆ via shape ∧ via shape ⊆ shape.handles)

include hvia

/-- Well-formed trees have well-formed children and are built over them. -/
theorem upkeep_upholds : Upkeep (Upholds via) where
  left h := ⟨h.left, h.left, rfl⟩
  right h := ⟨h.right, h.right, rfl⟩
  trans h h' := h.trans h'
  child {n} hn child hc := by
    have hchild := (allWellFormed_iff.mp hn.left).2 child ((hvia n.shape).1 hc)
    exact ⟨hchild, hchild, rfl⟩
  rebuilt hn hleaf hshape :=
    Upholds.of_rewritten (fun shape => (hvia shape).2) hn.left hleaf hshape

/-- A rule whose answers are not amiss upholds well-formed trees. -/
theorem rewrite_upholds (f : Node → StateT σ Supply Node) (direction : Direction) {n : Node}
    (hn : n.AllWellFormed via) :
    (recordLogic σ).Yields [] (n.rewrite direction (recording f)) fun calls r =>
      UpholdsAfter via calls n r := by
  have hyields := (upkeep_upholds hvia).rewrite_yields f direction ⟨hn, hn, rfl⟩
  refine ⟨fun calls calls' r hle h hcalls => ?_, fun calls hw => ?_⟩
  · exact h fun call hc => hcalls call (List.IsPrefix.subset hle hc)
  · exact StampLogic.ensures_mono (hyields.after calls hw) fun _ _ _ h hcalls => h hcalls.answered

end Rules

/-- What factories demand of their operands stays true of trees that are rewritten, whichever nodes
count: at least the children of a node, and at most all that it holds. The well-formed nodes are
those that factories return. A factory that returns a node for well-formed trees returns a
well-formed tree. And if a rule answers each question about a well-formed tree with a well-formed
tree of the same kind and type, then it rewrites well-formed trees to well-formed trees, in either
direction. -/
theorem wellFormed_invariant (via : Shape Node → List Node)
    (hvia : ∀ shape, shape.children ⊆ via shape ∧ via shape ⊆ shape.handles) :
    (∀ n : Node, n.WellFormed ↔ n.IsReturned) ∧
    (∀ operands next r, Factory.Returns operands next r →
      (∀ x ∈ operands, x.AllWellFormed via) → r.AllWellFormed via) ∧
    ∀ (σ : Type) (f : Node → StateT σ Supply Node) (e : Node) (state : σ) (next : Stamp)
      (direction : Direction), e.AllWellFormed via →
      AllUpheld via (e.rewrite direction (recording f) ([], state) next).1.2.1 →
      (e.rewrite direction f state next).1.1.AllWellFormed via := by
  refine ⟨fun _ => wellFormed_iff_isReturned, fun _ _ _ hr h => ?_, ?_⟩
  · exact allWellFormed_of_returns (fun shape => (hvia shape).2) hr h
  · intro σ f e state next direction he hcalls
    have hrun := (rewrite_upholds hvia f direction he).after [] (le_refl _) state next _ _
      (runs_self _ (([], state), next))
    rw [← rewrite_recording direction e [] state next]
    exact (hrun.2 hcalls).right

/-- A parameter. -/
def sampleArgument : Node := ⟨0, .parameter, .i32, .parameter (some "x") false⟩

/-- The sum of the parameter with itself. -/
def sampleSum : Node :=
  ⟨1, .add, .i32, .binary sampleArgument none sampleArgument none false⟩

/-- The lambda that adds its parameter to itself. -/
def sampleDoubling : Node :=
  ⟨2, .lambda, .function [.i32] .i32, .lambda sampleSum [sampleArgument] none false⟩

/-- Gives each parameter a number for its name, and counts them. -/
def numbering (n : Node) : StateT Nat Supply Node := do
  match n.shape with
  | .parameter _ byRef =>
    let count ← get
    set (count + 1)
    make n.kind n.type (.parameter (some (toString count)) byRef)
  | _ => pure n

/-- Parameters are replaced by parameters, and all else is kept. -/
theorem allUpheld_numbering (direction : Direction) (e : Node) :
    AllUpheld Shape.handles (e.rewrite direction (recording numbering) ([], 0) 3).1.2.1 := by
  refine forall_recorded (fun n count next hn => ?_) direction e 0 3
  obtain ⟨stamp, kind, type, shape⟩ := n
  have hroot := hn _ .refl
  cases shape with
  | parameter name byRef =>
    refine ⟨allWellFormed_iff.mpr ⟨⟨hroot.coherent, trivial⟩, ?_⟩, rfl, rfl⟩
    intro child hc
    cases hc
  | _ => exact ⟨hn, rfl, rfl⟩

/-- A lambda that factories build is well formed, and is so with other parameters. -/
theorem wellFormed_invariant_sampleDoubling :
    sampleDoubling.AllWellFormed Shape.handles ∧
      (sampleDoubling.rewrite .backward numbering 0 3).1.1.AllWellFormed Shape.handles ∧
      (sampleDoubling.rewrite .forward numbering 0 3).1.1.AllWellFormed Shape.handles := by
  have hinvariant := wellFormed_invariant Shape.handles fun shape =>
    ⟨fun _ => Shape.mem_handles_of_mem_children, fun _ h => h⟩
  have hargument : sampleArgument.AllWellFormed Shape.handles :=
    hinvariant.2.1 [] 0 _ (.inl ⟨_, .parameter .i32 "x", rfl⟩) (by simp)
  have hsum : sampleSum.AllWellFormed Shape.handles :=
    hinvariant.2.1 [sampleArgument, sampleArgument] 1 _
      (.inl ⟨_, .add sampleArgument sampleArgument, rfl⟩) (by simp [hargument])
  have hlambda : sampleDoubling.AllWellFormed Shape.handles :=
    hinvariant.2.1 [sampleSum, sampleArgument] 2 _
      (.inr ⟨_, .lambda sampleSum [sampleArgument], rfl⟩) (by simp [hargument, hsum])
  exact ⟨hlambda,
    hinvariant.2.2 Nat numbering sampleDoubling 0 3 .backward hlambda (allUpheld_numbering _ _),
    hinvariant.2.2 Nat numbering sampleDoubling 0 3 .forward hlambda (allUpheld_numbering _ _)⟩

end Node

end ExprTree
