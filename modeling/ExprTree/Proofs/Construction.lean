import ExprTree.Proofs.Heap
import ExprTree.Proofs.WellFormed
import ExprTree.View

/-!
# Trees that factories build

A tree is built by factories if its root is what some factory returned for nodes that were built
in the same way. All nodes of such a tree are well formed, so that an initializer always starts
from a creation.

Nodes without an operand are another matter. The factory for unary nodes of any kind takes an
operand that may be missing, and only `throw` is meant to be without one. A tree has such nodes
only where a rethrow stands exactly if it can be built by calls that leave out no operand but that
of a `throw`; the same goes for what views show of its nodes and for how its nodes are written.
-/

namespace ExprTree

namespace Factory

/-- The call does not leave out the operand of a unary node, unless it is for a `throw`. -/
def Careful (build : Supply (Except BuildError Node)) : Prop :=
  ∀ kind type method, build = unary kind none type method → kind = .throw

end Factory

namespace Node

/-- The tree comes from calls of factories, of which those that check their operands are among the
allowed ones. -/
inductive BuiltBy (allowed : Supply (Except BuildError Node) → Prop) : Node → Prop where
  | unchecked {operands : List Node} {build : Supply Node} (next : Stamp)
      (factory : Factory.Unchecked operands build) (held : ∀ x ∈ operands, BuiltBy allowed x) :
    BuiltBy allowed (build next).1
  | checked {operands : List Node} {build : Supply (Except BuildError Node)} {next : Stamp}
      {r : Node} (factory : Factory.Checked operands build) (call : allowed build)
      (built : (build next).1 = .ok r) (held : ∀ x ∈ operands, BuiltBy allowed x) :
    BuiltBy allowed r

/-- The tree comes from calls of factories. -/
abbrev Built : Node → Prop := BuiltBy fun _ => True

/-- The tree comes from careful calls of factories. -/
abbrev BuiltCarefully : Node → Prop := BuiltBy Factory.Careful

/-- The node has the shape of a unary one and holds no operand. -/
def LacksOperand (n : Node) : Prop := n.asUnary? = some none

/-- What the initializers of a node start from. -/
def creation? (n : Node) : Option Node :=
  match n.shape with
  | .listInit creation _ | .memberInit creation _ => some creation
  | _ => none

/-- A node that lacks its operand has the shape of a unary one. -/
theorem LacksOperand.shape_family {n : Node} (h : n.LacksOperand) : n.shape.family = .unary := by
  obtain ⟨stamp, kind, type, shape⟩ := n
  cases shape with
  | unary operand method => rfl
  | _ => cases h

section BuiltBy

variable {allowed : Supply (Except BuildError Node) → Prop} {e n child : Node}

/-- A node that was built is well formed, and what it holds was built before it. -/
theorem BuiltBy.wellFormed (h : e.BuiltBy allowed) :
    e.WellFormed ∧ ∀ x ∈ e.shape.handles, x.BuiltBy allowed := by
  cases h with
  | unchecked next factory held =>
    obtain ⟨hwf, hoperands⟩ := factory.wellFormed next
    exact ⟨hwf, hoperands ▸ held⟩
  | checked factory call built held =>
    obtain ⟨hwf, hoperands⟩ := factory.wellFormed built
    exact ⟨hwf, hoperands ▸ held⟩

/-- What can be built by fewer calls can be built by more. -/
theorem BuiltBy.mono {allowed' : Supply (Except BuildError Node) → Prop}
    (hle : ∀ build, allowed build → allowed' build) (h : e.BuiltBy allowed) :
    e.BuiltBy allowed' := by
  induction h with
  | unchecked next factory _ ih => exact .unchecked next factory ih
  | checked factory call built _ ih => exact .checked factory (hle _ call) built ih

/-- All nodes of a tree that was built were built. -/
theorem BuiltBy.of_reaches (h : e.BuiltBy allowed) (hn : e.Reaches Shape.handles n) :
    n.BuiltBy allowed := by
  induction hn with
  | refl => exact h
  | tail _ hc ih => exact ih.wellFormed.2 _ hc

/-- Initializers of a well-formed node start from a creation. -/
theorem WellFormed.creation_kind (h : n.WellFormed) (hc : child ∈ n.creation?) :
    child.kind = .new := by
  obtain ⟨stamp, kind, type, shape⟩ := n
  have hfits : shape.Fits kind type := h.fits
  cases shape with
  | listInit creation | memberInit creation =>
    obtain rfl : creation = child := Option.some.inj hc
    exact hfits.1
  | _ => cases hc

end BuiltBy

end Node

/-! ## Careful calls -/

namespace Factory

variable {operands : List Node} {next : Stamp} {r : Node}

/-- Of the factories that check nothing only that of the rethrow leaves out an operand. -/
theorem Unchecked.kind_eq_throw {build : Supply Node} (h : Unchecked operands build)
    (hr : (build next).1.LacksOperand) : (build next).1.kind = .throw := by
  cases h with
  | rethrow => rfl
  | _ => cases hr

/-- A unary node is built if the kind is a unary one. -/
theorem unary_eq_ok_iff {kind : Kind} {operand : Option Node} {type : Ty}
    {method : Option Method} :
    ((unary kind operand type method : Supply (Except BuildError Node)) next).1 = .ok r ↔
      kind.family = .unary ∧ r = ⟨next, kind, type, .unary operand method⟩ := by
  rw [unary, checked_eq_ok_iff, checkFamily_eq_ok_iff, eq_comm (b := r)]
  rfl

/-- A call is careful if what it returns lacks an operand only as a `throw`. -/
theorem Checked.careful_iff {build : Supply (Except BuildError Node)}
    (h : Checked operands build) (hr : (build next).1 = .ok r) :
    Careful build ↔ (r.LacksOperand → r.kind = .throw) := by
  constructor
  · intro hcareful hlacks
    cases h with
    | unary kind operand type method =>
      obtain ⟨hkind, rfl⟩ := unary_eq_ok_iff.mp hr
      obtain rfl : operand = none := Option.some.inj hlacks
      exact hcareful kind type method rfl
    | block locals statements =>
      obtain ⟨hc, last, hlast, rfl⟩ := block_eq_ok_iff.mp hr
      cases hlacks
    | _ =>
      obtain ⟨hc, rfl⟩ := checked_eq_ok_iff.mp hr
      cases hlacks
  · rintro hthrow kind type method rfl
    obtain ⟨hkind, rfl⟩ := unary_eq_ok_iff.mp hr
    exact hthrow rfl

end Factory

namespace Node

variable {e n : Node}

/-- A node from careful calls lacks its operand only as a `throw`. -/
theorem BuiltBy.kind_eq_throw (h : n.BuiltCarefully) (hlacks : n.LacksOperand) :
    n.kind = .throw := by
  cases h with
  | unchecked next factory held => exact factory.kind_eq_throw hlacks
  | checked factory call built held => exact (factory.careful_iff built).mp call hlacks

/-- A tree in which only `throw` lacks operands can be built by careful calls. -/
theorem BuiltBy.carefully (h : e.Built)
    (hall : ∀ n, e.Reaches Shape.handles n → n.LacksOperand → n.kind = .throw) :
    e.BuiltCarefully := by
  induction h with
  | unchecked next factory held ih =>
    have hoperands := (factory.wellFormed next).2
    refine .unchecked next factory fun x hx => ih x hx fun n hn => hall n ?_
    exact .head (hoperands ▸ hx) hn
  | checked factory call built held ih =>
    have hoperands := (factory.wellFormed built).2
    have hcareful := (factory.careful_iff built).mpr (hall _ .refl)
    refine .checked factory hcareful built fun x hx => ih x hx fun n hn => hall n ?_
    exact .head (hoperands ▸ hx) hn

end Node

/-! ## What is shown and written of nodes without an operand -/

namespace View

variable {n : Node} {view : View} {operand : Option Node} {method : Option Method}

/-- A view of a unary node shows the operand. -/
theorem resolve_operand (h : n.shape = .unary operand method) (next : Stamp) :
    (((wrap n).resolve .operand : Supply (Option View × View)) next).1.1 = operand.map wrap := by
  obtain ⟨stamp, kind, type, shape⟩ := n
  obtain rfl : shape = .unary operand method := h
  cases operand <;> rfl

/-- A unary view shows no operand exactly if the node lacks it. -/
theorem resolve_operand_eq_none_iff (h : ofFamily .unary n = .ok view) (next : Stamp) :
    ((view.resolve .operand : Supply (Option View × View)) next).1.1 = none ↔ n.LacksOperand := by
  unfold ofFamily at h
  split at h
  · obtain rfl := Except.ok.inj h
    rename_i hfamily
    obtain ⟨stamp, kind, type, shape⟩ := n
    cases shape with
    | unary operand method =>
      rw [resolve_operand rfl, Option.map_eq_none_iff]
      exact ⟨congrArg some, Option.some.inj⟩
    | _ => cases hfamily
  · cases h

/-- A node that lacks its operand has a unary view. -/
theorem ofFamily_unary (h : n.LacksOperand) : ofFamily .unary n = .ok (wrap n) :=
  if_pos h.shape_family

end View

/-- The text of an operator application has a sign in it that no rethrow has, unless the operator
is the one that is not written. -/
theorem Text.exists_sign_mem_unary {kind : Kind} (h : kind.family = .unary)
    (hquote : kind ≠ .quote) (type : Ty) (operand : String) :
    ∃ sign ∈ (unary kind type operand).toList, sign ∉ "rethrow".toList := by
  cases kind with
  | negate | negateChecked | preDecrementAssign | postDecrementAssign =>
    exact ⟨'-', by simp [unary], by decide⟩
  | unaryPlus | preIncrementAssign | postIncrementAssign => exact ⟨'+', by simp [unary], by decide⟩
  | not => exact ⟨'!', by simp [unary], by decide⟩
  | onesComplement => exact ⟨'~', by simp [unary], by decide⟩
  | quote => exact absurd rfl hquote
  | arrayLength | convert | convertChecked | typeAs | decrement | increment | isFalse | isTrue
  | throw | unbox => exact ⟨'(', by simp [unary], by decide⟩
  | _ => cases h

namespace Node

variable {e n : Node}

/-- A unary node without an operand is written as a rethrow, whatever its kind. -/
theorem text_of_unary_none {method : Option Method} (h : n.shape = .unary none method) :
    n.text = "rethrow" := by
  obtain ⟨stamp, kind, type, shape⟩ := n
  obtain rfl : shape = .unary none method := h
  rw [text]
  rfl

/-- A unary node with an operand is written from the text of the operand. -/
theorem text_of_unary_some {operand : Node} {method : Option Method}
    (h : n.shape = .unary (some operand) method) :
    n.text = Text.unary n.kind n.type operand.text := by
  obtain ⟨stamp, kind, type, shape⟩ := n
  obtain rfl : shape = .unary (some operand) method := h
  rw [text]
  rfl

/-- A unary node is written as a rethrow if it lacks its operand, or if it is a quotation, of which
only the operand is written. -/
theorem WellFormed.text_eq_rethrow_iff (h : n.WellFormed) (hn : n.family = .unary) :
    n.text = "rethrow" ↔ n.LacksOperand ∨
      ∃ operand, n.kind = .quote ∧ n.asUnary? = some (some operand) ∧ operand.text = "rethrow" := by
  have hfamily : n.shape.family = .unary := h.coherent.symm.trans hn
  obtain ⟨stamp, kind, type, shape⟩ := n
  cases shape with
  | unary operand method =>
    cases operand with
    | none => exact ⟨fun _ => .inl rfl, fun _ => text_of_unary_none rfl⟩
    | some operand =>
      rw [text_of_unary_some rfl]
      constructor
      · intro htext
        -- any other operator leaves a sign in the text
        by_cases hquote : kind = .quote
        · subst hquote
          exact .inr ⟨operand, rfl, rfl, htext⟩
        · obtain ⟨sign, hmem, hnot⟩ := Text.exists_sign_mem_unary hn hquote type operand.text
          exact absurd (htext ▸ hmem) hnot
      · rintro (hlacks | ⟨inner, hquote, hinner, htext⟩)
        · cases hlacks
        · obtain rfl : kind = .quote := hquote
          obtain rfl : operand = inner := Option.some.inj (Option.some.inj hinner)
          exact htext
  | _ => cases hfamily

/-- In a tree that factories built, initializers start from creations. Only rethrows lack an
operand, show none in views and are written as rethrows, quotations of what is written so apart,
exactly if careful calls can build the tree. -/
theorem only_throw_lacks_operand_iff (he : e.Built) :
    (∀ n, e.Reaches Shape.handles n → ∀ creation ∈ n.creation?, creation.kind = .new) ∧
      (e.BuiltCarefully ↔
        ∀ n, e.Reaches Shape.handles n → n.LacksOperand → n.kind = .throw) ∧
      (e.BuiltCarefully ↔
        ∀ n, e.Reaches Shape.handles n → ∀ view, View.ofFamily .unary n = .ok view → ∀ next,
          ((view.resolve .operand : Supply (Option View × View)) next).1.1 = none →
            n.kind = .throw) ∧
      (e.BuiltCarefully ↔
        ∀ n, e.Reaches Shape.handles n → n.family = .unary → n.text = "rethrow" →
          n.kind = .throw ∨ ∃ operand,
            n.kind = .quote ∧ n.asUnary? = some (some operand) ∧ operand.text = "rethrow") := by
  have hwf : ∀ n, e.Reaches Shape.handles n → n.WellFormed := fun n hn =>
    (he.of_reaches hn).wellFormed.1
  have hcareful : e.BuiltCarefully ↔
      ∀ n, e.Reaches Shape.handles n → n.LacksOperand → n.kind = .throw :=
    ⟨fun hc n hn => (hc.of_reaches hn).kind_eq_throw, he.carefully⟩
  refine ⟨fun n hn creation => (hwf n hn).creation_kind, hcareful, ?_, ?_⟩
  · rw [hcareful]
    constructor
    · intro hall n hn view hview next hnone
      exact hall n hn ((View.resolve_operand_eq_none_iff hview next).mp hnone)
    · intro hall n hn hlacks
      have hview := View.ofFamily_unary hlacks
      exact hall n hn _ hview 0 ((View.resolve_operand_eq_none_iff hview 0).mpr hlacks)
  · rw [hcareful]
    constructor
    · intro hall n hn hunary htext
      exact (((hwf n hn).text_eq_rethrow_iff hunary).mp htext).imp_left (hall n hn)
    · intro hall n hn hlacks
      have hunary : n.family = .unary := (hwf n hn).coherent.trans hlacks.shape_family
      have htext := ((hwf n hn).text_eq_rethrow_iff hunary).mpr (.inl hlacks)
      rcases hall n hn hunary htext with hthrow | ⟨operand, _, hoperand, _⟩
      · exact hthrow
      · cases hlacks.symm.trans hoperand

/-- A rethrow. -/
def sampleRethrow : Node := ⟨0, .throw, .void, .unary none none⟩

/-- The creation of an empty collection. -/
def sampleCreation : Node := ⟨1, .new, .object, .new none [] none⟩

/-- An item that is added by what does not return. -/
def sampleItem : ElementInit Node :=
  ⟨2, ⟨"add", .object, [.void], .void, false⟩, [sampleRethrow]⟩

/-- The collection is created and filled. -/
def sampleFilling : Node := ⟨3, .listInit, .object, .listInit sampleCreation [sampleItem]⟩

/-- The filled collection comes from careful calls. -/
theorem sampleFilling_builtCarefully : sampleFilling.BuiltCarefully := by
  have hrethrow : sampleRethrow.BuiltCarefully := .unchecked 0 .rethrow nofun
  have hcreation : sampleCreation.BuiltCarefully := .unchecked 1 (.newValue .object) nofun
  have hfactory := Factory.Checked.listInit sampleCreation [sampleItem]
  have hreturned : (Factory.listInit (m := Supply) sampleCreation [sampleItem] 3).1 =
      .ok sampleFilling := rfl
  refine .checked hfactory ((hfactory.careful_iff hreturned).mpr nofun) hreturned fun x hx => ?_
  rcases List.mem_pair.mp hx with rfl | rfl
  · exact hcreation
  · exact hrethrow

/-- In the filled collection only the rethrow lacks an operand. -/
theorem only_throw_lacks_operand_iff_sampleFilling :
    sampleFilling.Built ∧ sampleFilling.BuiltCarefully ∧
      (sampleFilling.Reaches Shape.handles sampleRethrow ∧ sampleRethrow.LacksOperand) ∧
      (∀ creation ∈ sampleFilling.creation?, creation.kind = .new) ∧
      ∀ n, sampleFilling.Reaches Shape.handles n → n.LacksOperand → n.kind = .throw := by
  have hcareful := sampleFilling_builtCarefully
  have hbuilt : sampleFilling.Built := hcareful.mono fun _ _ => trivial
  have hreaches : sampleFilling.Reaches Shape.handles sampleRethrow :=
    .single (List.mem_pair.mpr (.inr rfl))
  obtain ⟨hcreation, hthrow, -, -⟩ := only_throw_lacks_operand_iff hbuilt
  exact ⟨hbuilt, hcareful, ⟨hreaches, rfl⟩, hcreation _ .refl, hthrow.mp hcareful⟩

/-- A negation of nothing. -/
def bareNegation : Node := ⟨0, .negate, .i32, .unary none none⟩

/-- A factory builds a negation of nothing, of which views show no operand and which is written as
a rethrow. -/
theorem bareNegation_written_as_rethrow :
    bareNegation.Built ∧ bareNegation.LacksOperand ∧
      (((View.wrap bareNegation).resolve .operand : Supply (Option View × View)) 1).1.1 = none ∧
      bareNegation.text = "rethrow" ∧ bareNegation.kind ≠ .throw := by
  have hreturned :
      (Factory.unary (m := Supply) .negate none .i32 none 0).1 = .ok bareNegation := rfl
  have hbuilt : bareNegation.Built :=
    .checked (.unary .negate none .i32 none) trivial hreturned nofun
  have hview := View.resolve_operand (n := bareNegation) rfl 1
  exact ⟨hbuilt, rfl, hview, text_of_unary_none rfl, by decide⟩

end Node

end ExprTree
