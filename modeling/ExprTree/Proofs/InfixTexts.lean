import ExprTree.Factory
import ExprTree.Proofs.EqualTexts

/-!
# Infix texts can be read in one way

A tree of operators is written in infix form with every application in parentheses. Operator signs
are prefixes of one another, and a variable may be named like an operator or have no name at all,
so a text cannot be cut into words by its signs alone. It can be cut by parentheses and blanks: if
the leaves are written without these, the text of an operand ends where it ends whatever follows,
and a text determines the tree that it was written from.

It does so up to conversions, which are not written. Trees that differ in nothing but the conversion
of a node have the same text.
-/

namespace ExprTree

/-! ## Words and what follows them -/

/-- The characters that keep operands and signs apart. -/
def isDelimiter (c : Char) : Bool := c = '(' || c = ')' || c = ' '

/-- A text without delimiters. -/
def IsWord (text : String) : Prop := ∀ c ∈ text.toList, isDelimiter c = false

instance (text : String) : Decidable (IsWord text) :=
  decidable_of_iff ((text.toList.all fun c => !isDelimiter c) = true) (by simp [IsWord])

/-- What can come after an operand: nothing, a blank or the end of an application. -/
def ComesAfter (rest : List Char) : Prop := ∀ c ∈ rest.head?, c = ' ' ∨ c = ')'

/-- A word ends at the first delimiter. -/
theorem IsWord.takeWhile_append {text : String} (h : IsWord text) {rest : List Char}
    (hrest : ComesAfter rest) :
    (text.toList ++ rest).takeWhile (fun c => !isDelimiter c) = text.toList := by
  have hstop : rest.takeWhile (fun c => !isDelimiter c) = [] := by
    cases rest with
    | nil => rfl
    | cons c rest =>
      have hc : c = ' ' ∨ c = ')' := hrest c rfl
      rcases hc with rfl | rfl <;> rfl
  rw [List.takeWhile_append_of_pos fun c hc => by rw [h c hc]; rfl, hstop, List.append_nil]

/-- A word is split from what comes after it in one way only. -/
theorem IsWord.append_inj {text text' : String} (h : IsWord text) (h' : IsWord text')
    {rest rest' : List Char} (hrest : ComesAfter rest) (hrest' : ComesAfter rest')
    (heq : text.toList ++ rest = text'.toList ++ rest') : text = text' ∧ rest = rest' := by
  have htext : text.toList = text'.toList := by
    rw [← h.takeWhile_append hrest, heq, h'.takeWhile_append hrest']
  refine ⟨String.toList_inj.mp htext, ?_⟩
  rw [htext] at heq
  exact List.append_cancel_left heq

/-! ## Formulas -/

/-- What a tree of operators says, from the signs at its inner nodes to the texts at its leaves. -/
inductive Formula where
  | leaf (text : String)
  | operation (sign : String) (left right : Formula)
  /-- An operation that has a conversion, which a walk meets between the operands. -/
  | converted (sign : String) (left conversion right : Formula)
deriving DecidableEq

namespace Formula

/-- The formula with all conversions left out. -/
def operands : Formula → Formula
  | .leaf text => .leaf text
  | .operation sign left right | .converted sign left _ right =>
    .operation sign left.operands right.operands

/-- An application from the characters of its operands. -/
def applied (sign : String) (left right : List Char) : List Char :=
  '(' :: (left ++ ' ' :: (sign.toList ++ ' ' :: (right ++ [')'])))

/-- The formula in infix form. -/
def written : Formula → List Char
  | .leaf text => text.toList
  | .operation sign left right | .converted sign left _ right =>
    applied sign left.written right.written

/-- Signs and leaves are written as words. -/
def HasWords : Formula → Prop
  | .leaf text => IsWord text
  | .operation sign left right | .converted sign left _ right =>
    IsWord sign ∧ left.HasWords ∧ right.HasWords

/-- Conversions are not written. -/
theorem written_operands (r : Formula) : r.operands.written = r.written := by
  induction r with
  | leaf text => rfl
  | operation sign left right ihl ihr => rw [operands, written, written, ihl, ihr]
  | converted sign left conversion right ihl _ ihr => rw [operands, written, written, ihl, ihr]

/-- What comes after the text of a leaf does not make it the text of an application. -/
theorem leaf_append_ne_applied {text : String} (h : IsWord text) {rest : List Char}
    (hrest : ComesAfter rest) (sign : String) (left right rest' : List Char) :
    text.toList ++ rest ≠ applied sign left right ++ rest' := by
  intro heq
  cases hlist : text.toList with
  | nil =>
    rw [hlist, List.nil_append] at heq
    have hc : '(' = ' ' ∨ '(' = ')' := hrest '(' (by rw [heq]; rfl)
    exact absurd hc (by decide)
  | cons c more =>
    rw [hlist] at heq
    have hc : c = '(' := (List.cons.inj heq).1
    have hword : isDelimiter c = false := h c (by rw [hlist]; exact List.mem_cons_self)
    rw [hc] at hword
    exact absurd hword (by decide)

/-- Whatever comes after them, the two formulas are written alike only if they are the same but for
conversions, and then what comes after them is the same. -/
def EndsAlike (r r' : Formula) : Prop :=
  ∀ rest rest', ComesAfter rest → ComesAfter rest' → r.written ++ rest = r'.written ++ rest' →
    r.operands = r'.operands ∧ rest = rest'

/-- An application is read from left to right: the left operand ends before a blank, the sign is
the word up to the next one, and the right operand ends before the parenthesis. -/
theorem applied_append_inj {sign sign' : String} (hs : IsWord sign) (hs' : IsWord sign')
    {left left' right right' : Formula} (hl : left.EndsAlike left') (hr : right.EndsAlike right')
    {rest rest' : List Char}
    (heq : applied sign left.written right.written ++ rest =
      applied sign' left'.written right'.written ++ rest') :
    operation sign left.operands right.operands =
      operation sign' left'.operands right'.operands ∧ rest = rest' := by
  have blank : ∀ more, ComesAfter (' ' :: more) := fun more c hc => .inl (Option.some.inj hc).symm
  have close : ∀ more, ComesAfter (')' :: more) := fun more c hc => .inr (Option.some.inj hc).symm
  simp only [applied, List.cons_append, List.append_assoc, List.nil_append, List.cons.injEq,
    true_and] at heq
  obtain ⟨hleft, heq⟩ := hl _ _ (blank _) (blank _) heq
  obtain ⟨hsign, heq⟩ := hs.append_inj hs' (blank _) (blank _) (List.cons.inj heq).2
  obtain ⟨hright, heq⟩ := hr _ _ (close _) (close _) (List.cons.inj heq).2
  rw [hleft, hsign, hright]
  exact ⟨rfl, (List.cons.inj heq).2⟩

/-- Formulas in words end alike. -/
theorem endsAlike {r r' : Formula} (h : r.HasWords) (h' : r'.HasWords) : r.EndsAlike r' := by
  induction r generalizing r' with
  | leaf text =>
    intro rest rest' hrest hrest' heq
    cases r' with
    | leaf text' =>
      obtain ⟨rfl, hrests⟩ := IsWord.append_inj h h' hrest hrest' heq
      exact ⟨rfl, hrests⟩
    | operation | converted => exact absurd heq (leaf_append_ne_applied h hrest _ _ _ _)
  | operation sign left right ihl ihr | converted sign left conversion right ihl _ ihr =>
    intro rest rest' hrest hrest' heq
    cases r' with
    | leaf text' => exact absurd heq.symm (leaf_append_ne_applied h' hrest' _ _ _ _)
    | operation | converted =>
      exact applied_append_inj h.1 h'.1 (ihl h.2.1 h'.2.1) (ihr h.2.2 h'.2.2) heq

/-- Formulas in words are written alike if and only if they are the same but for conversions. -/
theorem written_eq_iff {r r' : Formula} (h : r.HasWords) (h' : r'.HasWords) :
    r.written = r'.written ↔ r.operands = r'.operands := by
  constructor
  · intro heq
    have hnothing : ComesAfter [] := nofun
    exact (endsAlike h h' [] [] hnothing hnothing (by rw [heq])).1
  · intro heq
    rw [← written_operands r, heq, written_operands]

end Formula

/-! ## Words in trees -/

/-- Digits are no delimiters. -/
theorem isDelimiter_of_isDigit {c : Char} (h : c.isDigit = true) : isDelimiter c = false := by
  cases hc : isDelimiter c with
  | false => rfl
  | true =>
    simp only [isDelimiter, Bool.or_eq_true, decide_eq_true_eq] at hc
    rcases hc with (rfl | rfl) | rfl <;> exact absurd h (by decide)

/-- A number without sign is a word. -/
theorem isWord_repr (n : Nat) : IsWord n.repr := by
  intro c hc
  rw [Nat.repr_eq_ofList_toDigits, String.toList_ofList] at hc
  exact isDelimiter_of_isDigit (Nat.isDigit_of_mem_toDigits (by decide) (by decide) hc)

/-- A number is a word. -/
theorem isWord_toString (n : Int) : IsWord (toString n) := by
  cases n with
  | ofNat n => exact isWord_repr n
  | negSucc n =>
    intro c hc
    have hc' : c ∈ ("-" ++ (n + 1).repr).toList := hc
    rw [String.toList_append, List.mem_append] at hc'
    rcases hc' with hsign | hdigits
    · obtain rfl : c = '-' := List.mem_singleton.mp hsign
      rfl
    · exact isWord_repr (n + 1) c hdigits

/-- The sign of a binary operation is a word. -/
theorem Kind.isWord_operator (kind : Kind) : IsWord kind.operator := by
  cases kind <;> decide

/-- The payload is an integer of some width, or the discriminant of an enumeration. -/
def Scalar.isWhole : Scalar → Bool
  | .enum _ => true
  | scalar => scalar.integer?.isSome

/-- A whole number is written as a word. -/
theorem Scalar.isWord_text {scalar : Scalar} (h : scalar.isWhole = true) : IsWord scalar.text := by
  cases scalar with
  | i8 | i16 | i32 | i64 | enum => exact isWord_toString _
  | u8 | u16 | u32 | u64 => exact isWord_repr _
  | _ => cases h

namespace Node

/-- What the tree says. Nodes of other families than that of binary operations are leaves. -/
def formula : Node → Formula
  | ⟨_, kind, _, .binary left none right _ _⟩ =>
    .operation kind.operator left.formula right.formula
  | ⟨_, kind, _, .binary left (some conversion) right _ _⟩ =>
    .converted kind.operator left.formula conversion.formula right.formula
  | leaf => .leaf leaf.text

/-- The tree consists of binary operations other than the access to array elements, over variables
that are written as words and over integers. -/
inductive IsInfix : Node → Prop where
  | parameter {n : Node} {name : Option String} {byRef : Bool}
      (shape : n.shape = .parameter name byRef) (word : IsWord n.text) : IsInfix n
  | integer {n : Node} {scalar : Scalar} (shape : n.shape = .constant (.scalar scalar))
      (whole : scalar.isWhole = true) : IsInfix n
  | operation {n left right : Node} {conversion : Option Node} {method : Option Method}
      {lifted : Bool} (shape : n.shape = .binary left conversion right method lifted)
      (family : n.family = .binary) (signed : n.kind ≠ .arrayIndex)
      (held : ∀ child ∈ n.shape.children, IsInfix child) : IsInfix n

variable {n a b left right : Node}

/-- A binary operation is written with its sign between its operands. -/
theorem toList_text_of_binary {conversion : Option Node} {method : Option Method} {lifted : Bool}
    (h : n.shape = .binary left conversion right method lifted) (hkind : n.kind ≠ .arrayIndex) :
    n.text.toList = Formula.applied n.kind.operator left.text.toList right.text.toList := by
  have htext : n.text = "(" ++ left.text ++ " " ++ n.kind.operator ++ " " ++ right.text ++ ")" := by
    rw [text_eq, h, Shape.render, Text.binary]
    exact hkind
  rw [htext]
  simp [Formula.applied]

/-- A node of another family is read as a leaf. -/
theorem formula_of_family_ne (h : n.shape.family ≠ .binary) : n.formula = .leaf n.text := by
  obtain ⟨stamp, kind, type, shape⟩ := n
  cases shape with
  | binary => exact absurd rfl h
  | _ => rfl

/-- A tree in infix form is written as its formula is, and the formula is in words. -/
theorem IsInfix.written_formula (h : n.IsInfix) :
    n.formula.written = n.text.toList ∧ n.formula.HasWords := by
  induction h with
  | @parameter n name byRef shape word =>
    rw [formula_of_family_ne (by simp [shape, Shape.family])]
    exact ⟨rfl, word⟩
  | @integer n scalar shape whole =>
    have htext : n.text = scalar.text := by rw [text_eq, shape, Shape.render, Value.toText]
    rw [formula_of_family_ne (by simp [shape, Shape.family])]
    exact ⟨rfl, htext ▸ scalar.isWord_text whole⟩
  | @operation n left right conversion method lifted shape family signed held ih =>
    obtain ⟨hleft, hleft'⟩ := ih left (by simp [shape, Shape.children])
    obtain ⟨hright, hright'⟩ := ih right (by simp [shape, Shape.children])
    have htext := toList_text_of_binary shape signed
    obtain ⟨stamp, kind, type, _⟩ := n
    obtain rfl := shape
    rw [htext, ← hleft, ← hright]
    cases conversion with
    | none | some _ => exact ⟨rfl, kind.isWord_operator, hleft', hright'⟩

/-- No node of the tree has a conversion. -/
def IsUnconverted (n : Node) : Prop :=
  ∀ inner, n.Reaches Shape.children inner → ∀ left conversion right method lifted,
    inner.shape ≠ .binary left (some conversion) right method lifted

/-- Nothing is left out of the formula of a tree without conversions. -/
theorem IsInfix.operands_formula (h : n.IsInfix) (hn : n.IsUnconverted) :
    n.formula.operands = n.formula := by
  induction h with
  | @parameter n _ _ shape _ | @integer n _ shape _ =>
    rw [formula_of_family_ne (by simp [shape, Shape.family])]
    rfl
  | @operation n left right conversion method lifted shape family signed held ih =>
    have hchildren : ∀ child ∈ n.shape.children, child.formula.operands = child.formula :=
      fun child hc => ih child hc ((forall_reaches_iff.mp hn).2 child hc)
    cases conversion with
    | some conversion => exact absurd shape (hn n .refl left conversion right method lifted)
    | none =>
      obtain ⟨stamp, kind, type, _⟩ := n
      obtain rfl := shape
      rw [formula, Formula.operands, hchildren left (by simp [Shape.children]),
        hchildren right (by simp [Shape.children])]

/-- Trees in infix form have the same text if and only if they have, conversions left out, the same
shape, the same sign at every inner node and the same text at every leaf. Where there are no
conversions, nothing is left out. -/
theorem infix_text_readable (ha : a.IsInfix) (hb : b.IsInfix) :
    (a.text = b.text ↔ a.formula.operands = b.formula.operands) ∧
      (a.IsUnconverted → b.IsUnconverted → (a.text = b.text ↔ a.formula = b.formula)) := by
  obtain ⟨hwritten, hwords⟩ := ha.written_formula
  obtain ⟨hwritten', hwords'⟩ := hb.written_formula
  have hoperands : a.text = b.text ↔ a.formula.operands = b.formula.operands := by
    rw [← String.toList_inj, ← hwritten, ← hwritten']
    exact Formula.written_eq_iff hwords hwords'
  refine ⟨hoperands, fun hplain hplain' => ?_⟩
  rw [hoperands, ha.operands_formula hplain, hb.operands_formula hplain']

/-- A variable with the name of an operator. -/
def samplePlus : Node := ⟨0, .parameter, .i64, .parameter (some "+") false⟩

/-- The variable and a negative number of the given width, added by an operation of the kind. -/
def sampleAddition (kind : Kind) (scalar : Scalar) : Node :=
  ⟨2, kind, .i64,
    .binary samplePlus none ⟨1, .constant, .i64, .constant (.scalar scalar)⟩ none false⟩

/-- Sums, checked and unchecked, over numbers of different widths have one text, `(+ + -1)`, and one
formula. -/
theorem infix_text_readable_sampleAddition :
    let a := sampleAddition .add (.i8 (-1))
    let b := sampleAddition .addChecked (.i64 (-1))
    (a.IsInfix ∧ a.IsUnconverted) ∧ (b.IsInfix ∧ b.IsUnconverted) ∧
      a.text = b.text ∧ a.formula = b.formula := by
  have hplus : samplePlus.IsInfix := .parameter rfl (by decide +kernel)
  have hinfix : ∀ kind scalar, kind.family = .binary → kind ≠ .arrayIndex →
      scalar.isWhole = true → (sampleAddition kind scalar).IsInfix := by
    intro kind scalar hfamily hkind hwhole
    refine .operation rfl hfamily hkind fun child hc => ?_
    rcases List.mem_pair.mp hc with rfl | rfl
    · exact hplus
    · exact .integer rfl hwhole
  have hplain : ∀ kind scalar, (sampleAddition kind scalar).IsUnconverted := by
    intro kind scalar
    refine forall_reaches_iff.mpr ⟨nofun, fun child hc => ?_⟩
    refine forall_reaches_iff.mpr ⟨?_, ?_⟩
    all_goals rcases List.mem_pair.mp hc with rfl | rfl <;> nofun
  have ha := hinfix .add (.i8 (-1)) rfl nofun rfl
  have hb := hinfix .addChecked (.i64 (-1)) rfl nofun rfl
  have htext : (sampleAddition .add (.i8 (-1))).text =
      (sampleAddition .addChecked (.i64 (-1))).text := by decide +kernel
  have hformula := ((infix_text_readable ha hb).2 (hplain _ _) (hplain _ _)).mp htext
  exact ⟨⟨ha, hplain _ _⟩, ⟨hb, hplain _ _⟩, htext, hformula⟩

/-- A variable. -/
def sampleVariable (stamp : Stamp) (name : String) : Node :=
  ⟨stamp, .parameter, .i32, .parameter (some name) false⟩

/-- The choice of a second variable where the first is nothing, with or without a conversion. -/
def sampleChoice (stamp : Stamp) (conversion : Option Node) : Node :=
  ⟨stamp, .coalesce, .i32,
    .binary (sampleVariable 0 "x") conversion (sampleVariable 1 "y") none false⟩

/-- A choice whose conversion is a variable is built from binary operations and variables only, and
so is the choice without it. They have the same text and not the same shape. -/
theorem conversion_not_written :
    (Factory.binaryWith (m := Supply) .coalesce (sampleVariable 0 "x") (sampleVariable 1 "y") none
        (some (sampleVariable 2 "z")) false 3).1 =
      .ok (sampleChoice 3 (some (sampleVariable 2 "z"))) ∧
    (Factory.binary (m := Supply) .coalesce (sampleVariable 0 "x") (sampleVariable 1 "y") 4).1 =
      .ok (sampleChoice 4 none) ∧
    (sampleChoice 3 (some (sampleVariable 2 "z"))).IsInfix ∧ (sampleChoice 4 none).IsInfix ∧
      (sampleChoice 3 (some (sampleVariable 2 "z"))).text = (sampleChoice 4 none).text ∧
      (sampleChoice 3 (some (sampleVariable 2 "z"))).formula ≠ (sampleChoice 4 none).formula := by
  have hvariable : ∀ stamp name, IsWord name → (sampleVariable stamp name).IsInfix :=
    fun stamp name hword => .parameter rfl (by rw [text_eq]; exact hword)
  have hx := hvariable 0 "x" (by decide)
  have hy := hvariable 1 "y" (by decide)
  have hz := hvariable 2 "z" (by decide)
  refine ⟨rfl, rfl, .operation rfl rfl nofun ?_, .operation rfl rfl nofun ?_, ?_, nofun⟩
  · simp [sampleChoice, Shape.children, hx, hy, hz]
  · simp [sampleChoice, Shape.children, hx, hy]
  · rw [text_eq, text_eq]
    rfl

end Node

end ExprTree
