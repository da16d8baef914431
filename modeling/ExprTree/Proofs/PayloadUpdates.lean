import ExprTree.Proofs.Identity
import ExprTree.Proofs.Updating

/-!
# Updates of constants

A constant is kept by an update if its payload and the one that is given pass for one instance.
Scalars have no identity and are compared as values, and floating-point numbers are compared as
numbers. That makes an update of a constant differ from all others in three places. A NaN is not
equal to itself, so a constant that holds one is created anew by an update that changes nothing.
Zeros of different signs are equal, and a query is known by its root alone: a constant is kept
though its zero was to change its sign, or its query the type of its elements. There are no other
such payloads.
-/

namespace ExprTree

/-! ## Zeros -/

namespace Number

/-- The bits of a zero are its sign. -/
theorem Format.eq_of_read_eq_zero {format : Format} {bits : Nat} {negative : Bool}
    (hbits : bits < Nat.pow 2 format.width) (h : format.read bits = .zero negative) :
    bits = if negative then Nat.pow 2 (format.fractionBits + format.exponentBits) else 0 := by
  simp only [read, width, Nat.pow_eq] at h hbits ⊢
  split_ifs at h with hones hfraction hfield hfraction
  simp only [Reading.zero.injEq] at h
  have hmod : bits % 2 ^ (format.fractionBits + format.exponentBits) = 0 := by
    rw [Nat.pow_add, Nat.mod_mul, hfraction, hfield]
    simp
  have hdiv : bits / 2 ^ (format.fractionBits + format.exponentBits) < 2 := by
    rw [Nat.pow_succ] at hbits
    exact Nat.div_lt_of_lt_mul hbits
  have hsplit := Nat.div_add_mod bits (2 ^ (format.fractionBits + format.exponentBits))
  rw [hmod, Nat.add_zero] at hsplit
  -- the quotient is the sign bit
  generalize bits / 2 ^ (format.fractionBits + format.exponentBits) = sign at h hdiv hsplit
  obtain rfl | rfl : sign = 0 ∨ sign = 1 := by omega
  · simp_all
  · simp_all

/-- A zero has a sign. -/
theorem Reading.isZero_iff {reading : Reading} :
    reading.isZero = true ↔ ∃ negative, reading = .zero negative := by
  cases reading <;> simp [isZero]

/-- The text of a zero shows its sign. -/
theorem Reading.zero_text_inj {negative negative' : Bool}
    (h : (zero negative).text = (zero negative').text) : negative = negative' := by
  cases negative <;> cases negative' <;> first | rfl | simp [text, signText] at h

/-- A zero is no NaN. -/
theorem Reading.isNaN_of_isZero {reading : Reading} (h : reading.isZero = true) :
    reading.isNaN = false := by
  obtain ⟨negative, rfl⟩ := isZero_iff.mp h
  rfl

/-- Numbers are equal if they are the same and no NaN, or zeros of different signs. -/
theorem eq_or_zero_iff {δ : Type} {reading : δ → Reading} (x y : δ) :
    ((reading x).isNaN = false ∧ (reading y).isNaN = false) ∧
        (x = y ∨ (reading x).isZero = true ∧ (reading y).isZero = true) ↔
      x = y ∧ (reading x).isNaN = false ∨
        ((reading x).isZero = true ∧ (reading y).isZero = true) ∧ x ≠ y := by
  constructor
  · rintro ⟨⟨hx, -⟩, heq | hzeros⟩
    · exact .inl ⟨heq, hx⟩
    · by_cases heq : x = y
      · exact .inl ⟨heq, hx⟩
      · exact .inr ⟨hzeros, heq⟩
  · rintro (⟨rfl, hx⟩ | ⟨hzeros, -⟩)
    · exact ⟨⟨hx, hx⟩, .inl rfl⟩
    · exact ⟨⟨Reading.isNaN_of_isZero hzeros.1, Reading.isNaN_of_isZero hzeros.2⟩, .inr hzeros⟩

/-- Numbers of one format are equal if they are the same and no NaN, or zeros of different signs. -/
theorem Binary.sameNumber_iff_eq_or_zero {format : Format} {x y : Binary format} :
    x.sameNumber y = true ↔
      x = y ∧ x.reading.isNaN = false ∨
        (x.reading.isZero = true ∧ y.reading.isZero = true) ∧ x ≠ y := by
  rw [← eq_or_zero_iff, sameNumber]
  rcases x with ⟨x⟩
  rcases y with ⟨y⟩
  simp

/-- Zeros of one format that are written alike are the same. -/
theorem Binary.eq_of_isZero_of_text_eq {format : Format} {x y : Binary format}
    (hx : x.reading.isZero = true) (hy : y.reading.isZero = true) (h : x.text = y.text) :
    x = y := by
  obtain ⟨negative, hread⟩ := Reading.isZero_iff.mp hx
  obtain ⟨negative', hread'⟩ := Reading.isZero_iff.mp hy
  rw [text, text, hread, hread'] at h
  rcases x with ⟨x⟩
  rcases y with ⟨y⟩
  have hbits : x.toNat = y.toNat := by
    rw [Format.eq_of_read_eq_zero x.isLt hread, Format.eq_of_read_eq_zero y.isLt hread',
      Reading.zero_text_inj h]
  rw [BitVec.eq_of_toNat_eq hbits]

end Number

/-! ## Payloads that pass for one instance -/

namespace Scalar

/-- The scalar is a NaN. -/
def isNaN : Scalar → Bool
  | .f32 x => x.reading.isNaN
  | .f64 x => x.reading.isNaN
  | _ => false

/-- The scalars are zeros of different signs. -/
def passesFor : Scalar → Scalar → Bool
  | .f32 x, .f32 y => x.reading.isZero && y.reading.isZero && x ≠ y
  | .f64 x, .f64 y => x.reading.isZero && y.reading.isZero && x ≠ y
  | _, _ => false

/-- Scalars are equal if they are the same and no NaN, or zeros of different signs. -/
theorem equal_iff_eq_or_passesFor {a b : Scalar} :
    a.equal b = true ↔ a = b ∧ a.isNaN = false ∨ a.passesFor b = true := by
  cases a <;> cases b <;>
    simp [equal, isNaN, passesFor, Number.Binary.sameNumber_iff_eq_or_zero]

/-- A zero of another sign is written differently. -/
theorem text_ne_of_passesFor {a b : Scalar} (h : a.passesFor b = true) : a.text ≠ b.text := by
  intro htext
  cases a <;> cases b <;> simp only [passesFor, Bool.false_eq_true] at h
  case f32.f32 x y =>
    simp only [Bool.and_eq_true, decide_eq_true_eq] at h
    exact h.2 (Number.Binary.eq_of_isZero_of_text_eq h.1.1 h.1.2 htext)
  case f64.f64 x y =>
    simp only [Bool.and_eq_true, decide_eq_true_eq] at h
    exact h.2 (Number.Binary.eq_of_isZero_of_text_eq h.1.1 h.1.2 htext)

end Scalar

namespace Value

/-- The payload is a NaN. -/
def isNaN : Value Node → Bool
  | .scalar s => s.isNaN
  | _ => false

/-- The payload is another one and yet passes for the same: a zero of the other sign, or a query
with the same root and elements of another type. -/
def passesFor : Value Node → Value Node → Bool
  | .scalar a, .scalar b => a.passesFor b
  | .query root element, .query root' element' => root.same root' && element ≠ element'
  | _, _ => false

/-- In a world, payloads pass for one instance if they are equal and no NaN, or if one passes for
the other. -/
theorem same_iff {world : World} {v w : Value Node} (hv : world.HasAll v.instances)
    (hw : world.HasAll w.instances) :
    v.same w = true ↔ v = w ∧ v.isNaN = false ∨ v.passesFor w = true := by
  cases v <;> cases w <;>
    simp only [instances, World.hasAll_cons, World.hasAll_nil, and_true] at hv hw
  case scalar.scalar a b =>
    simpa [same, sameInstance, equal, isNaN, passesFor] using Scalar.equal_iff_eq_or_passesFor
  case query.query root element root' element' =>
    rw [same, sameInstance, passesFor, Bool.and_eq_true, world.node_same_iff hv hw]
    by_cases helement : element = element' <;> simp [helement, isNaN]
  case text.text =>
    simpa [same, sameInstance, isNaN, passesFor] using
      world.stamp_eq_iff (fun _ _ => rfl) Instance.text.inj hv hw
  case sequence.sequence =>
    simpa [same, sameInstance, isNaN, passesFor] using
      world.stamp_eq_iff (fun _ _ => rfl) Instance.sequence.inj hv hw
  case object.object =>
    simpa [same, sameInstance, isNaN, passesFor] using
      world.stamp_eq_iff (fun _ _ => rfl) Instance.object.inj hv hw
  all_goals simp [same, sameInstance, equal, passesFor]

/-- Of which form the payload is, scalars told apart by theirs. -/
def variant (value : Value Node) : Nat × Option Nat :=
  match value with
  | .scalar s => (value.ctorIdx, some s.ctorIdx)
  | _ => (value.ctorIdx, none)

/-- No reader of constants can tell the payloads apart. -/
structure Indistinguishable (v w : Value Node) : Prop where
  variant : v.variant = w.variant
  text : v.toText = w.toText
  type : v.naturalType = w.naturalType
  /-- Queries have one root and elements of one type. -/
  query : v.asQuery?.map (fun query => (query.1.stamp, query.2)) =
    w.asQuery?.map fun query => (query.1.stamp, query.2)

/-- A payload cannot be told apart from itself. -/
theorem Indistinguishable.refl (v : Value Node) : v.Indistinguishable v := ⟨rfl, rfl, rfl, rfl⟩

/-- A payload that passes for another can be told apart from it. -/
theorem not_indistinguishable_of_passesFor {v w : Value Node} (h : w.passesFor v = true) :
    ¬ v.Indistinguishable w := by
  intro hsame
  cases w <;> cases v <;> simp only [passesFor, Bool.false_eq_true] at h
  case scalar.scalar a b =>
    exact Scalar.text_ne_of_passesFor h hsame.text.symm
  case query.query root element root' element' =>
    simp only [Bool.and_eq_true, decide_eq_true_eq] at h
    have hquery := hsame.query
    simp only [asQuery?, Option.map_some, Option.some.injEq, Prod.mk.injEq] at hquery
    exact h.2 hquery.2.symm

end Value

/-! ## Updates of constants -/

namespace Node

/-- An update of a constant gives the payload that is wanted, unless that passes for the old one
without being it. Then the constant is answered as it is, and its payload can be told apart from
what was wanted. -/
theorem constant_update_lost_iff {world : World} {node : Node} {payload : Value Node}
    (wanted : Value Node) (hnode : .node node ∈ world) (hfamily : node.family = .constant)
    (hshape : node.shape = .constant payload) (hwanted : world.HasAll wanted.instances) :
    ∃ (result : Node) (carried : Value Node) (next : Stamp),
      node.update (m := Supply) (.constant wanted) world.next = (.ok result, next) ∧
        result.kind = node.kind ∧ result.type = node.type ∧ result.shape = .constant carried ∧
        (carried.Indistinguishable wanted ↔ wanted.passesFor payload = false) ∧
        (wanted.passesFor payload = false → carried = wanted) ∧
        (wanted.passesFor payload = true → result = node ∧ next = world.next) := by
  have hpayload : world.HasAll payload.instances := by
    have hheld := World.hasAll_held hnode
    rwa [Instance.held, hshape] at hheld
  have hsame := Value.same_iff hwanted hpayload
  have hfam : (Shape.constant wanted).family = node.family := hfamily.symm
  rw [update_of_family_eq hfam, rebuild, ite_apply, hshape, Shape.identical]
  cases hpasses : wanted.passesFor payload with
  | true =>
    rw [if_pos (hsame.mpr (.inr hpasses))]
    refine ⟨node, payload, world.next, rfl, rfl, rfl, hshape, ?_, ?_, fun _ => ⟨rfl, rfl⟩⟩
    · simpa using Value.not_indistinguishable_of_passesFor hpasses
    · simp
  | false =>
    -- what is kept is equal to what is wanted, and what is made holds it
    by_cases hkept : wanted.same payload = true
    · have heq : payload = wanted := by
        rcases hsame.mp hkept with ⟨heq, -⟩ | hpasses'
        · exact heq.symm
        · rw [hpasses] at hpasses'
          cases hpasses'
      rw [if_pos hkept]
      refine ⟨node, wanted, world.next, rfl, rfl, rfl, heq ▸ hshape, ?_, fun _ => rfl, by simp⟩
      simpa using Value.Indistinguishable.refl wanted
    · rw [if_neg hkept]
      refine ⟨⟨world.next, node.kind, node.type, .constant wanted⟩, wanted, world.next + 1, rfl,
        rfl, rfl, rfl, ?_, fun _ => rfl, by simp⟩
      simpa using Value.Indistinguishable.refl wanted

/-- The root of the sampled queries. -/
def sampleRoot : Node := ⟨0, .parameter, .i32, .parameter (some "x") false⟩

/-- A constant with a query. -/
def sampleQueryConstant : Node :=
  ⟨1, .constant, .generic "Queryable" [.i32], .constant (.query sampleRoot .i32)⟩

/-- A constant with a positive zero. -/
def sampleZeroConstant : Node :=
  ⟨2, .constant, .primitive .f64, .constant (.scalar (.f64 ⟨0⟩))⟩

/-- The samples can be created in one world. -/
theorem exists_world_sampleConstants : ∃ world : World, .node sampleQueryConstant ∈ world ∧
    .node sampleZeroConstant ∈ world := by
  obtain ⟨world₁, -, hnext₁, hroot⟩ := World.empty.exists_insert
    (.node sampleRoot) (Nat.zero_le _) World.hasAll_nil
  obtain ⟨world₂, -, hnext₂, hquery⟩ := world₁.exists_insert (.node sampleQueryConstant)
    (Nat.le_of_eq hnext₁)
    (by simp [Instance.held, sampleQueryConstant, Shape.instances, Value.instances, hroot])
  obtain ⟨world₃, hle₃, -, hzero⟩ := world₂.exists_insert (.node sampleZeroConstant)
    (Nat.le_of_eq hnext₂) World.hasAll_nil
  exact ⟨world₃, World.mem_of_le hle₃ hquery, hzero⟩

/-- A zero that becomes a one is not lost; a query that gets another element type is. -/
theorem constant_update_sampleConstants : ∃ world : World,
    .node sampleQueryConstant ∈ world ∧ .node sampleZeroConstant ∈ world ∧
    (∃ (result : Node) (next : Stamp),
      sampleZeroConstant.update (m := Supply) (.constant (.scalar (.f64 ⟨0x3ff0000000000000⟩)))
        world.next = (.ok result, next) ∧
        result.shape = .constant (.scalar (.f64 ⟨0x3ff0000000000000⟩))) ∧
    ∃ (result : Node) (carried : Value Node) (next : Stamp),
      sampleQueryConstant.update (m := Supply) (.constant (.query sampleRoot .string))
        world.next = (.ok result, next) ∧
        result.shape = .constant carried ∧
        ¬ carried.Indistinguishable (.query sampleRoot .string) := by
  obtain ⟨world, hquery, hzero⟩ := exists_world_sampleConstants
  obtain ⟨result, carried, next, hrun, -, -, hshape, -, hcarried, -⟩ :=
    constant_update_lost_iff (.scalar (.f64 ⟨0x3ff0000000000000⟩)) hzero rfl rfl World.hasAll_nil
  rw [hcarried (by decide +kernel)] at hshape
  have hroot : world.HasAll (Value.query sampleRoot .string).instances := World.hasAll_held hquery
  obtain ⟨result', carried', next', hrun', -, -, hshape', hlost, -, -⟩ :=
    constant_update_lost_iff (.query sampleRoot .string) hquery rfl rfl hroot
  have hpasses : (Value.query sampleRoot .string).passesFor (.query sampleRoot .i32) = true := by
    decide +kernel
  refine ⟨world, hquery, hzero, ⟨result, next, hrun, hshape⟩, result', carried', next', hrun',
    hshape', ?_⟩
  rw [hlost, hpasses]
  decide

/-- The new element type of a query and the new sign of a zero are lost. -/
theorem sampleConstants_update_lost :
    (sampleQueryConstant.update (m := Supply) (.constant (.query sampleRoot .string)) 3 =
        (.ok sampleQueryConstant, 3) ∧
      ¬ (Value.query sampleRoot .i32).Indistinguishable (.query sampleRoot .string)) ∧
    sampleZeroConstant.update (m := Supply) (.constant (.scalar (.f64 ⟨0x8000000000000000⟩))) 3 =
        (.ok sampleZeroConstant, 3) ∧
      ¬ (Value.scalar (.f64 ⟨0⟩)).Indistinguishable (.scalar (.f64 ⟨0x8000000000000000⟩)) := by
  refine ⟨⟨rfl, ?_⟩, rfl, ?_⟩
  · exact Value.not_indistinguishable_of_passesFor (by decide +kernel)
  · exact Value.not_indistinguishable_of_passesFor (by decide +kernel)

end Node

/-! ## Updates that change nothing -/

/-- The shape is that of a constant that holds a NaN. -/
def Shape.holdsNaN : Shape Node → Bool
  | .constant value => value.isNaN
  | _ => false

/-- A payload passes for itself unless it is a NaN. -/
theorem Value.same_self_iff (value : Value Node) :
    value.same value = true ↔ value.isNaN = false := by
  cases value with
  | scalar a =>
    have hself : a.passesFor a = false := by cases a <;> simp [Scalar.passesFor]
    simp [same, sameInstance, equal, isNaN, Scalar.equal_iff_eq_or_passesFor, hself]
  | _ => simp [same, sameInstance, isNaN]

/-- A shape is identical to itself unless it holds a NaN. -/
theorem Shape.identical_self_iff (shape : Shape Node) :
    shape.identical shape = true ↔ shape.holdsNaN = false := by
  cases hleaf : shape.isLeaf with
  | false =>
    have hnan : shape.holdsNaN = false := by
      cases shape <;> first | rfl | cases hleaf
    simp [identical_self hleaf, hnan]
  | true =>
    cases shape with
    | constant value => exact Value.same_self_iff value
    | _ => simp_all [identical, holdsNaN, isLeaf]

namespace Node

/-- An update of a node to what it already is gives the node and draws no stamp, unless the node is
a constant that holds a NaN. That is created anew. -/
theorem update_own_shape_keeps_iff {node : Node} (hcoherent : node.isCoherent = true)
    (next : Stamp) :
    (node.update (m := Supply) node.shape next = (.ok node, next) ↔ node.shape.holdsNaN = false) ∧
      (node.shape.holdsNaN = true →
        node.update (m := Supply) node.shape next =
          (.ok ⟨next, node.kind, node.type, node.shape⟩, next + 1)) := by
  have hfam : node.shape.family = node.family := by
    simpa [isCoherent, family, eq_comm] using hcoherent
  rw [update_of_family_eq hfam, rebuild, ite_apply]
  cases hnan : node.shape.holdsNaN with
  | false =>
    rw [if_pos ((Shape.identical_self_iff _).mpr hnan)]
    exact ⟨⟨fun _ => rfl, fun _ => rfl⟩, fun h => by cases h⟩
  | true =>
    have hidentical : ¬ node.shape.identical node.shape = true := by
      rw [Shape.identical_self_iff, hnan]
      decide
    rw [if_neg hidentical]
    refine ⟨⟨fun h => ?_, fun h => by cases h⟩, fun _ => rfl⟩
    exact absurd (Prod.mk.inj h).2 (Nat.succ_ne_self next)

/-- A jump is its own update. -/
theorem update_own_shape_sampleBreak :
    (sampleBreak 0).isCoherent = true ∧
      (sampleBreak 0).update (m := Supply) (sampleBreak 0).shape 4 = (.ok (sampleBreak 0), 4) :=
  have hcoherent : (sampleBreak 0).isCoherent = true := by decide
  ⟨hcoherent, (update_own_shape_keeps_iff hcoherent 4).1.mpr rfl⟩

/-- A constant that holds a NaN. -/
def sampleNaN : Node :=
  ⟨0, .constant, .primitive .f64, .constant (.scalar (.f64 ⟨0x7ff8000000000000⟩))⟩

/-- A constant that holds a NaN is not its own update. -/
theorem update_own_shape_sampleNaN :
    sampleNaN.update (m := Supply) sampleNaN.shape 1 =
      (.ok ⟨1, sampleNaN.kind, sampleNaN.type, sampleNaN.shape⟩, 2) := rfl

end Node

end ExprTree
