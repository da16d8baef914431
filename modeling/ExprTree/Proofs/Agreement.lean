import ExprTree.Equality
import ExprTree.Proofs.Skeleton
import ExprTree.Traversal.Distinct
import Mathlib.Data.Set.Basic

/-!
# Agreement of payloads, shapes and nodes

When one step of a comparison passes, given which parts pass: a relation between the roots of
queries is lifted to payloads, and one between nodes to shapes and to the nodes that hold them.
Equality of payloads by value is such a lifting too. The liftings are symmetric and transitive
where the relation is, provided that the equality of the host objects at hand is.
-/

namespace ExprTree

variable {α β γ : Type}

/-! ## Scalars and host objects -/

namespace Number

/-- The number that stands for all that are equal to `x`: `origin` for a zero of either sign, and
none for a NaN, which is equal to nothing. -/
def representative? {δ : Type} (reading : δ → Reading) (origin x : δ) : Option δ :=
  if (reading x).isNaN then none else if (reading x).isZero then some origin else some x

/-- Numbers are equal when they have the same representative. -/
theorem representative?_eq_iff {δ : Type} {reading : δ → Reading} {origin : δ}
    (h : (reading origin).isZero = true) (x y : δ) :
    ((reading x).isNaN = false ∧ (reading y).isNaN = false) ∧
        (x = y ∨ (reading x).isZero = true ∧ (reading y).isZero = true) ↔
      ∃ r, representative? reading origin x = some r ∧
        representative? reading origin y = some r := by
  constructor
  · rintro ⟨⟨hx, hy⟩, rfl | ⟨hzx, hzy⟩⟩
    · cases hz : (reading x).isZero
      · exact ⟨x, by simp [representative?, hx, hz]⟩
      · exact ⟨origin, by simp [representative?, hx, hz]⟩
    · exact ⟨origin, by simp [representative?, hx, hzx], by simp [representative?, hy, hzy]⟩
  · rintro ⟨r, hx, hy⟩
    unfold representative? at hx hy
    -- a zero and a number that is none share no representative, since `origin` is a zero
    split_ifs at hx hy <;> simp_all

/-- Bits that are all zero are read as a zero. -/
theorem Format.isZero_read_zero (format : Format) : (format.read 0).isZero = true := by
  have hones : 0 ≠ 2 ^ format.exponentBits - 1 := by
    have := Nat.one_lt_two_pow (Nat.pos_iff_ne_zero.mp format.exponent_pos)
    omega
  simp [read, Reading.isZero, hones]

/-- Numbers of one format are equal when they have the same representative. -/
theorem Binary.sameNumber_iff {format : Format} (x y : Binary format) : x.sameNumber y = true ↔
    ∃ r, representative? reading ⟨0⟩ x = some r ∧ representative? reading ⟨0⟩ y = some r := by
  have hzero : (reading (⟨0⟩ : Binary format)).isZero = true := by
    simpa [reading] using format.isZero_read_zero
  rw [← representative?_eq_iff hzero, sameNumber]
  rcases x with ⟨x⟩
  rcases y with ⟨y⟩
  simp

end Number

namespace Scalar

/-- The scalar that stands for all that are equal to this one; none for a NaN. -/
def representative? : Scalar → Option Scalar
  | .f32 x => (Number.representative? Number.Binary.reading ⟨0⟩ x).map .f32
  | .f64 x => (Number.representative? Number.Binary.reading ⟨0⟩ x).map .f64
  | scalar => some scalar

/-- Scalars are equal when they have the same representative. -/
theorem equal_iff {a b : Scalar} :
    a.equal b = true ↔ ∃ r, a.representative? = some r ∧ b.representative? = some r := by
  cases a <;> cases b <;>
    simp [equal, representative?, Number.Binary.sameNumber_iff] <;>
    exact eq_comm

/-- Equality of scalars is symmetric. -/
theorem equal_symm {a b : Scalar} (h : a.equal b = true) : b.equal a = true := by
  obtain ⟨r, ha, hb⟩ := equal_iff.mp h
  exact equal_iff.mpr ⟨r, hb, ha⟩

/-- Equality of scalars is transitive. -/
theorem equal_trans {a b c : Scalar} (h : a.equal b = true) (h' : b.equal c = true) :
    a.equal c = true := by
  obtain ⟨r, ha, hb⟩ := equal_iff.mp h
  obtain ⟨r', hb', hc⟩ := equal_iff.mp h'
  have hr : r = r' := Option.some.inj (hb.symm.trans hb')
  exact equal_iff.mpr ⟨r, ha, hr ▸ hc⟩

end Scalar

namespace HostObject

/-- The objects at the given stamps match under the policy. -/
def matched (policy : ConstantPolicy) (x y : Stamp × HostObject) : Bool :=
  match policy with
  | .byReference => x.1 = y.1
  | .byValue => x.2.equal x.1 y.1 y.2

/-- The equality of the objects is symmetric and transitive. -/
structure LawfulOn (hosts : Set (Stamp × HostObject)) : Prop where
  /-- What an object takes for equal takes it for equal. -/
  symm : ∀ x ∈ hosts, ∀ y ∈ hosts, x.2.equal x.1 y.1 y.2 = true → y.2.equal y.1 x.1 x.2 = true
  /-- What an object takes for equal takes for equal only what the object does. -/
  trans : ∀ x ∈ hosts, ∀ y ∈ hosts, ∀ z ∈ hosts, x.2.equal x.1 y.1 y.2 = true →
    y.2.equal y.1 z.1 z.2 = true → x.2.equal x.1 z.1 z.2 = true

namespace LawfulOn

variable {hosts hosts' : Set (Stamp × HostObject)} {x y z : Stamp × HostObject}

/-- Fewer objects obey the laws too. -/
theorem mono (h : LawfulOn hosts) (hs : hosts' ⊆ hosts) : LawfulOn hosts' where
  symm x hx y hy := h.symm x (hs hx) y (hs hy)
  trans x hx y hy z hz := h.trans x (hs hx) y (hs hy) z (hs hz)

/-- Under either policy, matching is symmetric. -/
theorem matched_symm (h : LawfulOn hosts) {policy : ConstantPolicy} (hx : x ∈ hosts)
    (hy : y ∈ hosts) (hm : matched policy x y = true) : matched policy y x = true := by
  cases policy with
  | byReference => simpa [matched, eq_comm] using hm
  | byValue => exact h.symm x hx y hy hm

/-- Under either policy, matching is transitive. -/
theorem matched_trans (h : LawfulOn hosts) {policy : ConstantPolicy} (hx : x ∈ hosts)
    (hy : y ∈ hosts) (hz : z ∈ hosts) (hm : matched policy x y = true)
    (hm' : matched policy y z = true) : matched policy x z = true := by
  cases policy with
  | byReference =>
    simp only [matched, decide_eq_true_eq] at hm hm' ⊢
    exact hm.trans hm'
  | byValue => exact h.trans x hx y hy z hz hm hm'

end LawfulOn

end HostObject

/-! ## Payloads -/

namespace Value

mutual

/-- The host objects in the payload, each with its stamp. -/
def objects : Value α → List (Stamp × HostObject)
  | .object stamp host => [(stamp, host)]
  | .sequence _ items => objectsOfList items
  | .scalar _ | .text _ _ | .query _ _ => []

/-- The host objects in the payloads of a list. -/
def objectsOfList : List (Value α) → List (Stamp × HostObject)
  | [] => []
  | value :: rest => value.objects ++ objectsOfList rest

end

mutual

/-- Payloads of the same form with equal contents, where queries have related roots and host
objects match under the policy. -/
def Agree (policy : ConstantPolicy) (R : α → β → Prop) : Value α → Value β → Prop
  | .scalar a, .scalar b => a.equal b = true
  | .text _ a, .text _ b => a = b
  | .sequence _ as, .sequence _ bs => AgreeList policy R as bs
  | .query a _, .query b _ => R a b
  | .object s a, .object t b => HostObject.matched policy (s, a) (t, b) = true
  | _, _ => False

/-- Lists of agreeing payloads, place by place. -/
def AgreeList (policy : ConstantPolicy) (R : α → β → Prop) :
    List (Value α) → List (Value β) → Prop
  | [], [] => True
  | a :: as, b :: bs => a.Agree policy R b ∧ AgreeList policy R as bs
  | _, _ => False

end

variable {policy : ConstantPolicy} {R : α → β → Prop}

/-- Lists of agreeing payloads are equally long. -/
theorem AgreeList.length_eq : ∀ {as : List (Value α)} {bs : List (Value β)},
    AgreeList policy R as bs → as.length = bs.length
  | [], [], _ => rfl
  | _ :: _, _ :: _, h => by rw [List.length_cons, List.length_cons, AgreeList.length_eq h.2]

mutual

/-- Equality by value is agreement by value, with queries compared by their roots. -/
theorem equal_iff_agree {same : α → β → Bool} : ∀ {a : Value α} {b : Value β},
    a.equal same b = true ↔ a.Agree .byValue (fun x y => same x y = true) b
  | .scalar _, b | .text _ _, b | .query _ _, b | .object _ _, b => by
    cases b <;> simp [equal, Agree, HostObject.matched]
  | .sequence _ as, b => by
    cases b with
    | sequence _ bs => simpa only [equal, Agree] using equalList_iff_agreeList
    | _ => simp [equal, Agree]

/-- Equality by value of lists is agreement by value. -/
theorem equalList_iff_agreeList {same : α → β → Bool} : ∀ {as : List (Value α)}
    {bs : List (Value β)},
    equalList same as bs = true ↔ AgreeList .byValue (fun x y => same x y = true) as bs
  | [], bs => by cases bs <;> simp [equalList, AgreeList]
  | a :: as, bs => by
    cases bs with
    | nil => simp [equalList, AgreeList]
    | cons b bs =>
      simp only [equalList, AgreeList, Bool.and_eq_true]
      rw [equal_iff_agree, equalList_iff_agreeList]

end

mutual

/-- Agreement of a mapped payload is agreement of the payload. -/
theorem agree_map_left {f : γ → α} : ∀ {a : Value γ} {b : Value β},
    (a.map f).Agree policy R b ↔ a.Agree policy (fun x y => R (f x) y) b
  | .scalar _, b | .text _ _, b | .query _ _, b | .object _ _, b => by
    cases b <;> simp [map, Agree]
  | .sequence _ as, b => by
    cases b with
    | sequence _ bs => simpa only [map, Agree] using agreeList_mapList_left
    | _ => simp [map, Agree]

/-- Agreement of a mapped list is agreement of the list. -/
theorem agreeList_mapList_left {f : γ → α} : ∀ {as : List (Value γ)} {bs : List (Value β)},
    AgreeList policy R (mapList f as) bs ↔ AgreeList policy (fun x y => R (f x) y) as bs
  | [], bs => by cases bs <;> simp [mapList, AgreeList]
  | a :: as, bs => by
    cases bs with
    | nil => simp [mapList, AgreeList]
    | cons b bs =>
      simp only [mapList, AgreeList]
      rw [agree_map_left, agreeList_mapList_left]

end

mutual

/-- Agreement turns around with the relations it lifts. -/
theorem Agree.symm {S : β → α → Prop} : ∀ {a : Value α} {b : Value β},
    (∀ x ∈ a.roots, ∀ y ∈ b.roots, R x y → S y x) →
    (∀ x ∈ a.objects, ∀ y ∈ b.objects, HostObject.matched policy x y = true →
      HostObject.matched policy y x = true) →
    a.Agree policy R b → b.Agree policy S a
  | .scalar _, .scalar _, _, _, h => Scalar.equal_symm h
  | .text _ _, .text _ _, _, _, h => Eq.symm h
  | .sequence _ _, .sequence _ _, hr, ho, h => AgreeList.symm hr ho h
  | .query _ _, .query _ _, hr, _, h => by
    simp only [roots, List.mem_singleton, forall_eq] at hr
    exact hr h
  | .object _ _, .object _ _, _, ho, h => by
    simp only [objects, List.mem_singleton, forall_eq] at ho
    exact ho h

/-- Agreement of lists turns around with the relations it lifts. -/
theorem AgreeList.symm {S : β → α → Prop} : ∀ {as : List (Value α)} {bs : List (Value β)},
    (∀ x ∈ rootsOfList as, ∀ y ∈ rootsOfList bs, R x y → S y x) →
    (∀ x ∈ objectsOfList as, ∀ y ∈ objectsOfList bs, HostObject.matched policy x y = true →
      HostObject.matched policy y x = true) →
    AgreeList policy R as bs → AgreeList policy S bs as
  | [], [], _, _, _ => trivial
  | _ :: _, _ :: _, hr, ho, h => by
    simp only [rootsOfList, objectsOfList, List.mem_append] at hr ho
    exact ⟨Agree.symm (fun x hx y hy => hr x (.inl hx) y (.inl hy))
        (fun x hx y hy => ho x (.inl hx) y (.inl hy)) h.1,
      AgreeList.symm (fun x hx y hy => hr x (.inr hx) y (.inr hy))
        (fun x hx y hy => ho x (.inr hx) y (.inr hy)) h.2⟩

end

mutual

/-- Agreement can be chained where the relations it lifts can be. -/
theorem Agree.trans {S : β → γ → Prop} {T : α → γ → Prop} :
    ∀ {a : Value α} {b : Value β} {c : Value γ},
    (∀ x ∈ a.roots, ∀ y ∈ b.roots, ∀ z ∈ c.roots, R x y → S y z → T x z) →
    (∀ x ∈ a.objects, ∀ y ∈ b.objects, ∀ z ∈ c.objects, HostObject.matched policy x y = true →
      HostObject.matched policy y z = true → HostObject.matched policy x z = true) →
    a.Agree policy R b → b.Agree policy S c → a.Agree policy T c
  | .scalar _, .scalar _, .scalar _, _, _, h, h' => Scalar.equal_trans h h'
  | .text _ _, .text _ _, .text _ _, _, _, h, h' => Eq.trans h h'
  | .sequence _ _, .sequence _ _, .sequence _ _, hr, ho, h, h' => AgreeList.trans hr ho h h'
  | .query _ _, .query _ _, .query _ _, hr, _, h, h' => by
    simp only [roots, List.mem_singleton, forall_eq] at hr
    exact hr h h'
  | .object _ _, .object _ _, .object _ _, _, ho, h, h' => by
    simp only [objects, List.mem_singleton, forall_eq] at ho
    exact ho h h'

/-- Agreement of lists can be chained where the relations it lifts can be. -/
theorem AgreeList.trans {S : β → γ → Prop} {T : α → γ → Prop} :
    ∀ {as : List (Value α)} {bs : List (Value β)} {cs : List (Value γ)},
    (∀ x ∈ rootsOfList as, ∀ y ∈ rootsOfList bs, ∀ z ∈ rootsOfList cs, R x y → S y z → T x z) →
    (∀ x ∈ objectsOfList as, ∀ y ∈ objectsOfList bs, ∀ z ∈ objectsOfList cs,
      HostObject.matched policy x y = true → HostObject.matched policy y z = true →
        HostObject.matched policy x z = true) →
    AgreeList policy R as bs → AgreeList policy S bs cs → AgreeList policy T as cs
  | [], [], [], _, _, _, _ => trivial
  | _ :: _, _ :: _, _ :: _, hr, ho, h, h' => by
    simp only [rootsOfList, objectsOfList, List.mem_append] at hr ho
    exact ⟨Agree.trans (fun x hx y hy z hz => hr x (.inl hx) y (.inl hy) z (.inl hz))
        (fun x hx y hy z hz => ho x (.inl hx) y (.inl hy) z (.inl hz)) h.1 h'.1,
      AgreeList.trans (fun x hx y hy z hz => hr x (.inr hx) y (.inr hy) z (.inr hz))
        (fun x hx y hy z hz => ho x (.inr hx) y (.inr hy) z (.inr hz)) h.2 h'.2⟩

end

end Value

/-! ## Shapes and nodes -/

/-- Related items may be related otherwise, knowing of which lists they are. -/
theorem forall₂_imp_of_mem {R S : α → β → Prop} {as : List α} {bs : List β}
    (h : List.Forall₂ R as bs) (hi : ∀ x ∈ as, ∀ y ∈ bs, R x y → S x y) : List.Forall₂ S as bs := by
  induction h with
  | nil => exact .nil
  | cons hab _ ih =>
    refine .cons (hi _ (by simp) _ (by simp) hab) (ih ?_)
    intro x hx y hy
    exact hi x (by simp [hx]) y (by simp [hy])

/-- Related items can be chained, knowing of which lists they are. -/
theorem forall₂_trans_of_mem {R : α → β → Prop} {S : β → γ → Prop} {T : α → γ → Prop}
    {as : List α} {bs : List β} {cs : List γ} (h : List.Forall₂ R as bs)
    (h' : List.Forall₂ S bs cs)
    (ht : ∀ x ∈ as, ∀ y ∈ bs, ∀ z ∈ cs, R x y → S y z → T x z) : List.Forall₂ T as cs := by
  induction h generalizing cs with
  | nil =>
    cases h'
    exact .nil
  | cons hab _ ih =>
    cases h' with
    | cons hbc hrest =>
      refine .cons (ht _ (by simp) _ (by simp) _ (by simp) hab hbc) (ih hrest ?_)
      intro x hx y hy z hz
      exact ht x (by simp [hx]) y (by simp [hy]) z (by simp [hz])

namespace Value

/-- Payloads of constants of the given type agree. If the type is directly comparable, they are
compared by value and queries by the identity of their roots. -/
def AgreeAt (type : Ty) (policy : ConstantPolicy) (R : Node → Node → Prop) (a b : Value Node) :
    Prop :=
  if type.isDirectlyComparable then a.Agree .byValue (fun x y => x.same y = true) b
  else a.Agree policy R b

variable {type : Ty} {policy : ConstantPolicy} {R S : Node → Node → Prop} {a b c : Value Node}

/-- Agreement at a type turns around with the relations it lifts. -/
theorem AgreeAt.symm (hr : ∀ x ∈ a.roots, ∀ y ∈ b.roots, R x y → S y x)
    (ho : ∀ policy, ∀ x ∈ a.objects, ∀ y ∈ b.objects, HostObject.matched policy x y = true →
      HostObject.matched policy y x = true)
    (h : a.AgreeAt type policy R b) : b.AgreeAt type policy S a := by
  unfold AgreeAt at h ⊢
  split_ifs at h ⊢
  · refine h.symm (fun x _ y _ hxy => ?_) (ho .byValue)
    simpa [Node.same, eq_comm] using hxy
  · exact h.symm hr (ho policy)

/-- Agreement at a type can be chained where the relations it lifts can be. -/
theorem AgreeAt.trans
    (hr : ∀ x ∈ a.roots, ∀ y ∈ b.roots, ∀ z ∈ c.roots, R x y → R y z → R x z)
    (ho : ∀ policy, ∀ x ∈ a.objects, ∀ y ∈ b.objects, ∀ z ∈ c.objects,
      HostObject.matched policy x y = true → HostObject.matched policy y z = true →
        HostObject.matched policy x z = true)
    (h : a.AgreeAt type policy R b) (h' : b.AgreeAt type policy R c) :
    a.AgreeAt type policy R c := by
  unfold AgreeAt at h h' ⊢
  split_ifs at h h' ⊢
  · refine h.trans (fun x _ y _ z _ hxy hyz => ?_) (ho .byValue) h'
    simp only [Node.same, decide_eq_true_eq] at hxy hyz ⊢
    exact hxy.trans hyz
  · exact h.trans hr (ho policy) h'

end Value

namespace Shape

/-- The host objects in the payload. -/
def objects (shape : Shape α) : List (Stamp × HostObject) := shape.payloads.flatMap Value.objects

/-- Shapes of nodes of the given type that pass a comparison if their parts do. -/
structure Agree (type : Ty) (policy : ConstantPolicy) (R : Node → Node → Prop)
    (a b : Shape Node) : Prop where
  /-- The shapes hold their parts in the same way. -/
  skeleton : a.skeleton = b.skeleton
  /-- The children are related place by place. -/
  children : List.Forall₂ R a.children b.children
  /-- The payloads agree. -/
  payloads : List.Forall₂ (Value.AgreeAt type policy R) a.payloads b.payloads

/-- Agreement of a shape whose handles stand for nodes. -/
theorem agree_map_left_iff {type : Ty} {policy : ConstantPolicy} {R : Node → Node → Prop}
    {node : α → Node} {a : Shape α} {b : Shape Node} :
    Agree type policy R (a.map node) b ↔
      a.skeleton = b.skeleton ∧ List.Forall₂ (fun x y => R (node x) y) a.children b.children ∧
        List.Forall₂ (fun v w => (v.map node).AgreeAt type policy R w) a.payloads b.payloads := by
  have parts : Agree type policy R (a.map node) b ↔
      (a.map node).skeleton = b.skeleton ∧ List.Forall₂ R (a.map node).children b.children ∧
        List.Forall₂ (Value.AgreeAt type policy R) (a.map node).payloads b.payloads :=
    ⟨fun h => ⟨h.skeleton, h.children, h.payloads⟩, fun ⟨hs, hc, hp⟩ => ⟨hs, hc, hp⟩⟩
  rw [parts, skeleton_map, children_map, payloads_map, List.forall₂_map_left_iff,
    List.forall₂_map_left_iff]

/-- A child is in plain sight. -/
theorem mem_contents_of_mem_children {shape : Shape α} {a : α} (h : a ∈ shape.children) :
    a ∈ shape.contents := by
  cases shape <;> first | exact h | simp [Shape.children] at h

/-- The root of a query is in plain sight. -/
theorem mem_contents_of_mem_roots {shape : Shape α} {value : Value α} {a : α}
    (hv : value ∈ shape.payloads) (h : a ∈ value.roots) : a ∈ shape.contents := by
  cases shape <;> simp_all [Shape.payloads, contents, handles]

/-- The host objects of a payload are those of the shape. -/
theorem mem_objects_of_mem_payloads {shape : Shape α} {value : Value α} {x : Stamp × HostObject}
    (hv : value ∈ shape.payloads) (h : x ∈ value.objects) : x ∈ shape.objects :=
  List.mem_flatMap.mpr ⟨value, hv, h⟩

variable {type : Ty} {policy : ConstantPolicy} {R S : Node → Node → Prop} {a b c : Shape Node}

/-- Agreement of shapes turns around with the relations it lifts. -/
theorem Agree.symm (hr : ∀ x ∈ a.contents, ∀ y ∈ b.contents, R x y → S y x)
    (ho : ∀ policy, ∀ x ∈ a.objects, ∀ y ∈ b.objects, HostObject.matched policy x y = true →
      HostObject.matched policy y x = true)
    (h : Agree type policy R a b) : Agree type policy S b a := by
  refine ⟨h.skeleton.symm, ?_, ?_⟩
  · have hflip : List.Forall₂ (flip R) b.children a.children := h.children.flip
    refine forall₂_imp_of_mem hflip fun y hy x hx hxy => ?_
    exact hr x (mem_contents_of_mem_children hx) y (mem_contents_of_mem_children hy) hxy
  · have hflip : List.Forall₂ (flip (Value.AgreeAt type policy R)) b.payloads a.payloads :=
      h.payloads.flip
    refine forall₂_imp_of_mem hflip fun w hw v hv hvw => ?_
    refine Value.AgreeAt.symm (fun x hx y hy => ?_) (fun policy x hx y hy => ?_) hvw
    · exact hr x (mem_contents_of_mem_roots hv hx) y (mem_contents_of_mem_roots hw hy)
    · exact ho policy x (mem_objects_of_mem_payloads hv hx) y (mem_objects_of_mem_payloads hw hy)

/-- Agreement of shapes can be chained where the relations it lifts can be. -/
theorem Agree.trans
    (hr : ∀ x ∈ a.contents, ∀ y ∈ b.contents, ∀ z ∈ c.contents, R x y → R y z → R x z)
    (ho : ∀ policy, ∀ x ∈ a.objects, ∀ y ∈ b.objects, ∀ z ∈ c.objects,
      HostObject.matched policy x y = true → HostObject.matched policy y z = true →
        HostObject.matched policy x z = true)
    (h : Agree type policy R a b) (h' : Agree type policy R b c) : Agree type policy R a c := by
  refine ⟨h.skeleton.trans h'.skeleton, ?_, ?_⟩
  · refine forall₂_trans_of_mem h.children h'.children fun x hx y hy z hz => ?_
    exact hr x (mem_contents_of_mem_children hx) y (mem_contents_of_mem_children hy) z
      (mem_contents_of_mem_children hz)
  · refine forall₂_trans_of_mem h.payloads h'.payloads fun v hv w hw u hu hvw hwu => ?_
    refine hvw.trans (fun x hx y hy z hz => ?_) (fun policy x hx y hy z hz => ?_) hwu
    · exact hr x (mem_contents_of_mem_roots hv hx) y (mem_contents_of_mem_roots hw hy) z
        (mem_contents_of_mem_roots hu hz)
    · exact ho policy x (mem_objects_of_mem_payloads hv hx) y (mem_objects_of_mem_payloads hw hy) z
        (mem_objects_of_mem_payloads hu hz)

end Shape

end ExprTree
