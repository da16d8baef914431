import ExprTree.Proofs.Agreement
import ExprTree.Proofs.Heap

/-!
# What a comparison decides

A step of a comparison is described by its verdict: whether it passes. Steps follow one another and
each goes on only if those before it passed, so the verdict of a sequence is the conjunction of the
verdicts. A step leaves the open pairs as it found them, and it adds to the events the queries that
it enters and, if it tells the trees apart, the one check that did so.

In a heap no query is entered while it is open, because what is open is always above what is being
compared. So the verdict on two nodes does not depend on the open pairs, and `Node.equals` obeys
one equation: the nodes are the same, or they agree and their parts are equal.
-/

namespace ExprTree

/-- Only the entering of queries is reported. -/
def OnlyQueries (events : List Event) : Prop :=
  ∀ event ∈ events, ∃ root, event = .enteringQuery root

/-- The events, latest first, that go with the end of a step: a check that fails is reported once
and last, and queries are reported before. -/
def Explains : Except Halt Unit → List Event → Prop
  | .ok (), events => OnlyQueries events
  | .error (.differs aspect), events =>
    ∃ earlier, events = .treesDiffer aspect :: earlier ∧ OnlyQueries earlier
  | .error (.unsupported _ _), events => OnlyQueries events

/-- Queries entered before do not change what explains the end of a step. -/
theorem Explains.append {result : Except Halt Unit} {events earlier : List Event}
    (h : Explains result events) (he : OnlyQueries earlier) :
    Explains result (events ++ earlier) := by
  have both : ∀ {later : List Event}, OnlyQueries later → OnlyQueries (later ++ earlier) := by
    intro later hl event hm
    exact (List.mem_append.mp hm).elim (hl event) (he event)
  match result, h with
  | .ok (), h => exact both h
  | .error (.unsupported _ _), h => exact both h
  | .error (.differs aspect), ⟨first, hf, hq⟩ =>
    exact ⟨first ++ earlier, by rw [hf, List.cons_append], both hq⟩

/-- The step, run while the given pairs are open, passes exactly if the verdict holds. It leaves
the open pairs as they are and reports what explains its end. -/
def Settles (opened : List (Stamp × Stamp)) (step : CompareM Unit) (verdict : Prop) : Prop :=
  ∃ result events, (result = .ok () ↔ verdict) ∧ Explains result events ∧
    ∀ before, step.run.run ⟨opened, before⟩ = (result, ⟨opened, events ++ before⟩)

namespace Settles

open CompareM

variable {opened : List (Stamp × Stamp)} {step next : CompareM Unit} {verdict verdict' : Prop}

/-- A verdict may be put in other words. -/
theorem congr (h : Settles opened step verdict) (hv : verdict ↔ verdict') :
    Settles opened step verdict' := by
  obtain ⟨result, events, hr, he, hrun⟩ := h
  exact ⟨result, events, hr.trans hv, he, hrun⟩

/-- The step that does nothing passes. -/
theorem pass : Settles opened (pure ()) True :=
  ⟨.ok (), [], by simp, by simp [Explains, OnlyQueries], fun _ => rfl⟩

/-- A failed check does not pass. -/
theorem fail (aspect : Aspect) : Settles opened (differ aspect) False := by
  refine ⟨.error (.differs aspect), [.treesDiffer aspect], by simp, ⟨[], rfl, ?_⟩, fun _ => rfl⟩
  simp [OnlyQueries]

/-- Shapes that cannot be compared do not pass. -/
theorem refuse (kind : Kind) (found : Family) :
    Settles opened (throw (.unsupported kind found)) False :=
  ⟨.error (.unsupported kind found), [], by simp, by simp [Explains, OnlyQueries], fun _ => rfl⟩

/-- A check passes if its condition holds. -/
theorem check (condition : Bool) (aspect : Aspect) :
    Settles opened (ensure condition aspect) (condition = true) := by
  unfold ensure
  cases condition with
  | false => simpa using fail aspect
  | true => simpa using pass

/-- Two steps are run one after the other, unless the first ends the comparison. -/
theorem run_seq (step next : CompareM Unit) (progress : Progress) :
    (do step; next : CompareM Unit).run.run progress =
      match step.run.run progress with
      | (.ok (), after) => next.run.run after
      | (.error halt, after) => (.error halt, after) := by
  rw [ExceptT.run_bind, StateT.run_bind]
  generalize step.run.run progress = outcome
  rcases outcome with ⟨_ | _, after⟩ <;> rfl

/-- A step that follows another is run only if that one passes. -/
theorem seq (h : Settles opened step verdict) (h' : verdict → Settles opened next verdict') :
    Settles opened (do step; next) (verdict ∧ verdict') := by
  obtain ⟨result, events, hr, he, hrun⟩ := h
  cases result with
  | error halt =>
    refine ⟨.error halt, events, ?_, he, fun before => ?_⟩
    · have : ¬verdict := fun hv => by simpa using hr.mpr hv
      simp [this]
    · rw [run_seq, hrun before]
  | ok =>
    have hv : verdict := hr.mp rfl
    obtain ⟨result', events', hr', he', hrun'⟩ := h' hv
    refine ⟨result', events' ++ events, ?_, he'.append he, fun before => ?_⟩
    · rw [hr']
      simp [hv]
    · rw [run_seq, hrun before, List.append_assoc]
      exact hrun' (events ++ before)

/-- A query that is entered is reported. -/
theorem enter (root : Node) : Settles opened (note (.enteringQuery root)) True := by
  refine ⟨.ok (), [.enteringQuery root], by simp, ?_, fun _ => rfl⟩
  simp [Explains, OnlyQueries]

/-- A pair is open while its roots are compared and is closed afterwards. -/
theorem inside {pair : Stamp × Stamp} (h : Settles (pair :: opened) step verdict) :
    Settles opened (within pair step) verdict := by
  obtain ⟨result, events, hr, he, hrun⟩ := h
  refine ⟨result, events, hr, he, fun before => ?_⟩
  have hw : (within pair step).run.run ⟨opened, before⟩ =
      ((step.run.run ⟨pair :: opened, before⟩).1,
        { (step.run.run ⟨pair :: opened, before⟩).2 with
          entered := (step.run.run ⟨pair :: opened, before⟩).2.entered.erase pair }) := rfl
  rw [hw, hrun before]
  simp

/-- A pair that is not open is entered. -/
theorem unless_open {pair : Stamp × Stamp} (hp : pair ∉ opened)
    (h : Settles opened next verdict) :
    Settles opened (do if (← get).entered.contains pair then step else next) verdict := by
  obtain ⟨result, events, hr, he, hrun⟩ := h
  refine ⟨result, events, hr, he, fun before => ?_⟩
  have hw : (do if (← get).entered.contains pair then step else next : CompareM Unit).run.run
      ⟨opened, before⟩ =
        (if opened.contains pair then step else next : CompareM Unit).run.run
          ⟨opened, before⟩ := rfl
  rw [hw, if_neg (by simpa using hp)]
  exact hrun before

end Settles

/-! ## Children and nested structures -/

section Nested

open CompareM

variable {α β : Type} {opened : List (Stamp × Stamp)}

/-- Optional children pass if both are absent or both are there and pass. -/
theorem compareOption_settles {compare : α → Node → CompareM Unit} {R : α → Node → Prop}
    (h : ∀ x y, Settles opened (compare x y) (R x y)) (a : Option α) (b : Option Node) :
    Settles opened (compareOption compare a b) (List.Forall₂ R a.toList b.toList) := by
  cases a with
  | none =>
    cases b with
    | none => exact Settles.pass.congr (by simp)
    | some b => exact (Settles.fail _).congr (by simp)
  | some a =>
    cases b with
    | none => exact (Settles.fail _).congr (by simp)
    | some b => exact (h a b).congr (by simp)

/-- Lists of the same length pass if they do place by place. -/
theorem compareItems_settles {compare : α → β → CompareM Unit} {R : α → β → Prop}
    (h : ∀ x y, Settles opened (compare x y) (R x y)) {as : List α} {bs : List β}
    (hl : as.length = bs.length) :
    Settles opened (compareItems compare as bs) (List.Forall₂ R as bs) := by
  induction as generalizing bs with
  | nil =>
    cases bs with
    | nil => exact Settles.pass.congr (by simp)
    | cons b bs => simp at hl
  | cons a as ih =>
    cases bs with
    | nil => simp at hl
    | cons b bs =>
      have hlen : as.length = bs.length := by simpa using hl
      have hrest := ih hlen
      exact ((h a b).seq fun _ => hrest).congr (by simp)

/-- Lists of structures pass that have equal frames and parts that pass, if each two structures do.
The parts of a list of structures are `listed` one structure after the other. -/
theorem compareStructures_settles {κ κ' φ : Type} {act : κ → κ' → CompareM Unit}
    {R : α → β → Prop} {frame : κ → φ} {frame' : κ' → φ} {parts : κ → List α}
    {parts' : κ' → List β} {listed : List κ → List α} {listed' : List κ' → List β}
    (hlisted : ∀ ks, listed ks = ks.flatMap parts)
    (hlisted' : ∀ ks, listed' ks = ks.flatMap parts')
    (hlen : ∀ a b, frame a = frame' b → (parts a).length = (parts' b).length)
    (h : ∀ a b, Settles opened (act a b)
      (frame a = frame' b ∧ List.Forall₂ R (parts a) (parts' b)))
    {as : List κ} {bs : List κ'} (hl : as.length = bs.length) :
    Settles opened (compareItems act as bs)
      (as.map frame = bs.map frame' ∧ List.Forall₂ R (listed as) (listed' bs)) := by
  rw [hlisted, hlisted']
  exact (compareItems_settles h hl).congr (forall₂_frames_iff hlen)

variable {compare : α → Node → CompareM Unit} {R : α → Node → Prop}

/-- Initializers pass that have equal frames and arguments that pass. -/
theorem ElementInit.compare_settles (h : ∀ x y, Settles opened (compare x y) (R x y))
    (a : ElementInit α) (b : ElementInit Node) :
    Settles opened (a.compare compare b)
      (a.frame = b.frame ∧ List.Forall₂ R a.arguments b.arguments) := by
  refine ((Settles.check _ _).seq fun _ => (Settles.check _ _).seq fun hl =>
    compareItems_settles h (by simpa using hl)).congr ?_
  simp only [frame, unstamp, map, mk.injEq, decide_eq_true_eq]
  constructor
  · rintro ⟨hm, hl, hr⟩
    exact ⟨⟨trivial, hm, by simp [hl]⟩, hr⟩
  · rintro ⟨⟨-, hm, -⟩, hr⟩
    exact ⟨hm, hr.length_eq, hr⟩

mutual

/-- Bindings pass that have equal frames and handles that pass. -/
theorem Binding.compare_settles (h : ∀ x y, Settles opened (compare x y) (R x y)) :
    ∀ (a : Binding α) (b : Binding Node), Settles opened (a.compare compare b)
      (a.frame = b.frame ∧ List.Forall₂ R a.children b.children)
  | .assignment _ member x, .assignment _ member' y =>
    ((Settles.check _ _).seq fun _ => h x y).congr (by
      simp [frame, Binding.map, unstamp, children])
  | .list _ member as, .list _ member' bs =>
    ((Settles.check _ _).seq fun _ => (Settles.check _ _).seq fun hl =>
      compareStructures_settles ElementInit.argumentsOfList_eq_flatMap
        ElementInit.argumentsOfList_eq_flatMap (fun _ _ => ElementInit.length_eq_of_frame_eq)
        (ElementInit.compare_settles h) (by simpa using hl)).congr (by
        simp only [frame_list, children, list.injEq, decide_eq_true_eq, true_and]
        constructor
        · rintro ⟨hm, -, hf, hr⟩
          exact ⟨⟨hm, hf⟩, hr⟩
        · rintro ⟨⟨hm, hf⟩, hr⟩
          exact ⟨hm, by simpa using congrArg List.length hf, hf, hr⟩)
  | .nested _ member as, .nested _ member' bs =>
    ((Settles.check _ _).seq fun _ => (Settles.check _ _).seq fun hl =>
      Binding.compareList_settles h as bs (by simpa using hl)).congr (by
        simp only [frame_nested, children, nested.injEq, decide_eq_true_eq, true_and]
        constructor
        · rintro ⟨hm, -, hf, hr⟩
          exact ⟨⟨hm, hf⟩, hr⟩
        · rintro ⟨⟨hm, hf⟩, hr⟩
          exact ⟨hm, by simpa using congrArg List.length hf, hf, hr⟩)
  | .assignment _ _ _, .list _ _ _ | .assignment _ _ _, .nested _ _ _
  | .list _ _ _, .assignment _ _ _ | .list _ _ _, .nested _ _ _
  | .nested _ _ _, .assignment _ _ _ | .nested _ _ _, .list _ _ _ =>
    ((Settles.check _ _).seq fun _ => Settles.fail _).congr (by
      simp [frame, Binding.map, unstamp])

/-- Lists of bindings pass that have equal frames and handles that pass. -/
theorem Binding.compareList_settles (h : ∀ x y, Settles opened (compare x y) (R x y)) :
    ∀ (as : List (Binding α)) (bs : List (Binding Node)), as.length = bs.length →
    Settles opened (compareList compare as bs)
      (as.map frame = bs.map frame ∧ List.Forall₂ R (childrenOfList as) (childrenOfList bs))
  | [], [], _ => Settles.pass.congr (by simp [childrenOfList])
  | a :: as, b :: bs, hl => by
    have hrest := Binding.compareList_settles h as bs (by simpa using hl)
    refine ((Binding.compare_settles h a b).seq fun _ => hrest).congr ?_
    simp only [List.map_cons, List.cons.injEq, childrenOfList]
    constructor
    · rintro ⟨⟨hf, hr⟩, hfs, hrs⟩
      exact ⟨⟨hf, hfs⟩, List.rel_append hr hrs⟩
    · rintro ⟨⟨hf, hfs⟩, hall⟩
      have hr := (forall₂_append_iff (length_eq_of_frame_eq hf)).mp hall
      exact ⟨⟨hf, hr.1⟩, hfs, hr.2⟩

end

/-- Cases pass that have equal frames and handles that pass. -/
theorem SwitchCase.compare_settles (h : ∀ x y, Settles opened (compare x y) (R x y))
    (a : SwitchCase α) (b : SwitchCase Node) :
    Settles opened (a.compare compare b)
      (a.frame = b.frame ∧ List.Forall₂ R a.children b.children) := by
  refine ((Settles.check _ _).seq fun hl => (compareItems_settles h (by simpa using hl)).seq
    fun _ => h _ _).congr ?_
  simp only [frame, unstamp, map, children, mk.injEq, decide_eq_true_eq]
  constructor
  · rintro ⟨hl, ht, hb⟩
    exact ⟨⟨trivial, by simp [hl], trivial⟩, List.rel_append ht (.cons hb .nil)⟩
  · rintro ⟨⟨-, hl, -⟩, hall⟩
    have hlen : a.tests.length = b.tests.length := by simpa using congrArg List.length hl
    obtain ⟨ht, hb⟩ := (forall₂_append_iff hlen).mp hall
    exact ⟨hlen, ht, by simpa using hb⟩

/-- Handlers pass that have equal frames and handles that pass. -/
theorem Handler.compare_settles (h : ∀ x y, Settles opened (compare x y) (R x y))
    (a : Handler α) (b : Handler Node) :
    Settles opened (a.compare compare b)
      (a.frame = b.frame ∧ List.Forall₂ R a.children b.children) := by
  refine ((Settles.check _ _).seq fun _ => (compareOption_settles h _ _).seq fun _ =>
    (compareOption_settles h _ _).seq fun _ => h _ _).congr ?_
  rcases a with ⟨_, caught, _ | bound, _ | filter, body⟩ <;>
    rcases b with ⟨_, caught', _ | bound', _ | filter', body'⟩ <;>
    simp [frame, unstamp, map, children]

end Nested

/-! ## Payloads -/

namespace Value

open CompareM

variable {α : Type} {opened : List (Stamp × Stamp)} {policy : ConstantPolicy} {node : α → Node}
  {compareRoots : α → Node → CompareM Unit} {R : α → Node → Prop}

/-- What is left to the policy passes if the policy takes it for equal. -/
theorem compareByPolicy_settles (a b : Value Node) {verdict : Prop}
    (hr : policy = .byReference → (a.same b = true ↔ verdict))
    (hv : policy = .byValue → (a.beq b = true ↔ verdict)) :
    Settles opened (compareByPolicy policy a b) verdict := by
  cases policy with
  | byReference => exact (Settles.check _ _).congr (hr rfl)
  | byValue => exact (Settles.check _ _).congr (hv rfl)

mutual

/-- Payloads pass that agree, if no query in them is open. -/
theorem compare_settles : ∀ (a : Value α) (b : Value Node),
    (∀ x ∈ a.roots, ∀ y, ((node x).stamp, y.stamp) ∉ opened ∧
      Settles (((node x).stamp, y.stamp) :: opened) (compareRoots x y) (R x y)) →
    Settles opened (a.compare policy node compareRoots b) (a.Agree policy R b)
  | .query x element, .query y element', h => by
    have hx := h x (by simp [roots]) y
    refine Settles.unless_open hx.1 (Settles.inside ?_)
    exact ((Settles.enter _).seq fun _ => hx.2).congr (by simp [Agree])
  | .sequence _ as, .sequence _ bs, h => by
    refine ((Settles.check _ _).seq fun hl =>
      compareList_settles as bs (by simpa using hl) h).congr ?_
    simp only [decide_eq_true_eq, Agree]
    exact ⟨And.right, fun ha => ⟨ha.length_eq, ha⟩⟩
  | .object s a, .object t b, _ =>
    compareByPolicy_settles _ _
      (by rintro rfl; simp [same, sameInstance, Agree, HostObject.matched])
      (by rintro rfl; simp [beq, equal, Agree, HostObject.matched])
  | .scalar _, b, _ | .text _ _, b, _ => by
    refine (Settles.check _ _).congr ?_
    cases b <;> simp [beq, equal, Agree]
  | .query _ _, .scalar _, _ | .query _ _, .text _ _, _ | .query _ _, .sequence _ _, _
  | .query _ _, .object _ _, _ | .sequence _ _, .scalar _, _ | .sequence _ _, .text _ _, _
  | .sequence _ _, .query _ _, _ | .sequence _ _, .object _ _, _ | .object _ _, .scalar _, _
  | .object _ _, .text _ _, _ | .object _ _, .sequence _ _, _ | .object _ _, .query _ _, _ =>
    compareByPolicy_settles _ _ (by simp [same, sameInstance, equal, Agree])
      (by simp [beq, equal, Agree])

/-- Lists of payloads of the same length pass that agree, if no query in them is open. -/
theorem compareList_settles : ∀ (as : List (Value α)) (bs : List (Value Node)),
    as.length = bs.length →
    (∀ x ∈ rootsOfList as, ∀ y, ((node x).stamp, y.stamp) ∉ opened ∧
      Settles (((node x).stamp, y.stamp) :: opened) (compareRoots x y) (R x y)) →
    Settles opened (compareList policy node compareRoots as bs) (AgreeList policy R as bs)
  | [], [], _, _ => Settles.pass.congr (by simp [AgreeList])
  | a :: as, b :: bs, hl, h => by
    simp only [rootsOfList, List.mem_append] at h
    have ha := compare_settles a b fun x hx => h x (.inl hx)
    have has := compareList_settles as bs (by simpa using hl) fun x hx => h x (.inr hx)
    exact (ha.seq fun _ => has).congr (by simp [AgreeList])

end

/-- Payloads of constants of one type pass that agree at the type, if no query is open. -/
theorem compareAt_settles {type : Ty} {R : Node → Node → Prop}
    (h : ∀ x y, ((node x).stamp, y.stamp) ∉ opened ∧
      Settles (((node x).stamp, y.stamp) :: opened) (compareRoots x y) (R (node x) y))
    (a : Value α) (b : Value Node) :
    Settles opened (a.compareAt type policy node compareRoots b)
      ((a.map node).AgreeAt type policy R b) := by
  unfold compareAt AgreeAt
  split_ifs
  · exact (Settles.check _ _).congr equal_iff_agree
  · exact (compare_settles a b fun x _ => h x).congr agree_map_left.symm

end Value

/-! ## Shapes -/

/-- Optional targets agree when they are equal but for their identities. -/
theorem agreeingTargets_iff {a b : Option LabelTarget} :
    agreeingTargets a b = true ↔ a.map LabelTarget.bare = b.map LabelTarget.bare := by
  cases a <;> cases b <;> simp [agreeingTargets, LabelTarget.agrees_iff]

namespace Shape

variable {α : Type} {opened : List (Stamp × Stamp)} {kind : Kind} {type : Ty}
  {policy : ConstantPolicy} {node : α → Node} {compare' : α → Node → CompareM Unit}
  {R : Node → Node → Prop}

/-- Shapes of different families are not compared further. -/
theorem compare_of_family_ne {s : Shape α} {t : Shape Node} (h : s.family ≠ t.family) :
    s.compare kind type policy node compare' t = throw (.unsupported kind t.family) := by
  cases s <;> cases t <;> first | rfl | exact absurd rfl h

/-- Shapes pass that agree, if none of what the first one holds is open. -/
theorem compare_settles (h : ∀ x y, Settles opened (compare' x y) (R (node x) y))
    (hroots : ∀ x y, ((node x).stamp, y.stamp) ∉ opened ∧
      Settles (((node x).stamp, y.stamp) :: opened) (compare' x y) (R (node x) y))
    (s : Shape α) (t : Shape Node) :
    Settles opened (s.compare kind type policy node compare' t)
      (Agree type policy R (s.map node) t) := by
  by_cases hfam : s.family = t.family
  · refine Settles.congr ?_ agree_map_left_iff.symm
    -- the checks of each family, in their order; then what they come to is put in other words
    induction s, t, hfam using cases_of_family_eq with
    | binary l c r m f l' c' r' m' f' =>
      refine ((Settles.check _ _).seq fun _ => (Settles.check _ _).seq fun _ =>
        (h l l').seq fun _ => (compareOption_settles h c c').seq fun _ => h r r').congr ?_
      cases c <;> cases c' <;>
        simp [skeleton, frame, map, unstamp, bare, hollow, children, payloads]
      all_goals tauto
    | unary o m o' m' =>
      refine ((Settles.check _ _).seq fun _ => compareOption_settles h o o').congr ?_
      cases o <;> cases o' <;>
        simp [skeleton, frame, map, unstamp, bare, hollow, children, payloads]
    | call o m as o' m' as' =>
      refine ((Settles.check _ _).seq fun hl => (Settles.check _ _).seq fun _ =>
        (compareOption_settles h o o').seq fun _ =>
          compareItems_settles h (by simpa using hl)).congr ?_
      cases o <;> cases o' <;>
        simp [skeleton, frame, map, unstamp, bare, hollow, children, payloads]
      all_goals tauto
    | conditional a b c a' b' c' =>
      refine ((h a a').seq fun _ => (h b b').seq fun _ => h c c').congr ?_
      simp [skeleton, frame, map, unstamp, bare, hollow, children, payloads]
    | invoke c as c' as' =>
      refine ((Settles.check _ _).seq fun hl => (h c c').seq fun _ =>
        compareItems_settles h (by simpa using hl)).congr ?_
      simp [skeleton, frame, map, unstamp, bare, hollow, children, payloads]
    | lambda b ps n t b' ps' n' t' =>
      refine ((Settles.check _ _).seq fun hl =>
        (compareItems_settles h (by simpa using hl)).seq fun _ => h b b').congr ?_
      simp [skeleton, frame, map, unstamp, bare, hollow, children, payloads]
      tauto
    | listInit c is c' is' =>
      refine ((Settles.check _ _).seq fun hl => (h c c').seq fun _ =>
        compareStructures_settles ElementInit.argumentsOfList_eq_flatMap
          ElementInit.argumentsOfList_eq_flatMap (fun _ _ => ElementInit.length_eq_of_frame_eq)
          (ElementInit.compare_settles h) (by simpa using hl)).congr ?_
      simp only [skeleton, frame_listInit, bare, hollow, listInit.injEq, true_and, children,
        payloads, List.forall₂_cons, List.forall₂_nil_left_iff, and_true, decide_eq_true_eq]
      constructor
      · rintro ⟨-, hc, hf, hr⟩
        exact ⟨hf, hc, hr⟩
      · rintro ⟨hf, hc, hr⟩
        exact ⟨by simpa using congrArg List.length hf, hc, hf, hr⟩
    | memberAccess o m o' m' =>
      refine ((Settles.check _ _).seq fun _ => compareOption_settles h o o').congr ?_
      cases o <;> cases o' <;>
        simp [skeleton, frame, map, unstamp, bare, hollow, children, payloads]
    | memberInit c bs c' bs' =>
      refine ((Settles.check _ _).seq fun hl => (h c c').seq fun _ =>
        Binding.compareList_settles h bs bs' (by simpa using hl)).congr ?_
      simp only [skeleton, frame_memberInit, bare, hollow, memberInit.injEq, true_and, children,
        payloads, List.forall₂_cons, List.forall₂_nil_left_iff, and_true, decide_eq_true_eq]
      constructor
      · rintro ⟨-, hc, hf, hr⟩
        exact ⟨hf, hc, hr⟩
      · rintro ⟨hf, hc, hr⟩
        exact ⟨by simpa using congrArg List.length hf, hc, hf, hr⟩
    | new c as ms c' as' ms' =>
      refine ((Settles.check _ _).seq fun hl => (Settles.check _ _).seq fun _ =>
        (Settles.check _ _).seq fun _ => compareItems_settles h (by simpa using hl)).congr ?_
      simp [skeleton, frame, map, unstamp, bare, hollow, children, payloads]
      tauto
    | newArray is is' =>
      refine ((Settles.check _ _).seq fun hl => compareItems_settles h (by simpa using hl)).congr ?_
      simp [skeleton, frame, map, unstamp, bare, hollow, children, payloads]
    | typeBinary o t o' t' =>
      refine ((Settles.check _ _).seq fun _ => h o o').congr ?_
      simp [skeleton, frame, map, unstamp, bare, hollow, children, payloads]
    | block ls ss ls' ss' =>
      refine ((Settles.check _ _).seq fun hl => (Settles.check _ _).seq fun hs =>
        (compareItems_settles h (by simpa using hl)).seq fun _ =>
          compareItems_settles h (by simpa using hs)).congr ?_
      simp only [skeleton, frame, map, unstamp, bare, hollow, block.injEq, children, payloads,
        List.map_const', List.replicate_inj, or_true, and_true, List.forall₂_nil_left_iff,
        decide_eq_true_eq]
      constructor
      · rintro ⟨hl, hs, hrl, hrs⟩
        exact ⟨⟨hl, hs⟩, List.rel_append hrl hrs⟩
      · rintro ⟨⟨hl, hs⟩, hr⟩
        exact ⟨hl, hs, (forall₂_append_iff hl).mp hr⟩
    | dynamic b d as b' d' as' =>
      refine ((Settles.check _ _).seq fun hl => (Settles.check _ _).seq fun _ =>
        (Settles.check _ _).seq fun _ => compareItems_settles h (by simpa using hl)).congr ?_
      simp [skeleton, frame, map, unstamp, bare, hollow, children, payloads]
      tauto
    | goto j t v j' t' v' =>
      refine ((Settles.check _ _).seq fun _ => (Settles.check _ _).seq fun _ =>
        compareOption_settles h v v').congr ?_
      cases v <;> cases v' <;>
        simp [skeleton, frame, map, unstamp, bare, hollow, children, payloads,
          LabelTarget.agrees_iff]
      tauto
    | index o i as o' i' as' =>
      refine ((Settles.check _ _).seq fun hl => (Settles.check _ _).seq fun _ =>
        (h o o').seq fun _ => compareItems_settles h (by simpa using hl)).congr ?_
      simp [skeleton, frame, map, unstamp, bare, hollow, children, payloads]
      tauto
    | label t v t' v' =>
      refine ((Settles.check _ _).seq fun _ => compareOption_settles h v v').congr ?_
      cases v <;> cases v' <;>
        simp [skeleton, frame, map, unstamp, bare, hollow, children, payloads,
          LabelTarget.agrees_iff]
    | runtimeVariables ls ls' =>
      refine ((Settles.check _ _).seq fun hl => compareItems_settles h (by simpa using hl)).congr ?_
      simp [skeleton, frame, map, unstamp, bare, hollow, children, payloads]
    | loop b x y b' x' y' =>
      refine ((Settles.check _ _).seq fun _ => (Settles.check _ _).seq fun _ => h b b').congr ?_
      simp [skeleton, frame, map, unstamp, bare, hollow, children, payloads, agreeingTargets_iff]
      tauto
    | switch s cs o m s' cs' o' m' =>
      refine ((Settles.check _ _).seq fun hl => (Settles.check _ _).seq fun _ =>
        (h s s').seq fun _ => (compareStructures_settles SwitchCase.childrenOfList_eq_flatMap
          SwitchCase.childrenOfList_eq_flatMap (fun _ _ => SwitchCase.length_eq_of_frame_eq)
          (SwitchCase.compare_settles h) (by simpa using hl)).seq fun _ =>
          compareOption_settles h o o').congr ?_
      simp only [skeleton, frame_switch, bare, hollow, switch.injEq, true_and, children,
        payloads, List.forall₂_cons, List.forall₂_nil_left_iff, and_true, decide_eq_true_eq]
      constructor
      · rintro ⟨-, hm, hs, ⟨hf, hr⟩, ho⟩
        exact ⟨⟨hf, option_map_unit_eq ho, hm⟩, hs, List.rel_append hr ho⟩
      · rintro ⟨⟨hf, ho, hm⟩, hs, hall⟩
        have hlen := length_flatMap_eq_of_frames (fun _ _ => SwitchCase.length_eq_of_frame_eq) hf
        rw [← SwitchCase.childrenOfList_eq_flatMap, ← SwitchCase.childrenOfList_eq_flatMap] at hlen
        obtain ⟨hr, ho⟩ := (forall₂_append_iff hlen).mp hall
        exact ⟨by simpa using congrArg List.length hf, hm, hs, ⟨hf, hr⟩, ho⟩
    | tryCatch b hs c f b' hs' c' f' =>
      refine ((Settles.check _ _).seq fun hl => (h b b').seq fun _ =>
        (compareStructures_settles Handler.childrenOfList_eq_flatMap
          Handler.childrenOfList_eq_flatMap (fun _ _ => Handler.length_eq_of_frame_eq)
          (Handler.compare_settles h) (by simpa using hl)).seq fun _ =>
          (compareOption_settles h c c').seq fun _ => compareOption_settles h f f').congr ?_
      simp only [skeleton, frame_tryCatch, bare, hollow, tryCatch.injEq, true_and, children,
        payloads, List.forall₂_cons, List.forall₂_nil_left_iff, and_true, decide_eq_true_eq,
        List.append_assoc]
      constructor
      · rintro ⟨-, hb, ⟨hh, hr⟩, hc, hf⟩
        have hcf := List.rel_append hc hf
        exact ⟨⟨hh, option_map_unit_eq hc, option_map_unit_eq hf⟩, hb,
          List.rel_append hr hcf⟩
      · rintro ⟨⟨hh, hc, -⟩, hb, hall⟩
        have hlen := length_flatMap_eq_of_frames (fun _ _ => Handler.length_eq_of_frame_eq) hh
        rw [← Handler.childrenOfList_eq_flatMap, ← Handler.childrenOfList_eq_flatMap] at hlen
        obtain ⟨hr, hcf⟩ := (forall₂_append_iff hlen).mp hall
        have hrest := (forall₂_append_iff (length_toList_eq_of_map_unit_eq hc)).mp hcf
        exact ⟨by simpa using congrArg List.length hh, hb, ⟨hh, hr⟩, hrest⟩
    | parameter n r n' r' =>
      refine (Settles.check _ _).congr ?_
      simp [skeleton, frame, map, unstamp, bare, hollow, children, payloads]
    | constant v v' =>
      refine (Value.compareAt_settles hroots v v').congr ?_
      simp [skeleton, frame, map, unstamp, bare, hollow, children, payloads]
    | extension _ _ _ _ | debugInfo _ _ _ _ | default =>
      refine Settles.pass.congr ?_
      simp [skeleton, frame, map, unstamp, bare, hollow, children, payloads]
  · rw [compare_of_family_ne hfam]
    refine (Settles.refuse _ _).congr (iff_of_false id fun ha => hfam ?_)
    exact family_eq_of_skeleton_eq (agree_map_left_iff.mp ha).1

end Shape

/-! ## Nodes -/

namespace Node

variable {heap : Heap} {policy : ConstantPolicy} {a b : Node} {opened : List (Stamp × Stamp)}

/-- Nothing below the node is open. -/
def IsClear (opened : List (Stamp × Stamp)) (a : Node) : Prop :=
  ∀ pair ∈ opened, ∀ child ∈ a.shape.handles, ∀ below, child.Reaches Shape.handles below →
    below.stamp ≠ pair.1

/-- Trees are equal if their comparison passes with nothing open. -/
theorem equals_iff_of_settles {verdict : Prop} (h : Settles [] (a.compare policy b) verdict) :
    a.equals policy b = true ↔ verdict := by
  obtain ⟨result, events, hr, -, hrun⟩ := h
  rw [← hr]
  unfold equals comparison Comparer.run
  rw [hrun []]
  cases result <;> simp [Comparison.equal]

/-- What is open above a node is not below its handles. -/
theorem IsClear.of_mem_handles {child : Node} (h : IsClear opened a)
    (hc : child ∈ a.shape.handles) : IsClear opened child := by
  intro pair hp next hn below hb
  exact h pair hp child hc below (reaches_iff.mpr (.inr ⟨next, hn, hb⟩))

/-- In a heap, a root that is opened is not below itself. -/
theorem IsClear.cons (ha : a ∈ heap) (h : IsClear opened a) (stamp : Stamp) :
    IsClear ((a.stamp, stamp) :: opened) a := by
  intro pair hp child hc below hb
  rcases List.mem_cons.mp hp with rfl | hp
  · exact Heap.stamp_ne_of_below ha hc hb
  · exact h pair hp child hc below hb

/-- One step of a comparison, where what is held passes if it is equal. -/
theorem compare_settles_step (ha : a ∈ heap) (hclear : IsClear opened a)
    (ih : ∀ child ∈ a.shape.handles, ∀ other opened', IsClear opened' child →
      Settles opened' (child.compare policy other) (child.equals policy other = true)) :
    Settles opened (a.compare policy b)
      (a.same b = true ∨ a.kind = b.kind ∧ a.type = b.type ∧
        Shape.Agree a.type policy (fun x y => x.equals policy y = true) a.shape b.shape) := by
  rw [compare]
  by_cases hsame : a.same b = true
  · rw [if_pos hsame]
    exact Settles.pass.congr (by simp [hsame])
  · rw [if_neg hsame]
    have hshape : Settles opened
        (a.shape.attach.compare a.kind a.type policy Subtype.val
          (fun x other => x.val.compare policy other) b.shape)
        (Shape.Agree a.type policy (fun x y => x.equals policy y = true)
          (a.shape.attach.map Subtype.val) b.shape) := by
      refine Shape.compare_settles ?_ ?_ _ _
      · rintro ⟨child, hc⟩ other
        exact ih child hc other opened (hclear.of_mem_handles hc)
      · rintro ⟨child, hc⟩ other
        constructor
        · intro hmem
          exact hclear _ hmem child hc child .refl rfl
        · have hchild : child ∈ heap := Heap.mem_of_mem_handles ha hc
          exact ih child hc other _ (IsClear.cons hchild (hclear.of_mem_handles hc) other.stamp)
    rw [Shape.map_attach] at hshape
    refine ((Settles.check _ _).seq fun _ => (Settles.check _ _).seq fun _ => hshape).congr ?_
    simp [hsame]

/-- While nothing below the first node is open, two nodes pass if they are equal. -/
theorem compare_settles {a : Node} {opened : List (Stamp × Stamp)} (ha : a ∈ heap)
    (hclear : IsClear opened a) (b : Node) :
    Settles opened (a.compare policy b) (a.equals policy b = true) := by
  have ih : ∀ child ∈ a.shape.handles, ∀ other opened', IsClear opened' child →
      Settles opened' (child.compare policy other) (child.equals policy other = true) := by
    intro child hc other opened' hclear'
    exact compare_settles (Heap.mem_of_mem_handles ha hc) hclear' other
  have hstart : IsClear [] a := by simp [IsClear]
  have hequals := equals_iff_of_settles (compare_settles_step (b := b) ha hstart ih)
  exact (compare_settles_step ha hclear ih).congr hequals.symm
termination_by sizeOf a
decreasing_by exact sizeOf_lt_of_mem_handles hc

/-- Two nodes are equal when they are the same instance, or when they are of one kind and type and
their shapes agree with equal parts. -/
theorem equals_iff (ha : a ∈ heap) (b : Node) :
    a.equals policy b = true ↔
      a.same b = true ∨ a.kind = b.kind ∧ a.type = b.type ∧
        Shape.Agree a.type policy (fun x y => x.equals policy y = true) a.shape b.shape := by
  refine equals_iff_of_settles (compare_settles_step ha (by simp [IsClear]) ?_)
  intro child hc other opened hclear
  exact compare_settles (Heap.mem_of_mem_handles ha hc) hclear other

end Node

end ExprTree
