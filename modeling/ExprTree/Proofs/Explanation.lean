import ExprTree.Proofs.Coherence
import ExprTree.Proofs.Script

/-!
# Differences are explained once

A comparison of coherent trees that finds them equal has run its whole script, and it reports the
queries that it entered and nothing else. One that tells them apart has run its script up to one
check, and it reports the queries that it entered so far and then, once and as the last thing, the
check. What stands after this check in the script, or anything else in its place, is not run.
-/

namespace ExprTree

open CompareM

namespace Step

variable {steps : List Step} {aspect : Aspect}

/-- Steps that pass report queries only. -/
theorem onlyQueries_of_pass (h : Pass steps) : OnlyQueries (steps.flatMap events) := by
  intro event hevent
  obtain ⟨step, hs, he⟩ := List.mem_flatMap.mp hevent
  have hpass := h step hs
  cases step with
  | check condition aspect => cases condition <;> simp_all [halt?, events]
  | enter root => exact ⟨root, by simpa [events] using he⟩
  | refuse kind found => simp [halt?] at hpass
  | inspect a b => simp [events] at he

/-- A step that ends the comparison because trees differ is a failed check. -/
theorem eq_check_of_halt? {step : Step} (h : step.halt? = some (.differs aspect)) :
    step = .check false aspect := by
  cases step with
  | check condition found => cases condition <;> simp_all [halt?]
  | _ => simp [halt?] at h

/-- What follows a failed check is not run. -/
theorem run_failed (steps : List Step) (aspect : Aspect) (next next' : CompareM Unit)
    (progress : Progress) :
    (do forM steps act; ensure false aspect; next : CompareM Unit).run.run progress =
      (do forM steps act; ensure false aspect; next' : CompareM Unit).run.run progress := by
  rw [Settles.run_seq, Settles.run_seq (forM steps act)]
  generalize (forM steps act).run.run progress = outcome
  rcases outcome with ⟨_ | _, after⟩ <;> rfl

end Step

namespace Node

variable {heap : Heap} {a b : Node} {policy : ConstantPolicy}

/-- The comparison runs the steps `passed`, which pass, and then the check of `aspect`, which fails
and is its last step. -/
structure DiffersAt (policy : ConstantPolicy) (a b : Node) (passed : List Step) (aspect : Aspect) :
    Prop where
  /-- The steps are the first ones of the script. -/
  script : ∃ rest, a.script policy b = passed ++ .check false aspect :: rest
  /-- The steps before the check do not end the comparison. -/
  pass : Step.Pass passed
  /-- The steps before the check report queries only. -/
  queries : OnlyQueries (passed.flatMap Step.events)
  /-- The check is reported, and its report is the last one. -/
  comparison : a.comparison policy b =
    ⟨some (.differs aspect), passed.flatMap Step.events ++ [.treesDiffer aspect]⟩
  /-- Whatever is put after the check is not run. -/
  last : ∀ (next : CompareM Unit) (before : List Event),
    (do forM passed Step.act; ensure false aspect; next : CompareM Unit).run.run ⟨[], before⟩ =
      (a.compare policy b).run.run ⟨[], before⟩

/-- A comparison whose script has a check that fails after steps that pass differs at this check. -/
theorem differsAt_of_script {passed rest : List Step} {aspect : Aspect} (ha : a ∈ heap)
    (hscript : a.script policy b = passed ++ .check false aspect :: rest)
    (hpass : Step.Pass passed) : DiffersAt policy a b passed aspect where
  script := ⟨rest, hscript⟩
  pass := hpass
  queries := Step.onlyQueries_of_pass hpass
  comparison := by
    have hcheck : (Step.check false aspect).halt? = some (.differs aspect) := rfl
    have hnone : passed.findSome? Step.halt? = none := List.findSome?_eq_none_iff.mpr hpass
    rw [comparison_eq ha, hscript, Step.executed_append_cons hpass hcheck]
    simp [List.findSome?_append, hnone, hcheck, Step.events]
  last next before := by
    rw [run_compare ha, hscript, List.forM_append, List.forM_cons]
    exact Step.run_failed passed aspect next _ _

/-- A comparison whose script passes reports the queries of the whole script. -/
theorem comparison_of_pass (ha : a ∈ heap) (hpass : Step.Pass (a.script policy b)) :
    a.comparison policy b = ⟨none, (a.script policy b).flatMap Step.events⟩ := by
  rw [comparison_eq ha, Step.executed_of_pass hpass, List.findSome?_eq_none_iff.mpr hpass]

/-- The script of a comparison of coherent trees passes, or the comparison differs at a check of
it. -/
theorem pass_or_differsAt (ha : a ∈ heap) (hca : a.AllCoherent) (hcb : b.AllCoherent)
    (policy : ConstantPolicy) :
    Step.Pass (a.script policy b) ∨ ∃ passed aspect, DiffersAt policy a b passed aspect := by
  rcases Step.pass_or_halts (a.script policy b) with hpass | hhalts
  · exact .inl hpass
  obtain ⟨passed, step, rest, halt, hscript, hpassed, hstep⟩ := hhalts
  have hnone : passed.findSome? Step.halt? = none := List.findSome?_eq_none_iff.mpr hpassed
  have hhalt : (a.comparison policy b).halt = some halt := by
    rw [comparison_eq ha, hscript]
    simp [List.findSome?_append, hnone, hstep]
  cases halt with
  | differs aspect =>
    rw [Step.eq_check_of_halt? hstep] at hscript
    exact .inr ⟨passed, aspect, differsAt_of_script ha hscript hpassed⟩
  | unsupported kind found =>
    have hne : (a.comparison policy b).halt ≠ some (.unsupported kind found) :=
      halt_ne_unsupported (compare_accepts hca hcb policy) kind found
    exact absurd hhalt hne

/-- Every failed comparison of coherent trees is explained exactly once. The comparison runs its
script. If the trees are equal, the whole script passes and only queries are reported. If they are
not, the comparison ends at a check of the script, which is reported once and last, after queries
only, and nothing that follows the check is run. -/
theorem difference_explained_once (ha : a ∈ heap) (hca : a.AllCoherent) (hcb : b.AllCoherent)
    (policy : ConstantPolicy) :
    (∀ before, (a.compare policy b).run.run ⟨[], before⟩ =
        (forM (a.script policy b) Step.act).run.run ⟨[], before⟩) ∧
      (a.equals policy b = true → Step.Pass (a.script policy b) ∧
        a.comparison policy b = ⟨none, (a.script policy b).flatMap Step.events⟩ ∧
        OnlyQueries ((a.script policy b).flatMap Step.events) ∧
        ∀ (m : Type → Type) [Monad m] [LawfulMonad m] [MonadTrace m],
          a.tracedEquals (m := m) policy b = do
            forM ((a.script policy b).flatMap Step.events) emit
            return true) ∧
      (a.equals policy b = false → ∃ passed aspect, DiffersAt policy a b passed aspect ∧
        ∀ (m : Type → Type) [Monad m] [LawfulMonad m] [MonadTrace m],
          a.tracedEquals (m := m) policy b = do
            forM (passed.flatMap Step.events) emit
            emit (.treesDiffer aspect)
            return false) := by
  refine ⟨run_compare ha policy b, ?_, ?_⟩
  · intro hequal
    have hpass := (equals_iff_pass ha policy b).mp hequal
    have hcomparison := comparison_of_pass ha hpass
    refine ⟨hpass, hcomparison, Step.onlyQueries_of_pass hpass, ?_⟩
    intro m _ _ _
    simp [tracedEquals, hcomparison, Comparison.equal]
  · intro hdiffer
    rcases pass_or_differsAt ha hca hcb policy with hpass | ⟨passed, aspect, h⟩
    · rw [(equals_iff_pass ha policy b).mpr hpass] at hdiffer
      cases hdiffer
    · refine ⟨passed, aspect, h, ?_⟩
      intro m _ _ _
      simp [tracedEquals, h.comparison, Comparison.equal]

/-- A constant that holds three queries, the second one with a parameter of the given name. -/
def threeQueries (first : Stamp) (name : String) : Node :=
  let outer : Node := ⟨first, .parameter, .void, .parameter "p" false⟩
  let middle : Node := ⟨first + 1, .parameter, .void, .parameter name false⟩
  ⟨first + 3, .constant, .array .void 1, .constant (.sequence (first + 2)
    [.query outer .void, .query middle .void, .query outer .void])⟩

/-- All of the constant is coherent. -/
theorem allCoherent_threeQueries (first : Stamp) (name : String) :
    (threeQueries first name).AllCoherent := by
  have hparameter : ∀ stamp name,
      AllCoherent ⟨stamp, .parameter, .void, .parameter name false⟩ := fun stamp name =>
    allCoherent_iff.mpr ⟨rfl, by simp [Shape.handles, Shape.children]⟩
  refine allCoherent_iff.mpr ⟨rfl, ?_⟩
  simp [threeQueries, Shape.handles, Value.roots, Value.rootsOfList, hparameter]

/-- Constants with different second queries differ there: two queries are entered and reported
before the check, and the third one is not. -/
theorem difference_explained_once_threeQueries : ∃ heap : Heap, threeQueries 0 "x" ∈ heap ∧
    (threeQueries 0 "x").AllCoherent ∧ (threeQueries 4 "y").AllCoherent ∧
    (threeQueries 0 "x").equals .byReference (threeQueries 4 "y") = false ∧
    ∃ passed aspect,
      DiffersAt .byReference (threeQueries 0 "x") (threeQueries 4 "y") passed aspect ∧
        (passed.flatMap Step.events).length = 2 := by
  obtain ⟨heap₁, -, hnext₁, ho⟩ := Heap.empty.exists_insert
    ⟨0, .parameter, .void, .parameter "p" false⟩ (Nat.le_refl _)
    (by simp [Shape.handles, Shape.children])
  obtain ⟨heap₂, hle₂, hnext₂, hm⟩ := heap₁.exists_insert
    ⟨1, .parameter, .void, .parameter "x" false⟩ (by simp [hnext₁])
    (by simp [Shape.handles, Shape.children])
  obtain ⟨heap₃, -, -, h⟩ := heap₂.exists_insert (threeQueries 0 "x")
    (by simp [hnext₂, threeQueries])
    (by simp [threeQueries, Shape.handles, Value.roots, Value.rootsOfList, hm,
      Heap.mem_of_le hle₂ ho])
  have hdiffer : (threeQueries 0 "x").equals .byReference (threeQueries 4 "y") = false := by
    decide +kernel
  have hlength : ((threeQueries 0 "x").comparison .byReference
      (threeQueries 4 "y")).events.length = 3 := by
    decide +kernel
  have hx := allCoherent_threeQueries 0 "x"
  have hy := allCoherent_threeQueries 4 "y"
  obtain ⟨-, -, hexplained⟩ := difference_explained_once h hx hy .byReference
  obtain ⟨passed, aspect, hdiffers, -⟩ := hexplained hdiffer
  rw [hdiffers.comparison, List.length_append, List.length_singleton] at hlength
  exact ⟨heap₃, h, hx, hy, hdiffer, passed, aspect, hdiffers, Nat.succ.inj hlength⟩

end Node

end ExprTree
