import ExprTree.Proofs.FoldStep
import ExprTree.Proofs.Unfolding

/-!
# Visits meet every occurrence once

A visit runs its action on the nodes of the unfolded tree: after what is below them, or before it
and only where the test passes. The nodes that it meets are those of the unfolded tree up to the
identities of reductions, which are drawn when the walk comes to them.

What is drawn depends on the moment at which the visit starts. Two visits of one tree that leave the
supply alone otherwise draw the same number of stamps at each place, so their reports differ by a
shift of the stamps that were drawn.
-/

namespace ExprTree

variable {α β γ δ σ : Type}

/-! ## Lists that are passed in parts -/

namespace Passes

variable {f : α → StateT σ Supply β} {w w' : Moment σ} {items : List α} {answers : List β}
  {first : Stamp}

/-- A list is passed without taking the supply back if each item is. -/
theorem le_next (hf : KeepsBound first True f) (h : Passes f w items answers w')
    (hw : first ≤ w.2) : first ≤ w'.2 := by
  induction h with
  | done => exact hw
  | call hx _ ih => exact ih (hf trivial _ _ _ _ hx hw)
  | draw _ ih => exact ih (Nat.le_succ_of_le hw)

/-- Items for each of which a list is passed are passed as all these lists. -/
theorem flatten {g : γ → StateT σ Supply δ} {Parts : γ → List α → Prop} {xs : List γ} {us : List δ}
    (hf : KeepsBound first True f)
    (hg : ∀ x ∈ xs, ∀ w u w', first ≤ w.2 → Runs (g x) w u w' →
      ∃ part answers, Passes f w part answers w' ∧ Parts x part)
    (hw : first ≤ w.2) (h : Passes g w xs us w') :
    ∃ parts answers, Passes f w parts.flatten answers w' ∧ List.Forall₂ Parts xs parts := by
  induction h with
  | done => exact ⟨[], [], .done, .nil⟩
  | call hx _ ih =>
    obtain ⟨part, bs, hpart, hx'⟩ := hg _ List.mem_cons_self _ _ _ hw hx
    obtain ⟨parts, bs', hparts, hrest⟩ :=
      ih (fun x hx => hg x (List.mem_cons_of_mem _ hx)) (hpart.le_next hf hw)
    exact ⟨part :: parts, bs ++ bs', hpart.append hparts, .cons hx' hrest⟩
  | draw _ ih =>
    obtain ⟨parts, bs, hparts, hrest⟩ := ih hg (Nat.le_succ_of_le hw)
    exact ⟨parts, bs, .draw hparts, hrest⟩

end Passes

namespace Node

/-! ## Walks that reduce extensions -/

section Walks

variable {m : Type → Type} [Monad m] [LawfulMonad m] [MonadStamp m] {n : Node}

/-- A walk over an extension draws a stamp and enters what the extension is reduced to with it. -/
theorem walkChildren_of_extension {own : Stamp} {custom : Extension Node}
    (h : n.shape = .extension own custom) (act : Node → m PUnit) :
    n.walkChildren act = (do
      let stamp ← fresh
      forM (n.childrenAt stamp) act) := by
  unfold walkChildren walkBelow
  split
  case h_1 own' custom' hshape =>
    refine bind_congr fun stamp => ?_
    rw [childrenAt_of_extension stamp hshape]
    split
    case h_1 reduced hreduced => simp [hreduced]
    case h_2 hnone => simp [hnone]
  case h_2 hother => exact absurd h (hother own custom)

end Walks

variable {n : Node} {heap : Heap} {w w' : Moment σ} {u : PUnit}

/-- A node is an extension, or it is not. -/
theorem extension_or_family_ne (n : Node) :
    (∃ own custom, n.shape = .extension own custom) ∨ n.shape.family ≠ .extension := by
  cases hshape : n.shape with
  | extension own custom => exact .inl ⟨own, custom, rfl⟩
  | _ => exact .inr (by simp [Shape.family])

/-- A walk passes what is entered from the node. -/
theorem runs_walkChildren {act : Node → StateT σ Supply PUnit}
    (h : Runs (n.walkChildren act) w u w') : ∃ us, Passes act w (n.childrenAt w.2) us w' := by
  rcases extension_or_family_ne n with ⟨own, custom, hshape⟩ | hfamily
  · rw [walkChildren_of_extension hshape, runs_bind] at h
    obtain ⟨stamp, w₁, hfresh, hwalk⟩ := h
    rw [runs_fresh] at hfresh
    obtain ⟨rfl, rfl⟩ := hfresh
    obtain ⟨us, hp⟩ := Passes.of_forM hwalk
    exact ⟨us, .draw hp⟩
  · rw [walkChildren_eq_forM hfamily] at h
    rw [childrenAt_of_family_ne w.2 hfamily]
    exact Passes.of_forM h

/-! ## What visits meet -/

/-- The action is run one by one on nodes that look like the given ones. -/
def Meets (first : Stamp) (f : Node → StateT σ Supply β) (w : Moment σ) (nodes : List Node)
    (w' : Moment σ) : Prop :=
  ∃ met answers, Passes f w met answers w' ∧ met.map (blurred first) = nodes

/-- The tree that visits of the node meet. -/
abbrev met (heap : Heap) (n : Node) : Unfolded := (n.blurred heap.next).unfold heap.next

/-- Of a node of the heap it is the unfolded node. -/
theorem met_of_mem (h : n ∈ heap) : n.met heap = n.unfold heap.next := by
  rw [met, blurred_of_mem h]

/-- Below a node over the heap, visits meet what they meet from what is entered, whenever that is
reduced. -/
theorem HeldBy.parts_met (hn : n.HeldBy heap) {stamp : Stamp} (hs : heap.next ≤ stamp) :
    (n.met heap).parts = (n.childrenAt stamp).map (met heap) := by
  have hlook : (n.childrenAt stamp).map (met heap) =
      (n.childrenAt heap.next).map (unfold heap.next) := by
    rw [← hn.map_blurred hs, List.map_map]
    rfl
  rw [hlook, met, unfold_eq]
  rfl

namespace Meets

variable {first : Stamp} {f : Node → StateT σ Supply β} {nodes nodes' : List Node}
  {w'' : Moment σ}

/-- One node is met. -/
theorem one {b : β} (h : Runs (f n) w b w') : Meets first f w [n.blurred first] w' :=
  ⟨[n], [b], .call h .done, rfl⟩

/-- Nodes are met one after the other. -/
theorem append (h : Meets first f w nodes w') (h' : Meets first f w' nodes' w'') :
    Meets first f w (nodes ++ nodes') w'' := by
  obtain ⟨met, answers, hp, rfl⟩ := h
  obtain ⟨met', answers', hp', rfl⟩ := h'
  exact ⟨met ++ met', answers ++ answers', hp.append hp', List.map_append⟩

end Meets

variable {f : Node → StateT σ Supply β}

/-- A walk over a node meets what is below it in the unfolded tree, if the action it runs on each
child does so for the child. -/
theorem walkChildren_meets {listed : Unfolded → List Node} {act : Node → StateT σ Supply PUnit}
    (hf : KeepsBound heap.next True f) (hn : n.HeldBy heap) (hw : heap.next ≤ w.2)
    (hact : ∀ child : Node, child.weight < n.weight → child.HeldBy heap → ∀ w u w',
      heap.next ≤ w.2 → Runs (act child) w u w' → Meets heap.next f w (listed (child.met heap)) w')
    (h : Runs (n.walkChildren act) w u w') :
    Meets heap.next f w ((n.met heap).parts.flatMap listed) w' := by
  obtain ⟨us, hp⟩ := runs_walkChildren h
  obtain ⟨parts, answers, hparts, hlisted⟩ := hp.flatten hf (fun child hc w u w' hw hrun =>
    hact child (weight_lt_of_mem_childrenAt hc) (hn.childrenAt hc) w u w' hw hrun) hw
  refine ⟨parts.flatten, answers, hparts, ?_⟩
  have hsame : parts.map (List.map (blurred heap.next)) =
      (n.childrenAt w.2).map fun child => listed (child.met heap) := by
    rw [← List.forall₂_eq_eq_eq, List.forall₂_map_left_iff, List.forall₂_map_right_iff]
    exact hlisted.flip
  rw [hn.parts_met hw, List.flatMap_map, List.flatMap_def, List.map_flatten, hsame]

/-- A visit meets the nodes of the unfolded tree, each after those below it. -/
theorem visit_meets {f : Node → StateT σ Supply PUnit} {w w' : Moment σ} {u : PUnit} {n : Node}
    (hf : KeepsBound heap.next True f) (hn : n.HeldBy heap) (hw : heap.next ≤ w.2)
    (h : Runs (n.visit f) w u w') : Meets heap.next f w ((n.met heap).nodes .backward) w' := by
  rw [visit, visitWith_eq, runs_bind] at h
  obtain ⟨v, w₁, hbelow, hroot⟩ := h
  have hparts := walkChildren_meets hf hn hw (fun child _ hc w u w' hw hrun =>
    visit_meets hf hc hw hrun) hbelow
  have hall := hparts.append (.one hroot)
  rw [met, unfold_eq] at hall ⊢
  rw [Unfolded.nodes]
  exact hall
termination_by n.weight

/-- A visit with a test meets the nodes of the unfolded tree, each before those below it and without
what is below nodes that do not pass. -/
theorem visitWhile_meets {f : Node → StateT σ Supply Bool} {keep : Node → Bool} {w w' : Moment σ}
    {u : PUnit} {n : Node} (hf : KeepsBound heap.next True f)
    (hkeep : ∀ n w b w', Runs (f n) w b w' → b = keep (n.blurred heap.next))
    (hn : n.HeldBy heap) (hw : heap.next ≤ w.2) (h : Runs (n.visitWhile f) w u w') :
    Meets heap.next f w ((n.met heap).pruned keep) w' := by
  rw [visitWhile, visitWith_eq, runs_bind] at h
  obtain ⟨b, w₁, hroot, hbelow⟩ := h
  rw [met, unfold_eq, Unfolded.pruned]
  rw [hkeep n w b w₁ hroot] at hbelow
  split at hbelow
  case isTrue hpass =>
    have hw₁ : heap.next ≤ w₁.2 := hf trivial n w b w₁ hroot hw
    have hparts := walkChildren_meets hf hn hw₁ (fun child _ hc w u w' hw hrun =>
      visitWhile_meets hf hkeep hc hw hrun) hbelow
    have hall := (Meets.one hroot).append hparts
    rw [met, unfold_eq] at hall
    rw [if_pos hpass]
    exact hall
  case isFalse hfail =>
    rw [runs_pure] at hbelow
    rw [if_neg hfail, hbelow.2]
    exact .one hroot
termination_by n.weight

/-! ## Reports -/

/-- Notes the node and tests it. -/
def reporting (keep : Node → Bool) (n : Node) : StateT (List Node) Supply Bool := do
  report n
  pure (keep n)

/-- The node is noted, and the test has its answer. -/
@[simp] theorem runs_reporting {keep : Node → Bool} {w w' : Moment (List Node)} {b : Bool} :
    Runs (reporting keep n) w b w' ↔ b = keep n ∧ w' = (w.1 ++ [n], w.2) := by
  simp only [reporting, runs_bind, runs_report, runs_pure]
  constructor
  · intro h
    obtain ⟨-, w₁, rfl, rfl, rfl⟩ := h
    exact ⟨rfl, rfl⟩
  · intro h
    exact ⟨⟨⟩, _, rfl, h⟩

/-- What an action that notes each node meets is what is noted. -/
theorem Meets.noted {first : Stamp} {f : Node → StateT (List Node) Supply β} {nodes : List Node}
    {w w' : Moment (List Node)} (hf : ∀ n w b w', Runs (f n) w b w' → w'.1 = w.1 ++ [n])
    (h : Meets first f w nodes w') :
    ∃ noted, w'.1 = w.1 ++ noted ∧ noted.map (blurred first) = nodes := by
  obtain ⟨met, answers, hp, hlook⟩ := h
  have hnoted : w'.1 = w.1 ++ met.flatMap fun n => [n] :=
    passes_report (fun n _ w b w' hrun => hf n w b w' hrun) hp
  rw [List.flatMap_singleton'] at hnoted
  exact ⟨met, hnoted, hlook⟩

/-- A visit notes the nodes of the unfolded tree, each after those below it. -/
theorem map_blurred_visit_report {e : Node} (he : e ∈ heap) {next : Stamp}
    (hnext : heap.next ≤ next) :
    (e.visit report [] next).1.2.map (blurred heap.next) =
      (e.unfold heap.next).nodes .backward := by
  have hf : KeepsBound heap.next True report := by
    intro _ n w u w' hrun hw
    rw [runs_report.mp hrun]
    exact hw
  have hmeets := visit_meets hf (heldBy_of_mem he) hnext (runs_self (e.visit report) ([], next))
  obtain ⟨noted, hnoted, hlook⟩ := hmeets.noted fun n w u w' hrun => by rw [runs_report.mp hrun]
  rw [List.nil_append] at hnoted
  rw [← met_of_mem he, ← hlook, ← hnoted]

/-- A visit with a test notes the nodes of the unfolded tree, each before those below it and without
what is below nodes that do not pass. -/
theorem map_blurred_visitWhile_reporting {e : Node} (he : e ∈ heap) {keep : Node → Bool}
    (hkeep : ∀ n : Node, keep (n.blurred heap.next) = keep n) {next : Stamp}
    (hnext : heap.next ≤ next) :
    (e.visitWhile (reporting keep) [] next).1.2.map (blurred heap.next) =
      (e.unfold heap.next).pruned keep := by
  have hf : KeepsBound heap.next True (reporting keep) := by
    intro _ n w b w' hrun hw
    rw [(runs_reporting.mp hrun).2]
    exact hw
  have hanswer : ∀ n w b w', Runs (reporting keep n) w b w' → b = keep (n.blurred heap.next) := by
    intro n w b w' hrun
    rw [hkeep]
    exact (runs_reporting.mp hrun).1
  have hmeets := visitWhile_meets hf hanswer (heldBy_of_mem he) hnext
    (runs_self (e.visitWhile (reporting keep)) ([], next))
  obtain ⟨noted, hnoted, hlook⟩ := hmeets.noted fun n w b w' hrun => by
    rw [(runs_reporting.mp hrun).2]
  rw [List.nil_append] at hnoted
  rw [← met_of_mem he, ← hlook, ← hnoted]

/-! ## Reports from two moments -/

/-- The stamp as it would be if those drawn from `next` on were drawn from `next'` on. -/
def shifted (first next next' stamp : Nat) : Nat :=
  if stamp < first then stamp else stamp - next + next'

/-- Two stretches of walks side by side, where stamps that one draws from `next` on the other draws
from `next'` on. -/
structure Abreast (first next next' : Stamp) (w w' v v' : Moment (List Node)) : Prop where
  /-- The same nodes are noted in some order; each is old or was drawn on the way. -/
  noted : ∃ nodes nodes', w'.1 = w.1 ++ nodes ∧ v'.1 = v.1 ++ nodes' ∧
    (nodes.map (renamed (shifted first next next'))).Perm nodes' ∧
    ∀ n ∈ nodes, n.stamp < first ∨ next ≤ n.stamp
  /-- The supply is not taken back. -/
  le : w.2 ≤ w'.2
  /-- Equally many stamps are drawn. -/
  level : w'.2 + next' = v'.2 + next

namespace Abreast

variable {first next next' : Stamp} {w w' w'' v v' v'' : Moment (List Node)}

/-- Where nothing happens, the walks are side by side. -/
theorem refl (h : w.2 + next' = v.2 + next) : Abreast first next next' w w v v :=
  ⟨⟨[], [], by simp⟩, Nat.le_refl _, h⟩

/-- Stretches follow one another. -/
theorem seq (h : Abreast first next next' w w' v v')
    (h' : Abreast first next next' w' w'' v' v'') : Abreast first next next' w w'' v v'' := by
  obtain ⟨nodes, nodes', hw, hv, hperm, hstamps⟩ := h.noted
  obtain ⟨more, more', hw', hv', hperm', hstamps'⟩ := h'.noted
  refine ⟨⟨nodes ++ more, nodes' ++ more', ?_, ?_, ?_, ?_⟩, Nat.le_trans h.le h'.le, h'.level⟩
  · rw [hw', hw, List.append_assoc]
  · rw [hv', hv, List.append_assoc]
  · rw [List.map_append]
    exact hperm.append hperm'
  · intro n hn
    exact (List.mem_append.mp hn).elim (hstamps n) (hstamps' n)

/-- One walk notes a node after a stretch, the other one before it. -/
theorem around (hn : n.stamp < first ∨ next ≤ n.stamp)
    (h : Abreast first next next' w w' (v.1 ++ [n.renamed (shifted first next next')], v.2) v') :
    Abreast first next next' w (w'.1 ++ [n], w'.2) v v' := by
  obtain ⟨nodes, nodes', hw, hv, hperm, hstamps⟩ := h.noted
  refine ⟨⟨nodes ++ [n], n.renamed (shifted first next next') :: nodes', ?_, ?_, ?_, ?_⟩, h.le,
    h.level⟩
  · rw [hw, List.append_assoc]
  · rw [hv, List.append_assoc, List.singleton_append]
  · rw [List.map_append, List.map_singleton]
    exact (List.perm_append_singleton _ _).trans (hperm.cons _)
  · intro inner hi
    rcases List.mem_append.mp hi with hi | hi
    · exact hstamps inner hi
    · rw [List.mem_singleton.mp hi]
      exact hn

/-- Lists are walked side by side if their items are. -/
theorem forM {act act' : Node → StateT (List Node) Supply PUnit} {items : List Node}
    (hact : ∀ n ∈ items, ∀ w u w' v u' v', next ≤ w.2 → w.2 + next' = v.2 + next →
      Runs (act n) w u w' → Runs (act' (n.renamed (shifted first next next'))) v u' v' →
      Abreast first next next' w w' v v')
    {u u' : PUnit} (hw : next ≤ w.2) (hv : w.2 + next' = v.2 + next)
    (h : Runs (ForM.forM items act) w u w')
    (h' : Runs (ForM.forM (items.map (renamed (shifted first next next'))) act') v u' v') :
    Abreast first next next' w w' v v' := by
  induction items generalizing w v with
  | nil =>
    rw [List.forM_nil, runs_pure] at h
    rw [List.map_nil, List.forM_nil, runs_pure] at h'
    rw [h.2, h'.2]
    exact refl hv
  | cons n rest ih =>
    rw [List.forM_cons, runs_bind] at h
    rw [List.map_cons, List.forM_cons, runs_bind] at h'
    obtain ⟨a, w₁, hn, hrest⟩ := h
    obtain ⟨a', v₁, hn', hrest'⟩ := h'
    have hhead := hact n List.mem_cons_self w a w₁ v a' v₁ hw hv hn hn'
    have htail := ih (fun n hn => hact n (List.mem_cons_of_mem _ hn)) (Nat.le_trans hw hhead.le)
      hhead.level hrest hrest'
    exact hhead.seq htail

end Abreast

section Shift

variable {first next next' : Nat}

/-- A shift keeps old stamps. -/
theorem shifted_of_lt : ∀ stamp < first, shifted first next next' stamp = stamp :=
  fun _ h => if_pos h

/-- A stamp that was drawn is shifted by the distance. -/
theorem shifted_of_le {stamp stamp' : Nat} (hfirst : first ≤ next) (hstamp : next ≤ stamp)
    (h : stamp + next' = stamp' + next) : shifted first next next' stamp = stamp' := by
  have hdrawn : ¬ stamp < first := by omega
  rw [shifted, if_neg hdrawn]
  omega

/-- Different stamps stay different in a shift to stamps that are not old. -/
theorem shifted_injective {a b : Nat} (hfirst : first ≤ next') (ha : a < first ∨ next ≤ a)
    (hb : b < first ∨ next ≤ b) (h : shifted first next next' a = shifted first next next' b) :
    a = b := by
  unfold shifted at h
  split at h <;> split at h <;> omega

/-- Visits of a node that are not cut short go side by side, though one of them notes a node after
what is below it and the other one before. -/
theorem visit_abreast {n : Node} {w w' v v' : Moment (List Node)} {u u' : PUnit}
    (hnext : heap.next ≤ next) (hn : n.HeldBy heap) (hstamp : n.stamp < heap.next ∨ next ≤ n.stamp)
    (hw : next ≤ w.2) (hv : w.2 + next' = v.2 + next) (h : Runs (n.visit report) w u w')
    (h' : Runs ((n.renamed (shifted heap.next next next')).visitWhile
      (reporting fun _ => true)) v u' v') :
    Abreast heap.next next next' w w' v v' := by
  rw [visit, visitWith_eq] at h
  simp only [runs_bind, runs_report] at h
  obtain ⟨a, w₁, hbelow, rfl⟩ := h
  rw [visitWhile, visitWith_eq] at h'
  simp only [runs_bind, runs_reporting] at h'
  obtain ⟨b, v₁, ⟨rfl, rfl⟩, hbelow'⟩ := h'
  rw [if_pos rfl] at hbelow'
  refine .around hstamp ?_
  have hchild : ∀ stamp, next ≤ stamp → ∀ child ∈ n.childrenAt stamp,
      ∀ w u w' v u' v', next ≤ w.2 → w.2 + next' = v.2 + next → Runs (child.visit report) w u w' →
      Runs ((child.renamed (shifted heap.next next next')).visitWhile
        (reporting fun _ => true)) v u' v' → Abreast heap.next next next' w w' v v' := by
    intro stamp hs child hc w u w' v u' v' hw hv hrun hrun'
    refine visit_abreast hnext (hn.childrenAt hc) ?_ hw hv hrun hrun'
    rcases hn.mem_or hc with hmem | hnew
    · exact .inl (heap.below child hmem)
    · rw [hnew.2]
      exact .inr hs
  rcases extension_or_family_ne n with ⟨own, custom, hshape⟩ | hfamily
  · -- Both walks draw the stamp for the reduction.
    rw [walkChildren_of_extension hshape] at hbelow
    rw [walkChildren_of_extension (n := n.renamed _) hshape] at hbelow'
    simp only [runs_bind, runs_fresh] at hbelow hbelow'
    obtain ⟨stamp, w₂, ⟨rfl, rfl⟩, hbelow⟩ := hbelow
    obtain ⟨stamp', v₂, ⟨rfl, rfl⟩, hbelow'⟩ := hbelow'
    have hreduced : (n.renamed (shifted heap.next next next')).childrenAt v.2 =
        (n.childrenAt w.2).map (renamed (shifted heap.next next next')) := by
      rw [hn.map_renamed shifted_of_lt, shifted_of_le hnext hw hv]
      rfl
    rw [hreduced] at hbelow'
    have hlevel : w.2 + 1 + next' = v.2 + 1 + next := by
      rw [Nat.add_right_comm, hv, Nat.add_right_comm]
    have hwalk := Abreast.forM (hchild w.2 hw) (Nat.le_succ_of_le hw) hlevel hbelow hbelow'
    exact ⟨hwalk.noted, Nat.le_of_succ_le hwalk.le, hwalk.level⟩
  · rw [walkChildren_eq_forM hfamily] at hbelow
    rw [walkChildren_eq_forM (n := n.renamed _) hfamily] at hbelow'
    have hchildren : (n.renamed (shifted heap.next next next')).shape.children =
        n.shape.children.map (renamed (shifted heap.next next next')) := by
      rw [← childrenAt_of_family_ne w.2 hfamily, hn.map_renamed shifted_of_lt,
        childrenAt_of_family_ne _ hfamily]
      rfl
    rw [hchildren] at hbelow'
    rw [← childrenAt_of_family_ne w.2 hfamily] at hbelow hbelow'
    exact Abreast.forM (hchild w.2 hw) hw hv hbelow hbelow'
termination_by n.weight
decreasing_by exact weight_lt_of_mem_childrenAt hc

/-- The reports of two visits that are not cut short, one of them noting nodes before those below
them, are the same up to their order and the identities of reductions. -/
theorem exists_renaming_visit {e : Node} (he : e ∈ heap) (hnext : heap.next ≤ next)
    (hnext' : heap.next ≤ next') :
    ∃ rename : Stamp → Stamp, (∀ stamp < heap.next, rename stamp = stamp) ∧
      (∀ a ∈ (e.visit report [] next).1.2, ∀ b ∈ (e.visit report [] next).1.2,
        rename a.stamp = rename b.stamp → a.stamp = b.stamp) ∧
      ((e.visit report [] next).1.2.map (renamed rename)).Perm
        (e.visitWhile (reporting fun _ => true) [] next').1.2 := by
  have hrun := runs_self (e.visit report) ([], next)
  have hrun' := runs_self (e.visitWhile (reporting fun _ => true)) ([], next')
  have hsame : e.renamed (shifted heap.next next next') = e := renamed_of_mem shifted_of_lt he
  have habreast := visit_abreast hnext (heldBy_of_mem he) (.inl (heap.below e he))
    (Nat.le_refl next) (Nat.add_comm next next') hrun (by rwa [hsame])
  obtain ⟨nodes, nodes', hnodes, hnodes', hperm, hstamps⟩ := habreast.noted
  rw [List.nil_append] at hnodes hnodes'
  have hvisited : (e.visit report [] next).1.2 = nodes := hnodes
  have hentered : (e.visitWhile (reporting fun _ => true) [] next').1.2 = nodes' := hnodes'
  rw [hvisited, hentered]
  -- the shift is injective where the visit drew its stamps, and need not be so elsewhere
  refine ⟨shifted heap.next next next', shifted_of_lt, fun a ha b hb => ?_, hperm⟩
  exact shifted_injective hnext' (hstamps a ha) (hstamps b hb)

end Shift

/-! ## Every occurrence once -/

/-- The nodes are those of the tree, up to identities drawn from `first` on: there is one for each
place, and of two on one way down the upper one comes first (forward) or last (backward). -/
def ListsPlaces (direction : Direction) (first : Stamp) (tree : Unfolded) (nodes : List Node) :
    Prop :=
  ∃ places : List (List Nat), places.map tree.at? = nodes.map (fun n => some (n.blurred first)) ∧
    (∀ place, place ∈ places ↔ (tree.at? place).isSome = true) ∧ places.Nodup ∧
    places.Pairwise (InOrder direction)

/-- Nodes that look like those of the tree list its places. -/
theorem listsPlaces_of_map_blurred {direction : Direction} {first : Stamp} {tree : Unfolded}
    {nodes : List Node} (h : nodes.map (blurred first) = tree.nodes direction) :
    ListsPlaces direction first tree nodes := by
  refine ⟨tree.places direction, ?_, Unfolded.mem_places_iff, tree.nodup_places direction,
    tree.pairwise_places direction⟩
  rw [Unfolded.map_at?_places, ← h, List.map_map]
  rfl

/-- From a tree, a visit reports one node for each occurrence, after those below it, and a visit
with a test that always passes reports one before those below it. The reports are the same up to
their order and the identities of reductions, and as long as occurrences are counted. What is
entered from a node stands below it; below constants there is nothing. -/
theorem visits_report_each_occurrence_once {e : Node} (he : e ∈ heap) {next next' : Stamp}
    (hnext : heap.next ≤ next) (hnext' : heap.next ≤ next') :
    let tree := e.unfold heap.next
    let visited := (e.visit report [] next).1.2
    let entered := (e.visitWhile (reporting fun _ => true) [] next').1.2
    (∃ rename : Stamp → Stamp, (∀ stamp < heap.next, rename stamp = stamp) ∧
      (∀ a ∈ visited, ∀ b ∈ visited, rename a.stamp = rename b.stamp → a.stamp = b.stamp) ∧
      (visited.map (renamed rename)).Perm entered) ∧
    visited.length = e.occurrences ∧ entered.length = e.occurrences ∧
    ListsPlaces .backward heap.next tree visited ∧ ListsPlaces .forward heap.next tree entered ∧
    tree.at? [] = some e ∧
    ∀ place n, tree.at? place = some n → ∀ i,
      tree.at? (place ++ [i]) = (n.childrenAt heap.next)[i]? ∧
      ∀ value, n.shape = .constant value → tree.at? (place ++ [i]) = none := by
  intro tree visited entered
  have hvisited : visited.map (blurred heap.next) = tree.nodes .backward :=
    map_blurred_visit_report he hnext
  have hentered : entered.map (blurred heap.next) = tree.nodes .forward := by
    rw [← Unfolded.pruned_of_forall (fun _ => rfl) tree]
    exact map_blurred_visitWhile_reporting he (fun _ => rfl) hnext'
  refine ⟨exists_renaming_visit he hnext hnext', ?_, ?_, listsPlaces_of_map_blurred hvisited,
    listsPlaces_of_map_blurred hentered, congrArg some (root_unfold heap.next e), ?_⟩
  · rw [← length_nodes_unfold .backward heap.next e, ← hvisited, List.length_map]
  · rw [← length_nodes_unfold .forward heap.next e, ← hentered, List.length_map]
  · intro place n hn i
    have hbelow := at?_unfold_append hn i
    refine ⟨hbelow, fun value hconstant => ?_⟩
    have hnone : n.childrenAt heap.next = [] := by simp [childrenAt, hconstant, Shape.children]
    rw [hbelow, hnone, List.getElem?_nil]

/-- A node that stands for a variable. -/
def sampleAlias : Node := ⟨2, .extension, .void, .extension 1 (.standIn sampleSubject)⟩

/-- That node doubled. -/
def sampleTwice : Node := ⟨4, .extension, .void, .extension 3 (.doubled sampleAlias)⟩

/-- The doubled node can be created. -/
theorem exists_heap_sampleTwice : ∃ heap : Heap, sampleTwice ∈ heap ∧ heap.next = 5 := by
  obtain ⟨heap₁, -, hnext₁, hsubject⟩ := Heap.empty.exists_insert sampleSubject (Nat.le_refl _)
    (by simp [sampleSubject, Shape.handles, Shape.children])
  obtain ⟨heap₂, -, hnext₂, halias⟩ := heap₁.exists_insert sampleAlias
    (by simp [hnext₁, sampleSubject, sampleAlias])
    (by simp [sampleAlias, Shape.handles, Extension.operand?, hsubject])
  obtain ⟨heap₃, -, hnext₃, htwice⟩ := heap₂.exists_insert sampleTwice
    (by simp [hnext₂, sampleAlias, sampleTwice])
    (by simp [sampleTwice, Shape.handles, Extension.operand?, halias])
  exact ⟨heap₃, htwice, hnext₃⟩

/-- The doubled node, the sum it is reduced to, and on each side the alias and the variable: six
nodes are reported. -/
theorem occurrences_sampleTwice : sampleTwice.occurrences = 6 := by
  have hsubject : sampleSubject.occurrences = 1 := by
    rw [occurrences_eq 0]
    simp [childrenAt, sampleSubject, Shape.children, total]
  have halias : sampleAlias.occurrences = 2 := by
    rw [occurrences_eq 0]
    simp [childrenAt, sampleAlias, Extension.reduceAt, hsubject, total]
  rw [occurrences.eq_def]
  simp [sampleTwice, halias]

/-- The doubled node, the sum it is reduced to, and on each side the alias and the variable are
reported, from whatever moments the visits start. -/
theorem visits_report_sampleTwice :
    ∃ heap : Heap, sampleTwice ∈ heap ∧ heap.next ≤ 5 ∧ heap.next ≤ 9 ∧
      (sampleTwice.visit report [] 5).1.2.length = 6 ∧
      ListsPlaces .forward heap.next (sampleTwice.unfold heap.next)
        (sampleTwice.visitWhile (reporting fun _ => true) [] 9).1.2 := by
  obtain ⟨heap, hmem, hnext⟩ := exists_heap_sampleTwice
  have hfive : heap.next ≤ 5 := Nat.le_of_eq hnext
  have hnine : heap.next ≤ 9 := by simp [hnext]
  obtain ⟨-, hlength, -, -, hlists, -⟩ := visits_report_each_occurrence_once hmem hfive hnine
  rw [occurrences_sampleTwice] at hlength
  exact ⟨heap, hmem, hfive, hnine, hlength, hlists⟩

end Node

end ExprTree
