import ExprTree.Proofs.Visiting
import ExprTree.View

/-!
# A search finds the first match

A search tests the nodes of the unfolded tree, each before those below it, and leaves at the first
that passes. The test may have effects of its own; what a run of it tested, and with which answers,
is all that is said of a search, so the exact point at which it stops is part of the statement.

A test without effects that cannot tell reductions apart finds the same node as the first one that
a visit with the opposite test does not enter.
-/

namespace ExprTree

namespace Node

variable {σ : Type} {heap : Heap} {n : Node}

/-! ## What a search tests -/

/-- Tests nodes that look like those ahead, one after the other, up to and including the first that
passes: this one is the result. Without a result all of them were tested. -/
inductive Searched (first : Stamp) (p : Node → StateT σ Supply Bool) (ahead : List Node)
    (w : Moment σ) : Option Node → Moment σ → Prop where
  /-- No node passed. -/
  | exhausted {tested : List Node} {answers : List Bool} {w' : Moment σ} :
    Passes p w tested answers w' → (∀ answer ∈ answers, answer = false) →
    tested.map (blurred first) = ahead → Searched first p ahead w none w'
  /-- A node passed, and nothing happened after its test. -/
  | stopped {tested : List Node} {answers : List Bool} {found : Node} {w₁ w' : Moment σ} :
    Passes p w tested answers w₁ → (∀ answer ∈ answers, answer = false) →
    Runs (p found) w₁ true w' → (tested ++ [found]).map (blurred first) <+: ahead →
    Searched first p ahead w (some found) w'

/-- What an early exit brings back. -/
def left? : Except Node PUnit → Option Node
  | .error found => some found
  | .ok _ => none

namespace Searched

variable {first : Stamp} {p : Node → StateT σ Supply Bool} {ahead more : List Node}
  {w w' w'' : Moment σ} {result : Option Node} {found : Node}

/-- Where nothing is ahead, nothing is tested. -/
theorem nil : Searched first p [] w none w :=
  .exhausted .done (by simp) rfl

/-- A stamp is drawn before the search. -/
theorem draw (h : Searched first p ahead (w.1, w.2 + 1) result w') :
    Searched first p ahead w result w' := by
  cases h with
  | exhausted hp hanswers hlook => exact .exhausted (.draw hp) hanswers hlook
  | stopped hp hanswers hfound hlook => exact .stopped (.draw hp) hanswers hfound hlook

/-- What is ahead further on does not matter once a node was found. -/
theorem append_right (h : Searched first p ahead w (some found) w') :
    Searched first p (ahead ++ more) w (some found) w' := by
  cases h with
  | stopped hp hanswers hfound hlook =>
    exact .stopped hp hanswers hfound (hlook.trans (List.prefix_append _ _))

/-- A search that found nothing goes on. -/
theorem append (h : Searched first p ahead w none w')
    (h' : Searched first p more w' result w'') :
    Searched first p (ahead ++ more) w result w'' := by
  cases h with
  | exhausted hp hanswers hlook =>
    subst hlook
    cases h' with
    | exhausted hp' hanswers' hlook' =>
      refine .exhausted (hp.append hp') (fun answer ha => ?_) (by rw [List.map_append, hlook'])
      exact (List.mem_append.mp ha).elim (hanswers answer) (hanswers' answer)
    | stopped hp' hanswers' hfound hlook' =>
      refine .stopped (hp.append hp') (fun answer ha => ?_) hfound ?_
      · exact (List.mem_append.mp ha).elim (hanswers answer) (hanswers' answer)
      · rw [List.append_assoc, List.map_append]
        exact (List.prefix_append_right_inj _).mpr hlook'

/-- The node itself is tested first. -/
theorem one {b : Bool} (h : Runs (p n) w b w') :
    Searched first p [n.blurred first] w (if b then some n else none) w' := by
  cases b with
  | true => exact .stopped .done (by simp) h (List.prefix_refl _)
  | false => exact .exhausted (.call h .done) (by simp) rfl

/-- A search does not take the supply back if its test does not. -/
theorem le_next (hp : KeepsBound first True p) (h : Searched first p ahead w result w')
    (hw : first ≤ w.2) : first ≤ w'.2 := by
  cases h with
  | exhausted hpasses => exact hpasses.le_next hp hw
  | stopped hpasses _ hfound => exact hp trivial _ _ _ _ hfound (hpasses.le_next hp hw)

/-- A list is searched item by item. -/
theorem forM {act : Node → ExceptT Node (StateT σ Supply) PUnit} {listed : Node → List Node}
    {items : List Node} {r : Except Node PUnit} (hp : KeepsBound first True p)
    (hact : ∀ n ∈ items, ∀ w r w', first ≤ w.2 → Runs (act n).run w r w' →
      Searched first p (listed n) w (left? r) w')
    (hw : first ≤ w.2) (h : Runs (ForM.forM items act).run w r w') :
    Searched first p (items.flatMap listed) w (left? r) w' := by
  induction items generalizing w with
  | nil =>
    rw [List.forM_nil, ExceptT.run_pure, runs_pure] at h
    rw [h.1, h.2]
    exact nil
  | cons n rest ih =>
    rw [List.forM_cons, ExceptT.run_bind, runs_bind] at h
    obtain ⟨a, w₁, hn, hrest⟩ := h
    have hhead := hact n List.mem_cons_self w a w₁ hw hn
    rw [List.flatMap_cons]
    cases a with
    | error found =>
      rw [runs_pure] at hrest
      rw [hrest.1, hrest.2]
      exact hhead.append_right
    | ok u =>
      refine hhead.append (ih (fun n hn => hact n (List.mem_cons_of_mem _ hn)) ?_ hrest)
      exact hhead.le_next hp hw

end Searched

variable {p : Node → StateT σ Supply Bool} {w w' : Moment σ} {r : Except Node PUnit}

/-- What is done before an action that may leave is done first. -/
theorem run_liftM_bind {ε β γ : Type} {m : Type → Type} [Monad m] [LawfulMonad m] (x : m β)
    (k : β → ExceptT ε m γ) :
    ((liftM x : ExceptT ε m β) >>= k).run = x >>= fun b => (k b).run := ExceptT.run_bind_lift x k

/-- A walk searches what is below the node in the unfolded tree, if the action that it runs on each
child does so for the child. -/
theorem walkChildren_searched {act : Node → ExceptT Node (StateT σ Supply) PUnit}
    (hp : KeepsBound heap.next True p) (hn : n.HeldBy heap) (hw : heap.next ≤ w.2)
    (hact : ∀ child : Node, child.weight < n.weight → child.HeldBy heap → ∀ w r w',
      heap.next ≤ w.2 → Runs (act child).run w r w' →
      Searched heap.next p ((child.met heap).nodes .forward) w (left? r) w')
    (h : Runs (n.walkChildren act).run w r w') :
    Searched heap.next p ((n.met heap).parts.flatMap (Unfolded.nodes .forward)) w (left? r) w' := by
  have hchildren : ∀ v r v', heap.next ≤ v.2 → Runs (forM (n.childrenAt w.2) act).run v r v' →
      Searched heap.next p ((n.met heap).parts.flatMap (Unfolded.nodes .forward)) v (left? r)
        v' := by
    intro v r v' hv hrun
    rw [hn.parts_met hw, List.flatMap_map]
    exact .forM hp (fun child hc =>
      hact child (weight_lt_of_mem_childrenAt hc) (hn.childrenAt hc)) hv hrun
  rcases extension_or_family_ne n with ⟨own, custom, hshape⟩ | hfamily
  · have hrun : (n.walkChildren act).run = (do
        let stamp ← fresh
        (forM (n.childrenAt stamp) act).run) := by
      rw [walkChildren_of_extension hshape]
      exact run_liftM_bind _ _
    rw [hrun, runs_bind] at h
    obtain ⟨stamp, w₁, hfresh, hwalk⟩ := h
    rw [runs_fresh] at hfresh
    obtain ⟨rfl, rfl⟩ := hfresh
    exact .draw (hchildren (w.1, w.2 + 1) r w' (Nat.le_succ_of_le hw) hwalk)
  · rw [walkChildren_eq_forM hfamily, ← childrenAt_of_family_ne w.2 hfamily] at h
    exact hchildren w r w' hw h

/-- A search tests the node, and what is below it unless the node passes. -/
theorem run_search (p : Node → StateT σ Supply Bool) (n : Node) :
    (n.search p).run = (do
      if ← p n then pure (.error n) else (n.walkChildren (search p)).run) := by
  rw [search, visitWith_eq, run_liftM_bind]
  refine bind_congr fun b => ?_
  cases b with
  | true => rfl
  | false => rfl

/-- A search tests the nodes of the unfolded tree, each before those below it. -/
theorem search_searched {n : Node} {w w' : Moment σ} {r : Except Node PUnit}
    (hp : KeepsBound heap.next True p) (hn : n.HeldBy heap) (hw : heap.next ≤ w.2)
    (h : Runs (n.search p).run w r w') :
    Searched heap.next p ((n.met heap).nodes .forward) w (left? r) w' := by
  rw [run_search, runs_bind] at h
  obtain ⟨b, w₁, hroot, hbelow⟩ := h
  have hone : Searched heap.next p [n.blurred heap.next] w (if b then some n else none) w₁ :=
    .one hroot
  have hnodes : (n.met heap).nodes .forward =
      [n.blurred heap.next] ++ (n.met heap).parts.flatMap (Unfolded.nodes .forward) := by
    rw [met, unfold_eq, Unfolded.nodes]
    rfl
  rw [hnodes]
  cases b with
  | true =>
    rw [if_pos rfl, runs_pure] at hbelow
    rw [hbelow.1, hbelow.2]
    exact hone.append_right
  | false =>
    refine hone.append (walkChildren_searched hp hn (hone.le_next hp hw) ?_ hbelow)
    intro child _ hc w r w' hw hrun
    exact search_searched hp hc hw hrun
termination_by n.weight

/-- What is found is what the search leaves with. -/
theorem runs_find {result : Option Node} (h : Runs (n.find p) w result w') :
    ∃ r, Runs (n.search p).run w r w' ∧ result = left? r := by
  rw [find, runs_bind] at h
  obtain ⟨r, w₁, hsearch, hresult⟩ := h
  cases r with
  | error found =>
    rw [runs_pure] at hresult
    obtain ⟨rfl, rfl⟩ := hresult
    exact ⟨_, hsearch, rfl⟩
  | ok u =>
    rw [runs_pure] at hresult
    obtain ⟨rfl, rfl⟩ := hresult
    exact ⟨_, hsearch, rfl⟩

/-- A node is found as the first that passes in the unfolded tree. -/
theorem find_searched {e : Node} (he : e ∈ heap) (hp : KeepsBound heap.next True p)
    (hw : heap.next ≤ w.2) :
    Searched heap.next p ((e.unfold heap.next).nodes .forward) w (e.find p w.1 w.2).1.1
      ((e.find p w.1 w.2).1.2, (e.find p w.1 w.2).2) := by
  obtain ⟨r, hrun, hresult⟩ := runs_find (runs_self (e.find p) w)
  rw [hresult, ← met_of_mem he]
  exact search_searched hp (heldBy_of_mem he) hw hrun

/-! ## Tests without effects -/

section Pure

variable {q : Node → Bool}

/-- A test without effects answers as it is. -/
theorem answers_eq_of_pure {tested : List Node} {answers : List Bool}
    (h : Passes (fun n => (pure (q n) : StateT σ Supply Bool)) w tested answers w') :
    answers = tested.map q := by
  induction h with
  | done => rfl
  | call hx _ ih => rw [(runs_pure.mp hx).1, ih, List.map_cons]
  | draw _ ih => exact ih

/-- What is found is the first node ahead that passes, if the test cannot tell apart nodes that look
alike. -/
theorem Searched.map_blurred {first : Stamp} {ahead : List Node} {result : Option Node}
    (hq : ∀ n : Node, q (n.blurred first) = q n)
    (h : Searched first (fun n => (pure (q n) : StateT σ Supply Bool)) ahead w result w') :
    result.map (blurred first) = ahead.find? q := by
  have hfails : ∀ {tested : List Node} {answers : List Bool} {w₁ : Moment σ},
      Passes (fun n => (pure (q n) : StateT σ Supply Bool)) w tested answers w₁ →
      (∀ answer ∈ answers, answer = false) → (tested.map (blurred first)).find? q = none := by
    intro tested answers w₁ hpasses hanswers
    rw [answers_eq_of_pure hpasses] at hanswers
    refine List.find?_eq_none.mpr fun look hl => ?_
    obtain ⟨n, hn, rfl⟩ := List.mem_map.mp hl
    rw [hq, hanswers (q n) (List.mem_map_of_mem hn)]
    simp
  cases h with
  | exhausted hpasses hanswers hlook =>
    rw [← hlook, hfails hpasses hanswers, Option.map_none]
  | stopped hpasses hanswers hfound hlook =>
    obtain ⟨rest, rfl⟩ := hlook
    have hpass : q _ = true := (runs_pure.mp hfound).1.symm
    rw [List.map_append, List.find?_append, List.find?_append, hfails hpasses hanswers]
    simp [hq, hpass]

variable {e : Node}

/-- The test of a search without effects leaves the supply alone. -/
theorem keepsBound_pure (first : Stamp) (q : Node → Bool) :
    KeepsBound first True fun n => (pure (q n) : StateT σ Supply Bool) := by
  intro _ n w b w' hrun hw
  rw [(runs_pure.mp hrun).2]
  exact hw

/-- A test without effects finds the first node of the unfolded tree that passes. -/
theorem map_blurred_find (he : e ∈ heap) (hq : ∀ n : Node, q (n.blurred heap.next) = q n)
    (state : σ) {next : Stamp} (hnext : heap.next ≤ next) :
    (e.find (fun n => (pure (q n) : StateT σ Supply Bool)) state next).1.1.map
        (blurred heap.next) = ((e.unfold heap.next).nodes .forward).find? q :=
  (find_searched he (keepsBound_pure heap.next q) (w := (state, next)) hnext).map_blurred hq

/-- What is found is the first node that a visit with the opposite test does not enter. -/
theorem map_blurred_find_eq_visitWhile (he : e ∈ heap)
    (hq : ∀ n : Node, q (n.blurred heap.next) = q n) (state : σ) {next next' : Stamp}
    (hnext : heap.next ≤ next) (hnext' : heap.next ≤ next') :
    (e.find (fun n => (pure (q n) : StateT σ Supply Bool)) state next).1.1.map
        (blurred heap.next) =
      ((e.visitWhile (reporting fun n => !q n) [] next').1.2.find? q).map (blurred heap.next) := by
  have hkeep : ∀ n : Node, (!q (n.blurred heap.next)) = !q n := fun n => congrArg not (hq n)
  have hsame : q ∘ blurred heap.next = q := funext hq
  rw [map_blurred_find he hq state hnext, ← Unfolded.find?_pruned,
    ← map_blurred_visitWhile_reporting he hkeep hnext', List.find?_map, hsame]

/-- Nothing is found if and only if no node of a visit passes. -/
theorem find_eq_none_iff (he : e ∈ heap) (hq : ∀ n : Node, q (n.blurred heap.next) = q n)
    (state : σ) {next next' : Stamp} (hnext : heap.next ≤ next) (hnext' : heap.next ≤ next') :
    (e.find (fun n => (pure (q n) : StateT σ Supply Bool)) state next).1.1 = none ↔
      ∀ n ∈ (e.visit report [] next').1.2, q n = false := by
  have hfound := map_blurred_find he hq state hnext
  rw [← Option.map_eq_none_iff (f := blurred heap.next), hfound, List.find?_eq_none]
  have hnodes : ∀ n, n ∈ (e.unfold heap.next).nodes .forward ↔
      ∃ inner ∈ (e.visit report [] next').1.2, inner.blurred heap.next = n := by
    intro n
    rw [← (Unfolded.nodes_perm _).mem_iff, ← map_blurred_visit_report he hnext', List.mem_map]
  constructor
  · intro h n hn
    have hfails := h _ ((hnodes _).mpr ⟨n, hn, rfl⟩)
    rw [hq] at hfails
    exact Bool.eq_false_iff.mpr hfails
  · intro h n hn
    obtain ⟨inner, hi, rfl⟩ := (hnodes n).mp hn
    rw [hq, h inner hi]
    simp

end Pure

/-! ## Searching for an instance -/

/-- Nodes of an unfolded tree that are old are in the heap. -/
theorem mem_of_mem_nodes_unfold {e : Node} (he : e.HeldBy heap)
    (hstamp : e ∈ heap ∨ e.stamp = heap.next) {direction : Direction}
    (h : n ∈ (e.unfold heap.next).nodes direction) : n ∈ heap ∨ n.stamp = heap.next := by
  have hbelow : ∀ child ∈ e.childrenAt heap.next, n ∈ (child.unfold heap.next).nodes direction →
      n ∈ heap ∨ n.stamp = heap.next := by
    intro child hc hn
    refine mem_of_mem_nodes_unfold (he.childrenAt hc) ?_ hn
    exact (he.mem_or hc).imp_right And.right
  have hcases : n = e ∨ ∃ child ∈ e.childrenAt heap.next,
      n ∈ (child.unfold heap.next).nodes direction := by
    rw [unfold_eq] at h
    cases direction <;> simpa [Unfolded.nodes, or_comm] using h
  rcases hcases with rfl | ⟨child, hc, hn⟩
  · exact hstamp
  · exact hbelow child hc hn
termination_by e.weight
decreasing_by exact weight_lt_of_mem_childrenAt hc

/-- What looks like an old stamp is that stamp. -/
theorem min_eq_iff_of_lt {a b first : Nat} (h : b < first) : min a first = b ↔ a = b := by omega

/-- A test for an old instance cannot tell apart nodes that look alike. -/
theorem same_blurred {t : Node} (ht : t ∈ heap) (n : Node) :
    (n.blurred heap.next).same t = n.same t := by
  have hiff := min_eq_iff_of_lt (a := n.stamp) (heap.below t ht)
  exact decide_eq_decide.mpr hiff

/-- What looks like a node of the heap is that node. -/
theorem eq_of_blurred_eq {r t : Node} (ht : t ∈ heap) (h : r.blurred heap.next = t) : r = t := by
  cases r with
  | mk own kind type shape =>
    have hmin : min own heap.next = t.stamp := congrArg stamp h
    have hown : own = t.stamp := (min_eq_iff_of_lt (heap.below t ht)).mp hmin
    rw [blurred, renamed, hmin, ← hown] at h
    exact h

/-- An instance is found if it is in the unfolded tree, and nothing is found otherwise. -/
theorem findNode_eq {e t : Node} (he : e ∈ heap) (ht : t ∈ heap) (state : σ) {next : Stamp}
    (hnext : heap.next ≤ next) :
    (t ∈ (e.unfold heap.next).nodes .forward →
      (findNode (m := StateT σ Supply) e t state next).1.1 = some t) ∧
    (t ∉ (e.unfold heap.next).nodes .forward →
      (findNode (m := StateT σ Supply) e t state next).1.1 = none) := by
  have hfound : (findNode (m := StateT σ Supply) e t state next).1.1.map (blurred heap.next) =
      ((e.unfold heap.next).nodes .forward).find? (·.same t) :=
    map_blurred_find he (same_blurred ht) state hnext
  have heq : ∀ n ∈ (e.unfold heap.next).nodes .forward, n.same t = true → n = t := by
    intro n hn hsame
    have hstamp : n.stamp = t.stamp := of_decide_eq_true hsame
    have hold : n ∈ heap := by
      refine (mem_of_mem_nodes_unfold (heldBy_of_mem he) (.inl he) hn).resolve_right fun hnew => ?_
      rw [hnew] at hstamp
      exact absurd (heap.below t ht) (Nat.not_lt_of_le (Nat.le_of_eq hstamp))
    exact Heap.eq_of_stamp_eq hold ht hstamp
  constructor
  · intro hmem
    cases hfind : ((e.unfold heap.next).nodes .forward).find? (·.same t) with
    | none =>
      have hfails := List.find?_eq_none.mp hfind t hmem
      rw [same_self] at hfails
      exact absurd rfl hfails
    | some n =>
      have hsame := List.find?_some hfind
      have hn : n = t := heq n (List.mem_of_find?_eq_some hfind) hsame
      rw [hfind, hn, Option.map_eq_some_iff] at hfound
      obtain ⟨r, hr, hlook⟩ := hfound
      rw [hr, eq_of_blurred_eq ht hlook]
  · intro hmem
    have hnone : ((e.unfold heap.next).nodes .forward).find? (·.same t) = none := by
      refine List.find?_eq_none.mpr fun n hn hsame => ?_
      rw [heq n hn hsame] at hn
      exact hmem hn
    rw [hnone, Option.map_eq_none_iff] at hfound
    exact hfound

/-! ## Searching with views -/

section Views

variable {ε ε' β γ : Type} {m : Type → Type} [Monad m]

/-- What an action leaves with is changed at its end. -/
theorem run_adapt (g : ε → ε') (x : ExceptT ε m β) :
    (x.adapt g).run = Except.mapError g <$> x.run := rfl

variable [LawfulMonad m]

/-- What is changed at the end can be changed in each part of a sequence. -/
theorem adapt_bind (g : ε → ε') (x : ExceptT ε m β) (k : β → ExceptT ε m γ) :
    (x >>= k).adapt g = x.adapt g >>= fun b => (k b).adapt g := by
  apply ExceptT.ext
  rw [run_adapt, ExceptT.run_bind, ExceptT.run_bind, run_adapt, map_bind, bind_map_left]
  refine bind_congr fun result => ?_
  cases result with
  | ok b => rfl
  | error found => exact map_pure _ _

/-- An action that never leaves is not changed. -/
theorem adapt_lift (g : ε → ε') (x : m β) : (ExceptT.lift x).adapt g = ExceptT.lift x := by
  apply ExceptT.ext
  rw [run_adapt, ExceptT.run_lift, ExceptT.run_lift, Functor.map_map]
  rfl

/-- A list leaves with what the action on an item leaves with. -/
theorem adapt_forM {α : Type} (g : ε → ε') (act : α → ExceptT ε m PUnit) (items : List α) :
    (forM items act).adapt g = forM items fun x => (act x).adapt g := by
  induction items with
  | nil => exact ExceptT.ext (map_pure _ _)
  | cons x rest ih => rw [List.forM_cons, List.forM_cons, adapt_bind, ih]

variable [MonadStamp m]

/-- A walk leaves with what the action on a child leaves with. -/
theorem adapt_walkChildren (g : ε → ε') (act : Node → ExceptT ε m PUnit) (n : Node) :
    (n.walkChildren act).adapt g = n.walkChildren fun child => (act child).adapt g := by
  rcases extension_or_family_ne n with ⟨own, custom, hshape⟩ | hfamily
  · have hfresh : (fresh : ExceptT ε m Stamp).adapt g = fresh := adapt_lift g fresh
    rw [walkChildren_of_extension hshape, walkChildren_of_extension hshape, adapt_bind, hfresh]
    refine bind_congr fun stamp => ?_
    exact adapt_forM g act _
  · rw [walkChildren_eq_forM hfamily, walkChildren_eq_forM hfamily, adapt_forM]

omit [LawfulMonad m] in
/-- A walk depends on the actions for nodes of less weight only. -/
theorem walkChildren_congr {n : Node} {act act' : Node → m PUnit}
    (h : ∀ child : Node, child.weight < n.weight → act child = act' child) :
    n.walkChildren act = n.walkChildren act' := by
  unfold walkChildren
  congr 1
  funext child hc
  exact h child hc

/-- A visit leaves with what its steps leave with. -/
theorem adapt_visitWith (g : ε → ε') {step : Node → ExceptT ε m PUnit → ExceptT ε m PUnit}
    {step' : Node → ExceptT ε' m PUnit → ExceptT ε' m PUnit}
    (hstep : ∀ n below, (step n below).adapt g = step' n (below.adapt g)) (n : Node) :
    (n.visitWith step).adapt g = n.visitWith step' := by
  rw [visitWith_eq, visitWith_eq, hstep, adapt_walkChildren]
  congr 1
  refine walkChildren_congr fun child hc => ?_
  exact adapt_visitWith g hstep child
termination_by n.weight

/-- With a view of each node the search finds a view of the node that it finds otherwise, if the
test leaves the node in the view. -/
theorem findView_eq {p : StateT View m Bool}
    (hp : ∀ n, Prod.map id View.node <$> p.run (.wrap n) =
      (fun answer => (answer.1, n)) <$> p.run (.wrap n)) (n : Node) :
    Option.map View.node <$> n.findView p = n.find fun node => Prod.fst <$> p.run (.wrap node) := by
  rw [find, findView, search, ← adapt_visitWith View.node]
  · rw [run_adapt, bind_map_left, map_bind]
    refine bind_congr fun result => ?_
    cases result with
    | ok u => exact map_pure _ _
    | error found => exact map_pure _ _
  · intro n below
    -- Both sides go on in the same way from the answer and the node to leave with.
    let goOn (answer : Bool × Node) : m (Except Node PUnit) :=
      if answer.1 then pure (.error answer.2) else (below.adapt View.node).run
    apply ExceptT.ext
    calc
      _ = p.run (.wrap n) >>= fun answer => goOn (Prod.map id View.node answer) := by
        rw [run_adapt, run_liftM_bind, map_bind]
        refine bind_congr fun answer => ?_
        cases answer with
        | mk passed view =>
          cases passed with
          | true => exact map_pure _ _
          | false => rfl
      _ = (Prod.map id View.node <$> p.run (.wrap n)) >>= goOn := (bind_map_left _ _ _).symm
      _ = p.run (.wrap n) >>= fun answer => goOn (answer.1, n) := by rw [hp, bind_map_left]
      _ = _ := by
        rw [run_liftM_bind, bind_map_left]
        refine bind_congr fun answer => ?_
        cases answer with
        | mk passed view => cases passed <;> rfl

end Views

/-! ## The first match -/

/-- A search tests the nodes of the unfolded tree in order, each before those below it, and stops
right after the first test that passes. Without effects and without regard to identities of
reductions, it finds what a visit with the opposite test is stopped by first, and nothing if and
only if no node of a visit passes. With views it finds a view of the same node, and a search for an
instance finds it where it occurs. -/
theorem find_stops_at_first_match {e : Node} (he : e ∈ heap) :
    let walk := (e.unfold heap.next).nodes .forward
    (∀ (τ : Type) (p : Node → StateT τ Supply Bool) (w : Moment τ),
      KeepsBound heap.next True p → heap.next ≤ w.2 →
      Searched heap.next p walk w (e.find p w.1 w.2).1.1
        ((e.find p w.1 w.2).1.2, (e.find p w.1 w.2).2)) ∧
    (∀ (q : Node → Bool) (τ : Type) (state : τ) (next next' : Stamp),
      (∀ n : Node, q (n.blurred heap.next) = q n) → heap.next ≤ next → heap.next ≤ next' →
      let found := (e.find (fun n => (pure (q n) : StateT τ Supply Bool)) state next).1.1
      let entered := (e.visitWhile (reporting fun n => !q n) [] next').1.2
      let visited := (e.visit report [] next').1.2
      found.map (blurred heap.next) = (entered.find? q).map (blurred heap.next) ∧
        (found = none ↔ ∀ n ∈ visited, q n = false)) ∧
    (∀ (τ : Type) (p : StateT View (StateT τ Supply) Bool),
      (∀ n state next, (p (.wrap n) state next).1.1.2.node = n) →
      Option.map View.node <$> e.findView p = e.find fun n => Prod.fst <$> p.run (.wrap n)) ∧
    ∀ (t : Node) (τ : Type) (state : τ) (next : Stamp), t ∈ heap → heap.next ≤ next →
      (t ∈ walk → (findNode (m := StateT τ Supply) e t state next).1.1 = some t) ∧
      (t ∉ walk → (findNode (m := StateT τ Supply) e t state next).1.1 = none) := by
  refine ⟨fun τ p w hp hw => find_searched he hp hw, fun q τ state next next' hq hnext hnext' =>
    ⟨map_blurred_find_eq_visitWhile he hq state hnext hnext',
      find_eq_none_iff he hq state hnext hnext'⟩, fun τ p hp => findView_eq (fun n => ?_) e,
    fun t τ state next ht hnext => findNode_eq he ht state hnext⟩
  funext state next
  have hmap : ∀ g : Bool × View → Bool × Node, (g <$> p.run (.wrap n)) state next =
      ((g (p (.wrap n) state next).1.1, (p (.wrap n) state next).1.2),
        (p (.wrap n) state next).2) := fun _ => rfl
  rw [hmap, hmap, Prod.map, hp, id]

/-- The variable occurs in what walks enter from the doubled node on. -/
theorem sampleSubject_mem_sampleTwice (stamp : Stamp) :
    sampleSubject ∈ (sampleTwice.unfold stamp).nodes .forward := by
  have halias : sampleSubject ∈ (sampleAlias.unfold stamp).nodes .forward := by
    rw [unfold_eq, sampleAlias]
    simp [childrenAt, Extension.reduceAt, Unfolded.nodes, unfold_eq stamp sampleSubject]
  have hsum : ∀ type, sampleSubject ∈ ((⟨stamp, .add, type,
      .binary sampleAlias none sampleAlias none false⟩ : Node).unfold stamp).nodes .forward := by
    intro type
    rw [unfold_eq]
    simp [childrenAt, Shape.children, Unfolded.nodes, halias]
  rw [unfold_eq, sampleTwice]
  simp [childrenAt, Extension.reduceAt, Unfolded.nodes, hsum]

/-- The variable is found behind the doubled node, and so is the sum that the node is reduced to,
which a visit that stops at sums does not enter either. -/
theorem find_sampleTwice :
    ∃ heap : Heap, sampleTwice ∈ heap ∧ sampleSubject ∈ heap ∧ heap.next ≤ 5 ∧
      (findNode (m := StateT Unit Supply) sampleTwice sampleSubject () 5).1.1 =
        some sampleSubject ∧
      ((sampleTwice.find (fun n => (pure (n.kind == .add) : StateT Unit Supply Bool)) () 5).1.1.map
          (blurred heap.next) =
        ((sampleTwice.visitWhile (reporting fun n => !(n.kind == .add)) [] 5).1.2.find?
          (·.kind == .add)).map (blurred heap.next)) := by
  obtain ⟨heap, hmem, hnext⟩ := exists_heap_sampleTwice
  have hfive : heap.next ≤ 5 := Nat.le_of_eq hnext
  have halias : sampleAlias ∈ heap := Heap.mem_of_mem_handles hmem
    (by simp [sampleTwice, Shape.handles, Extension.operand?])
  have hsubject : sampleSubject ∈ heap := Heap.mem_of_mem_handles halias
    (by simp [sampleAlias, Shape.handles, Extension.operand?])
  obtain ⟨-, hpure, -, hinstance⟩ := find_stops_at_first_match hmem
  have hfound := (hinstance sampleSubject Unit () 5 hsubject hfive).1
    (sampleSubject_mem_sampleTwice heap.next)
  have hsum := (hpure (·.kind == .add) Unit () 5 5 (fun _ => rfl) hfive hfive).1
  exact ⟨heap, hmem, hsubject, hfive, hfound, hsum⟩

end Node

end ExprTree
