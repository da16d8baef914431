import ExprTree.Proofs.Identity

/-!
# The order in which a rewriting asks

The rewriting of a node runs one action for each child, in the order of `Shape.children`, and draws
stamps in between for the nested structures that it builds anew. A run is described moment by
moment: a moment is the state of the rule together with the stamp that is drawn next. What was asked
and answered in a run of a whole shape is put together from the runs for its parts, and the answers
can be found again in the shape that is the result.
-/

namespace ExprTree

variable {α β γ σ : Type}

/-! ## Runs -/

/-- The first of two actions is run from the state at hand, the second from where that one ends. -/
theorem bind_apply (x : StateM σ α) (k : α → StateM σ β) (s : σ) :
    (x >>= k) s = k (x s).1 (x s).2 := rfl

/-- The state of a rule and the stamp that is drawn next. -/
abbrev Moment (σ : Type) := σ × Stamp

/-- Started at the first moment, the action gives the result and ends at the second. -/
def Runs (x : StateT σ Supply β) (w : Moment σ) (b : β) (w' : Moment σ) : Prop :=
  x w.1 w.2 = ((b, w'.1), w'.2)

/-- Every action runs from every moment. -/
theorem runs_self (x : StateT σ Supply β) (w : Moment σ) :
    Runs x w (x w.1 w.2).1.1 ((x w.1 w.2).1.2, (x w.1 w.2).2) := rfl

/-- A result that is there takes no time. -/
@[simp] theorem runs_pure {b c : β} {w w' : Moment σ} :
    Runs (pure b) w c w' ↔ c = b ∧ w' = w := by
  have hpure : (pure b : StateT σ Supply β) w.1 w.2 = ((b, w.1), w.2) := rfl
  rw [Runs, hpure, Prod.mk.injEq, Prod.mk.injEq, Prod.ext_iff, and_assoc, eq_comm,
    @eq_comm _ w.1, @eq_comm _ w.2]

/-- A sequence runs through the moment between its parts. -/
@[simp] theorem runs_bind {x : StateT σ Supply β} {k : β → StateT σ Supply γ} {c : γ}
    {w w'' : Moment σ} :
    Runs (x >>= k) w c w'' ↔ ∃ b w', Runs x w b w' ∧ Runs (k b) w' c w'' := by
  have hbind : (x >>= k) w.1 w.2 = k (x w.1 w.2).1.1 (x w.1 w.2).1.2 (x w.1 w.2).2 := rfl
  constructor
  · intro h
    rw [Runs, hbind] at h
    exact ⟨_, _, runs_self x w, h⟩
  · intro h
    obtain ⟨b, w', hx, hk⟩ := h
    rw [Runs] at hx
    rw [Runs, hbind, hx]
    exact hk

/-- A drawn stamp is the next one. -/
@[simp] theorem runs_fresh {stamp : Stamp} {w w' : Moment σ} :
    Runs fresh w stamp w' ↔ stamp = w.2 ∧ w' = (w.1, w.2 + 1) := by
  have hfresh : (fresh : StateT σ Supply Stamp) w.1 w.2 = ((w.2, w.1), w.2 + 1) := rfl
  rw [Runs, hfresh, Prod.mk.injEq, Prod.mk.injEq, Prod.ext_iff, and_assoc, eq_comm,
    @eq_comm _ w.1, @eq_comm _ (w.2 + 1)]

/-- The action is run on the items one by one and gives the results; stamps may be drawn before and
after each of them. -/
inductive Passes (f : α → StateT σ Supply β) : Moment σ → List α → List β → Moment σ → Prop where
  /-- There is nothing left. -/
  | done {w : Moment σ} : Passes f w [] [] w
  /-- The action is run on the next item. -/
  | call {w w' w'' : Moment σ} {x : α} {b : β} {xs : List α} {bs : List β} :
    Runs (f x) w b w' → Passes f w' xs bs w'' → Passes f w (x :: xs) (b :: bs) w''
  /-- A stamp is drawn. -/
  | draw {w w' : Moment σ} {xs : List α} {bs : List β} :
    Passes f (w.1, w.2 + 1) xs bs w' → Passes f w xs bs w'

namespace Passes

variable {f : α → StateT σ Supply β} {w w' w'' : Moment σ} {xs ys : List α} {bs cs : List β}

/-- Items that are passed one after the other are passed together. -/
theorem append (h : Passes f w xs bs w') (h' : Passes f w' ys cs w'') :
    Passes f w (xs ++ ys) (bs ++ cs) w'' := by
  induction h with
  | done => exact h'
  | call hx _ ih => exact .call hx (ih h')
  | draw _ ih => exact .draw (ih h')

/-- Each item has its result. -/
theorem length_eq (h : Passes f w xs bs w') : xs.length = bs.length := by
  induction h with
  | done => rfl
  | call _ _ ih => simp [ih]
  | draw _ ih => exact ih

/-- What is passed through names is passed. -/
theorem map {g : γ → α} {zs : List γ} (h : Passes (fun z => f (g z)) w zs bs w') :
    Passes f w (zs.map g) bs w' := by
  induction h with
  | done => exact .done
  | call hx _ ih => exact .call hx ih
  | draw _ ih => exact .draw ih

end Passes

/-! ## Answers in a result -/

/-- Where each node was and what was answered for it, the third list has the answer, or the node
itself if that is the same instance. -/
inductive Stands : List Node → List Node → List Node → Prop where
  /-- There is nothing left. -/
  | nil : Stands [] [] []
  /-- The answer stands there. -/
  | given {x r : Node} {xs rs ys : List Node} : Stands xs rs ys →
      Stands (x :: xs) (r :: rs) (r :: ys)
  /-- The node stands there, and the answer is the same instance. -/
  | kept {x r : Node} {xs rs ys : List Node} : r.same x = true → Stands xs rs ys →
    Stands (x :: xs) (r :: rs) (x :: ys)

namespace Stands

variable {xs rs ys xs' rs' ys' : List Node}

/-- What stands in two lists stands in both together. -/
theorem append (h : Stands xs rs ys) (h' : Stands xs' rs' ys') :
    Stands (xs ++ xs') (rs ++ rs') (ys ++ ys') := by
  induction h with
  | nil => exact h'
  | given _ ih => exact .given ih
  | kept hs _ ih => exact .kept hs ih

/-- The nodes can stand where they were if the answers are the same instances. -/
theorem nodes (h : List.Forall₂ (fun r x => r.same x = true) rs xs) : Stands xs rs xs := by
  induction h with
  | nil => exact .nil
  | cons hs _ ih => exact .kept hs ih

end Stands

/-- A part of a rewriting: the items were asked for one by one, and what was answered stands in
`now`. The part is `kept` if all answers are what the items stand for and, where drawn stamps are
`distinct` from old ones, only then. -/
def Handles (first : Stamp) (distinct : Prop) (f : α → StateT σ Supply Node) (old : α → Node)
    (w : Moment σ) (items : List α) (now : List Node) (kept : Prop) (w' : Moment σ) : Prop :=
  (distinct → first ≤ w.2) → ∃ answers, Passes f w items answers w' ∧
    (List.Forall₂ (fun r x => r.same x = true) answers (items.map old) → kept) ∧
    (distinct → first ≤ w'.2 ∧ Stands (items.map old) answers now ∧
      (kept → List.Forall₂ (fun r x => r.same x = true) answers (items.map old)))

/-- Where old stamps are distinct from drawn ones, the action does not take the supply back. -/
def KeepsBound (first : Stamp) (distinct : Prop) (f : α → StateT σ Supply β) : Prop :=
  distinct → ∀ x w b w', Runs (f x) w b w' → first ≤ w.2 → first ≤ w'.2

namespace Handles

variable {first : Stamp} {distinct : Prop} {f : α → StateT σ Supply Node} {old : α → Node}
  {w w' w'' : Moment σ} {items items' : List α} {now now' : List Node} {kept kept' : Prop}

/-- Where there is nothing, nothing is asked. -/
theorem nil : Handles first distinct f old w [] [] True w :=
  fun hw => ⟨[], .done, fun _ => trivial, fun hd => ⟨hw hd, .nil, fun _ => .nil⟩⟩

/-- One item is asked for. -/
theorem one {x : α} {r : Node} (old : α → Node) (hf : KeepsBound first distinct f)
    (h : Runs (f x) w r w') :
    Handles first distinct f old w [x] [r] (r.same (old x) = true) w' := by
  intro hw
  refine ⟨[r], .call h .done, fun hs => ?_, fun hd => ⟨hf hd x w r w' h (hw hd), .given .nil, ?_⟩⟩
  · exact (List.forall₂_cons.mp hs).1
  · exact fun hs => .cons hs .nil

/-- Parts that follow one another make a part. -/
theorem append (h : Handles first distinct f old w items now kept w')
    (h' : Handles first distinct f old w' items' now' kept' w'') :
    Handles first distinct f old w (items ++ items') (now ++ now') (kept ∧ kept') w'' := by
  intro hw
  obtain ⟨answers, hp, hk, hd⟩ := h hw
  obtain ⟨answers', hp', hk', hd'⟩ := h' fun hdist => (hd hdist).1
  have hlen : answers.length = (items.map old).length := by simp [hp.length_eq]
  refine ⟨answers ++ answers', hp.append hp', fun hs => ?_, fun hdist => ?_⟩
  · rw [List.map_append] at hs
    have hboth := (forall₂_append_iff hlen).mp hs
    exact ⟨hk hboth.1, hk' hboth.2⟩
  · obtain ⟨-, hs, hsame⟩ := hd hdist
    obtain ⟨hfirst, hs', hsame'⟩ := hd' hdist
    rw [List.map_append]
    exact ⟨hfirst, hs.append hs', fun hboth => List.rel_append (hsame hboth.1) (hsame' hboth.2)⟩

/-- What it means that a part is kept can be said in another way. -/
theorem congr (h : Handles first distinct f old w items now kept w') (hk : kept ↔ kept') :
    Handles first distinct f old w items now kept' w' := by
  rw [← propext hk]
  exact h

/-- A structure that is kept holds what it held. -/
theorem keep (h : Handles first distinct f old w items now kept w') (hk : kept) :
    Handles first distinct f old w items (items.map old) True w' := by
  intro hw
  obtain ⟨answers, hp, -, hd⟩ := h hw
  refine ⟨answers, hp, fun _ => trivial, fun hdist => ?_⟩
  obtain ⟨hfirst, -, hsame⟩ := hd hdist
  exact ⟨hfirst, .nodes (hsame hk), fun _ => hsame hk⟩

/-- A structure that is built anew stands at the next stamp, so that it is not the old one. -/
theorem anew (h : Handles first distinct f old w items now kept w') (hk : ¬ kept)
    (hs : distinct → kept' → w'.2 < first) :
    Handles first distinct f old w items now kept' (w'.1, w'.2 + 1) := by
  intro hw
  obtain ⟨answers, hp, hkept, hd⟩ := h hw
  have hp' := hp.append (.draw .done)
  rw [List.append_nil, List.append_nil] at hp'
  refine ⟨answers, hp', fun hsame => absurd (hkept hsame) hk, fun hdist => ?_⟩
  obtain ⟨hfirst, hstands, -⟩ := hd hdist
  refine ⟨Nat.le_succ_of_le hfirst, hstands, fun hold => ?_⟩
  exact absurd (hs hdist hold) (Nat.not_lt_of_le hfirst)

/-- A structure is updated to what was answered: it is kept if that is `identical` to what it holds,
and otherwise stands `anew` at the next stamp. -/
theorem update {κ : Type} {parts : κ → List Node} {stamp : κ → Stamp} {was result : κ}
    {identical : Bool} (anew : Stamp → κ)
    (h : Handles first distinct f old w items now (identical = true) w')
    (hwas : parts was = items.map old)
    (hanew : ∀ next, parts (anew next) = now ∧ stamp (anew next) = next)
    (hs : distinct → stamp was < first)
    (hrun : Runs (if identical then pure was else fresh >>= fun next => pure (anew next)) w' result
      w'') :
    Handles first distinct f old w items (parts result)
      (decide (stamp result = stamp was) = true) w'' := by
  split at hrun
  case isTrue hsame =>
    rw [runs_pure] at hrun
    obtain ⟨rfl, rfl⟩ := hrun
    rw [hwas]
    exact (h.keep hsame).congr (by simp)
  case isFalse hsame =>
    simp only [runs_bind, runs_fresh, runs_pure] at hrun
    obtain ⟨next, w₁, ⟨rfl, rfl⟩, rfl, rfl⟩ := hrun
    obtain ⟨hparts, hstamp⟩ := hanew w'.2
    rw [hparts, hstamp]
    refine h.anew hsame fun hd hold => ?_
    rw [of_decide_eq_true hold]
    exact hs hd

/-- What the items stand for can be asked for in their place. -/
theorem map {fold : Node → StateT σ Supply Node}
    (h : Handles first distinct (fun x => fold (old x)) old w items now kept w') :
    Handles first distinct fold id w (items.map old) now kept w' := by
  intro hw
  obtain ⟨answers, hp, hkept, hd⟩ := h hw
  rw [List.map_id]
  exact ⟨answers, hp.map, hkept, hd⟩

/-- Structures that are rewritten one by one are kept if each of them is. The parts of a list of
structures are `listed` one structure after the other. -/
theorem structures {κ κ' : Type} {g : κ → StateT σ Supply κ'} {parts : κ → List α}
    {parts' : κ' → List Node} {listed : List κ → List α} {listed' : List κ' → List Node}
    {same : κ' → κ' → Bool} {image : κ → κ'} {ks : List κ} {ks' : List κ'}
    (hlisted : ∀ ks, listed ks = ks.flatMap parts)
    (hlisted' : ∀ ks, listed' ks = ks.flatMap parts')
    (hg : ∀ k ∈ ks, ∀ w k' w', Runs (g k) w k' w' →
      Handles first distinct f old w (parts k) (parts' k') (same k' (image k) = true) w')
    (h : Runs (ks.mapM g) w ks' w') :
    Handles first distinct f old w (listed ks) (listed' ks')
      (sameItems same ks' (ks.map image) = true) w' := by
  rw [hlisted, hlisted']
  induction ks generalizing w ks' with
  | nil =>
    rw [List.mapM_nil, runs_pure] at h
    obtain ⟨rfl, rfl⟩ := h
    exact nil.congr (by simp [sameItems])
  | cons k ks ih =>
    simp only [List.mapM_cons, runs_bind, runs_pure] at h
    obtain ⟨k', w₁, hk, ks'', w₂, hks, rfl, rfl⟩ := h
    have hhead := hg k (by simp) w k' w₁ hk
    have htail := ih (fun k hk => hg k (List.mem_cons_of_mem _ hk)) hks
    exact (hhead.append htail).congr (by simp [sameItems])

/-- The items of a list are asked for one by one. -/
theorem list {nodes : List Node} (old : α → Node) (hf : KeepsBound first distinct f)
    (h : Runs (items.mapM f) w nodes w') :
    Handles first distinct f old w items nodes (sameNodes nodes (items.map old) = true) w' :=
  structures (fun xs => (List.flatMap_singleton' xs).symm)
    (fun rs => (List.flatMap_singleton' rs).symm) (fun _ _ _ _ _ hx => one old hf hx) h

/-- An optional item is asked for if it is there. -/
theorem option {item : Option α} {node : Option Node} (old : α → Node)
    (hf : KeepsBound first distinct f) (h : Runs (item.mapM f) w node w') :
    Handles first distinct f old w item.toList node.toList
      (sameOption node (item.map old) = true) w' := by
  cases item with
  | none =>
    rw [Option.mapM_none, runs_pure] at h
    obtain ⟨rfl, rfl⟩ := h
    exact nil.congr (by simp [sameOption])
  | some x =>
    rw [Option.mapM_some, map_eq_pure_bind] at h
    simp only [runs_bind, runs_pure] at h
    obtain ⟨r, w₁, hx, rfl, rfl⟩ := h
    exact one old hf hx

end Handles

/-! ## Nested structures -/

section Nested

variable {first : Stamp} {distinct : Prop} {f : α → StateT σ Supply Node} {old : α → Node}
  {w w' : Moment σ}

/-- The arguments of an initializer are asked for in order. -/
theorem ElementInit.rewrite_handles {init : ElementInit α} {init' : ElementInit Node}
    (hf : KeepsBound first distinct f) (hs : distinct → init.stamp < first)
    (h : Runs (init.rewrite old f) w init' w') :
    Handles first distinct f old w init.arguments init'.arguments
      (init'.same (init.map old) = true) w' := by
  simp only [rewrite, runs_bind] at h
  obtain ⟨arguments, w₁, hargs, hupdate⟩ := h
  have hall := Handles.list old hf hargs
  exact hall.update (ElementInit.mk · init.method arguments) rfl (fun _ => ⟨rfl, rfl⟩) hs hupdate

/-- The handles of a case are asked for in order. -/
theorem SwitchCase.rewrite_handles {branch : SwitchCase α} {branch' : SwitchCase Node}
    (hf : KeepsBound first distinct f) (hs : distinct → branch.stamp < first)
    (h : Runs (branch.rewrite old f) w branch' w') :
    Handles first distinct f old w branch.children branch'.children
      (branch'.same (branch.map old) = true) w' := by
  simp only [rewrite, runs_bind] at h
  obtain ⟨tests, w₁, htests, body, w₂, hbody, hupdate⟩ := h
  have hall := ((Handles.list old hf htests).append (Handles.one old hf hbody)).congr
    Bool.and_eq_true_iff.symm
  exact hall.update (SwitchCase.mk · tests body) (children_map old branch) (fun _ => ⟨rfl, rfl⟩) hs
    hupdate

/-- The handles of a handler are asked for in order. -/
theorem Handler.rewrite_handles {handler : Handler α} {handler' : Handler Node}
    (hf : KeepsBound first distinct f) (hs : distinct → handler.stamp < first)
    (h : Runs (handler.rewrite old f) w handler' w') :
    Handles first distinct f old w handler.children handler'.children
      (handler'.same (handler.map old) = true) w' := by
  simp only [rewrite, runs_bind] at h
  obtain ⟨bound, w₁, hbound, filter, w₂, hfilter, body, w₃, hbody, hupdate⟩ := h
  have hoptions := ((Handles.option old hf hbound).append (Handles.option old hf hfilter)).congr
    Bool.and_eq_true_iff.symm
  have hall := (hoptions.append (Handles.one old hf hbody)).congr Bool.and_eq_true_iff.symm
  exact hall.update (Handler.mk · handler.caught bound filter body) (children_map old handler)
    (fun _ => ⟨rfl, rfl⟩) hs hupdate

/-- A binding is updated to contents that were asked for. -/
theorem Binding.update_handles {items : List α} {was contents now : Binding Node} {w₁ : Moment σ}
    (hc : Handles first distinct f old w items contents.children
      (contents.identical was = true) w₁) (hwas : was.children = items.map old)
    (hs : distinct → was.stamp < first) (h : Runs (was.update contents) w₁ now w') :
    Handles first distinct f old w items now.children (now.same was = true) w' :=
  hc.update contents.withStamp hwas (fun next => (withStamp_spec next contents).2) hs h

mutual

/-- The handles of a binding are asked for in order. -/
theorem Binding.rewrite_handles (hf : KeepsBound first distinct f) : ∀ (binding : Binding α)
    {binding' : Binding Node} {w w' : Moment σ},
    (distinct → ∀ stamp ∈ binding.stamps, stamp < first) →
    Runs (binding.rewrite old f) w binding' w' →
    Handles first distinct f old w binding.children binding'.children
      (binding'.same (binding.map old) = true) w'
  | .assignment stamp member value, binding', w, w', hs, h => by
    rw [rewrite, runs_bind] at h
    obtain ⟨value', w₁, hvalue, hupdate⟩ := h
    have hcontents := (Handles.one old hf hvalue).congr
      (by simp [identical] : _ ↔ (Binding.assignment stamp member value').identical
        (.assignment stamp member (old value)) = true)
    exact update_handles hcontents rfl (fun hd => hs hd stamp (by simp [stamps])) hupdate
  | .list stamp member inits, binding', w, w', hs, h => by
    rw [rewrite, runs_bind] at h
    obtain ⟨inits', w₁, hinits, hupdate⟩ := h
    have hstamps : distinct → ∀ init ∈ inits, init.stamp < first := by
      intro hd init hi
      exact hs hd init.stamp (List.mem_cons_of_mem _ (List.mem_map_of_mem hi))
    have hall := Handles.structures ElementInit.argumentsOfList_eq_flatMap
      ElementInit.argumentsOfList_eq_flatMap
      (fun init hi _ _ _ => ElementInit.rewrite_handles hf fun hd => hstamps hd init hi) hinits
    have hcontents := hall.congr
      (by simp [identical] : _ ↔ (Binding.list stamp member inits').identical
        (.list stamp member (inits.map (·.map old))) = true)
    refine update_handles hcontents ?_ (fun hd => hs hd stamp (by simp [stamps])) hupdate
    exact children_map old (.list stamp member inits)
  | .nested stamp member bindings, binding', w, w', hs, h => by
    rw [rewrite, runs_bind] at h
    obtain ⟨bindings', w₁, hbindings, hupdate⟩ := h
    have hstamps : distinct → ∀ stamp ∈ stampsOfList bindings, stamp < first := by
      intro hd inner hi
      exact hs hd inner (List.mem_cons_of_mem _ hi)
    have hcontents := (rewriteList_handles hf bindings hstamps hbindings).congr
      (by simp [identical] : _ ↔ (Binding.nested stamp member bindings').identical
        (.nested stamp member (mapList old bindings)) = true)
    refine update_handles hcontents ?_ (fun hd => hs hd stamp (by simp [stamps])) hupdate
    exact children_map old (.nested stamp member bindings)

/-- The handles of bindings are asked for in order. -/
theorem Binding.rewriteList_handles (hf : KeepsBound first distinct f) :
    ∀ (bindings : List (Binding α)) {bindings' : List (Binding Node)} {w w' : Moment σ},
    (distinct → ∀ stamp ∈ stampsOfList bindings, stamp < first) →
    Runs (rewriteList old f bindings) w bindings' w' →
    Handles first distinct f old w (childrenOfList bindings) (childrenOfList bindings')
      (sameItems same bindings' (mapList old bindings) = true) w'
  | [], bindings', w, w', _, h => by
    rw [rewriteList, runs_pure] at h
    obtain ⟨rfl, rfl⟩ := h
    exact Handles.nil.congr (by simp [mapList])
  | binding :: rest, bindings', w, w', hs, h => by
    simp only [rewriteList, runs_bind, runs_pure] at h
    obtain ⟨binding', w₁, hb, rest', w₂, hrest, rfl, rfl⟩ := h
    have hhead := Binding.rewrite_handles hf binding
      (fun hd stamp hm => hs hd stamp (List.mem_append_left _ hm)) hb
    have htail := Binding.rewriteList_handles hf rest
      (fun hd stamp hm => hs hd stamp (List.mem_append_right _ hm)) hrest
    exact (hhead.append htail).congr (by simp [sameItems, mapList])

end

end Nested

/-! ## Shapes and nodes -/

/-- The children of a shape are asked for in order, and the result is identical to the shape if all
of them are kept. -/
theorem Shape.rewrite_handles {first : Stamp} {distinct : Prop} {f : α → StateT σ Supply Node}
    {old : α → Node} {w w' : Moment σ} {shape : Shape α} {shape' : Shape Node}
    (hf : KeepsBound first distinct f) (hl : shape.isLeaf = false)
    (hs : distinct → ∀ stamp ∈ shape.nestedStamps, stamp < first)
    (h : Runs (shape.rewrite old f) w shape' w') :
    Handles first distinct f old w shape.children shape'.children
      (shape'.identical (shape.map old) = true) w' := by
  cases shape with
  | binary left conversion right method lifted =>
    simp only [rewrite, runs_bind, runs_pure] at h
    obtain ⟨left', w₁, hleft, conversion', w₂, hconversion, right', w₃, hright, rfl, rfl⟩ := h
    have hall := (Handles.one old hf hleft).append
      ((Handles.option old hf hconversion).append (Handles.one old hf hright))
    exact hall.congr (by simp [identical, map]; tauto)
  | unary operand method =>
    simp only [rewrite, runs_bind, runs_pure] at h
    obtain ⟨operand', w₁, hoperand, rfl, rfl⟩ := h
    exact (Handles.option old hf hoperand).congr (by simp [identical, map])
  | call object method arguments =>
    simp only [rewrite, runs_bind, runs_pure] at h
    obtain ⟨object', w₁, hobject, arguments', w₂, harguments, rfl, rfl⟩ := h
    have hall := (Handles.option old hf hobject).append (Handles.list old hf harguments)
    exact hall.congr (by simp [identical, map])
  | conditional test ifTrue ifFalse =>
    simp only [rewrite, runs_bind, runs_pure] at h
    obtain ⟨test', w₁, htest, ifTrue', w₂, htrue, ifFalse', w₃, hfalse, rfl, rfl⟩ := h
    have hall := (Handles.one old hf htest).append
      ((Handles.one old hf htrue).append (Handles.one old hf hfalse))
    exact hall.congr (by simp [identical, map, and_assoc])
  | invoke callee arguments =>
    simp only [rewrite, runs_bind, runs_pure] at h
    obtain ⟨callee', w₁, hcallee, arguments', w₂, harguments, rfl, rfl⟩ := h
    have hall := (Handles.one old hf hcallee).append (Handles.list old hf harguments)
    exact hall.congr (by simp [identical, map])
  | lambda body parameters name tailCall =>
    simp only [rewrite, runs_bind, runs_pure] at h
    obtain ⟨body', w₁, hbody, parameters', w₂, hparameters, rfl, rfl⟩ := h
    have hall := (Handles.one old hf hbody).append (Handles.list old hf hparameters)
    exact hall.congr (by simp [identical, map])
  | listInit creation inits =>
    simp only [rewrite, runs_bind, runs_pure] at h
    obtain ⟨creation', w₁, hcreation, inits', w₂, hinits, rfl, rfl⟩ := h
    have hstamps : distinct → ∀ init ∈ inits, init.stamp < first := by
      intro hd init hi
      exact hs hd init.stamp (List.mem_map_of_mem hi)
    have hinits' := Handles.structures ElementInit.argumentsOfList_eq_flatMap
      ElementInit.argumentsOfList_eq_flatMap
      (fun init hi _ _ _ => ElementInit.rewrite_handles hf fun hd => hstamps hd init hi) hinits
    have hall := (Handles.one old hf hcreation).append hinits'
    exact hall.congr (by simp [identical, map])
  | memberAccess object member =>
    simp only [rewrite, runs_bind, runs_pure] at h
    obtain ⟨object', w₁, hobject, rfl, rfl⟩ := h
    exact (Handles.option old hf hobject).congr (by simp [identical, map])
  | memberInit creation bindings =>
    simp only [rewrite, runs_bind, runs_pure] at h
    obtain ⟨creation', w₁, hcreation, bindings', w₂, hbindings, rfl, rfl⟩ := h
    have hall := (Handles.one old hf hcreation).append
      (Binding.rewriteList_handles hf bindings hs hbindings)
    exact hall.congr (by simp [identical, map])
  | new constructor arguments members =>
    simp only [rewrite, runs_bind, runs_pure] at h
    obtain ⟨arguments', w₁, harguments, rfl, rfl⟩ := h
    exact (Handles.list old hf harguments).congr (by simp [identical, map])
  | newArray items =>
    simp only [rewrite, runs_bind, runs_pure] at h
    obtain ⟨items', w₁, hitems, rfl, rfl⟩ := h
    exact (Handles.list old hf hitems).congr (by simp [identical, map])
  | typeBinary operand type =>
    simp only [rewrite, runs_bind, runs_pure] at h
    obtain ⟨operand', w₁, hoperand, rfl, rfl⟩ := h
    exact (Handles.one old hf hoperand).congr (by simp [identical, map])
  | block locals statements =>
    simp only [rewrite, runs_bind, runs_pure] at h
    obtain ⟨locals', w₁, hlocals, statements', w₂, hstatements, rfl, rfl⟩ := h
    have hall := (Handles.list old hf hlocals).append (Handles.list old hf hstatements)
    exact hall.congr (by simp [identical, map])
  | dynamic binder delegate arguments =>
    simp only [rewrite, runs_bind, runs_pure] at h
    obtain ⟨arguments', w₁, harguments, rfl, rfl⟩ := h
    exact (Handles.list old hf harguments).congr (by simp [identical, map])
  | goto jump target value =>
    simp only [rewrite, runs_bind, runs_pure] at h
    obtain ⟨value', w₁, hvalue, rfl, rfl⟩ := h
    exact (Handles.option old hf hvalue).congr (by simp [identical, map])
  | index object indexer arguments =>
    simp only [rewrite, runs_bind, runs_pure] at h
    obtain ⟨object', w₁, hobject, arguments', w₂, harguments, rfl, rfl⟩ := h
    have hall := (Handles.one old hf hobject).append (Handles.list old hf harguments)
    exact hall.congr (by simp [identical, map])
  | label target value =>
    simp only [rewrite, runs_bind, runs_pure] at h
    obtain ⟨value', w₁, hvalue, rfl, rfl⟩ := h
    exact (Handles.option old hf hvalue).congr (by simp [identical, map])
  | runtimeVariables locals =>
    simp only [rewrite, runs_bind, runs_pure] at h
    obtain ⟨locals', w₁, hlocals, rfl, rfl⟩ := h
    exact (Handles.list old hf hlocals).congr (by simp [identical, map])
  | loop body breakTarget continueTarget =>
    simp only [rewrite, runs_bind, runs_pure] at h
    obtain ⟨body', w₁, hbody, rfl, rfl⟩ := h
    exact (Handles.one old hf hbody).congr (by simp [identical, map])
  | switch subject branches otherwise comparison =>
    simp only [rewrite, runs_bind, runs_pure] at h
    obtain ⟨subject', w₁, hsubject, branches', w₂, hbranches, otherwise', w₃, hotherwise, rfl, rfl⟩
      := h
    have hstamps : distinct → ∀ branch ∈ branches, branch.stamp < first := by
      intro hd branch hb
      exact hs hd branch.stamp (List.mem_map_of_mem hb)
    have hbranches' := Handles.structures SwitchCase.childrenOfList_eq_flatMap
      SwitchCase.childrenOfList_eq_flatMap
      (fun branch hb _ _ _ => SwitchCase.rewrite_handles hf fun hd => hstamps hd branch hb)
      hbranches
    have hall := (Handles.one old hf hsubject).append
      (hbranches'.append (Handles.option old hf hotherwise))
    exact hall.congr (by simp [identical, map, and_assoc])
  | tryCatch body handlers cleanup fault =>
    simp only [rewrite, runs_bind, runs_pure] at h
    obtain ⟨body', w₁, hbody, handlers', w₂, hhandlers, cleanup', w₃, hcleanup, fault', w₄, hfault,
      rfl, rfl⟩ := h
    have hstamps : distinct → ∀ handler ∈ handlers, handler.stamp < first := by
      intro hd handler hh
      exact hs hd handler.stamp (List.mem_map_of_mem hh)
    have hhandlers' := Handles.structures Handler.childrenOfList_eq_flatMap
      Handler.childrenOfList_eq_flatMap
      (fun handler hh _ _ _ => Handler.rewrite_handles hf fun hd => hstamps hd handler hh)
      hhandlers
    have hall := (Handles.one old hf hbody).append
      ((hhandlers'.append (Handles.option old hf hcleanup)).append (Handles.option old hf hfault))
    exact hall.congr (by simp [identical, map, and_assoc])
  | extension _ _ | debugInfo _ _ | parameter _ _ | constant _ | default => simp [isLeaf] at hl

/-- Mapping keeps what is rewritten from below. -/
theorem Shape.isLeaf_map (g : α → β) (shape : Shape α) :
    (shape.map g).isLeaf = shape.isLeaf := by
  cases shape <;> rfl

namespace Node

variable {first : Stamp} {distinct : Prop} {fold : Node → StateT σ Supply Node} {n r : Node}
  {w w' : Moment σ}

/-- The children of a node are asked for in order, and the shape over the answers is identical to
its own if all of them are kept. -/
theorem rewrite_attach_handles {shape : Shape Node} (hf : KeepsBound first distinct fold)
    (hl : n.shape.isLeaf = false) (hn : distinct → n.IsOld first)
    (h : Runs (n.shape.attach.rewrite Subtype.val fun x => fold x.val) w shape w') :
    Handles first distinct fold id w n.shape.children shape.children
      (shape.identical n.shape = true) w' := by
  have hmap := Shape.map_attach n.shape
  have hleaf : n.shape.attach.isLeaf = false := by
    rw [← Shape.isLeaf_map Subtype.val, hmap]
    exact hl
  have hstamps : n.shape.attach.nestedStamps = n.shape.nestedStamps := by
    rw [← Shape.nestedStamps_map Subtype.val, hmap]
  have hbound : KeepsBound first distinct
      fun x : {child // child ∈ n.shape.handles} => fold x.val := fun hd x => hf hd x.val
  have hall := (Shape.rewrite_handles hbound hleaf (by
    rw [hstamps]
    exact fun hd => (hn hd).nested) h).map
  rw [hmap, Shape.children_attach] at hall
  exact hall

/-- What is below a node is rewritten by asking for its children in order. The result is of the same
kind and type, it is the node if all children are kept, and otherwise the answers stand in it. -/
theorem below_runs (hf : KeepsBound first distinct fold) (hn : distinct → n.IsOld first)
    (hw : distinct → first ≤ w.2)
    (h : Runs (if n.shape.isLeaf then pure n else do
      let shape ← n.shape.attach.rewrite Subtype.val fun x => fold x.val
      n.rebuild shape) w r w') :
    r.kind = n.kind ∧ r.type = n.type ∧ ∃ answers, Passes fold w n.shape.children answers w' ∧
      (List.Forall₂ (fun a x => a.same x = true) answers n.shape.children → r = n) ∧
      (distinct → first ≤ w'.2 ∧ Stands n.shape.children answers r.shape.children ∧
        (r.same n = true →
          List.Forall₂ (fun a x => a.same x = true) answers n.shape.children)) := by
  by_cases hl : n.shape.isLeaf = true
  · rw [if_pos hl, runs_pure] at h
    obtain ⟨rfl, rfl⟩ := h
    rw [Shape.children_eq_nil hl]
    exact ⟨rfl, rfl, [], .done, fun _ => rfl, fun hd => ⟨hw hd, .nil, fun _ => .nil⟩⟩
  · rw [if_neg hl, runs_bind] at h
    obtain ⟨shape, w₁, hshape, hrebuild⟩ := h
    have hall := rewrite_attach_handles hf (by simpa using hl) hn hshape
    unfold rebuild at hrebuild
    split at hrebuild
    case isTrue hsame =>
      rw [runs_pure] at hrebuild
      obtain ⟨rfl, rfl⟩ := hrebuild
      obtain ⟨answers, hp, -, hd⟩ := hall.keep hsame hw
      rw [List.map_id] at hd
      refine ⟨rfl, rfl, answers, hp, fun _ => rfl, fun hdist => ?_⟩
      obtain ⟨hfirst, hstands, hkept⟩ := hd hdist
      exact ⟨hfirst, hstands, fun _ => hkept trivial⟩
    case isFalse hsame =>
      simp only [make, runs_bind, runs_fresh, runs_pure] at hrebuild
      obtain ⟨stamp, w₂, ⟨rfl, rfl⟩, rfl, rfl⟩ := hrebuild
      obtain ⟨answers, hp, hkept, hd⟩ := hall hw
      have hp' := hp.append (.draw .done)
      rw [List.append_nil, List.append_nil] at hp'
      rw [List.map_id] at hkept hd
      refine ⟨rfl, rfl, answers, hp', fun hs => absurd (hkept hs) hsame, fun hdist => ?_⟩
      obtain ⟨hfirst, hstands, -⟩ := hd hdist
      refine ⟨Nat.le_succ_of_le hfirst, hstands, fun hs => ?_⟩
      have hstamp : w₁.2 = n.stamp := of_decide_eq_true hs
      rw [hstamp] at hfirst
      exact absurd (hn hdist).stamp (Nat.not_lt_of_le hfirst)

end Node

end ExprTree
