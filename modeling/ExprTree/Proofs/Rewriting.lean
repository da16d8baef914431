import ExprTree.Proofs.Skeleton
import ExprTree.Traversal.Rewrite
import Mathlib.Order.Defs.PartialOrder

/-!
# What rewriting the children of a shape gives

The rewriting of a shape runs one action per child and draws stamps for the nested structures that
it builds anew. What can be said of the result does not depend on the monad. It is stated for any
logic that knows how to reason about single actions, sequences of actions and drawn stamps: a world
stands for what is known at a moment of the run, and later worlds know more.

If every action relates its result to its child, then the result of the whole has the frame of the
shape, its children are related place by place, and each structure nested in it is the one that was
there or stands at a stamp drawn in the course of the rewriting.
-/

namespace ExprTree

variable {m : Type → Type} [Monad m] [MonadStamp m]

/-- A way to reason about actions that draw stamps. -/
structure StampLogic (m : Type → Type) [Monad m] [MonadStamp m] where
  /-- What is known at a moment of a run. -/
  World : Type
  /-- Later worlds know more. -/
  order : Preorder World
  /-- No stamp below this one is drawn. -/
  bound : Stamp
  /-- Started in the world, the action ends in a later one with a result as described. -/
  Ensures : {β : Type} → World → m β → (World → β → Prop) → Prop
  /-- A result that is there is there in the same world. -/
  ensures_pure : ∀ {β : Type} {w : World} {b : β} {post : World → β → Prop},
    post w b → Ensures w (pure b) post
  /-- A second action starts in the world in which the first one ends. -/
  ensures_bind : ∀ {β γ : Type} {w : World} {x : m β} {k : β → m γ} {mid : World → β → Prop}
    {post : World → γ → Prop}, Ensures w x mid →
    (∀ w', w ≤ w' → ∀ b, mid w' b → Ensures w' (k b) post) → Ensures w (x >>= k) post
  /-- A drawn stamp is not below the bound. -/
  ensures_fresh : ∀ {w : World}, Ensures w fresh fun _ stamp => bound ≤ stamp

namespace StampLogic

variable {L : StampLogic m} {β γ : Type}

/-- Later worlds know more. -/
instance : Preorder L.World := L.order

/-- What is said of a result stays true in later worlds. -/
def Lasting (post : L.World → β → Prop) : Prop := ∀ w w' b, w ≤ w' → post w b → post w' b

/-- In the world and in later ones the action gives a result as described. -/
def After (w₀ : L.World) (x : m β) (post : L.World → β → Prop) : Prop :=
  ∀ w, w₀ ≤ w → L.Ensures w x post

/-- The action gives a result as described, and what is said of it lasts. -/
structure Yields (w₀ : L.World) (x : m β) (post : L.World → β → Prop) : Prop where
  /-- What is said of the result stays true. -/
  lasting : Lasting post
  /-- It is true of the result. -/
  after : After w₀ x post

variable {w₀ : L.World} {x : m β} {post : L.World → β → Prop}

/-- A result that is there is as described if that is so from the world on. -/
theorem after_pure {b : β} (h : ∀ w, w₀ ≤ w → post w b) : After w₀ (pure b) post := by
  intro w hw
  exact L.ensures_pure (h w hw)

/-- A drawn stamp is not below the bound, and will not be. -/
theorem yields_fresh : Yields w₀ fresh fun _ stamp => L.bound ≤ stamp := by
  refine ⟨fun _ _ _ _ h => h, fun w _ => L.ensures_fresh⟩

section Lawful

variable [LawfulMonad m]

/-- What follows from what is ensured is ensured. -/
theorem ensures_mono {w : L.World} {post' : L.World → β → Prop} (h : L.Ensures w x post)
    (hi : ∀ w', w ≤ w' → ∀ b, post w' b → post' w' b) : L.Ensures w x post' := by
  rw [← bind_pure x]
  refine L.ensures_bind h fun w' hw b hb => ?_
  exact L.ensures_pure (hi w' hw b hb)

/-- What a first action yields can be used at the end of a second one. -/
theorem Yields.seq {k : β → m γ} {final : L.World → γ → Prop} (h : Yields w₀ x post)
    (hk : ∀ b, After w₀ (k b) fun w c => post w b → final w c) : After w₀ (x >>= k) final := by
  intro w hw
  refine L.ensures_bind (h.after w hw) fun w' hw' b hb => ?_
  refine ensures_mono (hk b w' (le_trans hw hw')) fun w'' hw'' c hc => ?_
  exact hc (h.lasting w' w'' b hw'' hb)

/-- Items of a list are given results one by one; `old` says what the items stand for. -/
theorem yields_mapM {δ : Type} {old : β → δ} {g : β → m γ} {P : L.World → δ → γ → Prop} :
    ∀ {items : List β}, (∀ b ∈ items, Yields w₀ (g b) fun w c => P w (old b) c) →
      Yields w₀ (items.mapM g) fun w results => List.Forall₂ (P w) (items.map old) results
  | [], _ => by
    rw [List.mapM_nil]
    refine ⟨fun w w' results _ h => ?_, after_pure fun w _ => .nil⟩
    cases h
    exact .nil
  | b :: rest, h => by
    have hb := h b (by simp)
    have hrest := yields_mapM fun c hc => h c (List.mem_cons_of_mem b hc)
    refine ⟨fun w w' results hw hr => ?_, ?_⟩
    · cases hr with
      | cons hhead htail => exact .cons (hb.lasting w w' _ hw hhead) (hrest.lasting w w' _ hw htail)
    · rw [List.mapM_cons]
      refine hb.seq fun c => hrest.seq fun cs => after_pure fun w _ => ?_
      intro htail hhead
      exact .cons hhead htail

/-- An optional item is given a result if it is there. -/
theorem yields_mapM_option {δ : Type} {old : β → δ} {g : β → m γ} {P : L.World → δ → γ → Prop}
    {item : Option β} (h : ∀ b ∈ item.toList, Yields w₀ (g b) fun w c => P w (old b) c) :
    Yields w₀ (item.mapM g) fun w result =>
      List.Forall₂ (P w) (item.map old).toList result.toList := by
  cases item with
  | none =>
    refine ⟨fun w w' result hw hr => ?_, after_pure fun w _ => ?_⟩
    · cases result <;> simp_all
    · simp
  | some b =>
    have hb := h b (by simp)
    refine ⟨fun w w' result hw hr => ?_, ?_⟩
    · cases result with
      | none => simp at hr
      | some c =>
        simp only [Option.map_some, Option.toList_some, List.forall₂_cons,
          List.forall₂_nil_left_iff, and_true] at hr ⊢
        exact hb.lasting w w' c hw hr
    · have hmap : (some b).mapM g = g b >>= fun c => pure (some c) := by
        rw [Option.mapM_some, map_eq_pure_bind]
      rw [hmap]
      refine hb.seq fun c => after_pure fun w _ => ?_
      intro hc
      simpa using hc

end Lawful

end StampLogic

/-! ## Instances that are kept -/

/-- Lists hold the same instances if they do so place by place. -/
theorem sameItems_iff {β : Type} {same : β → β → Bool} : ∀ {as bs : List β},
    sameItems same as bs = true ↔ List.Forall₂ (fun a b => same a b = true) as bs
  | [], [] | [], _ :: _ | _ :: _, [] => by simp [sameItems]
  | a :: as, b :: bs => by simp [sameItems, sameItems_iff]

/-- Optional nodes are the same if both are absent or both are there and the same. -/
theorem sameOption_iff {a b : Option Node} : sameOption a b = true ↔
    List.Forall₂ (fun x y => x.same y = true) a.toList b.toList := by
  cases a <;> cases b <;> simp [sameOption]

/-- Nodes are the same as themselves. -/
theorem forall₂_same_self (nodes : List Node) :
    List.Forall₂ (fun a b => a.same b = true) nodes nodes :=
  List.forall₂_same.mpr fun node _ => by simp [Node.same]

/-- If each node is related to a result that has to be the node, then it is related to itself. -/
theorem forall₂_keep {R : Node → Node → Prop} {distinct : Prop}
    (hkeep : ∀ x y, R x y → (distinct → y.same x = true) → R x x) {nodes results : List Node}
    (h : List.Forall₂ R nodes results)
    (hs : distinct → List.Forall₂ (fun a b => a.same b = true) results nodes) :
    List.Forall₂ R nodes nodes := by
  induction h with
  | nil => exact .nil
  | @cons x y nodes results hxy _ ih =>
    have hhead : distinct → y.same x = true := by
      intro hd
      exact (List.forall₂_cons.mp (hs hd)).1
    have htail : distinct → List.Forall₂ (fun a b => a.same b = true) results nodes := by
      intro hd
      exact (List.forall₂_cons.mp (hs hd)).2
    exact .cons (hkeep x y hxy hhead) (ih htail)

/-! ## Nested structures -/

namespace Binding

variable {α : Type}

mutual

/-- The identities of the binding and of what is nested in it. -/
def stamps : Binding α → List Stamp
  | .assignment stamp _ _ => [stamp]
  | .list stamp _ initializers => stamp :: initializers.map ElementInit.stamp
  | .nested stamp _ bindings => stamp :: stampsOfList bindings

/-- The identities of the bindings of a list and of what is nested in them. -/
def stampsOfList : List (Binding α) → List Stamp
  | [] => []
  | binding :: rest => binding.stamps ++ stampsOfList rest

end

/-- The identity of a binding is among those of a list that it is in. -/
theorem stamp_mem_stampsOfList {binding : Binding α} :
    ∀ {bindings : List (Binding α)}, binding ∈ bindings → binding.stamp ∈ stampsOfList bindings
  | first :: rest, h => by
    rcases List.mem_cons.mp h with rfl | h
    · cases binding <;> simp [stampsOfList, stamps, stamp]
    · exact List.mem_append_right _ (stamp_mem_stampsOfList h)

/-- Mapping keeps the identity. -/
theorem stamp_map {β : Type} (f : α → β) (binding : Binding α) :
    (binding.map f).stamp = binding.stamp := by
  cases binding <;> rfl

end Binding

/-- A relation between nodes and what they are rewritten to. It lasts, and a node that takes the
place of its result is related to itself. That the result was the node may be used for the latter
where drawn stamps are distinct from those of the nested structures. -/
structure StampLogic.Tracks (L : StampLogic m) (distinct : Prop)
    (R : L.World → Node → Node → Prop) : Prop where
  /-- Related nodes stay related. -/
  lasting : ∀ x, StampLogic.Lasting fun w y => R w x y
  /-- A node that takes the place of its result is related to itself. -/
  keep : ∀ w x y, R w x y → (distinct → y.same x = true) → R w x x

/-- A nested structure has the frame it had and related parts, and it is as it was or stands at a
drawn stamp. -/
structure Reworked {κ φ : Type} (frame : κ → φ) (parts : κ → List Node) (stamp : κ → Stamp)
    (bound : Stamp) (R : Node → Node → Prop) (was now : κ) : Prop where
  /-- The frame is the one that it was. -/
  frame : frame was = frame now
  /-- The parts are related. -/
  parts : List.Forall₂ R (parts was) (parts now)
  /-- The structure is as it was, or its stamp was drawn. -/
  kept : now = was ∨ bound ≤ stamp now

/-- An initializer before and after its arguments are rewritten. -/
abbrev ElementInit.Rewritten : Stamp → (Node → Node → Prop) → ElementInit Node →
    ElementInit Node → Prop :=
  Reworked frame arguments stamp

/-- A binding before and after its handles are rewritten. -/
abbrev Binding.Rewritten : Stamp → (Node → Node → Prop) → Binding Node → Binding Node → Prop :=
  Reworked frame children stamp

/-- A case before and after its handles are rewritten. -/
abbrev SwitchCase.Rewritten : Stamp → (Node → Node → Prop) → SwitchCase Node →
    SwitchCase Node → Prop :=
  Reworked frame children stamp

/-- A handler before and after its handles are rewritten. -/
abbrev Handler.Rewritten : Stamp → (Node → Node → Prop) → Handler Node → Handler Node → Prop :=
  Reworked frame children stamp

section Nested

open StampLogic

variable {L : StampLogic m} {α : Type} {old : α → Node} {distinct : Prop}
  {R : L.World → Node → Node → Prop} {w₀ : L.World} {f : α → m Node}

/-- Parts that are related stay related. -/
theorem StampLogic.Tracks.forall₂_lasting (ht : L.Tracks distinct R) {w w' : L.World}
    (hw : w ≤ w') {parts parts' : List Node} (h : List.Forall₂ (R w) parts parts') :
    List.Forall₂ (R w') parts parts' :=
  h.imp fun x y hxy => ht.lasting x w w' y hw hxy

/-- What is said of a nested structure stays true. -/
theorem Reworked.later {κ φ : Type} {frame : κ → φ} {parts : κ → List Node} {stamp : κ → Stamp}
    {bound : Stamp} {was now : κ} {w w' : L.World} (ht : L.Tracks distinct R) (hw : w ≤ w')
    (h : Reworked frame parts stamp bound (R w) was now) :
    Reworked frame parts stamp bound (R w') was now :=
  ⟨h.frame, ht.forall₂_lasting hw h.parts, h.kept⟩

variable [LawfulMonad m]

/-- Rewriting an initializer keeps its frame. -/
theorem ElementInit.rewrite_yields (ht : L.Tracks distinct R) (init : ElementInit α)
    (hf : ∀ x ∈ init.arguments, Yields w₀ (f x) fun w y => R w (old x) y) :
    Yields w₀ (init.rewrite old f) fun w init' => (init.map old).Rewritten L.bound (R w) init' := by
  refine ⟨fun w w' init' hw h => h.later ht hw, (yields_mapM hf).seq fun arguments => ?_⟩
  unfold update
  split
  · rename_i hsame
    refine after_pure fun w _ h => ⟨rfl, ?_, .inl rfl⟩
    exact forall₂_keep (ht.keep w) h fun _ => sameItems_iff.mp hsame
  · refine yields_fresh.seq fun stamp => after_pure fun w _ hstamp h => ⟨?_, h, .inr hstamp⟩
    simp only [frame, unstamp, map, list_map_unit_eq h]

/-- Rewriting a case keeps its frame. -/
theorem SwitchCase.rewrite_yields (ht : L.Tracks distinct R) (branch : SwitchCase α)
    (hf : ∀ x ∈ branch.children, Yields w₀ (f x) fun w y => R w (old x) y) :
    Yields w₀ (branch.rewrite old f) fun w branch' =>
      (branch.map old).Rewritten L.bound (R w) branch' := by
  have htests := yields_mapM fun x (hx : x ∈ branch.tests) => hf x (by simp [children, hx])
  have hbody := hf branch.body (by simp [children])
  refine ⟨fun w w' branch' hw h => h.later ht hw,
    htests.seq fun tests => hbody.seq fun body => ?_⟩
  unfold update
  split
  · rename_i hsame
    obtain ⟨hst, hsb⟩ := Bool.and_eq_true_iff.mp hsame
    refine after_pure fun w _ hb hts => ⟨rfl, ?_, .inl rfl⟩
    have hkept := forall₂_keep (ht.keep w) hts fun _ => sameItems_iff.mp hst
    exact List.rel_append hkept (.cons (ht.keep w _ _ hb fun _ => hsb) .nil)
  · refine yields_fresh.seq fun stamp => after_pure fun w _ hstamp hb hts => ?_
    refine ⟨?_, List.rel_append hts (.cons hb .nil), .inr hstamp⟩
    simp only [frame, unstamp, map, list_map_unit_eq hts]

/-- Rewriting a handler keeps its frame. -/
theorem Handler.rewrite_yields (ht : L.Tracks distinct R) (handler : Handler α)
    (hf : ∀ x ∈ handler.children, Yields w₀ (f x) fun w y => R w (old x) y) :
    Yields w₀ (handler.rewrite old f) fun w handler' =>
      (handler.map old).Rewritten L.bound (R w) handler' := by
  have hbound := yields_mapM_option fun x (hx : x ∈ handler.bound.toList) =>
    hf x (by simp [children, hx])
  have hfilter := yields_mapM_option fun x (hx : x ∈ handler.filter.toList) =>
    hf x (by simp [children, hx])
  have hbody := hf handler.body (by simp [children])
  refine ⟨fun w w' handler' hw h => h.later ht hw,
    hbound.seq fun bound => hfilter.seq fun filter => hbody.seq fun body => ?_⟩
  unfold update
  split
  · rename_i hsame
    simp only [Bool.and_eq_true] at hsame
    obtain ⟨⟨hsb, hsf⟩, hsbody⟩ := hsame
    refine after_pure fun w _ hb hfl hbo => ⟨rfl, ?_, .inl rfl⟩
    have hkeptb := forall₂_keep (ht.keep w) hbo fun _ => sameOption_iff.mp hsb
    have hkeptf := forall₂_keep (ht.keep w) hfl fun _ => sameOption_iff.mp hsf
    have hkeptbody := ht.keep w _ _ hb fun _ => hsbody
    exact List.rel_append (List.rel_append hkeptb hkeptf) (.cons hkeptbody .nil)
  · refine yields_fresh.seq fun stamp => after_pure fun w _ hstamp hb hfl hbo => ?_
    refine ⟨?_, List.rel_append (List.rel_append hbo hfl) (.cons hb .nil), .inr hstamp⟩
    have hb' := option_map_unit_eq hbo
    have hf' := option_map_unit_eq hfl
    simp only [frame, unstamp, map, hb', hf']

/-- Structures that are each kept or drawn and have the old stamps are the old ones, if no old stamp
is drawn. -/
theorem eq_of_stamps_eq {κ : Type} {bound : Stamp} {stamp : κ → Stamp} {was now : List κ}
    (h : List.Forall₂ (fun k k' => k' = k ∨ bound ≤ stamp k') was now)
    (hs : List.Forall₂ (fun k' k => stamp k' = stamp k) now was)
    (hb : ∀ k ∈ was, stamp k < bound) : now = was := by
  induction h with
  | nil => rfl
  | @cons k k' was now hk _ ih =>
    obtain ⟨hstamp, hstamps⟩ := List.forall₂_cons.mp hs
    have hlt : stamp k' < bound := by
      rw [hstamp]
      exact hb k (by simp)
    have hhead : k' = k := hk.resolve_right (Nat.not_le_of_lt hlt)
    have htail : now = was := ih hstamps fun k hk => hb k (List.mem_cons_of_mem _ hk)
    rw [hhead, htail]

section Lists

variable {bound : Stamp} {R : Node → Node → Prop}

/-- Structures that are rewritten one by one have equal frames and related parts together. The parts
of a list of structures are `listed` one structure after the other. -/
theorem frames_of_reworked {κ φ : Type} {frame : κ → φ} {parts : κ → List Node}
    {listed : List κ → List Node} {stamp : κ → Stamp}
    (hlisted : ∀ ks, listed ks = ks.flatMap parts)
    (hlen : ∀ k k', frame k = frame k' → (parts k).length = (parts k').length)
    {was now : List κ} (h : List.Forall₂ (Reworked frame parts stamp bound R) was now) :
    was.map frame = now.map frame ∧ List.Forall₂ R (listed was) (listed now) := by
  rw [hlisted, hlisted]
  exact (forall₂_frames_iff hlen).mp (h.imp fun _ _ hk => ⟨hk.frame, hk.parts⟩)

end Lists

/-- If a structure is rewritten as described once its parts have results, then so is each structure
of a list once all parts that are `listed` in it have. -/
theorem StampLogic.yields_mapM_parts {κ κ' : Type} {parts : κ → List α}
    {listed : List κ → List α} (hlisted : ∀ ks, listed ks = ks.flatMap parts)
    {rewrite : κ → m κ'} {image : κ → κ'} {P : L.World → κ' → κ' → Prop}
    (hrewrite : ∀ k, (∀ x ∈ parts k, Yields w₀ (f x) fun w y => R w (old x) y) →
      Yields w₀ (rewrite k) fun w k' => P w (image k) k') {ks : List κ}
    (hf : ∀ x ∈ listed ks, Yields w₀ (f x) fun w y => R w (old x) y) :
    Yields w₀ (ks.mapM rewrite) fun w ks' => List.Forall₂ (P w) (ks.map image) ks' := by
  refine yields_mapM fun k hk => hrewrite k fun x hx => hf x ?_
  rw [hlisted]
  exact List.mem_flatMap.mpr ⟨k, hk, hx⟩

/-- Another identity changes neither frame nor handles. -/
theorem Binding.withStamp_spec (stamp : Stamp) (binding : Binding α) :
    (binding.withStamp stamp).frame = binding.frame ∧
      (binding.withStamp stamp).children = binding.children ∧
      (binding.withStamp stamp).stamp = stamp := by
  cases binding <;> exact ⟨rfl, rfl, rfl⟩

/-- A binding is updated to contents with its frame and with related handles; the handles have to
be the old ones where the binding is kept. -/
theorem Binding.update_after (ht : L.Tracks distinct R) {was contents : Binding Node}
    {known : L.World → Prop} (hcontents : ∀ w, known w →
      was.frame = contents.frame ∧ List.Forall₂ (R w) was.children contents.children)
    (hsame : ∀ w, known w → contents.identical was = true → distinct →
      List.Forall₂ (fun a b => a.same b = true) contents.children was.children) :
    After w₀ (was.update contents) fun w now => known w → was.Rewritten L.bound (R w) now := by
  unfold update
  split
  · rename_i hid
    refine after_pure fun w _ hw => ⟨rfl, ?_, .inl rfl⟩
    exact forall₂_keep (ht.keep w) (hcontents w hw).2 (hsame w hw hid)
  · refine yields_fresh.seq fun stamp => after_pure fun w _ hstamp hw => ?_
    obtain ⟨hframe, hchildren⟩ := hcontents w hw
    obtain ⟨hf, hc, hs⟩ := withStamp_spec stamp contents
    refine ⟨?_, ?_, ?_⟩
    · rw [hf]
      exact hframe
    · rw [hc]
      exact hchildren
    · rw [hs]
      exact .inr hstamp

mutual

/-- Rewriting a binding keeps its frame. -/
theorem Binding.rewrite_yields (ht : L.Tracks distinct R) : ∀ binding : Binding α,
    (distinct → ∀ stamp ∈ binding.stamps, stamp < L.bound) →
    (∀ x ∈ binding.children, Yields w₀ (f x) fun w y => R w (old x) y) →
    Yields w₀ (binding.rewrite old f) fun w binding' =>
      (binding.map old).Rewritten L.bound (R w) binding'
  | .assignment stamp member value, _, hf => by
    have hvalue := hf value (by simp [children])
    refine ⟨fun w w' binding' hw h => h.later ht hw, ?_⟩
    rw [rewrite]
    refine hvalue.seq fun value' => update_after ht ?_ ?_
    · exact fun w h => ⟨rfl, .cons h .nil⟩
    · intro w h hid _
      simpa [identical, children] using hid
  | .list stamp member inits, hd, hf => by
    have hinits := yields_mapM_parts ElementInit.argumentsOfList_eq_flatMap
      (ElementInit.rewrite_yields ht) hf
    refine ⟨fun w w' binding' hw h => h.later ht hw, ?_⟩
    rw [rewrite]
    refine hinits.seq fun inits' => update_after ht ?_ ?_
    · intro w h
      obtain ⟨hframes, harguments⟩ := frames_of_reworked ElementInit.argumentsOfList_eq_flatMap
        (fun _ _ => ElementInit.length_eq_of_frame_eq) h
      refine ⟨?_, harguments⟩
      rw [frame_list, frame_list, hframes]
    · intro w h hid hdist
      simp only [identical, decide_true, Bool.true_and, sameItems_iff, ElementInit.same,
        decide_eq_true_eq] at hid
      have hinits' : inits' = inits.map (·.map old) := by
        refine eq_of_stamps_eq (h.imp fun _ _ hk => hk.kept) hid fun init hi => ?_
        obtain ⟨init₀, hi₀, rfl⟩ := List.mem_map.mp hi
        exact hd hdist init₀.stamp (List.mem_cons_of_mem _ (List.mem_map_of_mem hi₀))
      rw [hinits']
      exact forall₂_same_self _
  | .nested stamp member bindings, hd, hf => by
    have hbindings := Binding.rewriteList_yields ht bindings
      (fun hdist stamp hs => hd hdist stamp (List.mem_cons_of_mem _ hs)) hf
    refine ⟨fun w w' binding' hw h => h.later ht hw, ?_⟩
    rw [rewrite]
    refine hbindings.seq fun bindings' => update_after ht ?_ ?_
    · intro w h
      obtain ⟨hframes, hchildren⟩ := frames_of_reworked childrenOfList_eq_flatMap
        (fun _ _ => length_eq_of_frame_eq) h
      refine ⟨?_, hchildren⟩
      rw [frame_nested, frame_nested, hframes]
    · intro w h hid hdist
      simp only [identical, decide_true, Bool.true_and, sameItems_iff, Binding.same,
        decide_eq_true_eq] at hid
      have hbindings' : bindings' = mapList old bindings := by
        refine eq_of_stamps_eq (h.imp fun _ _ hk => hk.kept) hid fun binding hb => ?_
        rw [mapList_eq_map] at hb
        obtain ⟨binding₀, hb₀, rfl⟩ := List.mem_map.mp hb
        rw [stamp_map]
        exact hd hdist binding₀.stamp (List.mem_cons_of_mem _ (stamp_mem_stampsOfList hb₀))
      rw [hbindings']
      exact forall₂_same_self _

/-- Rewriting a list of bindings rewrites each of them. -/
theorem Binding.rewriteList_yields (ht : L.Tracks distinct R) : ∀ bindings : List (Binding α),
    (distinct → ∀ stamp ∈ stampsOfList bindings, stamp < L.bound) →
    (∀ x ∈ childrenOfList bindings, Yields w₀ (f x) fun w y => R w (old x) y) →
    Yields w₀ (rewriteList old f bindings) fun w bindings' =>
      List.Forall₂ (Binding.Rewritten L.bound (R w)) (mapList old bindings) bindings'
  | [], _, _ => ⟨fun w w' bindings' hw h => by cases h; exact .nil, after_pure fun w _ => .nil⟩
  | binding :: rest, hd, hf => by
    have hb := Binding.rewrite_yields ht binding
      (fun hdist stamp hs => hd hdist stamp (by simp [stampsOfList, hs]))
      fun x hx => hf x (by simp [childrenOfList, hx])
    have hrest := Binding.rewriteList_yields ht rest
      (fun hdist stamp hs => hd hdist stamp (by simp [stampsOfList, hs]))
      fun x hx => hf x (by simp [childrenOfList, hx])
    refine ⟨fun w w' bindings' hw h => ?_, ?_⟩
    · exact h.imp fun _ _ hk => hk.later ht hw
    · rw [rewriteList]
      refine hb.seq fun binding' => hrest.seq fun rest' => after_pure fun w _ => ?_
      intro htail hhead
      exact .cons hhead htail

end

end Nested

/-! ## Shapes -/

namespace Shape

open StampLogic

variable {α : Type}

/-- What is rewritten from below holds its children and nothing else. -/
theorem handles_eq_children {shape : Shape α} (h : shape.isLeaf = false) :
    shape.handles = shape.children := by
  cases shape <;> first | rfl | simp [isLeaf] at h

/-- What is never rewritten from below has no children. -/
theorem children_eq_nil {shape : Shape α} (h : shape.isLeaf = true) : shape.children = [] := by
  cases shape <;> first | rfl | simp [isLeaf] at h

/-- The identities of the structures nested in the shape, at every depth. -/
def nestedStamps : Shape α → List Stamp
  | .listInit _ initializers => initializers.map ElementInit.stamp
  | .memberInit _ bindings => Binding.stampsOfList bindings
  | .switch _ branches _ _ => branches.map SwitchCase.stamp
  | .tryCatch _ handlers _ _ => handlers.map Handler.stamp
  | _ => []

/-- Each structure nested directly in the second shape is the one in the first, or its stamp was
drawn. -/
def NestedKept (bound : Stamp) : Shape Node → Shape Node → Prop
  | .listInit _ was, .listInit _ now =>
    List.Forall₂ (fun k k' => k' = k ∨ bound ≤ k'.stamp) was now
  | .memberInit _ was, .memberInit _ now =>
    List.Forall₂ (fun k k' => k' = k ∨ bound ≤ k'.stamp) was now
  | .switch _ was _ _, .switch _ now _ _ =>
    List.Forall₂ (fun k k' => k' = k ∨ bound ≤ k'.stamp) was now
  | .tryCatch _ was _ _, .tryCatch _ now _ _ =>
    List.Forall₂ (fun k k' => k' = k ∨ bound ≤ k'.stamp) was now
  | _, _ => True

/-- A shape before and after its children are rewritten. -/
structure Rewritten (bound : Stamp) (R : Node → Node → Prop) (was now : Shape Node) : Prop where
  /-- Everything but children and identities is as it was. -/
  frame : was.frame = now.frame
  /-- The children are related. -/
  children : List.Forall₂ R was.children now.children
  /-- Nested structures are as they were, or their stamps were drawn. -/
  nested : NestedKept bound was now

variable [LawfulMonad m] {L : StampLogic m} {old : α → Node} {distinct : Prop}
  {R : L.World → Node → Node → Prop} {w₀ : L.World} {f : α → m Node}

/-- Rewriting the children of a shape relates them to the results and keeps the frame. -/
theorem rewrite_yields (ht : L.Tracks distinct R) (shape : Shape α)
    (hd : distinct → ∀ stamp ∈ shape.nestedStamps, stamp < L.bound)
    (hf : ∀ x ∈ shape.children, Yields w₀ (f x) fun w y => R w (old x) y) :
    Yields w₀ (shape.rewrite old f) fun w shape' =>
      (shape.map old).Rewritten L.bound (R w) shape' := by
  refine ⟨fun w w' shape' hw h => ⟨h.frame, ht.forall₂_lasting hw h.children, h.nested⟩, ?_⟩
  -- each family runs its actions in turn; what they yield is put together at the end
  cases shape with
  | binary left conversion right method lifted =>
    have hl := hf left (by simp [children])
    have hc := yields_mapM_option fun x (hx : x ∈ conversion.toList) =>
      hf x (by simp [children, hx])
    have hr := hf right (by simp [children])
    refine hl.seq fun left' => hc.seq fun conversion' => hr.seq fun right' =>
      after_pure fun w _ hr hc hl => ⟨?_, .cons hl (List.rel_append hc (.cons hr .nil)), trivial⟩
    simp only [frame, map, unstamp, option_map_unit_eq hc]
  | unary operand method =>
    have ho := yields_mapM_option fun x (hx : x ∈ operand.toList) => hf x hx
    refine ho.seq fun operand' => after_pure fun w _ ho => ⟨?_, ho, trivial⟩
    simp only [frame, map, unstamp, option_map_unit_eq ho]
  | call object method arguments =>
    have ho := yields_mapM_option fun x (hx : x ∈ object.toList) => hf x (by simp [children, hx])
    have ha := yields_mapM fun x (hx : x ∈ arguments) => hf x (by simp [children, hx])
    refine ho.seq fun object' => ha.seq fun arguments' =>
      after_pure fun w _ ha ho => ⟨?_, List.rel_append ho ha, trivial⟩
    simp only [frame, map, unstamp, option_map_unit_eq ho, list_map_unit_eq ha]
  | conditional test ifTrue ifFalse =>
    have ht' := hf test (by simp [children])
    have hy := hf ifTrue (by simp [children])
    have hn := hf ifFalse (by simp [children])
    exact ht'.seq fun _ => hy.seq fun _ => hn.seq fun _ =>
      after_pure fun w _ hn hy ht' => ⟨rfl, .cons ht' (.cons hy (.cons hn .nil)), trivial⟩
  | invoke callee arguments =>
    have hc := hf callee (by simp [children])
    have ha := yields_mapM fun x (hx : x ∈ arguments) => hf x (by simp [children, hx])
    refine hc.seq fun callee' => ha.seq fun arguments' =>
      after_pure fun w _ ha hc => ⟨?_, .cons hc ha, trivial⟩
    simp only [frame, map, unstamp, list_map_unit_eq ha]
  | lambda body parameters name tailCall =>
    have hb := hf body (by simp [children])
    have hp := yields_mapM fun x (hx : x ∈ parameters) => hf x (by simp [children, hx])
    refine hb.seq fun body' => hp.seq fun parameters' =>
      after_pure fun w _ hp hb => ⟨?_, .cons hb hp, trivial⟩
    simp only [frame, map, unstamp, list_map_unit_eq hp]
  | listInit creation inits =>
    have hc := hf creation (by simp [children])
    have hi := yields_mapM_parts ElementInit.argumentsOfList_eq_flatMap
      (ElementInit.rewrite_yields ht) fun x (hx : x ∈ ElementInit.argumentsOfList inits) =>
        hf x (by simp [children, hx])
    refine hc.seq fun creation' => hi.seq fun inits' => after_pure fun w _ hi hc => ?_
    obtain ⟨hframes, hargs⟩ := frames_of_reworked ElementInit.argumentsOfList_eq_flatMap
      (fun _ _ => ElementInit.length_eq_of_frame_eq) hi
    refine ⟨?_, .cons hc hargs, hi.imp fun _ _ h => h.kept⟩
    rw [map, frame_listInit, frame_listInit, hframes]
  | memberAccess object member =>
    have ho := yields_mapM_option fun x (hx : x ∈ object.toList) => hf x hx
    refine ho.seq fun object' => after_pure fun w _ ho => ⟨?_, ho, trivial⟩
    simp only [frame, map, unstamp, option_map_unit_eq ho]
  | memberInit creation bindings =>
    have hc := hf creation (by simp [children])
    have hb := Binding.rewriteList_yields ht bindings hd fun x hx => hf x (by simp [children, hx])
    refine hc.seq fun creation' => hb.seq fun bindings' => after_pure fun w _ hb hc => ?_
    obtain ⟨hframes, hchildren⟩ := frames_of_reworked Binding.childrenOfList_eq_flatMap
      (fun _ _ => Binding.length_eq_of_frame_eq) hb
    refine ⟨?_, .cons hc hchildren, hb.imp fun _ _ h => h.kept⟩
    rw [map, frame_memberInit, frame_memberInit, hframes]
  | new constructor arguments members =>
    have ha := yields_mapM fun x (hx : x ∈ arguments) => hf x hx
    refine ha.seq fun arguments' => after_pure fun w _ ha => ⟨?_, ha, trivial⟩
    simp only [frame, map, unstamp, list_map_unit_eq ha]
  | newArray items =>
    have hi := yields_mapM fun x (hx : x ∈ items) => hf x hx
    refine hi.seq fun items' => after_pure fun w _ hi => ⟨?_, hi, trivial⟩
    simp only [frame, map, unstamp, list_map_unit_eq hi]
  | typeBinary operand type =>
    have ho := hf operand (by simp [children])
    exact ho.seq fun operand' => after_pure fun w _ ho => ⟨rfl, .cons ho .nil, trivial⟩
  | block locals statements =>
    have hl := yields_mapM fun x (hx : x ∈ locals) => hf x (by simp [children, hx])
    have hs := yields_mapM fun x (hx : x ∈ statements) => hf x (by simp [children, hx])
    refine hl.seq fun locals' => hs.seq fun statements' =>
      after_pure fun w _ hs hl => ⟨?_, List.rel_append hl hs, trivial⟩
    simp only [frame, map, unstamp, list_map_unit_eq hl, list_map_unit_eq hs]
  | dynamic binder delegate arguments =>
    have ha := yields_mapM fun x (hx : x ∈ arguments) => hf x hx
    refine ha.seq fun arguments' => after_pure fun w _ ha => ⟨?_, ha, trivial⟩
    simp only [frame, map, unstamp, list_map_unit_eq ha]
  | goto jump target value =>
    have hv := yields_mapM_option fun x (hx : x ∈ value.toList) => hf x hx
    refine hv.seq fun value' => after_pure fun w _ hv => ⟨?_, hv, trivial⟩
    simp only [frame, map, unstamp, option_map_unit_eq hv]
  | index object indexer arguments =>
    have ho := hf object (by simp [children])
    have ha := yields_mapM fun x (hx : x ∈ arguments) => hf x (by simp [children, hx])
    refine ho.seq fun object' => ha.seq fun arguments' =>
      after_pure fun w _ ha ho => ⟨?_, .cons ho ha, trivial⟩
    simp only [frame, map, unstamp, list_map_unit_eq ha]
  | label target value =>
    have hv := yields_mapM_option fun x (hx : x ∈ value.toList) => hf x hx
    refine hv.seq fun value' => after_pure fun w _ hv => ⟨?_, hv, trivial⟩
    simp only [frame, map, unstamp, option_map_unit_eq hv]
  | runtimeVariables locals =>
    have hl := yields_mapM fun x (hx : x ∈ locals) => hf x hx
    refine hl.seq fun locals' => after_pure fun w _ hl => ⟨?_, hl, trivial⟩
    simp only [frame, map, unstamp, list_map_unit_eq hl]
  | loop body breakTarget continueTarget =>
    have hb := hf body (by simp [children])
    exact hb.seq fun body' => after_pure fun w _ hb => ⟨rfl, .cons hb .nil, trivial⟩
  | switch subject branches otherwise comparison =>
    have hs := hf subject (by simp [children])
    have hb := yields_mapM_parts SwitchCase.childrenOfList_eq_flatMap
      (SwitchCase.rewrite_yields ht) fun x (hx : x ∈ SwitchCase.childrenOfList branches) =>
        hf x (by simp [children, hx])
    have ho := yields_mapM_option fun x (hx : x ∈ otherwise.toList) => hf x (by simp [children, hx])
    refine hs.seq fun subject' => hb.seq fun branches' => ho.seq fun otherwise' =>
      after_pure fun w _ ho hb hs => ?_
    obtain ⟨hframes, hchildren⟩ := frames_of_reworked SwitchCase.childrenOfList_eq_flatMap
      (fun _ _ => SwitchCase.length_eq_of_frame_eq) hb
    refine ⟨?_, .cons hs (List.rel_append hchildren ho), hb.imp fun _ _ h => h.kept⟩
    rw [map, frame_switch, frame_switch, hframes, option_map_unit_eq ho]
  | tryCatch body handlers cleanup fault =>
    have hb := hf body (by simp [children])
    have hh := yields_mapM_parts Handler.childrenOfList_eq_flatMap
      (Handler.rewrite_yields ht) fun x (hx : x ∈ Handler.childrenOfList handlers) =>
        hf x (by simp [children, hx])
    have hc := yields_mapM_option fun x (hx : x ∈ cleanup.toList) => hf x (by simp [children, hx])
    have hx := yields_mapM_option fun x (hx : x ∈ fault.toList) => hf x (by simp [children, hx])
    refine hb.seq fun body' => hh.seq fun handlers' => hc.seq fun cleanup' => hx.seq fun fault' =>
      after_pure fun w _ hx hc hh hb => ?_
    obtain ⟨hframes, hchildren⟩ := frames_of_reworked Handler.childrenOfList_eq_flatMap
      (fun _ _ => Handler.length_eq_of_frame_eq) hh
    refine ⟨?_, .cons hb (List.rel_append (List.rel_append hchildren hc) hx),
      hh.imp fun _ _ h => h.kept⟩
    rw [map, frame_tryCatch, frame_tryCatch, hframes, option_map_unit_eq hc,
      option_map_unit_eq hx]
  | extension _ _ | debugInfo _ _ | parameter _ _ | constant _ | default =>
    exact after_pure fun w _ => ⟨rfl, .nil, trivial⟩

end Shape

/-! ## Trees -/

mutual

/-- Mapping keeps the identities. -/
theorem Binding.stamps_map {α β : Type} (f : α → β) :
    ∀ binding : Binding α, (binding.map f).stamps = binding.stamps
  | .assignment _ _ _ => rfl
  | .list _ _ _ => by simp [map, stamps, ElementInit.map]
  | .nested _ _ bindings => by rw [map, stamps, stamps, Binding.stampsOfList_mapList f bindings]

/-- Mapping keeps the identities in a list of bindings. -/
theorem Binding.stampsOfList_mapList {α β : Type} (f : α → β) :
    ∀ bindings : List (Binding α), stampsOfList (mapList f bindings) = stampsOfList bindings
  | [] => rfl
  | binding :: rest => by
    rw [mapList, stampsOfList, stampsOfList, Binding.stamps_map f binding,
      Binding.stampsOfList_mapList f rest]

end

/-- Mapping keeps the identities of nested structures. -/
theorem Shape.nestedStamps_map {α β : Type} (f : α → β) (shape : Shape α) :
    (shape.map f).nestedStamps = shape.nestedStamps := by
  cases shape with
  | memberInit creation bindings => exact Binding.stampsOfList_mapList f bindings
  | _ => simp [map, nestedStamps, ElementInit.map, SwitchCase.map, Handler.map]

/-- Rewriting the children of a shape whose handles are known to be its own. -/
theorem Shape.rewrite_attach_yields [LawfulMonad m] {L : StampLogic m} {distinct : Prop}
    {R : L.World → Node → Node → Prop} {w₀ : L.World} (ht : L.Tracks distinct R)
    (shape : Shape Node) {f : { x // x ∈ shape.handles } → m Node}
    (hd : distinct → ∀ stamp ∈ shape.nestedStamps, stamp < L.bound)
    (hf : ∀ x, x.val ∈ shape.children → StampLogic.Yields w₀ (f x) fun w y => R w x.val y) :
    StampLogic.Yields w₀ (shape.attach.rewrite Subtype.val f) fun w shape' =>
      shape.Rewritten L.bound (R w) shape' := by
  have hstamps : shape.attach.nestedStamps = shape.nestedStamps := by
    rw [← nestedStamps_map Subtype.val, map_attach]
  have hmap := map_attach shape
  have hattach : StampLogic.Yields w₀ (shape.attach.rewrite Subtype.val f) fun w shape' =>
      (shape.attach.map Subtype.val).Rewritten L.bound (R w) shape' := by
    refine rewrite_yields ht shape.attach ?_ fun x hx => hf x ?_
    · rw [hstamps]
      exact hd
    · rw [← children_attach]
      exact List.mem_map_of_mem hx
  rw [hmap] at hattach
  exact hattach

namespace Node

open StampLogic

variable [LawfulMonad m] {L : StampLogic m} {distinct : Prop}
  {Q R : L.World → Node → Node → Prop} {w₀ : L.World}
  {step : Node → m Node → m Node}

/-- A good tree is rewritten to one that is related to it by `R`, if each step relates its result
by `R` once what is below it is rewritten to a node that is related by `Q`. -/
theorem foldWith_yields (good : Node → Prop) (ht : L.Tracks distinct R)
    (hlasting : ∀ n, Lasting fun w r => Q w n r)
    (hchildren : ∀ n, good n → ∀ child ∈ n.shape.children, good child)
    (hd : distinct → ∀ n, good n → ∀ stamp ∈ n.shape.nestedStamps, stamp < L.bound)
    (hleaf : ∀ n, good n → n.shape.isLeaf = true → ∀ w, w₀ ≤ w → Q w n n)
    (hrebuild : ∀ n, good n → n.shape.isLeaf = false → ∀ w, w₀ ≤ w → ∀ shape,
      n.shape.Rewritten L.bound (R w) shape → L.Ensures w (n.rebuild shape) fun w r => Q w n r)
    (hstep : ∀ n below, good n → Yields w₀ below (fun w r => Q w n r) →
      Yields w₀ (step n below) fun w r => R w n r)
    (n : Node) (hn : good n) : Yields w₀ (n.foldWith step) fun w r => R w n r := by
  rw [foldWith]
  refine hstep n _ hn ⟨hlasting n, ?_⟩
  by_cases hl : n.shape.isLeaf = true
  · rw [if_pos hl]
    exact after_pure (hleaf n hn hl)
  · rw [if_neg hl]
    have hshape : Yields w₀ (n.shape.attach.rewrite Subtype.val
        fun x => foldWith step x.val) fun w shape =>
          n.shape.Rewritten L.bound (R w) shape := by
      refine Shape.rewrite_attach_yields ht n.shape (fun hdist => hd hdist n hn) ?_
      intro x hc
      exact foldWith_yields good ht hlasting hchildren hd hleaf hrebuild hstep x.val
        (hchildren n hn x.val hc)
    intro w hw
    refine L.ensures_bind (hshape.after w hw) fun w' hw' shape hs => ?_
    exact hrebuild n hn (by simpa using hl) w' (le_trans hw hw') shape hs
termination_by sizeOf n
decreasing_by exact sizeOf_lt_of_mem_handles x.property

end Node

end ExprTree
