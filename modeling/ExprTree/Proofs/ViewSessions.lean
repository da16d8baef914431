import ExprTree.Proofs.Deconstruction
import ExprTree.Proofs.FoldStep

/-!
# Sessions with views

A session is a list of calls. Each call goes to a view to which the root of the session leads, and
asks what some of its slots show, takes it apart or takes apart what is nested in it. Whatever the
calls are, they only add to what was resolved, and an extension is reduced when its view is first
asked for the reduction and not again. So a session is answered as if the tree were read itself,
with one fixed node in the place of each reduction.
-/

namespace ExprTree

namespace View

variable {view view' child : View} {found : Option View} {slot : Slot} {next : Stamp}
  {path rest : List Slot} {stampOf : List Slot → Stamp}

/-! ## What a call does to a view -/

/-- The path ends with the reduction of an extension, which the view has resolved. -/
def ReducedAt (path : List Slot) (view : View) : Prop :=
  view.nodeAt? path ≠ none ∧ ∃ above n, path = above ++ [.reduction] ∧
    view.nodeAt? above = some (some n) ∧ n.shape.family = .extension

/-- What was reduced stays so. -/
theorem ReducedAt.grows (h : view.ReducedAt path) (hgrows : view.Grows view') :
    view'.ReducedAt path := by
  obtain ⟨hresolved, above, n, hpath, hnode, hfamily⟩ := h
  obtain ⟨found, hfound⟩ := Option.ne_none_iff_exists'.mp hresolved
  have hfound' : view'.nodeAt? path ≠ none := by
    rw [hgrows path found hfound]
    exact nofun
  exact ⟨hfound', above, n, hpath, hgrows above _ hnode, hfamily⟩

/-- What was reduced in a view in a cell was reduced in the view. -/
theorem ReducedAt.inside (h : child.ReducedAt path)
    (hcached : view.cached? slot = some (some child)) : view.ReducedAt (slot :: path) := by
  obtain ⟨hresolved, above, n, hpath, hnode, hfamily⟩ := h
  have hnode' : view.nodeAt? (slot :: above) = some (some n) := by
    rwa [nodeAt?_cons_of_cached hcached]
  refine ⟨?_, slot :: above, n, by rw [hpath, List.cons_append], hnode', hfamily⟩
  rwa [nodeAt?_cons_of_cached hcached]

/-- From one moment to the other the view has resolved more, and the reductions at the paths were
asked for, in this order. -/
structure Advance (w : Moment View) (asked : List (List Slot)) (w' : Moment View) : Prop where
  /-- What was resolved stays. -/
  grows : w.1.Grows w'.1
  /-- One stamp is drawn for each reduction. -/
  stamps : w'.2 = w.2 + asked.length
  /-- No reduction is asked for twice. -/
  nodup : asked.Nodup
  /-- No reduction is asked for that was there before. -/
  unresolved : ∀ path ∈ asked, w.1.nodeAt? path = none
  /-- What is asked for is the reduction of an extension, and it stays. -/
  reduced : ∀ path ∈ asked, w'.1.ReducedAt path
  /-- The view goes on to mirror the tree if each reduction has the stamp that was drawn for it. -/
  mirrors : ∀ stampOf : List Slot → Stamp,
    (∀ k path, asked[k]? = some path → stampOf path = w.2 + k) →
      w.1.Mirrors stampOf → w'.1.Mirrors stampOf

namespace Advance

variable {w w' w'' : Moment View} {asked asked' : List (List Slot)}

/-- Nothing happens. -/
theorem refl (w : Moment View) : Advance w [] w where
  grows := .refl w.1
  stamps := rfl
  nodup := List.nodup_nil
  unresolved := nofun
  reduced := nofun
  mirrors _ _ h := h

/-- One thing happens after the other. -/
theorem trans (h : Advance w asked w') (h' : Advance w' asked' w'') :
    Advance w (asked ++ asked') w'' where
  grows := h.grows.trans h'.grows
  stamps := by rw [h'.stamps, h.stamps, List.length_append, Nat.add_assoc]
  nodup := by
    refine List.nodup_append.mpr ⟨h.nodup, h'.nodup, fun path hpath path' hpath' heq => ?_⟩
    exact (h.reduced path hpath).1 (heq ▸ h'.unresolved path' hpath')
  unresolved := by
    refine List.forall_mem_append.mpr ⟨h.unresolved, fun path hpath => ?_⟩
    cases hold : w.1.nodeAt? path with
    | none => rfl
    | some found =>
      have hnew := h.grows path found hold
      rw [h'.unresolved path hpath] at hnew
      cases hnew
  reduced := List.forall_mem_append.mpr
    ⟨fun path hpath => (h.reduced path hpath).grows h'.grows, h'.reduced⟩
  mirrors stampOf hstamps hmirrors := by
    -- one choice of stamps serves both: the second part is numbered after the first
    have hfirst : w'.1.Mirrors stampOf := by
      refine h.mirrors stampOf (fun k path hpath => hstamps k path ?_) hmirrors
      rw [List.getElem?_append_left (List.getElem?_eq_some_iff.mp hpath).1, hpath]
    refine h'.mirrors stampOf (fun k path hpath => ?_) hfirst
    have hpath' : (asked ++ asked')[asked.length + k]? = some path := by
      rw [List.getElem?_append_right (Nat.le_add_right _ _), Nat.add_sub_cancel_left, hpath]
    rw [hstamps _ path hpath', h.stamps, Nat.add_assoc]

/-- What happens to a view in a cell happens to the view. -/
theorem inside {now later : Stamp} {child' : View} (hcached : view.cached? slot = some (some child))
    (h : Advance (child, now) asked (child', later)) :
    Advance (view, now) (asked.map (slot :: ·)) (view.store slot (some child'), later) where
  grows := by
    refine grows_store fun old hold => ?_
    rw [hcached] at hold
    obtain rfl := Option.some.inj hold
    exact .some h.grows
  stamps := by rw [List.length_map, h.stamps]
  nodup := h.nodup.map List.cons_injective
  unresolved := by
    refine List.forall_mem_map.mpr fun path hpath => ?_
    rw [nodeAt?_cons_of_cached hcached]
    exact h.unresolved path hpath
  reduced := List.forall_mem_map.mpr fun path hpath =>
    (h.reduced path hpath).inside cached?_store_self
  mirrors stampOf hstamps hmirrors := by
    obtain ⟨hshown, hbelow⟩ := mirrors_iff.mp hmirrors slot _ hcached
    have hchild : child'.Mirrors fun path => stampOf (slot :: path) := by
      refine h.mirrors _ (fun k path hpath => ?_) (hbelow child rfl)
      exact hstamps k (slot :: path) (by rw [List.getElem?_map, hpath]; rfl)
    refine hmirrors.store ?_ fun other hother => ?_
    · rw [hshown]
      exact congrArg some h.grows.node_eq.symm
    · obtain rfl := Option.some.inj hother
      exact hchild

/-- A cell is filled. -/
theorem store {now : Stamp} (hcached : view.cached? slot = none)
    (hfound : (view.node.shownAt now slot).map wrap = found) :
    ∃ asked, Advance (view, now) asked
      (view.store slot found, now + view.node.reductionsFor slot) := by
  have hgrows : view.Grows (view.store slot found) := grows_store fun old hold => by
    rw [hcached] at hold
    cases hold
  have hnode : found.map node = view.node.shownAt now slot := by
    rw [← hfound, Option.map_map]
    exact Option.map_id'
  have hbelow : ∀ (stampOf : List Slot → Stamp), ∀ child ∈ found, child.Mirrors stampOf := by
    intro stampOf child hchild
    rw [← hfound] at hchild
    obtain ⟨n, -, rfl⟩ := Option.map_eq_some_iff.mp hchild
    exact mirrors_wrap n
  -- only the reduction of an extension depends on the stamp
  by_cases hne : ∀ own custom, view.node.shape = .extension own custom → slot ≠ .reduction
  · obtain ⟨hfield, hnone⟩ := Node.shownAt_of_ne hne now
    refine ⟨[], hgrows, by rw [hnone]; rfl, List.nodup_nil, nofun, nofun, ?_⟩
    intro stampOf hstamps hmirrors
    refine hmirrors.store ?_ (hbelow _)
    rw [(Node.shownAt_of_ne hne _).1, hnode, hfield]
  · push Not at hne
    obtain ⟨own, custom, hshape, rfl⟩ := hne
    refine ⟨[[.reduction]], hgrows, ?_, List.nodup_singleton _, ?_, ?_, ?_⟩
    · rw [(Node.shownAt_reduction hshape now).2]
      rfl
    · refine List.forall_mem_singleton.mpr ?_
      rw [nodeAt?_singleton, hcached]
      rfl
    · refine List.forall_mem_singleton.mpr ⟨?_, [], view.node, rfl, rfl, by rw [hshape]; rfl⟩
      rw [nodeAt?_singleton, cached?_store_self]
      exact nofun
    · intro stampOf hstamps hmirrors
      refine hmirrors.store ?_ (hbelow _)
      rw [hstamps 0 [.reduction] rfl, hnode]
      rfl

end Advance

/-- Whatever the action does to a view, the view advances. -/
def Advances {β : Type} (act : View → Supply (β × View)) : Prop :=
  ∀ view now, ∃ asked, Advance (view, now) asked ((act view now).1.2, (act view now).2)

/-- A view advances when a slot is resolved. -/
theorem advances_resolve (slot : Slot) : Advances (resolve slot) := by
  intro view now
  cases hcached : view.cached? slot with
  | some found =>
    rw [resolve_of_cached hcached]
    exact ⟨[], .refl _⟩
  | none =>
    rw [resolve_of_not_cached hcached rfl]
    exact Advance.store hcached rfl

/-- A view advances when slots are read. -/
theorem advances_read (slots : List Slot) : Advances (read slots) := by
  induction slots with
  | nil => exact fun view now => ⟨[], .refl _⟩
  | cons slot rest ih =>
    intro view now
    obtain ⟨asked, hresolve⟩ := advances_resolve slot view now
    obtain ⟨asked', hrest⟩ := ih (view.resolve (m := Supply) slot now).1.2
      (view.resolve (m := Supply) slot now).2
    exact ⟨asked ++ asked', hresolve.trans hrest⟩

/-- The action was run on the view at the path, or nothing is there. -/
inductive Reached {β : Type} (act : View → Supply (β × View)) (path : List Slot) (after : View) :
    Option β → Prop where
  | nothing (absent : after.at? path = some none) : Reached act path after none
  | ran {view : View} {now : Stamp} (resolved : after.at? path = some (some (act view now).1.2)) :
    Reached act path after (some (act view now).1.1)

/-- An action that was run below the view in a cell was run below the view. -/
theorem Reached.inside {β : Type} {act : View → Supply (β × View)} {result : Option β}
    (h : Reached act rest child result) :
    Reached act (slot :: rest) (view.store slot (some child)) result := by
  have hat : (view.store slot (some child)).at? (slot :: rest) = child.at? rest :=
    at?_cons_of_cached cached?_store_self
  cases h with
  | nothing absent => exact .nothing (hat.trans absent)
  | ran resolved => exact .ran (hat.trans resolved)

section Focus

variable {β : Type} {act : View → Supply (β × View)} {now later : Stamp}

/-- If the first slot shows nothing, the action is not run. -/
theorem focus_cons_of_none (h : view.resolve (m := Supply) slot now = ((none, view'), later)) :
    focus act (slot :: rest) view now = ((none, view'), later) := by
  rw [focus, bind_apply, h]
  rfl

/-- The action is run below the view that the first slot shows. -/
theorem focus_cons_of_some
    (h : view.resolve (m := Supply) slot now = ((some child, view'), later)) :
    focus act (slot :: rest) view now =
      (((focus act rest child later).1.1,
        view'.store slot (some (focus act rest child later).1.2)),
        (focus act rest child later).2) := by
  rw [focus, bind_apply, h]
  rfl

/-- At a path that was resolved the action is run on the view that was found there. -/
theorem focus_of_at? (h : view.at? path = some (some child)) (now : Stamp) :
    (focus act path view now).1.1 = some (act child now).1.1 := by
  induction path generalizing view with
  | nil =>
    obtain rfl : view = child := Option.some.inj (Option.some.inj h)
    rfl
  | cons slot rest ih =>
    obtain ⟨found, hcached, hrest⟩ := Option.bind_eq_some_iff.mp h
    cases found with
    | none => cases hrest
    | some inner =>
      rw [focus_cons_of_some (resolve_of_cached hcached)]
      exact ih hrest

/-- The action is not run at a path where nothing was found. -/
theorem focus_of_absent (h : view.at? path = some none) (now : Stamp) :
    (focus act path view now).1.1 = none := by
  induction path generalizing view with
  | nil => cases h
  | cons slot rest ih =>
    obtain ⟨found, hcached, hrest⟩ := Option.bind_eq_some_iff.mp h
    cases found with
    | none => rw [focus_cons_of_none (resolve_of_cached hcached)]
    | some inner =>
      rw [focus_cons_of_some (resolve_of_cached hcached)]
      exact ih hrest

end Focus

/-- A view advances when an action is run on the view at a path. -/
theorem focus_advances {β : Type} {act : View → Supply (β × View)} (hact : Advances act)
    (path : List Slot) (view : View) (now : Stamp) :
    ∃ asked, Advance (view, now) asked
        ((focus act path view now).1.2, (focus act path view now).2) ∧
      Reached act path (focus act path view now).1.2 (focus act path view now).1.1 := by
  induction path generalizing view now with
  | nil =>
    obtain ⟨asked, h⟩ := hact view now
    exact ⟨asked, h, .ran rfl⟩
  | cons slot rest ih =>
    obtain ⟨asked, hresolve⟩ := advances_resolve slot view now
    have hcached : (view.resolve (m := Supply) slot now).1.2.cached? slot =
      some (view.resolve (m := Supply) slot now).1.1 := cached?_resolve
    generalize hshown : view.resolve (m := Supply) slot now = outcome at hresolve hcached
    obtain ⟨⟨found, view'⟩, later⟩ := outcome
    cases found with
    | none =>
      rw [focus_cons_of_none hshown]
      exact ⟨asked, hresolve, .nothing (by rw [at?, hcached]; rfl)⟩
    | some child =>
      obtain ⟨asked', hbelow, hreached⟩ := ih child later
      rw [focus_cons_of_some hshown]
      exact ⟨asked ++ asked'.map (slot :: ·), hresolve.trans (hbelow.inside hcached),
        hreached.inside⟩

end View

/-! ## Sessions -/

/-- What can be asked of a view. -/
inductive Request where
  /-- What slots show. -/
  | accessors (slots : List Slot)
  /-- What the view is taken apart into. -/
  | deconstruct
  /-- What the view of the structure at a place is taken apart into. -/
  | deconstructAt (place : Place)

/-- The slots that a request resolves in a view of a node. -/
def Request.slotsIn (request : Request) (n : Node) : List Slot :=
  match request with
  | .accessors slots => slots
  | .deconstruct => n.opened.flatMap Part.items
  | .deconstructAt place =>
    ((n.shape.nested? place).elim [] (·.opened place)).flatMap Part.items

/-- A request to the view at the end of a path. -/
structure Call where
  /-- The slots from the root of the session to the view. -/
  path : List Slot
  /-- What the view is asked. -/
  request : Request

/-- What was shown at the end of a path. -/
abbrev Answer := List Slot × Option View

namespace View

/-- Answers a request. What a view is taken apart into answers for the slots of the parts. -/
def answer (request : Request) (view : View) : Supply (List (Slot × Option View) × View) :=
  match request with
  | .accessors slots => view.read slots
  | .deconstruct => do
    let (parts, after) ← view.deconstruct
    return ((Request.deconstruct.slotsIn view.node).zip (parts.flatMap Part.items), after)
  | .deconstructAt place => do
    let (parts, after) ← view.deconstructAt place
    return (((Request.deconstructAt place).slotsIn view.node).zip
      ((parts.getD []).flatMap Part.items), after)

/-- Makes a call. Nothing is answered if there is no view at the end of the path. -/
def call (call : Call) (view : View) : Supply (List Answer × View) := do
  let (shown, view) ← view.focus (answer call.request) call.path
  return ((shown.getD []).map fun cell => (call.path ++ [cell.1], cell.2), view)

/-- Makes calls one after the other. -/
def session : List Call → View → Supply (List Answer × View)
  | [], view => pure ([], view)
  | first :: rest, view => do
    let (answers, view) ← view.call first
    let (more, view) ← session rest view
    return (answers ++ more, view)

end View

/-- What is found in the tree where a call looks for it. -/
def Node.found (stampOf : List Slot → Stamp) (e : Node) (call : Call) :
    List (List Slot × Option Node) :=
  match e.follow stampOf call.path with
  | none => []
  | some n => (call.request.slotsIn n).map fun slot =>
    (call.path ++ [slot], e.follow stampOf (call.path ++ [slot]))

namespace View

variable {view view' child : View} {found : Option View} {slot : Slot} {now : Stamp}
  {path rest : List Slot} {stampOf : List Slot → Stamp} {call : Call} {answers : List Answer}

/-- A request is answered by reading its slots. -/
theorem answer_eq_read (request : Request) (view : View) :
    view.answer request = view.read (request.slotsIn view.node) := by
  cases request with
  | accessors slots => rfl
  | deconstruct => exact funext fun now => zip_fill view.node.opened view now
  | deconstructAt place =>
    cases hnested : view.node.shape.nested? place with
    | none =>
      simp only [answer, deconstructAt, Request.slotsIn, hnested]
      rfl
    | some nested =>
      simp only [answer, deconstructAt, Request.slotsIn, hnested]
      exact funext fun now => zip_fill (nested.opened place) view now

/-- A view advances when a request is answered. -/
theorem advances_answer (request : Request) : Advances (answer request) := by
  intro view now
  rw [answer_eq_read]
  exact advances_read _ view now

/-- The answers are all that was asked for, and they are what the view has resolved. -/
inductive Answered (call : Call) (after : View) : List Answer → Prop where
  | nothing (absent : after.at? call.path = some none) : Answered call after []
  | shown {child : View} {answers : List Answer}
      (resolved : after.at? call.path = some (some child))
      (asked : answers.map Prod.fst = (call.request.slotsIn child.node).map (call.path ++ [·]))
      (kept : ∀ answer ∈ answers, after.at? answer.1 = some answer.2) :
    Answered call after answers

/-- What the view at the end of a path answered answers the call. -/
theorem Reached.answered {after : View} {result : Option (List (Slot × Option View))}
    (h : Reached (answer call.request) call.path after result) :
    Answered call after ((result.getD []).map fun cell => (call.path ++ [cell.1], cell.2)) := by
  cases h with
  | nothing absent => exact .nothing absent
  | @ran child now resolved =>
    rw [answer_eq_read] at resolved ⊢
    obtain ⟨hslots, hcells⟩ := read_answers (call.request.slotsIn child.node) child now
    obtain ⟨_, hread⟩ := advances_read (call.request.slotsIn child.node) child now
    have hnode : (child.read (m := Supply) (call.request.slotsIn child.node) now).1.2.node =
        child.node := hread.grows.node_eq
    refine .shown resolved ?_ (List.forall_mem_map.mpr fun cell hcell => ?_)
    · rw [hnode, Option.getD_some, List.map_map]
      conv_rhs => rw [← hslots, List.map_map]
      rfl
    · rw [at?_concat resolved]
      exact hcells cell hcell

/-- A call is answered by what the view has resolved from then on. -/
theorem call_advances (call : Call) (view : View) (now : Stamp) :
    ∃ asked, Advance (view, now) asked ((view.call call now).1.2, (view.call call now).2) ∧
      Answered call (view.call call now).1.2 (view.call call now).1.1 := by
  obtain ⟨asked, hadvance, hreached⟩ :=
    focus_advances (advances_answer call.request) call.path view now
  exact ⟨asked, hadvance, hreached.answered⟩

/-- What the view had resolved at a path is answered as it is. -/
theorem eq_of_mem_call {answer : Answer} (hanswer : answer ∈ (view.call call now).1.1)
    (hfound : view.at? answer.1 = some found) : answer.2 = found := by
  obtain ⟨cell, hcell, rfl⟩ := List.mem_map.mp hanswer
  rw [at?_append] at hfound
  obtain ⟨reached, hreached, hcached⟩ := Option.bind_eq_some_iff.mp hfound
  cases reached with
  | none =>
    rw [focus_of_absent hreached] at hcell
    cases hcell
  | some child =>
    rw [focus_of_at? hreached, Option.getD_some, answer_eq_read] at hcell
    have hkept := (read_answers (call.request.slotsIn child.node) child now).2 cell hcell
    rw [cached?_read_of_cached (at?_singleton.symm.trans hcached)] at hkept
    exact (Option.some.inj hkept).symm

/-- If the view mirrors the tree later on, the answers are what is found in the tree. -/
theorem Answered.eq_found {after final : View} (h : Answered call after answers)
    (hgrows : after.Grows final) (hmirrors : final.Mirrors stampOf) :
    answers.map (fun answer => (answer.1, answer.2.map node)) = final.node.found stampOf call := by
  have hfollow : ∀ path found, after.at? path = some found →
      final.node.follow stampOf path = found.map node := fun path found hfound =>
    hmirrors path _ (hgrows path _ (nodeAt?_of_at? hfound))
  cases h with
  | nothing absent =>
    rw [Node.found, hfollow _ _ absent]
    rfl
  | @shown child answers resolved asked kept =>
    rw [Node.found, hfollow _ _ resolved]
    have hanswers : answers.map (fun answer => (answer.1, answer.2.map node)) =
        (answers.map Prod.fst).map fun path => (path, final.node.follow stampOf path) := by
      rw [List.map_map]
      refine List.map_congr_left fun answer hanswer => ?_
      exact congrArg (answer.1, ·) (hfollow _ _ (kept answer hanswer)).symm
    rw [hanswers, asked, List.map_map]
    rfl

/-- The answers are what the view has resolved. -/
theorem Answered.kept {after : View} (h : Answered call after answers) :
    ∀ answer ∈ answers, after.at? answer.1 = some answer.2 := by
  cases h with
  | nothing _ => exact nofun
  | shown _ _ kept => exact kept

/-- The answers of a session in which the first view became the second one. -/
structure Recorded (calls : List Call) (view : View) (answers : List Answer) (after : View) :
    Prop where
  /-- An answer is what the view had resolved at some time since the session began. -/
  since : ∀ answer ∈ answers, ∃ between, view.Grows between ∧ between.at? answer.1 = some answer.2
  /-- What is answered at a path grows into all later answers there. -/
  fixed : answers.Pairwise fun first later =>
    first.1 = later.1 → Option.Rel Grows first.2 later.2
  /-- What is answered is found in the tree. -/
  found : ∀ stampOf, after.Mirrors stampOf →
    answers.map (fun answer => (answer.1, answer.2.map node)) =
      calls.flatMap (after.node.found stampOf)

/-- A call comes before the other calls of a session. -/
theorem Recorded.cons {calls : List Call} {between after : View} {more : List Answer}
    (hview : view.Grows between) (hafter : between.Grows after)
    (h : Answered call between answers) (hmore : Recorded calls between more after) :
    Recorded (call :: calls) view (answers ++ more) after where
  since := by
    refine List.forall_mem_append.mpr ⟨fun answer hanswer => ?_, fun answer hanswer => ?_⟩
    · exact ⟨between, hview, h.kept answer hanswer⟩
    · obtain ⟨later, hlater, hkept⟩ := hmore.since answer hanswer
      exact ⟨later, hview.trans hlater, hkept⟩
  fixed := by
    refine List.pairwise_append.mpr ⟨?_, hmore.fixed, ?_⟩
    · refine List.pairwise_of_forall_mem_list fun first hfirst later hlater heq => ?_
      exact (Grows.refl between).at? (h.kept first hfirst) (heq ▸ h.kept later hlater)
    · intro first hfirst later hlater heq
      obtain ⟨view', hgrows, hkept⟩ := hmore.since later hlater
      exact hgrows.at? (h.kept first hfirst) (heq ▸ hkept)
  found stampOf hmirrors := by
    rw [List.map_append, List.flatMap_cons, h.eq_found hafter hmirrors,
      hmore.found stampOf hmirrors]

/-- A view advances in a session. -/
theorem session_advances (calls : List Call) (view : View) (now : Stamp) :
    ∃ asked,
      Advance (view, now) asked ((view.session calls now).1.2, (view.session calls now).2) ∧
      Recorded calls view (view.session calls now).1.1 (view.session calls now).1.2 := by
  induction calls generalizing view now with
  | nil => exact ⟨[], .refl _, nofun, .nil, fun _ _ => rfl⟩
  | cons call calls ih =>
    obtain ⟨asked, hcall, hanswered⟩ := call_advances call view now
    obtain ⟨asked', hrest, hrecorded⟩ := ih (view.call call now).1.2 (view.call call now).2
    exact ⟨asked ++ asked', hcall.trans hrest, hrecorded.cons hcall.grows hrest.grows hanswered⟩

/-! ## What a view shows -/

/-- A view shows what its node holds. -/
structure Projects (view : View) : Prop where
  /-- With nodes in the place of views, the fields are the shape of the node. -/
  shape : view.fields.map node = view.node.shape
  /-- Slots that are read in the order of a walk show the children, and nothing is reduced. -/
  accessors : ∀ now, (view.read (m := Supply) view.node.shape.slots now).1.1.map (·.2.map node) =
    view.node.shape.children.map some ∧ (view.read (m := Supply) view.node.shape.slots now).2 = now
  /-- The view is taken apart into views of the parts of the node. -/
  parts : ∀ now, ∃ stamp, (view.deconstruct (m := Supply) now).1.1.map
      (Part.map (·.map node) (Shape.nested? · view.node.shape)) =
    view.node.components (view.node.shownAt stamp .reduction)
  /-- Views of nested structures are taken apart into views of the parts of these. -/
  nested : ∀ place now, (view.deconstructAt (m := Supply) place now).1.1.map
      (·.map (Part.map (·.map node) (Shape.nested? · view.node.shape))) =
    (view.node.shape.nested? place).map Nested.components
  /-- The result of a block is its last statement. -/
  result : ∀ now locals statements, view.node.shape = .block locals statements →
    (view.result (m := Supply) now).1.1.map node = statements.getLast?
  /-- A walk over the node goes through these children. -/
  walk : view.node.shape.family ≠ .extension →
    ∀ (m : Type → Type) [Monad m] [LawfulMonad m] [MonadStamp m] (act : Node → m PUnit),
      view.node.walkChildren act = forM view.node.shape.children act

/-- The slot of a field shows what stands there, and nothing is reduced for that. -/
theorem Mirrors.resolve (h : view.Mirrors stampOf) {n : Node}
    (hfield : view.node.shape.field? slot = some n) (now : Stamp) :
    (view.resolve (m := Supply) slot now).1.1.map node = some n ∧
      (view.resolve (m := Supply) slot now).1.2.Mirrors stampOf ∧
      (view.resolve (m := Supply) slot now).1.2.node = view.node ∧
      (view.resolve (m := Supply) slot now).2 = now := by
  cases hcached : view.cached? slot with
  | some found =>
    obtain ⟨hshown, -⟩ := mirrors_iff.mp h slot found hcached
    rw [(Node.shownAt_of_field? hfield _).1] at hshown
    rw [resolve_of_cached hcached]
    exact ⟨hshown.symm, h, rfl, rfl⟩
  | none =>
    have hfound : (view.node.shownAt now slot).map wrap = some (wrap n) := by
      rw [(Node.shownAt_of_field? hfield now).1]
      rfl
    rw [resolve_of_not_cached hcached hfound, (Node.shownAt_of_field? hfield now).2]
    refine ⟨rfl, h.store (Node.shownAt_of_field? hfield _).1 fun child hchild => ?_, rfl, rfl⟩
    obtain rfl := Option.some.inj hchild
    exact mirrors_wrap n

/-- The slots of fields show what stands there. -/
theorem Mirrors.read {slots : List Slot} {nodes : List Node} (h : view.Mirrors stampOf)
    (hfields : slots.map (Shape.field? · view.node.shape) = nodes.map some) (now : Stamp) :
    (view.read (m := Supply) slots now).1.1.map (·.2.map node) = nodes.map some ∧
      (view.read (m := Supply) slots now).2 = now := by
  induction slots generalizing view nodes now with
  | nil => exact ⟨hfields, rfl⟩
  | cons slot rest ih =>
    obtain ⟨n, nodes, rfl, hfield, hrest⟩ := List.map_eq_cons_iff.mp hfields.symm
    obtain ⟨hnode, hmirrors, hsame, hnow⟩ := h.resolve hfield.symm now
    obtain ⟨hnodes, hlater⟩ := ih hmirrors (by rw [hsame, hrest])
      (view.resolve (m := Supply) slot now).2
    exact ⟨congrArg₂ List.cons hnode hnodes, hlater.trans hnow⟩

/-- A view that mirrors the tree shows what its node holds. -/
theorem Mirrors.projects (h : view.Mirrors stampOf) : view.Projects where
  shape := by
    rw [fields, Shape.map_map]
    conv_rhs => rw [← Shape.map_slotted view.node.shape]
    refine Shape.map_congr_handles fun cell hcell => ?_
    change ((view.cached? cell.1).join.getD (wrap cell.2)).node = cell.2
    cases hcached : view.cached? cell.1 with
    | none => rfl
    | some found =>
      cases found with
      | none => rfl
      | some shown =>
        obtain ⟨hshown, -⟩ := mirrors_iff.mp h cell.1 (some shown) hcached
        exact Node.shownAt_of_mem_handles hcell hshown
  accessors now := h.read (Shape.map_field?_slots view.node.shape) now
  parts now := h.shows.deconstruct now
  nested place now := h.shows.deconstructAt place now
  result now locals statements hshape := by
    have hfields : (slotsOf .statement statements).map (Shape.field? · view.node.shape) =
        statements.map some := by
      rw [hshape]
      exact map_slotsOf fun _ => rfl
    have hlast := congrArg List.getLast? (h.read hfields now).1
    rw [List.getLast?_map, List.getLast?_map] at hlast
    have hresult : (view.result (m := Supply) now).1.1 = (view.read (m := Supply)
        (slotsOf .statement statements) now).1.1.getLast?.bind Prod.snd := by
      rw [View.result, hshape]
      rfl
    generalize (view.read (m := Supply) (slotsOf .statement statements) now).1.1.getLast? = cell
      at hlast hresult
    calc (view.result (m := Supply) now).1.1.map node
      _ = (cell.bind Prod.snd).map node := by rw [hresult]
      _ = (cell.map (·.2.map node)).join := by cases cell <;> rfl
      _ = (statements.getLast?.map some).join := by rw [hlast]
      _ = statements.getLast? := by cases statements.getLast? <;> rfl
  walk hfamily _ _ _ _ act := Node.walkChildren_eq_forM hfamily act

end View

namespace Node

/-- A tree from factories, updates and rewritings is dispatched to the view of its kind. In every
session with this view the answers are what is found in the tree itself, where each reduction that
was asked for has the next stamp; no reduction is asked for twice, and what is answered at a path
stays: whatever is asked next, the answer is what the cell at its path holds then, and the very view
that was there before if there was one. All views that the session leads to are of the kind of their
nodes, show what these hold in the order of a walk, and are taken apart into views of their parts.
-/
theorem views_mirror_tree {e : Node} (he : e.Made) :
    ∃ view, View.dispatch e = .ok view ∧ view.variant = e.kind ∧ view.node = e ∧
      ∀ (calls : List Call) (now : Stamp), ∃ asked : List (List Slot),
        let run := view.session calls now
        let stampOf := fun path => now + asked.idxOf path
        (run.2 = now + asked.length ∧ asked.Nodup ∧ ∀ path ∈ asked, run.1.2.ReducedAt path) ∧
        run.1.1.map (fun answer => (answer.1, answer.2.map View.node)) =
          calls.flatMap (e.found stampOf) ∧
        (run.1.1.Pairwise fun first later =>
          first.1 = later.1 → Option.Rel View.Grows first.2 later.2) ∧
        (∀ call, ∀ answer ∈ (run.1.2.call call run.2).1.1,
          (run.1.2.call call run.2).1.2.at? answer.1 = some answer.2 ∧
            ∀ found, run.1.2.at? answer.1 = some found → answer.2 = found) ∧
        ∀ path child, run.1.2.at? path = some (some child) →
          e.follow stampOf path = some child.node ∧
            View.dispatch child.node = .ok (View.wrap child.node) ∧ child.Projects := by
  refine ⟨View.wrap e, View.dispatch_eq_ok he.allCoherent, rfl, rfl, fun calls now => ?_⟩
  obtain ⟨asked, hadvance, hrecorded⟩ := View.session_advances calls (View.wrap e) now
  have hnode : ((View.wrap e).session calls now).1.2.node = e := hadvance.grows.node_eq
  have hmirrors : ((View.wrap e).session calls now).1.2.Mirrors
      fun path => now + asked.idxOf path := by
    -- the root has resolved nothing, so it mirrors the tree for these stamps as for all others
    refine hadvance.mirrors _ (fun k path hpath => ?_) (View.mirrors_wrap e)
    obtain ⟨hk, rfl⟩ := List.getElem?_eq_some_iff.mp hpath
    rw [hadvance.nodup.idxOf_getElem k hk]
  refine ⟨asked, ⟨hadvance.stamps, hadvance.nodup, hadvance.reduced⟩, ?_, hrecorded.fixed, ?_, ?_⟩
  · rw [hrecorded.found _ hmirrors, hnode]
  · intro call answer hanswer
    obtain ⟨-, -, hanswered⟩ := View.call_advances call ((View.wrap e).session calls now).1.2
      ((View.wrap e).session calls now).2
    exact ⟨hanswered.kept answer hanswer, fun found => View.eq_of_mem_call hanswer⟩
  · intro path child hchild
    obtain ⟨hfollow, hchild⟩ := hmirrors.of_at? hchild
    rw [hnode] at hfollow
    exact ⟨hfollow, View.dispatch_eq_ok (he.allCoherent.follow hfollow), hchild.projects⟩

/-- Asks for the reduction of the second statement, asks for it again by taking the statement apart,
and takes the reduction apart. -/
def sampleCalls : List Call :=
  [⟨[.statement 1], .accessors [.reduction]⟩, ⟨[.statement 1], .deconstruct⟩,
    ⟨[.statement 1, .reduction], .deconstruct⟩]

/-- The doubled variable is reduced once, to a sum that has the next stamp. -/
theorem views_mirror_sampleUpdated :
    let sum : Node := ⟨7, .add, .i32, .binary sampleOperand none sampleOperand none false⟩
    let answers := [([.statement 1, .reduction], some sum), ([.statement 1, .reduction], some sum),
      ([.statement 1, .reduction, .left], some sampleOperand),
      ([.statement 1, .reduction, .right], some sampleOperand)]
    sampleUpdated.Made ∧ ((View.wrap sampleUpdated).session sampleCalls 7).2 = 8 ∧
      ((View.wrap sampleUpdated).session sampleCalls 7).1.1.map
        (fun answer => (answer.1, answer.2.map View.node)) = answers ∧
      ∃ asked : List (List Slot), asked.length = 1 ∧ asked.Nodup ∧
        sampleCalls.flatMap (sampleUpdated.found fun path => 7 + asked.idxOf path) = answers := by
  intro sum answers
  obtain ⟨view, hdispatch, -, -, hsession⟩ := views_mirror_tree sampleUpdated_made
  obtain rfl : View.wrap sampleUpdated = view := Except.ok.inj hdispatch
  obtain ⟨asked, ⟨hstamps, hnodup, -⟩, hfound, -⟩ := hsession sampleCalls 7
  have hnext : ((View.wrap sampleUpdated).session sampleCalls 7).2 = 8 := rfl
  have hanswers : ((View.wrap sampleUpdated).session sampleCalls 7).1.1.map
      (fun answer => (answer.1, answer.2.map View.node)) = answers := rfl
  have hlength : 7 + 1 = 7 + asked.length := hnext.symm.trans hstamps
  exact ⟨sampleUpdated_made, hnext, hanswers, asked, (Nat.add_left_cancel hlength).symm, hnodup,
    hfound.symm.trans hanswers⟩

end Node

end ExprTree
