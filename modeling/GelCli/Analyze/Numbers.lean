import GelCli.Analyze.Contexts
import GelCli.Foundation.FirstByKey

/-!
# The numbers of the contexts

The locations are numbered in the order in which they are shown. A location shows the
number of a context that already has one, because a context of the same node was numbered
before it; the contexts of a node share a number in this way.
-/

namespace GelCli.Analyze

open GelCli.Foundation

/-! ## What the scan collects -/

mutual

/-- The contexts of each node of a tree. -/
def Node.rows : Node → List (List Context)
  | .node contexts children => contexts :: rowsOf children

def rowsOf : List Node → List (List Context)
  | [] => []
  | child :: children => child.rows ++ rowsOf children

end

theorem rowsOf_append (nodes nodes' : List Node) :
    rowsOf (nodes ++ nodes') = rowsOf nodes ++ rowsOf nodes' := by
  induction nodes with
  | nil => rfl
  | cons node nodes ih => rw [List.cons_append, rowsOf, rowsOf, ih, List.append_assoc]

def AnalysisData.trees (input : AnalysisData) : List Node :=
  input.coarseGrained.toList ++ (input.fineGrained.toList ++
    (input.debugInfo.bind DebugInfo.fullPlan).toList)

def AnalysisData.rows (input : AnalysisData) : List (List Context) := rowsOf input.trees

/-- A node has a context with this id at the location. -/
def CollectedAt (rows : List (List Context)) (location : Location) (id : ContextId) : Prop :=
  ∃ row ∈ rows, ∃ ctx ∈ row, ctx.location = location ∧ ctx.contextId = id

/-- Each context with its siblings. -/
def visits (rows : List (List Context)) : List (Context × List Context) :=
  rows.flatMap fun row => row.map fun ctx => (ctx, row)

theorem collectedAt_iff_visits {rows : List (List Context)} {location : Location}
    {id : ContextId} : CollectedAt rows location id ↔
      ∃ v ∈ visits rows, v.1.location = location ∧ v.1.contextId = id := by
  constructor
  · rintro ⟨row, hrow, ctx, hctx, h⟩
    exact ⟨(ctx, row), List.mem_flatMap.mpr ⟨row, hrow, List.mem_map.mpr ⟨ctx, hctx, rfl⟩⟩, h⟩
  · rintro ⟨v, hv, h⟩
    obtain ⟨row, hrow, hv⟩ := List.mem_flatMap.mp hv
    obtain ⟨ctx, hctx, rfl⟩ := List.mem_map.mp hv
    exact ⟨row, hrow, ctx, hctx, h⟩

structure Scanned (me : Gather) (seen : List (Context × List Context)) : Prop where
  entry : ∀ location len ids, me.byLocation[location]? = some (len, ids) →
    ids ≠ [] ∧ ∀ id, id ∈ ids ↔ ∃ v ∈ seen, v.1.location = location ∧ v.1.contextId = id
  key : ∀ v ∈ seen, ∃ entry, me.byLocation[v.1.location]? = some entry
  siblings : ∀ id row, me.siblings.get id = some row → ∃ v ∈ seen, v.2 = row ∧ v.1.contextId = id

theorem scanned_new : Scanned Gather.new [] where
  entry location len ids h := by
    rw [Gather.new, Std.TreeMap.getElem?_emptyc] at h
    cases h
  key _ h := absurd h List.not_mem_nil
  siblings _ _ h := by cases h

variable {me : Gather} {seen : List (Context × List Context)}

theorem getElem?_visit (row : List Context) (ctx : Context) (location : Location) :
    (me.visit row ctx).byLocation[location]? =
      if ctx.location = location then
        some (((me.byLocation[ctx.location]?).getD (ctx.end_ - ctx.start, [])).1,
          ((me.byLocation[ctx.location]?).getD (ctx.end_ - ctx.start, [])).2 ++ [ctx.contextId])
      else me.byLocation[location]? := by
  rw [Gather.visit, Std.TreeMap.getElem?_alter]
  by_cases h : ctx.location = location
  · rw [if_pos h, if_pos (by rw [h]; exact Std.ReflCmp.compare_self)]
  · rw [if_neg h, if_neg fun hcmp => h (Std.LawfulEqCmp.eq_of_compare hcmp)]

theorem Scanned.visit (h : Scanned me seen) (row : List Context) (ctx : Context) :
    Scanned (me.visit row ctx) (seen ++ [(ctx, row)]) := by
  refine ⟨fun location len ids hentry => ?_, fun v hv => ?_, fun id row' hrow => ?_⟩
  · rw [getElem?_visit] at hentry
    have hseen : ∀ id, (∃ v ∈ seen ++ [(ctx, row)], v.1.location = location ∧ v.1.contextId = id) ↔
        (∃ v ∈ seen, v.1.location = location ∧ v.1.contextId = id) ∨
          ctx.location = location ∧ ctx.contextId = id := by
      intro id
      simp only [List.mem_append, List.mem_singleton, or_and_right, exists_or, exists_eq_left]
    by_cases hlocation : ctx.location = location
    · rw [if_pos hlocation] at hentry
      cases hentry
      refine ⟨List.append_ne_nil_of_right_ne_nil _ (List.cons_ne_nil _ _), fun id => ?_⟩
      rw [hseen, List.mem_append, List.mem_singleton, and_iff_right hlocation, hlocation]
      refine or_congr ?_ eq_comm
      cases hold : me.byLocation[location]? with
      | none =>
          refine iff_of_false List.not_mem_nil ?_
          rintro ⟨v, hv, hvlocation, -⟩
          obtain ⟨entry, hentry⟩ := h.key v hv
          rw [hvlocation, hold] at hentry
          cases hentry
      | some entry => exact (h.entry location entry.1 entry.2 hold).2 id
    · rw [if_neg hlocation] at hentry
      obtain ⟨hne, hids⟩ := h.entry location len ids hentry
      refine ⟨hne, fun id => ?_⟩
      rw [hseen, hids, or_iff_left fun hctx => hlocation hctx.1]
  · rw [getElem?_visit]
    by_cases hlocation : ctx.location = v.1.location
    · exact ⟨_, if_pos hlocation⟩
    · rw [if_neg hlocation]
      rcases List.mem_append.mp hv with hv | hv
      · exact h.key v hv
      · rw [List.mem_singleton.mp hv] at hlocation
        exact absurd rfl hlocation
  · rw [Gather.visit, HashMap.get_insert] at hrow
    by_cases hid : id = ctx.contextId
    · rw [if_pos hid] at hrow
      cases hrow
      exact ⟨(ctx, row), List.mem_append_right _ (List.mem_singleton_self _), rfl, hid.symm⟩
    · rw [if_neg hid] at hrow
      obtain ⟨v, hv, hmatch⟩ := h.siblings id row' hrow
      exact ⟨v, List.mem_append_left _ hv, hmatch⟩

theorem Scanned.foldl_visit (h : Scanned me seen) (row contexts : List Context) :
    Scanned (contexts.foldl (Gather.visit row) me)
      (seen ++ contexts.map fun ctx => (ctx, row)) := by
  induction contexts generalizing me seen with
  | nil => rwa [List.map_nil, List.append_nil]
  | cons ctx contexts ih =>
      rw [List.map_cons, List.append_cons]
      exact ih (h.visit row ctx)

mutual

theorem Scanned.scanNode {me : Gather} {seen : List (Context × List Context)}
    (h : Scanned me seen) (node : Node) :
    Scanned (me.scanNode node) (seen ++ visits node.rows) := by
  cases node with
  | node contexts children =>
      rw [Gather.scanNode, Node.rows, visits, List.flatMap_cons, ← List.append_assoc]
      exact (h.foldl_visit contexts contexts).scanNodes children

theorem Scanned.scanNodes {me : Gather} {seen : List (Context × List Context)}
    (h : Scanned me seen) (nodes : List Node) :
    Scanned (me.scanNodes nodes) (seen ++ visits (rowsOf nodes)) := by
  cases nodes with
  | nil =>
      rw [Gather.scanNodes, rowsOf, visits, List.flatMap_nil, List.append_nil]
      exact h
  | cons node nodes =>
      rw [Gather.scanNodes, rowsOf, visits, List.flatMap_append, ← List.append_assoc]
      exact (h.scanNode node).scanNodes nodes

end

theorem scan_eq_scanNodes (input : AnalysisData) :
    Gather.scan input = Gather.new.scanNodes input.trees := by
  unfold Gather.scan AnalysisData.trees Gather.scanShape Gather.scanExpanded Gather.scanDebug
  cases input.coarseGrained <;> cases input.fineGrained <;>
    cases input.debugInfo.bind DebugInfo.fullPlan <;> rfl

theorem scanned_scan (input : AnalysisData) : Scanned (Gather.scan input) (visits input.rows) := by
  rw [scan_eq_scanNodes]
  exact scanned_new.scanNodes input.trees

/-! ## The numbers given at one location -/

/-- A context at the location, or a sibling of one. -/
def Linked (siblings : HashMap ContextId (List Context)) (ids : List ContextId)
    (id : ContextId) : Prop :=
  ∃ c ∈ ids, id = c ∨ ∃ row, siblings.get c = some row ∧ ∃ sub ∈ row, sub.contextId = id

/-- The contexts that got the number are among these. -/
def Grown (num : Number) (among : ContextId → Prop) (m m' : HashMap ContextId Number) : Prop :=
  ∀ id, m'.get id = m.get id ∨ m.get id = none ∧ m'.get id = some num ∧ among id

section Grown

variable {num : Number} {among : ContextId → Prop} {m m' m'' : HashMap ContextId Number}

theorem Grown.refl : Grown num among m m := fun _ => Or.inl rfl

theorem Grown.trans (h : Grown num among m m') (h' : Grown num among m' m'') :
    Grown num among m m'' := by
  intro id
  rcases h id with hsame | ⟨hnone, hsome, hamong⟩
  · rcases h' id with hsame' | ⟨hnone', hsome', hamong⟩
    · exact Or.inl (hsame'.trans hsame)
    · exact Or.inr ⟨hsame.symm.trans hnone', hsome', hamong⟩
  · rcases h' id with hsame' | ⟨hnone', -, -⟩
    · exact Or.inr ⟨hnone, hsame'.trans hsome, hamong⟩
    · rw [hsome] at hnone'
      cases hnone'

theorem Grown.mono {among' : ContextId → Prop} (h : Grown num among m m')
    (hamong : ∀ id, among id → among' id) : Grown num among' m m' :=
  fun id => (h id).imp_right fun hnew => ⟨hnew.1, hnew.2.1, hamong id hnew.2.2⟩

theorem Grown.get_of_some (h : Grown num among m m') {id : ContextId} {n : Number}
    (hid : m.get id = some n) : m'.get id = some n := by
  rcases h id with hsame | ⟨hnone, -, -⟩
  · exact hsame.trans hid
  · rw [hid] at hnone
    cases hnone

theorem grown_insert {id : ContextId} (hid : m.get id = none) (hamong : among id) :
    Grown num among m (m.insert id num) := by
  intro j
  rw [HashMap.get_insert]
  by_cases hj : j = id
  · subst hj
    exact Or.inr ⟨hid, if_pos rfl, hamong⟩
  · exact Or.inl (if_neg hj)

theorem grown_orInsert {id : ContextId} (hamong : among id) :
    Grown num among m (m.orInsert id num) := by
  cases hid : m.get id with
  | none =>
      rw [HashMap.orInsert, hid]
      exact grown_insert hid hamong
  | some n =>
      rw [HashMap.orInsert, hid]
      exact Grown.refl

/-- A loop each round of which gives the number to some of the contexts. -/
theorem grown_foldl {ι : Type} {f : HashMap ContextId Number → ι → HashMap ContextId Number}
    (l : List ι) (h : ∀ a ∈ l, ∀ m, Grown num among m (f m a)) : Grown num among m (l.foldl f m) := by
  induction l generalizing m with
  | nil => exact Grown.refl
  | cons a l ih =>
      exact (h a List.mem_cons_self m).trans (ih fun b hb => h b (List.mem_cons_of_mem a hb))

end Grown

variable {siblings : HashMap ContextId (List Context)}

theorem grown_numberId (num : Number) (m : HashMap ContextId Number) (id : ContextId) :
    Grown num (Linked siblings [id]) m (numberId siblings num m id) := by
  have hself : Linked siblings [id] id := ⟨id, List.mem_singleton_self id, Or.inl rfl⟩
  unfold numberId
  cases hid : m.get id with
  | some n => exact Grown.refl
  | none =>
      refine (grown_insert hid hself).trans (grown_foldl _ fun sub hsub m => grown_orInsert ?_)
      cases hrow : siblings.get id with
      | none =>
          rw [hrow] at hsub
          exact absurd hsub List.not_mem_nil
      | some row =>
          rw [hrow] at hsub
          exact ⟨id, List.mem_singleton_self id, Or.inr ⟨row, hrow, sub, hsub, rfl⟩⟩

theorem isSome_get_numberId (num : Number) (m : HashMap ContextId Number) (id : ContextId) :
    ((numberId siblings num m id).get id).isSome := by
  unfold numberId
  cases hid : m.get id with
  | some n => rw [hid, Option.isSome_some]
  | none =>
      have hinsert : (m.insert id num).get id = some num := if_pos rfl
      have hgrown : Grown num (fun _ => True) (m.insert id num)
          (((siblings.get id).getD []).foldl (fun m sub => m.orInsert sub.contextId num)
            (m.insert id num)) :=
        grown_foldl _ fun _ _ _ => grown_orInsert trivial
      rw [hgrown.get_of_some hinsert, Option.isSome_some]

theorem grown_numberIds (num : Number) (m : HashMap ContextId Number) (ids : List ContextId) :
    Grown num (Linked siblings ids) m (ids.foldl (numberId siblings num) m) := by
  refine grown_foldl _ fun id hid m => (grown_numberId num m id).mono fun j hlinked => ?_
  obtain ⟨c, hc, hlinked⟩ := hlinked
  rw [List.mem_singleton.mp hc] at hlinked
  exact ⟨id, hid, hlinked⟩

/-- Where no context has a number, all of them get the new one. -/
theorem get_numberIds {num : Number} {m : HashMap ContextId Number} {ids : List ContextId}
    (hnone : ∀ id ∈ ids, m.get id = none) {id : ContextId} (hid : id ∈ ids) :
    (ids.foldl (numberId siblings num) m).get id = some num := by
  have hsome : ((ids.foldl (numberId siblings num) m).get id).isSome := by
    clear hnone
    induction ids generalizing m with
    | nil => cases hid
    | cons c ids ih =>
        rcases List.mem_cons.mp hid with rfl | hid
        · obtain ⟨n, hn⟩ := Option.isSome_iff_exists.mp (isSome_get_numberId num m id)
          rw [List.foldl_cons, (grown_numberIds num _ ids).get_of_some hn, Option.isSome_some]
        · exact ih hid
  rcases grown_numberIds num m ids id with hsame | ⟨-, hnew, -⟩
  · rw [hsame, hnone id hid] at hsome
    cases hsome
  · exact hnew

/-! ## The loop over the locations -/

abbrev Shown := Entry × Number

def spansOf (buf : Nat) (done : List Shown) : List ContextSpan :=
  (done.filter fun s => s.1.1.bufferIdx = buf).map fun s => s.1.span s.2

/-- The locations numbered so far. -/
structure Numbered (siblings : HashMap ContextId (List Context)) (buffers : Nat)
    (me : Numbering) (done : List Shown) : Prop where
  inOrder : (firstByKey Prod.snd done).map Prod.snd = List.range me.index
  named : ∀ s ∈ done, ∃ id ∈ s.1.2.2, me.contexts.get id = some s.2
  complete : ∀ s ∈ firstByKey Prod.snd done, ∀ id ∈ s.1.2.2, me.contexts.get id = some s.2
  origin : ∀ id num, me.contexts.get id = some num →
    ∃ s ∈ firstByKey Prod.snd done, s.2 = num ∧ Linked siblings s.1.2.2 id
  buffersCtx : me.buffersCtx = (List.range buffers).map fun buf => spansOf buf done

theorem spansOf_concat (buf : Nat) (done : List Shown) (entry : Entry) (num : Number) :
    spansOf buf (done ++ [(entry, num)]) =
      spansOf buf done ++ if entry.1.bufferIdx = buf then [entry.span num] else [] := by
  rw [spansOf, List.filter_append, List.map_append]
  by_cases h : entry.1.bufferIdx = buf
  · simp [spansOf, h]
  · simp [spansOf, h]

theorem modify_spansOf (buffers : Nat) (done : List Shown) (entry : Entry) (num : Number) :
    ((List.range buffers).map fun buf => spansOf buf done).modify entry.1.bufferIdx
        (fun ctxs => ctxs ++ [entry.span num]) =
      (List.range buffers).map fun buf => spansOf buf (done ++ [(entry, num)]) := by
  refine List.ext_getElem? fun buf => ?_
  rw [List.getElem?_modify, List.getElem?_map, List.getElem?_map]
  by_cases hbuf : buf < buffers
  · rw [List.getElem?_range hbuf, Option.map_some, Option.map_some, spansOf_concat]
    by_cases h : entry.1.bufferIdx = buf
    · simp [h]
    · simp [h]
  · rw [List.getElem?_eq_none (by rwa [List.length_range, ← Nat.not_lt])]
    rfl

variable {buffers : Nat} {p : Numbering} {done : List Shown}

theorem Numbered.push (h : Numbered siblings buffers p done) {entry : Entry} {num : Number}
    {id : ContextId} (hid : id ∈ entry.2.2) (hnum : p.contexts.get id = some num) :
    Numbered siblings buffers (p.push entry num) (done ++ [(entry, num)]) := by
  obtain ⟨first, hfirst, hsame, -⟩ := h.origin id num hnum
  have hfirsts : firstByKey Prod.snd (done ++ [(entry, num)]) = firstByKey Prod.snd done := by
    rw [firstByKey_concat]
    exact pushNew_of_mem (List.mem_map.mpr ⟨first, hfirst, hsame⟩)
  refine ⟨?_, fun s hs => ?_, ?_, ?_, ?_⟩
  · rw [hfirsts]
    exact h.inOrder
  · rcases List.mem_append.mp hs with hs | hs
    · exact h.named s hs
    · obtain rfl := List.mem_singleton.mp hs
      exact ⟨id, hid, hnum⟩
  · rw [hfirsts]
    exact h.complete
  · rw [hfirsts]
    exact h.origin
  · rw [← modify_spansOf, ← h.buffersCtx]
    rfl

theorem Numbered.number (h : Numbered siblings buffers p done) {entry : Entry}
    (hne : entry.2.2 ≠ []) (hnone : ∀ id ∈ entry.2.2, p.contexts.get id = none) :
    Numbered siblings buffers
      (Numbering.push
        { p with
          contexts := entry.2.2.foldl (numberId siblings p.index) p.contexts
          index := p.index + 1 } entry p.index)
      (done ++ [(entry, p.index)]) := by
  have hgrown : Grown p.index (Linked siblings entry.2.2) p.contexts
      (entry.2.2.foldl (numberId siblings p.index) p.contexts) :=
    grown_numberIds p.index p.contexts entry.2.2
  have hnew : p.index ∉ (firstByKey Prod.snd done).map Prod.snd := by
    rw [h.inOrder]
    exact List.not_mem_range_self
  have hfirsts : firstByKey Prod.snd (done ++ [(entry, p.index)]) =
      firstByKey Prod.snd done ++ [(entry, p.index)] := by
    rw [firstByKey_concat]
    exact pushNew_of_not_mem hnew
  refine ⟨?_, fun s hs => ?_, fun s hs id hid => ?_, fun id num hnum => ?_, ?_⟩
  · rw [hfirsts, List.map_append, h.inOrder]
    exact List.range_succ.symm
  · rcases List.mem_append.mp hs with hs | hs
    · obtain ⟨id, hid, hnum⟩ := h.named s hs
      exact ⟨id, hid, hgrown.get_of_some hnum⟩
    · obtain rfl := List.mem_singleton.mp hs
      obtain ⟨id, hid⟩ := List.exists_mem_of_ne_nil _ hne
      exact ⟨id, hid, get_numberIds hnone hid⟩
  · rw [hfirsts] at hs
    rcases List.mem_append.mp hs with hs | hs
    · exact hgrown.get_of_some (h.complete s hs id hid)
    · obtain rfl := List.mem_singleton.mp hs
      exact get_numberIds hnone hid
  · rw [hfirsts]
    rcases hgrown id with hsame | ⟨-, hsome, hlinked⟩
    · obtain ⟨s, hs, horigin⟩ := h.origin id num (hsame.symm.trans hnum)
      exact ⟨s, List.mem_append_left _ hs, horigin⟩
    · refine ⟨_, List.mem_append_right _ (List.mem_singleton_self _), ?_, hlinked⟩
      exact Option.some.inj (hsome.symm.trans hnum)
  · rw [← modify_spansOf, ← h.buffersCtx]
    rfl

/-- One location more. -/
theorem Numbered.step (h : Numbered siblings buffers p done) {entry : Entry}
    (hne : entry.2.2 ≠ []) :
    ∃ num, Numbered siblings buffers (p.step siblings entry) (done ++ [(entry, num)]) ∧
      ∀ id n, p.contexts.get id = some n → (p.step siblings entry).contexts.get id = some n := by
  unfold Numbering.step
  cases hfind : entry.2.2.findSome? p.contexts.get with
  | some num =>
      obtain ⟨id, hid, hnum⟩ := List.exists_of_findSome?_eq_some hfind
      exact ⟨num, h.push hid hnum, fun _ _ hn => hn⟩
  | none =>
      have hnone := List.findSome?_eq_none_iff.mp hfind
      exact ⟨p.index, h.number hne hnone, fun _ _ hn =>
        (grown_numberIds p.index p.contexts entry.2.2).get_of_some hn⟩

/-- All locations. -/
theorem Numbered.foldl (h : Numbered siblings buffers p done) {entries : List Entry}
    (hne : ∀ entry ∈ entries, entry.2.2 ≠ []) :
    ∃ more, more.map Prod.fst = entries ∧
      Numbered siblings buffers (entries.foldl (Numbering.step siblings) p) (done ++ more) ∧
      ∀ id n, p.contexts.get id = some n →
        (entries.foldl (Numbering.step siblings) p).contexts.get id = some n := by
  induction entries generalizing p done with
  | nil => exact ⟨[], rfl, by rwa [List.append_nil], fun _ _ hn => hn⟩
  | cons entry entries ih =>
      obtain ⟨num, hstep, hgrown⟩ := h.step (hne entry List.mem_cons_self)
      obtain ⟨more, hmore, hrest, hgrown'⟩ :=
        ih hstep fun other hother => hne other (List.mem_cons_of_mem entry hother)
      refine ⟨(entry, num) :: more, by rw [List.map_cons, hmore], ?_, fun id n hn =>
        hgrown' id n (hgrown id n hn)⟩
      rwa [List.append_cons]

/-! ## What is shown -/

/-- The marks of the buffers from the `buf`-th on, in the order in which they are shown. -/
def shownFrom (buf : Nat) : List Buffer → List (Location × Number)
  | [] => []
  | buffer :: buffers =>
      (buffer.contexts.map fun span => (⟨buf, span.offset⟩, span.num)) ++
        shownFrom (buf + 1) buffers

def Analysis.shown (analysis : Analysis) : List (Location × Number) :=
  shownFrom 0 analysis.buffers

def Shown.mark (s : Shown) : Location × Number := (s.1.1, s.2)

theorem shownFrom_zipWith (spans : Nat → List ContextSpan) (buf : Nat) (texts : List Text) :
    shownFrom buf (List.zipWith Buffer.mk texts ((List.range' buf texts.length).map spans)) =
      (List.range' buf texts.length).flatMap fun b =>
        (spans b).map fun span => (⟨b, span.offset⟩, span.num) := by
  induction texts generalizing buf with
  | nil => rfl
  | cons text texts ih =>
      rw [List.length_cons, List.range'_succ, List.map_cons, List.zipWith_cons_cons, shownFrom, ih,
        List.flatMap_cons]

theorem map_spansOf (buf : Nat) (done : List Shown) :
    ((spansOf buf done).map fun span => ((⟨buf, span.offset⟩ : Location), span.num)) =
      (done.filter fun s => s.1.1.bufferIdx = buf).map Shown.mark := by
  rw [spansOf, List.map_map]
  refine List.map_congr_left fun s hs => ?_
  have hbuf : s.1.1.bufferIdx = buf := of_decide_eq_true (List.mem_filter.mp hs).2
  rw [← hbuf]
  rfl

/-- A list sorted by a number is the list of its groups. -/
theorem flatMap_filter_eq {α : Type} {key : α → Nat} {l : List α}
    (h : l.Pairwise fun a b => key a ≤ key b) (n : Nat) :
    ((List.range n).flatMap fun k => l.filter fun a => key a = k) =
      l.filter fun a => key a < n := by
  induction n with
  | zero => simp
  | succ n ih =>
      rw [List.range_succ, List.flatMap_append, ih, List.flatMap_singleton]
      clear ih
      induction l with
      | nil => rfl
      | cons a l ih =>
          obtain ⟨ha, hl⟩ := List.pairwise_cons.mp h
          have ih := ih hl
          simp only [List.filter_cons, decide_eq_true_eq]
          rcases Nat.lt_trichotomy (key a) n with hlt | heq | hgt
          · rw [if_pos hlt, if_neg hlt.ne, if_pos (Nat.lt_succ_of_lt hlt), List.cons_append, ih]
          · -- nothing behind it comes before
            have hnone : l.filter (fun b => key b < n) = [] := by
              refine List.filter_eq_nil_iff.mpr fun b hb => mt of_decide_eq_true ?_
              have := ha b hb
              omega
            rw [hnone, List.nil_append] at ih
            rw [if_neg heq.not_lt, if_pos heq, if_pos (Nat.lt_succ_of_le heq.le), hnone, ← ih]
            rfl
          · rw [if_neg (Nat.lt_asymm hgt), if_neg hgt.ne', if_neg (Nat.not_lt.mpr hgt), ih]

theorem shown_eq (texts : List Text) {done : List Shown}
    (hdone : done.Pairwise fun a b => a.1.1.bufferIdx ≤ b.1.1.bufferIdx) :
    shownFrom 0 (List.zipWith Buffer.mk texts
        ((List.range texts.length).map fun buf => spansOf buf done)) =
      (done.filter fun s => s.1.1.bufferIdx < texts.length).map Shown.mark := by
  rw [List.range_eq_range', shownFrom_zipWith, ← List.range_eq_range', ← flatMap_filter_eq hdone,
    List.map_flatMap]
  exact List.flatMap_congr fun buf _ => map_spansOf buf done

/-- The locations of the buffers are shown in their order, each with the number of one of its
contexts. A location that shows a number first gives it to all of its contexts, and these
numbers count up. A location shows the number of another one because of contexts of one
node. -/
structure NumbersLocations (input : AnalysisData) : Prop where
  sorted : ((preprocess input).shown.map Prod.fst).Pairwise Location.Before
  shown_iff : ∀ location, location ∈ (preprocess input).shown.map Prod.fst ↔
    location.bufferIdx < input.buffers.length ∧ ∃ id, CollectedAt input.rows location id
  inOrder : ∃ k, (firstByKey Prod.snd (preprocess input).shown).map Prod.snd = List.range k
  named : ∀ s ∈ (preprocess input).shown, ∃ id, CollectedAt input.rows s.1 id ∧
    (preprocess input).contexts.get id = some s.2
  complete : ∀ s ∈ firstByKey Prod.snd (preprocess input).shown, ∀ id,
    CollectedAt input.rows s.1 id → (preprocess input).contexts.get id = some s.2
  shared : ∀ first ∈ firstByKey Prod.snd (preprocess input).shown,
    ∀ s ∈ (preprocess input).shown, first.2 = s.2 →
      ∃ row ∈ input.rows, ∃ c ∈ row, ∃ c' ∈ row,
        CollectedAt input.rows first.1 c.contextId ∧ CollectedAt input.rows s.1 c'.contextId

/-- A list sorted by a number, cut at a bound. -/
theorem exists_cut {α : Type} {key : α → Nat} {l : List α}
    (h : l.Pairwise fun a b => key a ≤ key b) (n : Nat) :
    ∃ low high, l = low ++ high ∧ (∀ a ∈ low, key a < n) ∧ ∀ a ∈ high, n ≤ key a := by
  induction l with
  | nil => exact ⟨[], [], rfl, fun _ h => absurd h List.not_mem_nil,
      fun _ h => absurd h List.not_mem_nil⟩
  | cons a l ih =>
      obtain ⟨ha, hl⟩ := List.pairwise_cons.mp h
      by_cases hlt : key a < n
      · obtain ⟨low, high, rfl, hlow, hhigh⟩ := ih hl
        exact ⟨a :: low, high, rfl, List.forall_mem_cons.mpr ⟨hlt, hlow⟩, hhigh⟩
      · refine ⟨[], a :: l, rfl, fun _ h => absurd h List.not_mem_nil, ?_⟩
        exact List.forall_mem_cons.mpr ⟨Nat.not_lt.mp hlt, fun b hb =>
          Nat.le_trans (Nat.not_lt.mp hlt) (ha b hb)⟩

/-- The entries of the scan. -/
theorem mem_entries {input : AnalysisData} {entry : Entry}
    (h : entry ∈ (Gather.scan input).byLocation.toList) :
    entry.2.2 ≠ [] ∧ ∀ id, id ∈ entry.2.2 ↔ CollectedAt input.rows entry.1 id := by
  obtain ⟨location, len, ids⟩ := entry
  have hget := Std.TreeMap.mem_toList_iff_getElem?_eq_some.mp h
  obtain ⟨hne, hids⟩ := (scanned_scan input).entry location len ids hget
  exact ⟨hne, fun id => (hids id).trans collectedAt_iff_visits.symm⟩

theorem exists_entry {input : AnalysisData} {location : Location} {id : ContextId}
    (h : CollectedAt input.rows location id) :
    ∃ entry ∈ (Gather.scan input).byLocation.toList, entry.1 = location := by
  obtain ⟨v, hv, rfl, -⟩ := collectedAt_iff_visits.mp h
  obtain ⟨entry, hentry⟩ := (scanned_scan input).key v hv
  exact ⟨(v.1.location, entry), Std.TreeMap.mem_toList_iff_getElem?_eq_some.mpr hentry, rfl⟩

/-- Linked contexts are contexts of one node. -/
theorem exists_row_of_linked {input : AnalysisData} {ids : List ContextId} {id : ContextId}
    {location : Location} (hids : ∀ c ∈ ids, CollectedAt input.rows location c)
    (h : Linked (Gather.scan input).siblings ids id) :
    ∃ row ∈ input.rows, ∃ c ∈ row, ∃ c' ∈ row,
      CollectedAt input.rows location c.contextId ∧ c'.contextId = id := by
  obtain ⟨c, hc, rfl | ⟨row, hrow, sub, hsub, hid⟩⟩ := h
  · obtain ⟨row, hrow, ctx, hctx, hlocation, rfl⟩ := hids id hc
    exact ⟨row, hrow, ctx, hctx, ctx, hctx, ⟨row, hrow, ctx, hctx, hlocation, rfl⟩, rfl⟩
  · obtain ⟨v, hv, rfl, hvid⟩ := (scanned_scan input).siblings c row hrow
    obtain ⟨row, hmem, hv⟩ := List.mem_flatMap.mp hv
    obtain ⟨ctx, hctx, rfl⟩ := List.mem_map.mp hv
    refine ⟨row, hmem, ctx, hctx, sub, hsub, ?_, hid⟩
    rw [hvid]
    exact hids c hc

theorem numbered_start (siblings : HashMap ContextId (List Context)) (texts : List Text) :
    Numbered siblings texts.length
      { contexts := HashMap.empty, index := 0, buffersCtx := texts.map fun _ => [] } [] where
  inOrder := rfl
  named _ h := absurd h List.not_mem_nil
  complete _ h := absurd h List.not_mem_nil
  origin _ _ h := by cases h
  buffersCtx := by simp [spansOf, List.map_const']

/-- The loop comes to the locations of the buffers first, and those behind them change
neither what is shown nor the numbers that are given. -/
theorem exists_done (input : AnalysisData) : ∃ p done,
    Numbered (Gather.scan input).siblings input.buffers.length p done ∧
      done.map Prod.fst = (Gather.scan input).byLocation.toList.filter
        (fun entry => entry.1.bufferIdx < input.buffers.length) ∧
      (preprocess input).shown = done.map Shown.mark ∧
      ∀ id n, p.contexts.get id = some n → (preprocess input).contexts.get id = some n := by
  have hsorted : (Gather.scan input).byLocation.toList.Pairwise fun a b =>
      a.1.bufferIdx ≤ b.1.bufferIdx :=
    Std.TreeMap.ordered_keys_toList.imp Location.Before.bufferIdx_le
  obtain ⟨low, high, hsplit, hlow, hhigh⟩ := exists_cut hsorted input.buffers.length
  have hne : ∀ entry ∈ low ++ high, entry.2.2 ≠ [] := by
    rw [← hsplit]
    exact fun entry hentry => (mem_entries hentry).1
  obtain ⟨done, hdone, hnumbered, -⟩ := (numbered_start (Gather.scan input).siblings
    input.buffers).foldl fun entry h => hne entry (List.mem_append_left _ h)
  obtain ⟨more, hmore, hall, hgrown⟩ :=
    hnumbered.foldl fun entry h => hne entry (List.mem_append_right _ h)
  rw [List.nil_append] at hnumbered hall
  rw [← List.foldl_append, ← hsplit] at hall hgrown
  have hlowMark : ∀ s ∈ done, s.1.1.bufferIdx < input.buffers.length := fun s hs =>
    hlow s.1 (hdone ▸ List.mem_map_of_mem hs)
  have hhighMark : ∀ s ∈ more, ¬ s.1.1.bufferIdx < input.buffers.length := fun s hs =>
    Nat.not_lt.mpr (hhigh s.1 (hmore ▸ List.mem_map_of_mem hs))
  refine ⟨_, done, hnumbered, ?_, ?_, hgrown⟩
  · rw [hsplit, List.filter_append, hdone, List.filter_eq_self.mpr, List.filter_eq_nil_iff.mpr,
      List.append_nil]
    · exact fun entry h => by simpa using hhigh entry h
    · exact fun entry h => decide_eq_true (hlow entry h)
  · rw [hsplit, ← hdone, ← hmore, ← List.map_append, List.pairwise_map] at hsorted
    have heq := shown_eq input.buffers hsorted
    rw [← hall.buffersCtx, List.filter_append, List.filter_eq_self.mpr, List.filter_eq_nil_iff.mpr,
      List.append_nil] at heq
    · exact heq
    · exact fun s hs => by simpa using hhighMark s hs
    · exact fun s hs => decide_eq_true (hlowMark s hs)

/-- What one could expect of the numbers: a number for each context and one for each
location. -/
structure NumbersContexts (input : AnalysisData) : Prop where
  total : ∀ location id, CollectedAt input.rows location id →
    ((preprocess input).contexts.get id).isSome
  sameLocation : ∀ location id id', CollectedAt input.rows location id →
    CollectedAt input.rows location id' →
      (preprocess input).contexts.get id = (preprocess input).contexts.get id'
  distinct : ∀ s ∈ (preprocess input).shown, ∀ t ∈ (preprocess input).shown, s.2 = t.2 → s = t
  inOrder : ∃ k, (preprocess input).shown.map Prod.snd = List.range k

/-- A node that is about two places of the query. -/
def twoPlaces : AnalysisData :=
  { buffers := ["select 1 + 2".toList]
    fineGrained := some (.node [⟨7, 8, 0, 0⟩, ⟨11, 12, 0, 1⟩] [])
    coarseGrained := none
    debugInfo := none
    arguments := { execute := true, buffers := false } }

end GelCli.Analyze
