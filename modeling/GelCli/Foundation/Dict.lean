import Mathlib.Data.List.Nodup
import Mathlib.Data.List.Perm.Basic

/-!
# Dictionaries in insertion order

A mapping whose iteration order is the order in which its keys were first
written. Writing a key again keeps its place and replaces its value.
-/

namespace GelCli.Foundation

universe u v

structure Dict (κ : Type u) (υ : Type v) where
  items : List (κ × υ)
  nodup : (items.map Prod.fst).Nodup

namespace Dict

variable {κ : Type u} {υ : Type v} [DecidableEq κ]

omit [DecidableEq κ] in
@[ext] theorem ext {d d' : Dict κ υ} (h : d.items = d'.items) : d = d' := by
  cases d
  cases d'
  cases h
  rfl

def empty : Dict κ υ := ⟨[], List.nodup_nil⟩

def keys (d : Dict κ υ) : List κ := d.items.map Prod.fst

def get (d : Dict κ υ) (k : κ) : Option υ := (d.items.find? fun item => item.1 = k).map Prod.snd

/-- The items after `d[k] = v`. -/
def setItems (k : κ) (v : υ) : List (κ × υ) → List (κ × υ)
  | [] => [(k, v)]
  | item :: rest => if item.1 = k then (k, v) :: rest else item :: setItems k v rest

theorem mem_keys_setItems {k j : κ} {v : υ} {items : List (κ × υ)} :
    j ∈ (setItems k v items).map Prod.fst ↔ j = k ∨ j ∈ items.map Prod.fst := by
  induction items with
  | nil => simp [setItems]
  | cons item rest ih =>
      unfold setItems
      split
      · next h => simp [h]
      · rw [List.map_cons, List.mem_cons, ih, List.map_cons, List.mem_cons]
        exact or_left_comm

theorem nodup_setItems {k : κ} {v : υ} {items : List (κ × υ)} (h : (items.map Prod.fst).Nodup) :
    ((setItems k v items).map Prod.fst).Nodup := by
  induction items with
  | nil => exact List.nodup_singleton k
  | cons item rest ih =>
      obtain ⟨hmem, hrest⟩ := List.nodup_cons.mp h
      unfold setItems
      split
      · next hk => exact List.nodup_cons.mpr ⟨hk ▸ hmem, hrest⟩
      · next hk =>
        refine List.nodup_cons.mpr ⟨fun hin => ?_, ih hrest⟩
        rcases mem_keys_setItems.mp hin with hin | hin
        · exact hk hin
        · exact hmem hin

/-- `d[k] = v`. -/
def set (d : Dict κ υ) (k : κ) (v : υ) : Dict κ υ := ⟨setItems k v d.items, nodup_setItems d.nodup⟩

theorem setItems_of_notMem {k : κ} {v : υ} {items : List (κ × υ)} (h : k ∉ items.map Prod.fst) :
    setItems k v items = items ++ [(k, v)] := by
  induction items with
  | nil => rfl
  | cons item rest ih =>
      obtain ⟨hhead, hrest⟩ := not_or.mp (mt List.mem_cons.mpr h)
      rw [setItems, if_neg (Ne.symm hhead), ih hrest]
      rfl

/-- A new key is written at the end. -/
theorem items_set_of_notMem {d : Dict κ υ} {k : κ} {v : υ} (h : k ∉ d.keys) :
    (d.set k v).items = d.items ++ [(k, v)] :=
  setItems_of_notMem h

theorem setItems_setItems (k : κ) (u v : υ) (items : List (κ × υ)) :
    setItems k v (setItems k u items) = setItems k v items := by
  induction items with
  | nil => simp [setItems]
  | cons item rest ih =>
      by_cases h : item.1 = k
      · simp [setItems, h]
      · simp [setItems, h, ih]

/-- Of two writes the last one counts. -/
theorem set_set (d : Dict κ υ) (k : κ) (u v : υ) : (d.set k u).set k v = d.set k v :=
  ext (setItems_setItems k u v d.items)

/-! ## Lookups -/

theorem get_eq_some {d : Dict κ υ} {k : κ} {v : υ} : d.get k = some v ↔ (k, v) ∈ d.items := by
  unfold get
  constructor
  · intro h
    obtain ⟨⟨k', v'⟩, hfind, rfl⟩ := Option.map_eq_some_iff.mp h
    have hk : k' = k := by simpa using List.find?_some hfind
    exact hk ▸ List.mem_of_find?_eq_some hfind
  · intro h
    have hsome : (d.items.find? fun item => item.1 = k).isSome := by
      rw [List.find?_isSome]
      exact ⟨_, h, by simp⟩
    obtain ⟨⟨k', v'⟩, hfind⟩ := Option.isSome_iff_exists.mp hsome
    have hk : k' = k := by simpa using List.find?_some hfind
    -- keys do not repeat, so the item that was found is the item that is there
    have heq : ((k', v') : κ × υ) = (k, v) :=
      List.inj_on_of_nodup_map d.nodup (List.mem_of_find?_eq_some hfind) h hk
    rw [hfind, heq]
    rfl

theorem mem_keys_iff {d : Dict κ υ} {k : κ} : k ∈ d.keys ↔ ∃ v, d.get k = some v := by
  constructor
  · intro h
    obtain ⟨⟨_, v⟩, hmem, rfl⟩ := List.mem_map.mp h
    exact ⟨v, get_eq_some.mpr hmem⟩
  · rintro ⟨v, h⟩
    exact List.mem_map.mpr ⟨(k, v), get_eq_some.mp h, rfl⟩

theorem get_set (d : Dict κ υ) (k j : κ) (v : υ) :
    (d.set k v).get j = if j = k then some v else d.get j := by
  unfold get set
  simp only
  induction d.items with
  | nil => by_cases h : j = k <;> simp [setItems, h, Ne.symm]
  | cons item rest ih =>
      unfold setItems
      by_cases hk : item.1 = k
      · by_cases hj : j = k
        · simp [hk, hj]
        · simp [hk, hj, Ne.symm hj]
      · by_cases hj : item.1 = j
        · have : j ≠ k := fun h => hk (hj.trans h)
          simp [hj, this]
        · simpa [hk, hj] using ih

/-- `del d[k]`, where a missing key is no error. -/
def erase (d : Dict κ υ) (k : κ) : Dict κ υ where
  items := d.items.filter fun item => item.1 ≠ k
  nodup := d.nodup.sublist (List.filter_sublist.map Prod.fst)

theorem get_erase (d : Dict κ υ) (k j : κ) :
    (d.erase k).get j = if j = k then none else d.get j := by
  unfold get erase
  simp only
  rw [List.find?_filter]
  split
  · next h =>
    subst h
    rw [Option.map_eq_none_iff, List.find?_eq_none]
    simp
  · next h =>
    congr 2
    funext item
    by_cases hitem : item.1 = j
    · simp [hitem, h]
    · simp [hitem]

/-- A key that is there is there once. -/
theorem items_perm_cons_erase {d : Dict κ υ} {k : κ} {v : υ} (h : d.get k = some v) :
    d.items.Perm ((k, v) :: (d.erase k).items) := by
  have hmem := get_eq_some.mp h
  have hnodup : d.items.Nodup := List.Nodup.of_map _ d.nodup
  have hrest : ((k, v) :: (d.erase k).items).Nodup :=
    List.nodup_cons.mpr ⟨by simp [erase], hnodup.filter _⟩
  refine (List.perm_ext_iff_of_nodup hnodup hrest).mpr fun item => ?_
  rw [List.mem_cons, erase, List.mem_filter, decide_eq_true_eq]
  constructor
  · intro hitem
    by_cases hk : item.1 = k
    · exact .inl (List.inj_on_of_nodup_map d.nodup hitem hmem hk)
    · exact .inr ⟨hitem, hk⟩
  · rintro (rfl | ⟨hitem, -⟩)
    · exact hmem
    · exact hitem

theorem erase_of_get_eq_none {d : Dict κ υ} {k : κ} (h : d.get k = none) : d.erase k = d := by
  refine ext (List.filter_eq_self.mpr ?_)
  rintro ⟨j, v⟩ hmem
  rw [decide_eq_true_eq]
  rintro rfl
  rw [get_eq_some.mpr hmem] at h
  cases h

/-- Writing new keys one after the other lists them in that order. -/
theorem items_foldl_set {ι : Type*} {key : ι → κ} {val : ι → υ} {l : List ι} {d : Dict κ υ}
    (h : (d.keys ++ l.map key).Nodup) :
    (l.foldl (fun d x => d.set (key x) (val x)) d).items =
      d.items ++ l.map fun x => (key x, val x) := by
  induction l generalizing d with
  | nil => simp
  | cons x l ih =>
      obtain ⟨-, -, hdisjoint⟩ := List.nodup_append.mp h
      have hnew : key x ∉ d.keys := fun hin => hdisjoint _ hin _ (by simp) rfl
      have hitems : (d.set (key x) (val x)).items = d.items ++ [(key x, val x)] :=
        items_set_of_notMem hnew
      rw [List.foldl_cons, ih, hitems]
      · simp
      · simpa [keys, hitems] using h

/-- Setting a key that is there leaves the keys as they are. -/
theorem keys_set_of_mem {d : Dict κ υ} {k : κ} {v : υ} (h : k ∈ d.keys) :
    (d.set k v).keys = d.keys := by
  have hitems : ∀ items : List (κ × υ), k ∈ items.map Prod.fst →
      (setItems k v items).map Prod.fst = items.map Prod.fst := by
    intro items hk
    induction items with
    | nil => cases hk
    | cons item rest ih =>
        unfold setItems
        by_cases hitem : item.1 = k
        · simp [hitem]
        · rw [if_neg hitem, List.map_cons, List.map_cons, ih]
          exact (List.mem_cons.mp hk).resolve_left (Ne.symm hitem)
  exact hitems d.items h

/-- Setting a key that is there replaces its item. -/
theorem items_set_of_mem {d : Dict κ υ} {k : κ} {v : υ} (h : k ∈ d.keys) :
    (d.set k v).items = d.items.map fun item => if item.1 = k then (k, v) else item := by
  have hitems : ∀ items : List (κ × υ), (items.map Prod.fst).Nodup → k ∈ items.map Prod.fst →
      setItems k v items = items.map fun item => if item.1 = k then (k, v) else item := by
    intro items hnodup hk
    induction items with
    | nil => cases hk
    | cons item rest ih =>
        obtain ⟨hitem, hrest⟩ := List.nodup_cons.mp hnodup
        unfold setItems
        rw [List.map_cons]
        by_cases heq : item.1 = k
        · rw [if_pos heq, if_pos heq]
          -- the key is nowhere else
          have hsame : ∀ other ∈ rest, (if other.1 = k then (k, v) else other) = other := by
            intro other hother
            refine if_neg fun hk' => hitem ?_
            rw [heq, ← hk']
            exact List.mem_map_of_mem hother
          rw [List.map_congr_left hsame, List.map_id']
        · rw [if_neg heq, if_neg heq, ih hrest]
          exact (List.mem_cons.mp hk).resolve_left (Ne.symm heq)
  exact hitems d.items d.nodup h

/-- Setting a key that is there leaves the items before and behind it as they are. -/
theorem items_set_split {d : Dict κ υ} {k : κ} {u : υ} (h : d.get k = some u) :
    ∃ before behind, d.items = before ++ (k, u) :: behind ∧
      ∀ v, (d.set k v).items = before ++ (k, v) :: behind := by
  obtain ⟨before, behind, hitems⟩ := List.append_of_mem (get_eq_some.mp h)
  refine ⟨before, behind, hitems, fun v => ?_⟩
  have hnodup := d.nodup
  rw [hitems, List.map_append, List.map_cons, List.nodup_append, List.nodup_cons] at hnodup
  obtain ⟨-, ⟨hbehind, -⟩, hbefore⟩ := hnodup
  have hne : ∀ item ∈ before ++ behind, item.1 ≠ k := by
    intro item hitem hk
    rcases List.mem_append.mp hitem with hitem | hitem
    · exact hbefore _ (List.mem_map_of_mem hitem) _ List.mem_cons_self hk
    · exact hbehind (List.mem_map.mpr ⟨item, hitem, hk⟩)
  have hsame : ∀ items : List (κ × υ), (∀ item ∈ items, item ∈ before ++ behind) →
      items.map (fun item => if item.1 = k then (k, v) else item) = items := by
    intro items hmem
    rw [List.map_congr_left fun item hitem => if_neg (hne item (hmem item hitem)), List.map_id']
  rw [items_set_of_mem (mem_keys_iff.mpr ⟨u, h⟩), hitems, List.map_append, List.map_cons,
    if_pos rfl, hsame before fun item => List.mem_append_left _,
    hsame behind fun item => List.mem_append_right _]

/-- What a changed value does not change. -/
theorem flatMap_items_set {α : Type*} {d : Dict κ υ} {k : κ} {u v : υ} {f : κ × υ → List α}
    (h : d.get k = some u) (hf : f (k, v) = f (k, u)) :
    (d.set k v).items.flatMap f = d.items.flatMap f := by
  obtain ⟨before, behind, hitems, hset⟩ := items_set_split h
  rw [hitems, hset, List.flatMap_append, List.flatMap_append, List.flatMap_cons, List.flatMap_cons,
    hf]

/-- What is there after setting several keys. -/
theorem mem_items_foldl_set {l : List (κ × υ)} (hl : (l.map Prod.fst).Nodup) {d : Dict κ υ}
    {item : κ × υ} : item ∈ (l.foldl (fun d x => d.set x.1 x.2) d).items ↔
      item ∈ l ∨ item.1 ∉ l.map Prod.fst ∧ item ∈ d.items := by
  induction l generalizing d with
  | nil => simp
  | cons x l ih =>
      rw [List.map_cons, List.nodup_cons] at hl
      have hset : item ∈ (d.set x.1 x.2).items ↔ item = x ∨ item.1 ≠ x.1 ∧ item ∈ d.items := by
        obtain ⟨k, v⟩ := item
        rw [← get_eq_some, get_set, ← get_eq_some]
        by_cases hk : k = x.1
        · subst hk
          simp [Prod.ext_iff, eq_comm]
        · simp [hk, Prod.ext_iff]
      rw [List.foldl_cons, ih hl.2, hset, List.mem_cons, List.map_cons, List.mem_cons, not_or]
      constructor
      · rintro (h | ⟨hl, rfl | ⟨hne, h⟩⟩)
        · exact .inl (.inr h)
        · exact .inl (.inl rfl)
        · exact .inr ⟨⟨hne, hl⟩, h⟩
      · rintro ((rfl | h) | ⟨⟨hne, hl⟩, h⟩)
        · exact .inr ⟨hl.1, .inl rfl⟩
        · exact .inl h
        · exact .inr ⟨hl, .inr ⟨hne, h⟩⟩

/-- What the items of a dictionary are mapped to does not repeat if it tells the keys. -/
theorem nodup_filterMap {β : Type*} {d : Dict κ υ} {f : κ × υ → Option β}
    (hf : ∀ k k' v v' b, d.get k = some v → d.get k' = some v' → f (k, v) = some b →
      f (k', v') = some b → k = k') : (d.items.filterMap f).Nodup := by
  have hkeys : d.items.Pairwise fun item item' => item.1 ≠ item'.1 := List.pairwise_map.mp d.nodup
  refine List.pairwise_filterMap.mpr (hkeys.imp_of_mem ?_)
  rintro ⟨k, v⟩ ⟨k', v'⟩ hitem hitem' hne b hb b' hb' rfl
  exact hne (hf k k' v v' b (get_eq_some.mpr hitem) (get_eq_some.mpr hitem') hb hb')

end Dict

end GelCli.Foundation
