import Mathlib.Data.List.Induction

/-!
# Hash maps that are only looked up

Code that never iterates a hash map observes nothing of it but its lookups, so
the map is the finite partial function it denotes. `push` is the
`entry(key).or_insert_with(Vec::new).push(value)` idiom: an index from a key to
the values filed under it, in filing order.
-/

namespace GelCli.Foundation

universe u v

/-- A hash map seen through its lookups. -/
structure HashMap (κ : Type u) (υ : Type v) where
  get : κ → Option υ

namespace HashMap

variable {κ : Type u} {υ : Type v} [DecidableEq κ]

def empty : HashMap κ υ := ⟨fun _ => none⟩

/-- Insertion overwrites: the last value written under a key is the one read. -/
def insert (m : HashMap κ υ) (k : κ) (v : υ) : HashMap κ υ :=
  ⟨fun j => if j = k then some v else m.get j⟩

def push (m : HashMap κ (List υ)) (k : κ) (v : υ) : HashMap κ (List υ) :=
  m.insert k ((m.get k).getD [] ++ [v])

omit [DecidableEq κ] in
@[simp] theorem get_empty (k : κ) : (empty : HashMap κ υ).get k = none := rfl

theorem get_insert (m : HashMap κ υ) (k j : κ) (v : υ) :
    (m.insert k v).get j = if j = k then some v else m.get j := rfl

theorem get_push (m : HashMap κ (List υ)) (k j : κ) (v : υ) :
    (m.push k v).get j =
      if j = k then some ((m.get k).getD [] ++ [v]) else m.get j :=
  get_insert m k j _

/-- `entry(key).or_insert(value)` -/
def orInsert (m : HashMap κ υ) (k : κ) (v : υ) : HashMap κ υ :=
  match m.get k with
  | some _ => m
  | none => m.insert k v

theorem get_orInsert (m : HashMap κ υ) (k j : κ) (v : υ) :
    (m.orInsert k v).get j = if j = k then some ((m.get k).getD v) else m.get j := by
  unfold orInsert
  cases h : m.get k with
  | none => exact get_insert m k j v
  | some w =>
      by_cases hj : j = k
      · rw [if_pos hj, hj]
        exact h
      · exact (if_neg hj).symm

/-- Writing one value under every key of a list. -/
def insertAll (m : HashMap κ υ) (ks : List κ) (v : υ) : HashMap κ υ :=
  ks.foldl (fun m k => m.insert k v) m

theorem get_insertAll (m : HashMap κ υ) (ks : List κ) (v : υ) (j : κ) :
    (m.insertAll ks v).get j = if j ∈ ks then some v else m.get j := by
  induction ks generalizing m with
  | nil => simp [insertAll]
  | cons k ks ih =>
      show ((m.insert k v).insertAll ks v).get j = _
      rw [ih, get_insert]
      by_cases hks : j ∈ ks
      · simp [hks]
      · by_cases hk : j = k <;> simp [hks, hk]

/-- An index built by filing pairs one after the other. -/
def pushAll (m : HashMap κ (List υ)) (kvs : List (κ × υ)) : HashMap κ (List υ) :=
  kvs.foldl (fun m kv => m.push kv.1 kv.2) m

/-- The values filed under `j`, in filing order. -/
def filed (kvs : List (κ × υ)) (j : κ) : List υ :=
  kvs.filterMap fun kv => if kv.1 = j then some kv.2 else none

theorem filed_append (kvs kvs' : List (κ × υ)) (j : κ) :
    filed (kvs ++ kvs') j = filed kvs j ++ filed kvs' j :=
  List.filterMap_append

theorem mem_filed {kvs : List (κ × υ)} {j : κ} {v : υ} :
    v ∈ filed kvs j ↔ (j, v) ∈ kvs := by
  simp only [filed, List.mem_filterMap, Prod.exists, Option.ite_none_right_eq_some,
    Option.some.injEq]
  constructor
  · rintro ⟨k, w, hkw, rfl, rfl⟩
    exact hkw
  · intro h
    exact ⟨j, v, h, rfl, rfl⟩

/-- Filing in one index what `pushAll` files leaves an entry under exactly the
keys that were filed, holding their values in order. -/
theorem get_pushAll (kvs : List (κ × υ)) (j : κ) :
    (empty.pushAll kvs).get j =
      if filed kvs j = [] then none else some (filed kvs j) := by
  induction kvs using List.reverseRecOn with
  | nil => rfl
  | append_singleton kvs kv ih =>
      have hstep : (empty : HashMap κ (List υ)).pushAll (kvs ++ [kv]) =
          (empty.pushAll kvs).push kv.1 kv.2 := by
        simp [pushAll, List.foldl_append]
      have hgetD : ∀ i, i = j → ((empty.pushAll kvs).get i).getD [] = filed kvs j := by
        rintro i rfl
        rw [ih]
        by_cases h : filed kvs i = [] <;> simp [h]
      rw [hstep, get_push, filed_append]
      by_cases hj : j = kv.1
      · rw [if_pos hj, hgetD kv.1 hj.symm]
        simp [filed, hj.symm]
      · have hlast : filed [kv] j = [] := by
          simp [filed, Ne.symm hj]
        rw [if_neg hj, ih, hlast, List.append_nil]

end HashMap

end GelCli.Foundation
