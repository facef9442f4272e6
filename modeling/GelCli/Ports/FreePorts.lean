import GelCli.Ports.Sequential

/-!
# The ports that are offered

Behind a port in use that is below the first one to try, the search goes on from that
port, and offers what is free between the two.
-/

namespace GelCli.Ports.NextMinPort

open GelCli.Foundation

/-! ## The whole search -/

/-- `self.prev + 1` is evaluated for the largest port. -/
def overflowsFrom (prev : UInt16) : List UInt16 → Prop
  | [] => False
  | next :: reserved => prev = 65535 ∨ ¬ next > prev + 1 ∧ overflowsFrom next reserved

/-- What a loop over the iterator is given, none of its turns overflowing. -/
inductive Yields : NextMinPort → List UInt16 → Prop where
  | nil {it it' : NextMinPort} (hsafe : ¬ overflowsFrom it.prev it.reserved)
      (hnext : it.next = (none, it')) : Yields it []
  | cons {it it' : NextMinPort} {port : UInt16} {ports : List UInt16}
      (hsafe : ¬ overflowsFrom it.prev it.reserved) (hnext : it.next = (some port, it'))
      (h : Yields it' ports) : Yields it (port :: ports)

theorem Yields.unique {it : NextMinPort} {ports ports' : List UInt16} (h : Yields it ports)
    (h' : Yields it ports') : ports = ports' := by
  induction h generalizing ports' with
  | nil _ hnext =>
      cases h' with
      | nil => rfl
      | cons _ hnext' =>
          rw [hnext] at hnext'
          cases hnext'
  | cons _ hnext _ ih =>
      cases h' with
      | nil _ hnext' =>
          rw [hnext] at hnext'
          cases hnext'
      | cons _ hnext' h' =>
          rw [hnext] at hnext'
          cases hnext'
          rw [ih h']

/-- A port that is not ahead is dropped without anything being offered. -/
theorem Yields.skip {prev low : UInt16} {reserved ports : List UInt16} (hprev : prev ≠ 65535)
    (hlow : ¬ low > prev + 1) (h : Yields ⟨reserved, low⟩ ports) :
    Yields ⟨low :: reserved, prev⟩ ports := by
  have hsafe : ¬ overflowsFrom low reserved → ¬ overflowsFrom prev (low :: reserved) := by
    rintro hsafe (heq | ⟨-, hover⟩)
    · exact hprev heq
    · exact hsafe hover
  have hsame : (⟨low :: reserved, prev⟩ : NextMinPort).next = next ⟨reserved, low⟩ := by
    rw [next, next, nextFrom, if_neg hlow]
  cases h with
  | nil hsafe' hnext => exact .nil (hsafe hsafe') (hsame.trans hnext)
  | cons hsafe' hnext h => exact .cons (hsafe hsafe') (hsame.trans hnext) h

/-! ## Behind a port -/

/-- The ports behind `prev` that are not in use, in their order. -/
def freeAfter (prev : UInt16) (used : List UInt16) : List UInt16 :=
  ((List.range' (prev.toNat + 1) (65535 - prev.toNat)).map UInt16.ofNat).filter (· ∉ used)

theorem toNat_ofNat_of_mem {prev : UInt16} {i : Nat}
    (h : i ∈ List.range' (prev.toNat + 1) (65535 - prev.toNat)) : (UInt16.ofNat i).toNat = i := by
  rw [List.mem_range'_1] at h
  refine UInt16.toNat_ofNat_of_lt' ?_
  show i < 65536
  omega

theorem freeAfter_last (used : List UInt16) : freeAfter 65535 used = [] := rfl

theorem freeAfter_succ {prev : UInt16} (h : prev.toNat < 65535) (used : List UInt16) :
    freeAfter prev used =
      if prev + 1 ∈ used then freeAfter (prev + 1) used
      else (prev + 1) :: freeAfter (prev + 1) used := by
  have hsucc := toNat_succ h
  have hport : UInt16.ofNat (prev.toNat + 1) = prev + 1 := by
    rw [← hsucc, UInt16.ofNat_toNat]
  obtain ⟨n, hn⟩ : ∃ n, 65535 - prev.toNat = n + 1 := ⟨65535 - prev.toNat - 1, by omega⟩
  have hrest : 65535 - (prev + 1).toNat = n := by omega
  rw [freeAfter, freeAfter, hn, hrest, hsucc, List.range'_succ, List.map_cons, List.filter_cons,
    hport]
  by_cases hmem : prev + 1 ∈ used <;> simp [hmem]

theorem mem_freeAfter {prev port : UInt16} {used : List UInt16} :
    port ∈ freeAfter prev used ↔ prev < port ∧ port ∉ used := by
  have hbound := port.toNat_lt
  rw [freeAfter, List.mem_filter, decide_eq_true_iff, UInt16.lt_iff_toNat_lt]
  refine and_congr_left fun _ => ?_
  rw [List.mem_map]
  constructor
  · rintro ⟨i, hi, rfl⟩
    rw [toNat_ofNat_of_mem hi]
    exact (List.mem_range'_1.mp hi).1
  · intro hlt
    exact ⟨port.toNat, List.mem_range'_1.mpr (by omega), UInt16.ofNat_toNat⟩

theorem freeAfter_congr {prev : UInt16} {used used' : List UInt16}
    (h : ∀ port, prev < port → (port ∈ used ↔ port ∈ used')) :
    freeAfter prev used = freeAfter prev used' := by
  refine List.filter_congr fun port hport => ?_
  obtain ⟨i, hi, rfl⟩ := List.mem_map.mp hport
  have hlt : prev < UInt16.ofNat i := by
    rw [UInt16.lt_iff_toNat_lt, toNat_ofNat_of_mem hi]
    exact (List.mem_range'_1.mp hi).1
  rw [decide_eq_decide, h _ hlt]

/-- **What is offered behind a port** when all reserved ones are ahead of it. -/
theorem yields_freeAfter {prev : UInt16} {reserved : List UInt16}
    (hsorted : reserved.Pairwise (· < ·)) (hahead : ∀ port ∈ reserved, prev < port) :
    Yields ⟨reserved, prev⟩ (freeAfter prev reserved) := by
  obtain ⟨n, hn⟩ : ∃ n, 65535 - prev.toNat = n := ⟨_, rfl⟩
  induction n generalizing prev reserved with
  | zero =>
      have hbound := prev.toNat_lt
      obtain rfl : prev = 65535 := UInt16.toNat_inj.mp (by
        show prev.toNat = 65535
        omega)
      cases reserved with
      | nil =>
          rw [freeAfter_last]
          exact .nil (fun h => h) rfl
      | cons port reserved =>
          have hport := UInt16.lt_iff_toNat_lt.mp (hahead port List.mem_cons_self)
          have hlast := port.toNat_lt
          have : (65535 : UInt16).toNat = 65535 := rfl
          omega
  | succ n ih =>
      have hlt : prev.toNat < 65535 := by omega
      have hsucc := toNat_succ hlt
      have hne : prev ≠ 65535 := by
        rintro rfl
        exact Nat.lt_irrefl _ hlt
      have hstep : 65535 - (prev + 1).toNat = n := by omega
      cases reserved with
      | nil =>
          have hnext : (⟨[], prev⟩ : NextMinPort).next = (some (prev + 1), ⟨[], prev + 1⟩) := by
            rw [next, nextFrom, checkedSucc, saturatingSucc, if_neg hne, if_neg hne]
          rw [freeAfter_succ hlt, if_neg List.not_mem_nil]
          exact .cons (fun h => h) hnext (ih .nil (fun port hport => by cases hport) hstep)
      | cons low reserved =>
          obtain ⟨hhead, htail⟩ := List.pairwise_cons.mp hsorted
          have hlow := UInt16.lt_iff_toNat_lt.mp (hahead low List.mem_cons_self)
          by_cases hgap : low > prev + 1
          · have hgap' := UInt16.lt_iff_toNat_lt.mp hgap
            have hahead' : ∀ port ∈ low :: reserved, prev + 1 < port := by
              rw [List.forall_mem_cons]
              exact ⟨hgap, fun port hport => UInt16.lt_trans hgap (hhead port hport)⟩
            have hnext : (⟨low :: reserved, prev⟩ : NextMinPort).next =
                (some (prev + 1), ⟨low :: reserved, prev + 1⟩) := by
              rw [next, nextFrom, if_pos hgap]
            rw [freeAfter_succ hlt, if_neg fun h => UInt16.lt_irrefl _ (hahead' _ h)]
            refine .cons ?_ hnext (ih hsorted hahead' hstep)
            rintro (heq | ⟨hnot, -⟩)
            · exact hne heq
            · exact hnot hgap
          · -- the reserved port is the next one
            have hle : low.toNat ≤ (prev + 1).toNat :=
              Nat.le_of_not_lt fun h => hgap (UInt16.lt_iff_toNat_lt.mpr h)
            obtain rfl : low = prev + 1 := UInt16.toNat_inj.mp (by omega)
            have hfree : freeAfter (prev + 1) ((prev + 1) :: reserved) =
                freeAfter (prev + 1) reserved := by
              refine freeAfter_congr fun port hport => ?_
              rw [List.mem_cons, or_iff_right]
              rintro rfl
              exact UInt16.lt_irrefl _ hport
            rw [freeAfter_succ hlt, if_pos List.mem_cons_self, hfree]
            exact (ih htail hhead hstep).skip hne hgap

theorem pairwise_freeAfter (prev : UInt16) (used : List UInt16) :
    (freeAfter prev used).Pairwise (· < ·) := by
  refine List.Pairwise.filter _ ?_
  rw [List.pairwise_map]
  refine List.Pairwise.imp_of_mem ?_ List.pairwise_lt_range'
  intro i j hi hj hlt
  rw [UInt16.lt_iff_toNat_lt, toNat_ofNat_of_mem hi, toNat_ofNat_of_mem hj]
  exact hlt

/-! ## What is offered -/

/-- The ports from the first one to try up that no name has reserved, each once and in
increasing order. -/
def OffersFree (used : List UInt16) (ports : List UInt16) : Prop :=
  ports.Pairwise (· < ·) ∧ ∀ port, port ∈ ports ↔ minPort ≤ port ∧ port ∉ used

/-- Where a search starts: behind the first port in use, if it is a lower one. -/
theorem exists_start {Name : Type} (portMap : PortMap Name) :
    ∃ start, Yields (search portMap) (freeAfter start (portMap.items.map Prod.snd)) ∧
      start < minPort ∧ (start = minPort - 1 ∨ start ∈ portMap.items.map Prod.snd) ∧
      ∀ port ∈ portMap.items.map Prod.snd, port < minPort → start ≤ port := by
  have hfirst : (minPort - 1).toNat + 1 = minPort.toNat := by decide
  cases hsorted : sorted (portMap.items.map Prod.snd) with
  | nil =>
      have hnone : ∀ port, port ∉ portMap.items.map Prod.snd := by
        intro port hport
        rw [← mem_sorted, hsorted] at hport
        cases hport
      refine ⟨minPort - 1, ?_, by decide, .inl rfl, fun port hport => absurd hport (hnone port)⟩
      rw [search, hsorted, freeAfter_congr fun port _ => iff_of_false (hnone port) List.not_mem_nil]
      exact yields_freeAfter .nil fun port hport => by cases hport
  | cons low reserved =>
      have hpairwise := pairwise_sorted (portMap.items.map Prod.snd)
      rw [hsorted] at hpairwise
      obtain ⟨hhead, htail⟩ := List.pairwise_cons.mp hpairwise
      have hused : ∀ port, port ∈ portMap.items.map Prod.snd ↔ port ∈ low :: reserved := by
        intro port
        rw [← mem_sorted, hsorted]
      have hleast : ∀ port ∈ portMap.items.map Prod.snd, low ≤ port := by
        intro port hport
        rcases List.mem_cons.mp ((hused port).mp hport) with rfl | hport
        · exact UInt16.le_refl _
        · exact UInt16.le_of_lt (hhead port hport)
      by_cases hlow : minPort - 1 < low
      · -- nothing in use is below the first port
        refine ⟨minPort - 1, ?_, by decide, .inl rfl, fun port hport _ => ?_⟩
        · rw [search, hsorted, freeAfter_congr fun port _ => hused port]
          refine yields_freeAfter hpairwise ?_
          rw [List.forall_mem_cons]
          exact ⟨hlow, fun port hport => UInt16.lt_trans hlow (hhead port hport)⟩
        · exact UInt16.le_of_lt (UInt16.lt_of_lt_of_le hlow (hleast port hport))
      · have hlow' : low.toNat ≤ (minPort - 1).toNat :=
          Nat.le_of_not_lt fun h => hlow (UInt16.lt_iff_toNat_lt.mpr h)
        refine ⟨low, ?_, ?_, .inr ((hused low).mpr List.mem_cons_self), fun port hport _ =>
          hleast port hport⟩
        · have hfree : freeAfter low (portMap.items.map Prod.snd) = freeAfter low reserved := by
            refine freeAfter_congr fun port hport => ?_
            rw [hused, List.mem_cons, or_iff_right]
            rintro rfl
            exact UInt16.lt_irrefl _ hport
          rw [search, hsorted, hfree]
          refine (yields_freeAfter htail hhead).skip (by decide) fun h => ?_
          have h : (minPort - 1 + 1).toNat < low.toNat := UInt16.lt_iff_toNat_lt.mp h
          have hsame : (minPort - 1 + 1).toNat = minPort.toNat := by decide
          omega
        · rw [UInt16.lt_iff_toNat_lt]
          omega

/-- **The search offers exactly the free ports** iff no port below the first one to try is
free behind one in use. -/
theorem search_offersFree_iff {Name : Type} (portMap : PortMap Name) :
    (∃ ports, Yields (search portMap) ports ∧
      OffersFree (portMap.items.map Prod.snd) ports) ↔
      ∀ low ∈ portMap.items.map Prod.snd, ∀ port, low < port → port < minPort →
        port ∈ portMap.items.map Prod.snd := by
  obtain ⟨start, hyields, hstart, horigin, hleast⟩ := exists_start portMap
  constructor
  · rintro ⟨ports, hports, -, hoffers⟩ low hlow port hlt hmin
    obtain rfl := hports.unique hyields
    by_contra hfree
    have hoffered : port ∈ freeAfter start (portMap.items.map Prod.snd) :=
      mem_freeAfter.mpr ⟨UInt16.lt_of_le_of_lt (hleast low hlow (UInt16.lt_trans hlt hmin)) hlt, hfree⟩
    exact UInt16.not_lt.mpr ((hoffers port).mp hoffered).1 hmin
  · intro h
    refine ⟨_, hyields, pairwise_freeAfter start _, fun port => ?_⟩
    rw [mem_freeAfter]
    refine and_congr_left fun hfree => ?_
    constructor
    · intro hlt
      by_contra hmin
      rcases horigin with rfl | hused
      · have hlt := UInt16.lt_iff_toNat_lt.mp hlt
        have hmin := UInt16.lt_iff_toNat_lt.mp (UInt16.not_le.mp hmin)
        have hfirst : (minPort - 1).toNat + 1 = minPort.toNat := by decide
        omega
      · exact hfree (h start hused port hlt (UInt16.not_le.mp hmin))
    · exact UInt16.lt_of_lt_of_le hstart

/-- One port in use, below the first one to try. -/
def lowPort : PortMap Bool := Dict.empty.set true 80

theorem not_search_offersFree : ¬ ∀ portMap : PortMap Bool, ∃ ports,
    Yields (search portMap) ports ∧ OffersFree (portMap.items.map Prod.snd) ports := by
  intro h
  obtain ⟨ports, hports, -, hoffers⟩ := h lowPort
  have hnext : (search lowPort).next = (some 81, ⟨[], 81⟩) := by decide
  cases hports with
  | nil _ hnext' =>
      rw [hnext] at hnext'
      cases hnext'
  | cons _ hnext' _ =>
      rw [hnext] at hnext'
      cases hnext'
      exact absurd ((hoffers 81).mp List.mem_cons_self).1 (by decide)

end GelCli.Ports.NextMinPort
