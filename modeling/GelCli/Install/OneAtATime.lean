import GelCli.Install.Package

/-!
# Installing one at a time

The directory of a version is complete and does not change, in the runs in which no
process starts a download while another one uses the cache file of its package, no
process removes the temporary directory while another one uses it, and no write of the
metadata fails unnoticed. Nothing in the source asks for that: the names of both depend
on the package alone.
-/

namespace GelCli.Install

open GelCli.Foundation

variable {Process Name Bytes Digest Entry Info : Type} [DecidableEq Process] [DecidableEq Name]
  [DecidableEq Digest] {setup : Setup Process Name Bytes Digest Entry Info}
  {s t : State Process Name Bytes Entry Info} {p q : Process}

set_option linter.unusedSectionVars false

def OneAtATime (setup : Setup Process Name Bytes Digest Entry Info)
    (s : State Process Name Bytes Entry Info) : Event Process Bytes Entry Info → Prop
  | .create p => ∀ q, q ≠ p → setup.cacheFileName q = setup.cacheFileName p →
      (s.phase q).usesCache = false
  | .removeTmp p | .stopInTmp p _ => ∀ q, q ≠ p → (s.phase q).usesTmp = false
  | .writeInfo _ written => written = true
  | .check _ | .chunk .. | .verify _ | .createTmp _ | .openCache _ | .unpackEntry _ | .rename _
  | .unlinkCache .. | .stop _ => True

/-! ## The invariant -/

/-- The cache file of the package, where it has a name, is a verified one. -/
def Cached (setup : Setup Process Name Bytes Digest Entry Info)
    (s : State Process Name Bytes Entry Info) (p : Process) : Prop :=
  ∀ i, s.cache (setup.cacheFileName p) = some i →
    setup.digest (s.file i).bytes = setup.hash p

/-- What a process knows of the files it works on. -/
def Knows (setup : Setup Process Name Bytes Digest Entry Info)
    (s : State Process Name Bytes Entry Info) (p : Process) : Phase Bytes → Prop
  | .called | .checked | .renamed | .returned | .failed => True
  | .downloading i received => s.file i = ⟨received, some p⟩ ∧
      ∀ j, s.cache (setup.cacheFileName p) = some j → j = i
  | .downloaded | .removed => Cached setup s p
  | .created => Cached setup s p ∧ s.tmpTarget.isSome
  | .unpacking i position => setup.digest (s.file i).bytes = setup.hash p ∧
      ∃ tree, s.tmpTarget = some tree ∧
        ∀ entry ∈ (setup.entries (s.file i).bytes).take position, entry ∈ tree.entries
  | .unpacked => ∃ bytes tree, setup.digest bytes = setup.hash p ∧ s.tmpTarget = some tree ∧
      ∀ entry ∈ setup.entries bytes, entry ∈ tree.entries
  | .described => ∃ tree, s.tmpTarget = some tree ∧ Complete setup tree

structure Sound (setup : Setup Process Name Bytes Digest Entry Info)
    (s : State Process Name Bytes Entry Info) : Prop where
  cacheSole : Sole Phase.usesCache setup.cacheFileName s.phase
  tmpSole : Sole Phase.usesTmp (fun _ => ()) s.phase
  linked : ∀ name other i, s.cache name = some i → s.cache other = some i → name = other
  fresh : ∀ name i, s.cache name = some i → i < s.fresh
  openedFresh : ∀ p i, (s.phase p).opened = some i → i < s.fresh
  openedLinked : ∀ p i name, (s.phase p).opened = some i → s.cache name = some i →
    name = setup.cacheFileName p
  openedOne : ∀ p q i, (s.phase p).opened = some i → (s.phase q).opened = some i → p = q
  knows : ∀ p, Knows setup s p (s.phase p)
  target : ∀ tree, s.targetDir = some tree → Complete setup tree

theorem Phase.usesCache_of_opened {phase : Phase Bytes} {i : Inode}
    (h : phase.opened = some i) : phase.usesCache = true := by
  cases phase with
  | downloading | unpacking => rfl
  | called | checked | downloaded | removed | created | unpacked | described | renamed | returned
  | failed => cases h

/-- Knowledge rests on the file that is open or cached, and on the temporary directory. -/
theorem Knows.frame {phase : Phase Bytes} (h : Knows setup s p phase)
    (hcache : phase.usesCache = true → ∀ i, t.cache (setup.cacheFileName p) = some i →
      s.cache (setup.cacheFileName p) = some i)
    (hopened : ∀ i, phase.opened = some i → t.file i = s.file i)
    (hcached : phase.usesCache = true → ∀ i, s.cache (setup.cacheFileName p) = some i →
      t.file i = s.file i)
    (htmp : phase.usesTmp = true → t.tmpTarget = s.tmpTarget) : Knows setup t p phase := by
  have hkeeps : phase.usesCache = true → Cached setup s p → Cached setup t p := by
    intro huse hs i hi
    have hi := hcache huse i hi
    rw [hcached huse i hi]
    exact hs i hi
  cases phase with
  | called | checked | renamed | returned | failed => trivial
  | downloading i received =>
      refine ⟨(hopened i rfl).trans h.1, fun j hj => ?_⟩
      exact h.2 j (hcache rfl j hj)
  | downloaded => exact hkeeps rfl h
  | removed => exact hkeeps rfl h
  | created => exact ⟨hkeeps rfl h.1, by rw [htmp rfl]; exact h.2⟩
  | unpacking i position =>
      show setup.digest (t.file i).bytes = _ ∧ ∃ tree, t.tmpTarget = some tree ∧
        ∀ entry ∈ (setup.entries (t.file i).bytes).take position, entry ∈ tree.entries
      rw [hopened i rfl, htmp rfl]
      exact h
  | unpacked =>
      obtain ⟨bytes, tree, hverified, htree, hentries⟩ := h
      exact ⟨bytes, tree, hverified, (htmp rfl).trans htree, hentries⟩
  | described =>
      obtain ⟨tree, htree, hcomplete⟩ := h
      exact ⟨tree, (htmp rfl).trans htree, hcomplete⟩

/-! ## One step -/

section Step

variable {new : Phase Bytes}

/-- The files that other processes have open or cached are not those of a process that
uses the cache. -/
theorem Sound.not_shared (h : Sound setup s) {i : Inode} (hp : (s.phase p).opened = some i)
    (hne : q ≠ p) :
    (s.phase q).opened ≠ some i ∧
      ((s.phase q).usesCache = true → s.cache (setup.cacheFileName q) ≠ some i) := by
  refine ⟨fun hq => hne (h.openedOne q p i hq hp), fun huse hq => ?_⟩
  have hname := h.openedLinked p i _ hp hq
  exact hne (h.cacheSole q p huse (Phase.usesCache_of_opened hp) hname)

/-- What a step of one process has to show. -/
theorem Sound.step (h : Sound setup s) (hphase : t.phase = Function.update s.phase p new)
    (husesCache : new.usesCache = true → (s.phase p).usesCache = true ∨
      ∀ q, q ≠ p → setup.cacheFileName q = setup.cacheFileName p → (s.phase q).usesCache = false)
    (husesTmp : new.usesTmp = true → (s.phase p).usesTmp = true ∨
      ∀ q, q ≠ p → (s.phase q).usesTmp = false)
    (hlinked : ∀ name other i, t.cache name = some i → t.cache other = some i → name = other)
    (hfresh : ∀ name i, t.cache name = some i → i < t.fresh) (hle : s.fresh ≤ t.fresh)
    (hopened : ∀ i, new.opened = some i → i < t.fresh ∧
      (∀ name, t.cache name = some i → name = setup.cacheFileName p) ∧
      ∀ q, q ≠ p → (s.phase q).opened ≠ some i)
    (hcache : ∀ q i name, (s.phase q).opened = some i → t.cache name = some i →
      s.cache name = some i)
    (hothers : ∀ q, q ≠ p → Knows setup t q (s.phase q)) (hknows : Knows setup t p new)
    (htarget : ∀ tree, t.targetDir = some tree → Complete setup tree) : Sound setup t := by
  have hself : t.phase p = new := by rw [hphase, Function.update_self]
  have hother : ∀ q, q ≠ p → t.phase q = s.phase q := by
    intro q hne
    rw [hphase, Function.update_of_ne hne]
  refine ⟨hphase ▸ h.cacheSole.update husesCache, hphase ▸ h.tmpSole.update fun huse =>
    (husesTmp huse).imp_right fun hnone q hne _ => hnone q hne, hlinked, hfresh,
    fun q i hq => ?_, fun q i name hq hname => ?_, fun q r i hq hr => ?_, fun q => ?_, htarget⟩
  · rcases eq_or_ne q p with rfl | hne
    · rw [hself] at hq
      exact (hopened i hq).1
    · rw [hother q hne] at hq
      exact Nat.lt_of_lt_of_le (h.openedFresh q i hq) hle
  · rcases eq_or_ne q p with rfl | hne
    · rw [hself] at hq
      exact (hopened i hq).2.1 name hname
    · rw [hother q hne] at hq
      exact h.openedLinked q i name hq (hcache q i name hq hname)
  · rcases eq_or_ne q p with rfl | hqp
    · rw [hself] at hq
      rcases eq_or_ne r q with rfl | hrq
      · rfl
      · rw [hother r hrq] at hr
        exact absurd hr ((hopened i hq).2.2 r hrq)
    · rw [hother q hqp] at hq
      rcases eq_or_ne r p with rfl | hrp
      · rw [hself] at hr
        exact absurd hq ((hopened i hr).2.2 q hqp)
      · rw [hother r hrp] at hr
        exact h.openedOne q r i hq hr
  · rcases eq_or_ne q p with rfl | hne
    · rw [hself]
      exact hknows
    · rw [hother q hne]
      exact hothers q hne

/-- A step of one process that leaves the cache files alone. -/
theorem Sound.move {tmp target : Option (Tree Entry Info)} (h : Sound setup s)
    (hcache : new.usesCache = true → (s.phase p).usesCache = true)
    (husesTmp : new.usesTmp = true → (s.phase p).usesTmp = true ∨
      ∀ q, q ≠ p → (s.phase q).usesTmp = false)
    (hopened : ∀ i, new.opened = some i →
      (s.phase p).opened = some i ∨ s.cache (setup.cacheFileName p) = some i)
    (htmp : tmp = s.tmpTarget ∨ ∀ q, q ≠ p → (s.phase q).usesTmp = false)
    (htarget : ∀ tree, target = some tree → Complete setup tree)
    (hknows : Knows setup { s with tmpTarget := tmp } p new) :
    Sound setup { s.setPhase p new with tmpTarget := tmp, targetDir := target } := by
  refine h.step rfl (fun huse => .inl (hcache huse)) husesTmp h.linked h.fresh (Nat.le_refl _)
    (fun i hi => ?_) (fun _ _ _ _ hname => hname) (fun q hne => ?_)
    (hknows.frame (fun _ _ hi => hi) (fun _ _ => rfl) (fun _ _ _ => rfl) fun _ => rfl) htarget
  · rcases hopened i hi with hold | hcached
    · exact ⟨h.openedFresh p i hold, fun name => h.openedLinked p i name hold,
        fun q hne => (h.not_shared hold hne).1⟩
    · refine ⟨h.fresh _ i hcached, fun name hname => h.linked _ _ i hname hcached,
        fun q hne hq => ?_⟩
      -- the other process would use the same cache file
      have hname := h.openedLinked q i _ hq hcached
      exact hne (h.cacheSole q p (Phase.usesCache_of_opened hq)
        (hcache (Phase.usesCache_of_opened hi)) hname.symm)
  · refine (h.knows q).frame (fun _ _ hi => hi) (fun _ _ => rfl) (fun _ _ _ => rfl) fun huse => ?_
    rcases htmp with rfl | hnone
    · rfl
    · rw [hnone q hne] at huse
      cases huse

/-- A step that changes nothing but the phase. -/
theorem Sound.setPhase (h : Sound setup s)
    (hcache : new.usesCache = true → (s.phase p).usesCache = true)
    (husesTmp : new.usesTmp = true → (s.phase p).usesTmp = true)
    (hopened : ∀ i, new.opened = some i →
      (s.phase p).opened = some i ∨ s.cache (setup.cacheFileName p) = some i)
    (hknows : Knows setup s p new) : Sound setup (s.setPhase p new) :=
  h.move hcache (fun huse => .inl (husesTmp huse)) hopened (.inl rfl) h.target hknows

/-- A process that is in no phase of use knows nothing. -/
theorem Sound.setIdle (h : Sound setup s) (hcache : new.usesCache = false)
    (htmp : new.usesTmp = false) : Sound setup (s.setPhase p new) := by
  refine h.setPhase (fun huse => ?_) (fun huse => ?_) (fun i hi => ?_) ?_
  · rw [hcache] at huse
    cases huse
  · rw [htmp] at huse
    cases huse
  · rw [Phase.usesCache_of_opened hi] at hcache
    cases hcache
  · cases new with
    | called | checked | renamed | returned | failed => trivial
    | downloading | downloaded | removed | created | unpacking => cases hcache
    | unpacked | described => cases htmp

/-- The cache file that a download starts with is used by no other process. -/
theorem Sound.create (h : Sound setup s)
    (hguard : ∀ q, q ≠ p → setup.cacheFileName q = setup.cacheFileName p →
      (s.phase q).usesCache = false) : Sound setup (createCache setup s p) := by
  -- no other process that uses the cache has the same file name
  have hname : ∀ q, q ≠ p → (s.phase q).usesCache = true →
      setup.cacheFileName q ≠ setup.cacheFileName p := by
    intro q hne huse heq
    rw [hguard q hne heq] at huse
    cases huse
  unfold createCache
  split
  · next i hi =>
    -- the file is truncated: nobody else has it open
    have hnot : ∀ q, q ≠ p → (s.phase q).opened ≠ some i := by
      intro q hne hq
      exact hname q hne (Phase.usesCache_of_opened hq) (h.openedLinked q i _ hq hi).symm
    refine h.step rfl (fun _ => .inr hguard) nofun h.linked h.fresh (Nat.le_refl _) ?_
      (fun _ _ _ _ hj => hj) (fun q hne => ?_) ⟨Function.update_self .., ?_⟩ h.target
    · rintro j ⟨⟩
      exact ⟨h.fresh _ i hi, fun name hj => h.linked _ _ i hj hi, hnot⟩
    · refine (h.knows q).frame (fun _ _ hj => hj) (fun j hj => ?_) (fun huse j hj => ?_)
        fun _ => rfl
      · refine Function.update_of_ne ?_ ..
        rintro rfl
        exact hnot q hne hj
      · refine Function.update_of_ne ?_ ..
        rintro rfl
        exact hname q hne huse (h.linked _ _ j hj hi)
    · intro j hj
      exact Option.some.inj (hj.symm.trans hi)
  · next hnone =>
    -- a new file is linked, with a number that no link and no open file has
    have hlink : ∀ name i, (s.cache.link (setup.cacheFileName p) s.fresh) name = some i →
        name = setup.cacheFileName p ∧ i = s.fresh ∨
          name ≠ setup.cacheFileName p ∧ s.cache name = some i := by
      intro name i hi
      rcases eq_or_ne name (setup.cacheFileName p) with rfl | hne
      · rw [Directory.link_self] at hi
        exact .inl ⟨rfl, (Option.some.inj hi).symm⟩
      · rw [Directory.link_of_ne hne] at hi
        exact .inr ⟨hne, hi⟩
    refine h.step rfl (fun _ => .inr hguard) nofun ?_ ?_ (Nat.le_succ _) ?_ ?_ (fun q hne => ?_)
      ⟨Function.update_self .., ?_⟩ h.target
    · intro name other i hi hother
      rcases hlink name i hi with ⟨rfl, rfl⟩ | ⟨hne, hold⟩
      · rcases hlink other _ hother with ⟨rfl, -⟩ | ⟨-, hold⟩
        · rfl
        · exact absurd (h.fresh other _ hold) (Nat.lt_irrefl _)
      · rcases hlink other i hother with ⟨rfl, rfl⟩ | ⟨-, hother⟩
        · exact absurd (h.fresh name _ hold) (Nat.lt_irrefl _)
        · exact h.linked name other i hold hother
    · intro name i hi
      rcases hlink name i hi with ⟨-, rfl⟩ | ⟨-, hold⟩
      · exact Nat.lt_succ_self _
      · exact Nat.lt_succ_of_lt (h.fresh name i hold)
    · rintro i ⟨⟩
      refine ⟨Nat.lt_succ_self _, fun name hi => ?_, fun q _ hq => ?_⟩
      · rcases hlink name _ hi with ⟨rfl, -⟩ | ⟨-, hold⟩
        · rfl
        · exact absurd (h.fresh name _ hold) (Nat.lt_irrefl _)
      · exact absurd (h.openedFresh q _ hq) (Nat.lt_irrefl _)
    · intro q i name hq hi
      rcases hlink name i hi with ⟨-, rfl⟩ | ⟨-, hold⟩
      · exact absurd (h.openedFresh q _ hq) (Nat.lt_irrefl _)
      · exact hold
    · refine (h.knows q).frame (fun huse j hj => ?_) (fun j hj => ?_) (fun huse j hj => ?_)
        fun _ => rfl
      · rcases hlink _ j hj with ⟨heq, -⟩ | ⟨-, hold⟩
        · exact absurd heq (hname q hne huse)
        · exact hold
      · exact Function.update_of_ne (Nat.ne_of_lt (h.openedFresh q j hj)) ..
      · exact Function.update_of_ne (Nat.ne_of_lt (h.fresh _ j hj)) ..
    · intro j hj
      rcases hlink _ j hj with ⟨-, rfl⟩ | ⟨hne, -⟩
      · rfl
      · exact absurd rfl hne

theorem Sound.chunk {i : Inode} {before received left : Bytes} (h : Sound setup s)
    (hphase : s.phase p = .downloading i before) :
    Sound setup (writeChunk s p i received left) := by
  have hopened : (s.phase p).opened = some i := by rw [hphase]; rfl
  have hknows := h.knows p
  rw [hphase] at hknows
  obtain ⟨hfile, hlinked⟩ := hknows
  have hwriter : (s.file i).writer = some p := by rw [hfile]
  rw [writeChunk, if_pos hwriter]
  refine h.step rfl (fun _ => .inl (Phase.usesCache_of_opened hopened)) nofun h.linked h.fresh
    (Nat.le_refl _) ?_ (fun _ _ _ _ hj => hj) (fun q hne => ?_)
    ⟨Function.update_self .., hlinked⟩ h.target
  · rintro j ⟨⟩
    exact ⟨h.openedFresh p i hopened, fun name => h.openedLinked p i name hopened,
      fun q hne => (h.not_shared hopened hne).1⟩
  · obtain ⟨hnot, hcached⟩ := h.not_shared hopened hne
    refine (h.knows q).frame (fun _ _ hj => hj) (fun j hj => ?_) (fun huse j hj => ?_)
      fun _ => rfl
    · refine Function.update_of_ne ?_ ..
      rintro rfl
      exact hnot hj
    · refine Function.update_of_ne ?_ ..
      rintro rfl
      exact hcached huse hj

/-- A verified download has the bytes that were received. -/
theorem Sound.verify {i : Inode} {received : Bytes} (h : Sound setup s)
    (hphase : s.phase p = .downloading i received) :
    Sound setup (verifyDigest setup s p received) := by
  have hknows := h.knows p
  rw [hphase] at hknows
  obtain ⟨hfile, hlinked⟩ := hknows
  unfold verifyDigest
  split
  · next hdigest =>
    refine h.setPhase (fun _ => by rw [hphase]; rfl) nofun nofun fun j hj => ?_
    rw [hlinked j hj, hfile]
    exact hdigest
  · exact h.setIdle rfl rfl

theorem Sound.openArchive (h : Sound setup s) (hphase : s.phase p = .created) :
    Sound setup (openArchive setup s p) := by
  have hknows := h.knows p
  rw [hphase] at hknows
  obtain ⟨hcached, htmp⟩ := hknows
  obtain ⟨tree, htree⟩ := Option.isSome_iff_exists.mp htmp
  unfold Install.openArchive
  split
  · next i hi =>
    refine h.setPhase (fun _ => by rw [hphase]; rfl) (fun _ => by rw [hphase]; rfl) ?_
      ⟨hcached i hi, tree, htree, nofun⟩
    rintro j ⟨⟩
    exact .inr hi
  · exact h.setIdle rfl rfl

/-- One more entry of the verified archive, or the end of it. -/
theorem Sound.unpackNext {i : Inode} {position : Nat} (h : Sound setup s)
    (hphase : s.phase p = .unpacking i position) :
    Sound setup (unpackNext setup s p i position) := by
  have husesTmp : (s.phase p).usesTmp = true := by rw [hphase]; rfl
  have hknows := h.knows p
  rw [hphase] at hknows
  obtain ⟨hverified, tree, htree, hentries⟩ := hknows
  unfold Install.unpackNext
  rw [htree]
  cases hentry : (setup.entries (s.file i).bytes)[position]? with
  | some entry =>
      refine h.move (fun _ => by rw [hphase]; rfl) (fun _ => .inl husesTmp)
        ?_ (.inr fun q hne => h.tmpSole.alone husesTmp hne rfl) h.target
        ⟨hverified, _, rfl, fun other hother => ?_⟩
      · rintro j ⟨⟩
        exact .inl (by rw [hphase]; rfl)
      · rw [List.take_add_one, hentry] at hother
        rcases List.mem_append.mp hother with hold | hnew
        · exact List.mem_append_left _ (hentries other hold)
        · exact List.mem_append_right _ hnew
  | none =>
      have hall : (setup.entries (s.file i).bytes).take position =
          setup.entries (s.file i).bytes :=
        List.take_of_length_le (List.getElem?_eq_none_iff.mp hentry)
      rw [hall] at hentries
      show Sound setup (s.setPhase p (if setup.whole (s.file i).bytes then .unpacked else .failed))
      split
      · exact h.setPhase nofun (fun _ => husesTmp) nofun ⟨_, tree, hverified, htree, hentries⟩
      · exact h.setIdle rfl rfl

theorem Sound.writeInfo (h : Sound setup s) (hphase : s.phase p = .unpacked) :
    Sound setup (writeInfo setup s p true) := by
  have husesTmp : (s.phase p).usesTmp = true := by rw [hphase]; rfl
  have hknows := h.knows p
  rw [hphase] at hknows
  obtain ⟨bytes, tree, hverified, htree, hentries⟩ := hknows
  unfold Install.writeInfo
  rw [htree]
  exact h.move nofun (fun _ => .inl husesTmp) nofun
    (.inr fun q hne => h.tmpSole.alone husesTmp hne rfl) h.target
    ⟨_, rfl, p, bytes, hverified, hentries, rfl⟩

theorem Complete.not_empty {tree : Tree Entry Info} (h : Complete setup tree) :
    tree ≠ ⟨[], none⟩ := by
  rintro rfl
  obtain ⟨_, _, _, _, hinfo⟩ := h
  cases hinfo

/-- A complete directory is not replaced. -/
theorem renameTmp_of_target {tree : Tree Entry Info} (htarget : s.targetDir = some tree)
    (hcomplete : Complete setup tree) : renameTmp s p = s.setPhase p .failed := by
  unfold renameTmp
  cases s.tmpTarget with
  | none => rfl
  | some tmp =>
      rw [htarget]
      obtain ⟨entries, info⟩ := tree
      cases entries with
      | cons => rfl
      | nil =>
          cases info with
          | some => rfl
          | none => exact absurd rfl hcomplete.not_empty

theorem Sound.rename (h : Sound setup s) (hphase : s.phase p = .described) :
    Sound setup (renameTmp s p) := by
  have husesTmp : (s.phase p).usesTmp = true := by rw [hphase]; rfl
  cases htarget : s.targetDir with
  | some tree =>
      rw [renameTmp_of_target htarget (h.target tree htarget)]
      exact h.setIdle rfl rfl
  | none =>
      have hknows := h.knows p
      rw [hphase] at hknows
      obtain ⟨tree, htree, hcomplete⟩ := hknows
      unfold renameTmp
      rw [htree, htarget]
      refine h.move nofun nofun nofun (.inr fun q hne => h.tmpSole.alone husesTmp hne rfl) ?_ trivial
      rintro other ⟨⟩
      exact hcomplete

theorem Sound.unlink {removed : Bool} (h : Sound setup s) :
    Sound setup (unlinkCache setup s p removed) := by
  unfold unlinkCache
  split
  · refine h.step rfl (fun huses => by cases huses) (fun huses => by cases huses) ?_ ?_
      (Nat.le_refl _) (fun i hi => by cases hi) ?_ (fun q _ => ?_) trivial h.target
    · intro name other i hi hother
      exact h.linked name other i (Directory.of_unlink_eq_some hi)
        (Directory.of_unlink_eq_some hother)
    · exact fun name i hi => h.fresh name i (Directory.of_unlink_eq_some hi)
    · exact fun q i name _ hi => Directory.of_unlink_eq_some hi
    · exact (h.knows q).frame (fun _ _ hi => Directory.of_unlink_eq_some hi) (fun _ _ => rfl)
        (fun _ _ _ => rfl) fun _ => rfl
  · exact h.setIdle rfl rfl

theorem Sound.next {e : Event Process Bytes Entry Info} (h : Sound setup s)
    (hguard : OneAtATime setup s e) (hstep : next setup s e = some t) : Sound setup t := by
  cases steps_of_next hstep with
  | check =>
      split
      · exact h.setIdle rfl rfl
      · exact h.setIdle rfl rfl
  | create => exact h.create hguard
  | chunk hphase => exact h.chunk hphase
  | verify hphase => exact h.verify hphase
  | @removeTmp p hphase =>
      have hknows := h.knows p
      rw [hphase] at hknows
      exact h.move (fun _ => by rw [hphase]; rfl) (fun _ => .inr hguard) nofun (.inr hguard)
        h.target hknows
  | @createTmp p hphase =>
      have husesTmp : (s.phase p).usesTmp = true := by rw [hphase]; rfl
      have hknows := h.knows p
      rw [hphase] at hknows
      exact h.move (fun _ => by rw [hphase]; rfl) (fun _ => .inl husesTmp) nofun
        (.inr fun q hne => h.tmpSole.alone husesTmp hne rfl) h.target ⟨hknows, rfl⟩
  | openCache hphase => exact h.openArchive hphase
  | unpackEntry hphase => exact h.unpackNext hphase
  | writeInfo hphase =>
      cases hguard
      exact h.writeInfo hphase
  | rename hphase => exact h.rename hphase
  | unlinkCache => exact h.unlink
  | stop => exact h.setIdle rfl rfl
  | stopInTmp => exact h.move nofun nofun nofun (.inr hguard) h.target trivial

end Step

theorem sound_of_initial (h : Initial (Complete setup) s) : Sound setup s := by
  have hidle : ∀ p, s.phase p = .called := h.called
  refine ⟨fun p _ hp => ?_, fun p _ hp => ?_, h.linked, h.fresh, fun p i hp => ?_,
    fun p i _ hp => ?_, fun p _ i hp => ?_, fun p => ?_, h.target⟩
  · rw [hidle p] at hp
    cases hp
  · rw [hidle p] at hp
    cases hp
  · rw [hidle p] at hp
    cases hp
  · rw [hidle p] at hp
    cases hp
  · rw [hidle p] at hp
    cases hp
  · rw [hidle p]
    trivial

theorem sound_of_reachable (h : (installs setup).Reachable (OneAtATime setup) s) :
    Sound setup s :=
  h.invariant (fun _ hs => sound_of_initial hs) fun _ _ _ hs hguard hstep => hs.next hguard hstep

/-- No step changes a directory of the version that is complete. -/
theorem targetDir_of_next {e : Event Process Bytes Entry Info} {tree : Tree Entry Info}
    (htarget : s.targetDir = some tree) (hcomplete : Complete setup tree)
    (hstep : next setup s e = some t) : t.targetDir = some tree := by
  cases steps_of_next hstep with
  | check | chunk | verify | removeTmp | createTmp | writeInfo | stop | stopInTmp => exact htarget
  | create =>
      unfold createCache
      split
      · exact htarget
      · exact htarget
  | openCache =>
      unfold openArchive
      split
      · exact htarget
      · exact htarget
  | unpackEntry =>
      unfold unpackNext
      split
      · exact htarget
      · exact htarget
      · exact htarget
  | rename =>
      rw [renameTmp_of_target htarget hcomplete]
      exact htarget
  | unlinkCache =>
      unfold unlinkCache
      split
      · exact htarget
      · exact htarget

/-- **An installed version is complete and stays as it is**, in the runs whose steps are
`OneAtATime`. -/
theorem installed_of_reachable (setup : Setup Process Name Bytes Digest Entry Info)
    (s : State Process Name Bytes Entry Info)
    (h : (installs setup).Reachable (OneAtATime setup) s) :
    (∀ tree, s.targetDir = some tree → Complete setup tree) ∧
      ∀ e t, OneAtATime setup s e → (installs setup).next s e = some t →
        ∀ tree, s.targetDir = some tree → t.targetDir = some tree := by
  have hsound := sound_of_reachable h
  exact ⟨hsound.target, fun e t _ hstep tree htree =>
    targetDir_of_next htree (hsound.target tree htree) hstep⟩

/-! ## Two processes at once -/

/-- A package of two files that two processes install; an archive is the list of its
entries. -/
def sampleSetup : Setup Bool Unit (List Nat) (List Nat) Nat Unit where
  cacheFileName _ := ()
  hash _ := [1, 2]
  digest := id
  nothing := []
  entries := id
  whole _ := true
  info _ := ()

def sampleState : State Bool Unit (List Nat) Nat Unit where
  cache _ := none
  file _ := ⟨[], none⟩
  fresh := 0
  tmpTarget := none
  targetDir := none
  phase _ := .called

theorem sampleState_initial : (installs sampleSetup).Initial sampleState :=
  ⟨fun _ => rfl, nofun, nofun, nofun⟩

def downloads (p : Bool) : List (Event Bool (List Nat) Nat Unit) :=
  [.check p, .create p, .chunk p [1, 2] [], .verify p, .removeTmp p, .createTmp p]

def finishes (p : Bool) : List (Event Bool (List Nat) Nat Unit) :=
  [.unpackEntry p, .unpackEntry p, .writeInfo p true, .rename p]

def alone : List (Event Bool (List Nat) Nat Unit) :=
  downloads false ++ [.openCache false, .unpackEntry false] ++ finishes false ++ [.check true]

theorem along_alone : (installs sampleSetup).Along (OneAtATime sampleSetup) sampleState alone := by
  refine ⟨trivial, _, rfl, ?_, _, rfl, trivial, _, rfl, trivial, _, rfl, ?_, _, rfl, trivial, _,
    rfl, trivial, _, rfl, trivial, _, rfl, trivial, _, rfl, trivial, _, rfl, rfl, _, rfl, trivial,
    _, rfl, trivial, _, rfl, trivial⟩
  · rintro (_ | _) hne
    · exact absurd rfl hne
    · exact fun _ => rfl
  · rintro (_ | _) hne
    · exact absurd rfl hne
    · rfl

theorem installed_of_reachable_alone : ∃ s, (installs sampleSetup).Reachable
    (OneAtATime sampleSetup) s ∧ s.phase true = .returned ∧
    (∃ tree, s.targetDir = some tree ∧ Complete sampleSetup tree) ∧
    ∀ e t, OneAtATime sampleSetup s e → (installs sampleSetup).next s e = some t →
      ∀ tree, s.targetDir = some tree → t.targetDir = some tree := by
  obtain ⟨s, hrun, hphase, htarget⟩ : ∃ s, (installs sampleSetup).run sampleState alone = some s ∧
      s.phase true = .returned ∧ s.targetDir = some ⟨[1, 2], some ()⟩ := ⟨_, rfl, rfl, rfl⟩
  have hreachable := (System.Reachable.initial sampleState_initial).along along_alone hrun
  obtain ⟨hcomplete, hkept⟩ := installed_of_reachable sampleSetup s hreachable
  exact ⟨s, hreachable, hphase, ⟨_, htarget, hcomplete _ htarget⟩, hkept⟩

/-- The second process removes what the first one has unpacked so far. -/
def overlapping : List (Event Bool (List Nat) Nat Unit) :=
  downloads false ++ [.openCache false, .unpackEntry false] ++ downloads true ++ finishes false

theorem package_incomplete : ∃ s, (installs sampleSetup).Reachable System.Free s ∧
    ¬ ∀ tree, s.targetDir = some tree → Complete sampleSetup tree := by
  obtain ⟨s, hrun, htarget⟩ : ∃ s, (installs sampleSetup).run sampleState overlapping = some s ∧
      s.targetDir = some ⟨[2], some ()⟩ := ⟨_, rfl, rfl⟩
  refine ⟨s, (System.Reachable.initial sampleState_initial).run hrun, fun hall => ?_⟩
  obtain ⟨p, bytes, hdigest, hentries, -⟩ := hall _ htarget
  have hbytes : bytes = [1, 2] := hdigest
  subst hbytes
  have hfirst := hentries 1 (by decide)
  exact absurd hfirst (by decide)

end GelCli.Install
