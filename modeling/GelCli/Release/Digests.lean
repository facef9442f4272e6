import GelCli.Foundation.Lines
import GelCli.Foundation.PathComponents
import GelCli.Foundation.Results

/-!
# Digest lists

`write_sums` and `verify_sums` of `digests.py`. A list is written from the files of a
directory, and it is checked line by line: a file that no line names is not looked at.
-/

namespace GelCli.Release

open GelCli.Foundation

/-! ## Digests -/

inductive Algorithm where
  | sha256 | blake2b512
deriving DecidableEq, Repr

def Algorithm.name : Algorithm → String
  | sha256 => "sha256"
  | blake2b512 => "blake2b512"

/-- `hexdigest` of `hashlib.sha256` and of `hashlib.blake2b(digest_size=64)`. -/
structure Hashlib where
  sha256 : List UInt8 → Text
  blake2b : List UInt8 → Text
  sha256_hex : ∀ bytes, ∀ c ∈ sha256 bytes, c.isAlphanum
  blake2b_hex : ∀ bytes, ∀ c ∈ blake2b bytes, c.isAlphanum

structure FileDigest where
  size : Nat
  sha256 : Text
  blake2b512 : Text

def digestFile (hashlib : Hashlib) (bytes : List UInt8) : FileDigest where
  size := bytes.length
  sha256 := hashlib.sha256 bytes
  blake2b512 := hashlib.blake2b bytes

def FileDigest.select (digest : FileDigest) : Algorithm → Text
  | .sha256 => digest.sha256
  | .blake2b512 => digest.blake2b512

/-- A directory: the names of its entries, and the regular file, if any, that
`directory / name` leads to. A name that is listed may also be a longer path. -/
structure AssetDir where
  iterdir : List Text
  file : Text → Option (List UInt8)
  nodup : iterdir.Nodup
  plain : ∀ name ∈ iterdir, Plain name
  complete : ∀ name, Plain name → (file name).isSome → name ∈ iterdir

def sha256SumsName : Text := "SHA256SUMS".toList

def blake2bSumsName : Text := "BLAKE2B512SUMS".toList

def digestManifestNames : List Text := [sha256SumsName, blake2bSumsName]

/-! ## Writing -/

section Sums

variable (hashlib : Hashlib) (directory : AssetDir)

def selectedDigest (algorithm : Algorithm) (bytes : List UInt8) : Text :=
  (digestFile hashlib bytes).select algorithm

def AssetDir.sortedFiles : List Text :=
  Text.sorted (directory.iterdir.filter fun name => (directory.file name).isSome)

/-- The files that a list is written for. -/
def AssetDir.covered (skip : List Text) : List Text :=
  directory.sortedFiles.filter fun name => !skip.contains name

/-- The line for a file, if it is one. -/
def digestLine (algorithm : Algorithm) (name : Text) : Option Text :=
  (directory.file name).map fun bytes =>
    selectedDigest hashlib algorithm bytes ++ ' ' :: ' ' :: name

def sumsLines (algorithm : Algorithm) (skip : List Text) : List Text :=
  (directory.covered skip).filterMap (digestLine hashlib directory algorithm)

/-- `write_sums`: the bytes that are written. -/
def writeSums (algorithm : Algorithm) (skip : List Text) : List UInt8 :=
  Text.utf8 (Text.unlines (sumsLines hashlib directory algorithm skip))

/-! ## Checking -/

inductive SumsError where
  | unicodeDecode
  | unpack
  | digestMismatch (message : String)
deriving DecidableEq, Repr

/-- `line.split("  ", 1)`, if it gives two parts. -/
def splitTwoSpaces : Text → Option (Text × Text)
  | [] => none
  | c :: t =>
      if c = ' ' ∧ t.head? = some ' ' then some ([], t.tail)
      else (splitTwoSpaces t).map fun p => (c :: p.1, p.2)

def sumsAlgorithm (sumsName : Text) : Algorithm :=
  if sumsName = sha256SumsName then .sha256
  else if sumsName = blake2bSumsName then .blake2b512
  else if sumsName = "SHA256SUMS".toList then .sha256
  else .blake2b512

def verifyLine (sumsName line : Text) : Except SumsError PUnit := do
  let algorithm := sumsAlgorithm sumsName
  let (expected, name) ← expect (splitTwoSpaces line) .unpack
  let bytes ← expect (directory.file name) (.digestMismatch
    s!"{String.ofList name} listed in {String.ofList sumsName} is missing")
  let actual := selectedDigest hashlib algorithm bytes
  require (actual = expected) (.digestMismatch
    (s!"{String.ofList name}: expected {algorithm.name} {String.ofList expected}, " ++
      s!"computed {String.ofList actual}"))

/-- `verify_sums` of a list with the given name and bytes. -/
def verifySums (sumsName : Text) (sums : List UInt8) : Except SumsError PUnit := do
  let text ← expect (Text.ofUtf8 sums) .unicodeDecode
  (Text.splitlines text).forM (verifyLine hashlib directory sumsName)

/-! ## What is accepted -/

theorem splitTwoSpaces_append {a : Text} (h : ' ' ∉ a) (b : Text) :
    splitTwoSpaces (a ++ ' ' :: ' ' :: b) = some (a, b) := by
  induction a with
  | nil => rfl
  | cons c a ih =>
      obtain ⟨hc, ha⟩ := not_or.mp (mt List.mem_cons.mpr h)
      rw [List.cons_append, splitTwoSpaces, if_neg fun hcond => hc hcond.1.symm, ih ha]
      rfl

theorem splitTwoSpaces_eq_some {t a b : Text} (h : splitTwoSpaces t = some (a, b)) :
    t = a ++ ' ' :: ' ' :: b := by
  induction t generalizing a b with
  | nil => cases h
  | cons c t ih =>
      rw [splitTwoSpaces] at h
      by_cases hcond : c = ' ' ∧ t.head? = some ' '
      · rw [if_pos hcond] at h
        cases h
        obtain ⟨rest, rfl⟩ : ∃ rest, t = ' ' :: rest := List.head?_eq_some_iff.mp hcond.2
        rw [hcond.1]
        rfl
      · rw [if_neg hcond] at h
        obtain ⟨⟨a', b'⟩, hsplit, heq⟩ := Option.map_eq_some_iff.mp h
        cases heq
        rw [ih hsplit]
        rfl

variable {hashlib directory} {algorithm : Algorithm}

theorem selectedDigest_isAlphanum {bytes : List UInt8} {c : Char}
    (h : c ∈ selectedDigest hashlib algorithm bytes) : c.isAlphanum := by
  cases algorithm with
  | sha256 => exact hashlib.sha256_hex bytes c h
  | blake2b512 => exact hashlib.blake2b_hex bytes c h

theorem space_notMem_selectedDigest {bytes : List UInt8} :
    ' ' ∉ selectedDigest hashlib algorithm bytes :=
  fun h => absurd (selectedDigest_isAlphanum h) (by decide)

theorem oneLine_selectedDigest {bytes : List UInt8} :
    Text.OneLine (selectedDigest hashlib algorithm bytes) := by
  intro c hc
  rw [Bool.eq_false_iff]
  intro hboundary
  have hnone : ['\n', '\r', '\x0b', '\x0c', '\x1c', '\x1d', '\x1e', '\u0085', '\u2028',
      '\u2029'].all (fun b => !b.isAlphanum) = true := by decide +kernel
  have hfalse := List.all_eq_true.mp hnone c (List.contains_iff_mem.mp hboundary)
  rw [selectedDigest_isAlphanum hc] at hfalse
  cases hfalse

/-- The name that a line lists. -/
def listedName (line : Text) : Text := (splitTwoSpaces line).elim [] Prod.snd

theorem listedName_of_digestLine {name line : Text}
    (h : digestLine hashlib directory algorithm name = some line) : listedName line = name := by
  obtain ⟨bytes, -, rfl⟩ := Option.map_eq_some_iff.mp h
  rw [listedName, splitTwoSpaces_append space_notMem_selectedDigest]
  rfl

/-- A line is right if it is the line of some file. -/
theorem verifyLine_eq_ok {sumsName line : Text} :
    verifyLine hashlib directory sumsName line = .ok ⟨⟩ ↔
      ∃ name, digestLine hashlib directory (sumsAlgorithm sumsName) name = some line := by
  constructor
  · intro h
    obtain ⟨⟨expected, name⟩, hsplit, h⟩ := expect_bind_eq_ok.mp h
    obtain ⟨bytes, hfile, h⟩ := expect_bind_eq_ok.mp h
    refine ⟨name, Option.map_eq_some_iff.mpr ⟨bytes, hfile, ?_⟩⟩
    rw [require_eq_ok.mp h, splitTwoSpaces_eq_some hsplit]
  · rintro ⟨name, h⟩
    obtain ⟨bytes, hfile, rfl⟩ := Option.map_eq_some_iff.mp h
    refine expect_bind_eq_ok.mpr ⟨_, splitTwoSpaces_append space_notMem_selectedDigest name, ?_⟩
    exact expect_bind_eq_ok.mpr ⟨bytes, hfile, require_pos rfl⟩

theorem forM_verifyLine_eq_ok {sumsName : Text} {lines : List Text} :
    lines.forM (verifyLine hashlib directory sumsName) = .ok ⟨⟩ ↔
      ∀ line ∈ lines, verifyLine hashlib directory sumsName line = .ok ⟨⟩ := by
  induction lines with
  | nil => exact ⟨fun _ line hline => (by cases hline), fun _ => rfl⟩
  | cons line lines ih =>
      show (verifyLine hashlib directory sumsName line >>= fun _ => lines.forM _) = _ ↔ _
      rw [bind_eq_ok, List.forall_mem_cons, ← ih]
      exact ⟨fun ⟨_, h, hrest⟩ => ⟨h, hrest⟩, fun ⟨h, hrest⟩ => ⟨⟨⟩, h, hrest⟩⟩

/-- Every line is the line of some file. -/
def Right (hashlib : Hashlib) (directory : AssetDir) (algorithm : Algorithm) (sums : List UInt8) :
    Prop :=
  ∃ text, Text.ofUtf8 sums = some text ∧ ∀ line ∈ Text.splitlines text,
    ∃ name, digestLine hashlib directory algorithm name = some line

theorem verifySums_eq_ok {sumsName : Text} {sums : List UInt8} :
    verifySums hashlib directory sumsName sums = .ok ⟨⟩ ↔
      Right hashlib directory (sumsAlgorithm sumsName) sums := by
  rw [verifySums, expect_bind_eq_ok, Right]
  simp only [forM_verifyLine_eq_ok, verifyLine_eq_ok]

/-! ## What is covered -/

/-- The lines are the written ones, in some order. -/
def IsWritten (hashlib : Hashlib) (directory : AssetDir) (algorithm : Algorithm)
    (skip : List Text) (sums : List UInt8) : Prop :=
  ∃ text, Text.ofUtf8 sums = some text ∧
    (Text.splitlines text).Perm (sumsLines hashlib directory algorithm skip)

/-- The names that are listed are those of the other files, each listed once. -/
def Covers (directory : AssetDir) (skip : List Text) (sums : List UInt8) : Prop :=
  ∃ text, Text.ofUtf8 sums = some text ∧
    ((Text.splitlines text).map listedName).Perm (directory.covered skip)

theorem filterMap_digestLine {lines : List Text}
    (h : ∀ line ∈ lines, ∃ name, digestLine hashlib directory algorithm name = some line) :
    (lines.map listedName).filterMap (digestLine hashlib directory algorithm) = lines := by
  induction lines with
  | nil => rfl
  | cons line lines ih =>
      obtain ⟨⟨name, hname⟩, hlines⟩ := List.forall_mem_cons.mp h
      rw [List.map_cons, listedName_of_digestLine hname, List.filterMap_cons_some hname, ih hlines]

theorem exists_digestLine {skip : List Text} {name : Text} (h : name ∈ directory.covered skip) :
    ∃ line, digestLine hashlib directory algorithm name = some line := by
  have hfile := (List.mem_filter.mp (Text.mem_sorted.mp (List.mem_filter.mp h).1)).2
  obtain ⟨bytes, hbytes⟩ := Option.isSome_iff_exists.mp hfile
  exact ⟨_, Option.map_eq_some_iff.mpr ⟨bytes, hbytes, rfl⟩⟩

theorem map_listedName_filterMap {names : List Text}
    (h : ∀ name ∈ names, ∃ line, digestLine hashlib directory algorithm name = some line) :
    (names.filterMap (digestLine hashlib directory algorithm)).map listedName = names := by
  induction names with
  | nil => rfl
  | cons name names ih =>
      obtain ⟨⟨line, hline⟩, hnames⟩ := List.forall_mem_cons.mp h
      rw [List.filterMap_cons_some hline, List.map_cons, listedName_of_digestLine hline, ih hnames]

/-- Written lines are right and cover the files, and no other lines do both. -/
theorem isWritten_iff {skip : List Text} {sums : List UInt8} :
    IsWritten hashlib directory algorithm skip sums ↔
      Right hashlib directory algorithm sums ∧ Covers directory skip sums := by
  constructor
  · rintro ⟨text, htext, hperm⟩
    refine ⟨⟨text, htext, fun line hline => ?_⟩, text, htext, ?_⟩
    · obtain ⟨name, -, hname⟩ := List.mem_filterMap.mp (hperm.mem_iff.mp hline)
      exact ⟨name, hname⟩
    · have hmap := hperm.map listedName
      rwa [sumsLines, map_listedName_filterMap fun name hname => exists_digestLine hname] at hmap
  · rintro ⟨⟨text, htext, hright⟩, text', htext', hperm⟩
    obtain rfl := Option.some.inj (htext.symm.trans htext')
    refine ⟨text, htext, ?_⟩
    have hlines := hperm.filterMap (digestLine hashlib directory algorithm)
    rwa [filterMap_digestLine hright] at hlines

theorem oneLine_of_mem_sumsLines {skip : List Text}
    (h : ∀ name ∈ directory.covered skip, Text.OneLine name) :
    ∀ line ∈ sumsLines hashlib directory algorithm skip, Text.OneLine line := by
  intro line hline
  obtain ⟨name, hname, hdigest⟩ := List.mem_filterMap.mp hline
  obtain ⟨bytes, -, rfl⟩ := Option.map_eq_some_iff.mp hdigest
  refine oneLine_selectedDigest.append fun c hc => ?_
  rcases List.mem_cons.mp hc with rfl | hc
  · rfl
  rcases List.mem_cons.mp hc with rfl | hc
  · rfl
  exact h name hname c hc

/-- What is written is the written list, if no name runs over a line. -/
theorem isWritten_writeSums {skip : List Text}
    (h : ∀ name ∈ directory.covered skip, Text.OneLine name) :
    IsWritten hashlib directory algorithm skip (writeSums hashlib directory algorithm skip) := by
  refine ⟨_, Text.ofUtf8_utf8 _, ?_⟩
  rw [Text.splitlines_unlines (oneLine_of_mem_sumsLines h)]

end Sums

/-- **A list is accepted exactly if its lines are right; only together with the names of
the other files, each of them once, are they the written lines.** What is written is
accepted unless a name runs over a line. -/
theorem verifySums_iff (hashlib : Hashlib) (directory : AssetDir) (sumsName : Text)
    (sums : List UInt8) :
    (verifySums hashlib directory sumsName sums = .ok ⟨⟩ ↔
      Right hashlib directory (sumsAlgorithm sumsName) sums) ∧
    (IsWritten hashlib directory (sumsAlgorithm sumsName) digestManifestNames sums ↔
      verifySums hashlib directory sumsName sums = .ok ⟨⟩ ∧
        Covers directory digestManifestNames sums) ∧
    ((∀ name ∈ directory.covered digestManifestNames, Text.OneLine name) →
      verifySums hashlib directory sumsName
        (writeSums hashlib directory (sumsAlgorithm sumsName) digestManifestNames) = .ok ⟨⟩) := by
  refine ⟨verifySums_eq_ok, ?_, fun h => ?_⟩
  · rw [verifySums_eq_ok]
    exact isWritten_iff
  · exact verifySums_eq_ok.mpr (isWritten_iff.mp (isWritten_writeSums h)).1

namespace SumsExample

/-- The digests of an empty file. -/
def hashlib : Hashlib where
  sha256 _ := "e3b0c44298fc1c149afbf4c8996fb92427ae41e4649b934ca495991b7852b855".toList
  blake2b _ := ("786a02f742015903c6c6fd852552d272912f4740e15847618a86e217f71f5419" ++
    "d25e1031afee585313896444934eb04b903a685b1448b755d56f701afe9be2ce").toList
  sha256_hex _ := List.all_eq_true.mp (by decide +kernel)
  blake2b_hex _ := List.all_eq_true.mp (by decide +kernel)

/-- A directory of one empty file. -/
def directory : AssetDir where
  iterdir := [['a']]
  file name := if name = ['a'] then some [] else none
  nodup := List.nodup_singleton _
  plain := List.forall_mem_singleton.mpr
    ⟨List.cons_ne_nil _ _, by decide, by decide, by decide⟩
  complete name _ h := by
    by_cases hname : name = ['a']
    · exact List.mem_singleton.mpr hname
    · rw [if_neg hname] at h
      cases h

theorem covered_directory : directory.covered digestManifestNames = [['a']] := by
  have hfiles : directory.iterdir.filter (fun name => (directory.file name).isSome) = [['a']] := by
    decide
  rw [AssetDir.covered, AssetDir.sortedFiles, hfiles, Text.sorted, List.mergeSort_singleton]
  decide

end SumsExample

open SumsExample in
theorem verifySums_written :
    verifySums hashlib directory sha256SumsName
      (writeSums hashlib directory (sumsAlgorithm sha256SumsName) digestManifestNames) =
        .ok ⟨⟩ :=
  (verifySums_iff hashlib directory sha256SumsName []).2.2
    (covered_directory ▸ List.forall_mem_singleton.mpr
      (List.forall_mem_singleton.mpr rfl))

open SumsExample in
/-- A list of no lines is accepted, and it is not what is written. -/
theorem empty_list_accepted :
    verifySums hashlib directory sha256SumsName [] = .ok ⟨⟩ ∧
      ¬ IsWritten hashlib directory (sumsAlgorithm sha256SumsName) digestManifestNames [] := by
  have hdecode : Text.ofUtf8 [] = some [] := Text.ofUtf8_utf8 []
  refine ⟨verifySums_eq_ok.mpr ⟨[], hdecode, fun line hline => (by cases hline)⟩, ?_⟩
  intro hwritten
  obtain ⟨text, htext, hperm⟩ := (isWritten_iff.mp hwritten).2
  obtain rfl := Option.some.inj (hdecode.symm.trans htext)
  rw [covered_directory] at hperm
  exact absurd hperm.length_eq (by decide)

end GelCli.Release
