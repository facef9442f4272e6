import GelCli.Dump.Packets
import GelCli.Foundation.Dict

/-!
# `dump --all` and `restore --all`

Each database is dumped to a file named after it and restored from the files of the
directory. A name passes through URL encoding and the rules of the standard library
for the stem and the extension of a file name.
-/

namespace GelCli.Dump

open GelCli.Foundation

/-! ## URL encoding -/

def unreserved (c : Char) : Bool := c.isAlphanum || "-._~".toList.contains c

/-- What the `urlencoding` crate promises. -/
structure UrlEncoding where
  encode : Text → Text
  decode : Text → Except String Text
  decode_encode : ∀ t, decode (encode t) = .ok t
  encode_chars : ∀ t, ∀ c ∈ encode t, unreserved c ∨ c = '%'
  encode_nil : encode [] = []

/-! ## File names -/

/-- `rsplit_file_at_dot` of `std::path`. -/
def rsplitFileAtDot (file : Text) : Option Text × Option Text :=
  if file = ['.', '.'] then (some file, none)
  else
    match Text.cutLast '.' file with
    | none => (none, some file)
    | some (before, after) => if before = [] then (some file, none) else (some before, some after)

def fileStem (file : Text) : Option Text :=
  let (before, after) := rsplitFileAtDot file
  before.or after

def extension (file : Text) : Option Text :=
  let (before, after) := rsplitFileAtDot file
  before.bind fun _ => after

variable (url : UrlEncoding) (sha1 : Bytes → Vector UInt8 20)

def dumpFileName (database : Text) : Text := url.encode database ++ ".dump".toList

def pathToDatabaseName (file : Text) : Except String Text :=
  match fileStem file with
  | none => .error ("invalid dump filename " ++ String.ofList file)
  | some encoded =>
      match url.decode encoded with
      | .ok decoded => .ok decoded
      | .error error =>
          .error ("failed to decode filename " ++ String.ofList file ++ ": " ++ error)

/-! ## `dump_all` -/

structure Database where
  name : Text
  content : Content

abbrev Directory := Dict Text Bytes

/-- The loop over the databases. -/
def dumpDatabases (directory : Directory) : List Database → Option Directory
  | [] => some directory
  | database :: databases =>
      match dumpDb sha1 database.content with
      | none => none
      | some file => dumpDatabases (directory.set (dumpFileName url database.name) file) databases

/-- `dump_all` into a new directory; `init` is the text of `init.edgeql`. -/
def dumpAll (init : Bytes) (databases : List Database) : Option Directory :=
  dumpDatabases url sha1 (Dict.empty.set "init.edgeql".toList init) databases

/-! ## `restore_all` -/

/-- One directory entry, once `init.edgeql` was applied: `none` if it is no dump. -/
def restoreEntry (dir : String) (deliver : Text → ∀ bytes, Delivery bytes)
    (entry : Text × Bytes) : Except String (Option Database) := do
  let (file, bytes) := entry
  if extension file ≠ some "dump".toList then return none
  else
    let database ← pathToDatabaseName url file
    match restoreDb (dir ++ "/" ++ String.ofList file) bytes (deliver file) with
    | .ok content => return some ⟨database, content⟩
    | .error error =>
        .error ("restoring database " ++ String.ofList database ++ ": " ++ error)

/-- The databases restored from a directory, in the order it is listed. -/
def restoreAll (dir : String) (deliver : Text → ∀ bytes, Delivery bytes)
    (listing : List (Text × Bytes)) : Except String (List Database) := do
  let restored ← listing.mapM (restoreEntry url dir deliver)
  return restored.reduceOption

/-! ## Names and their files -/

variable {url}

theorem UrlEncoding.encode_injective : Function.Injective url.encode := by
  intro a b h
  have hdecode := url.decode_encode a
  rw [h, url.decode_encode] at hdecode
  exact (Except.ok.inj hdecode).symm

theorem dumpFileName_injective : Function.Injective (dumpFileName url) := by
  intro a b h
  exact url.encode_injective (List.append_cancel_right h)

theorem encode_ne_nil {name : Text} (h : name ≠ []) : url.encode name ≠ [] := by
  intro hnil
  rw [← url.encode_nil] at hnil
  exact h (url.encode_injective hnil)

theorem rsplitFileAtDot_dumpFileName {name : Text} (h : name ≠ []) :
    rsplitFileAtDot (dumpFileName url name) = (some (url.encode name), some "dump".toList) := by
  have hdot : dumpFileName url name = url.encode name ++ '.' :: "dump".toList := rfl
  have hlong : dumpFileName url name ≠ ['.', '.'] := by
    intro heq
    have hlen := congrArg List.length heq
    simp [dumpFileName] at hlen
  rw [rsplitFileAtDot, if_neg hlong, hdot, Text.cutLast_append (by decide)]
  simp only [if_neg (encode_ne_nil h)]

variable (url) in
/-- The file of a database is read back as that database. -/
theorem pathToDatabaseName_dumpFileName {name : Text} (h : name ≠ []) :
    extension (dumpFileName url name) = some "dump".toList ∧
      pathToDatabaseName url (dumpFileName url name) = .ok name := by
  have hsplit : rsplitFileAtDot (dumpFileName url name) =
      (some (url.encode name), some "dump".toList) := rsplitFileAtDot_dumpFileName h
  constructor
  · rw [extension, hsplit]
    rfl
  · have hstem : fileStem (dumpFileName url name) = some (url.encode name) := by
      rw [fileStem, hsplit]
      rfl
    simp only [pathToDatabaseName, hstem, url.decode_encode]

/-- The file of the empty name is a hidden file without an extension. -/
theorem extension_dumpFileName_nil : extension (dumpFileName url []) = none := by
  have hname : dumpFileName url [] = ".dump".toList := by
    rw [dumpFileName, url.encode_nil]
    rfl
  rw [hname]
  decide

end GelCli.Dump
