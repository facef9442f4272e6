import GelCli.Registry.Catalog

/-!
# Manifests and package indexes

`manifest.rs`, `index.rs` and the reference rules of `source.rs`: which indexes a
manifest selects, and which packages of an index document are accepted. The url,
semver, regex and hex crates and the paths of the platform are parameters; an
error is the text that `{:#}` prints of it.
-/

namespace GelCli.Registry

/-- `anyhow::Context::context`. -/
def context (message error : String) : String := message ++ ": " ++ error

/-- What the parsers rely on outside the repository. -/
structure Crates where
  /-- `Url::parse`: the scheme and the url. -/
  parseUrl : String → Option (String × String)
  joinUrl : String → String → Except String String
  urlToFilePath : String → Option String
  urlFromFilePath : String → Option String
  /-- `path.parent().unwrap_or(".").join(value)`. -/
  joinParent : String → String → String
  isAbsolute : String → Bool
  matchesBuild : String → Bool
  parseSemver : String → Except String String
  decodeHex : String → Except String (List UInt8)

variable (crates : Crates)

/-! ## References -/

inductive ReferenceKind where
  | httpUrl (url : String)
  | fileUrl (url : String)
  | relative
  | unsupportedScheme (scheme : String)

/-- `value.contains("://")`. -/
def containsAuthority (value : String) : Bool :=
  decide (List.IsInfix "://".toList value.toList)

def classifyReference (value : String) : ReferenceKind :=
  match crates.parseUrl value with
  | some (scheme, url) =>
      if scheme = "http" ∨ scheme = "https" then .httpUrl url
      else if scheme = "file" then .fileUrl url
      else if containsAuthority value then .unsupportedScheme scheme
      else .relative
  | none => .relative

/-- The first colon is escaped. -/
def relativeHttpRef (value : String) : String :=
  match value.toList.span (· ≠ ':') with
  | (_, []) => value
  | (before, _ :: after) => String.ofList before ++ "%3A" ++ String.ofList after

def Source.fromFileUrl (url : String) : Except String Source :=
  match crates.urlToFilePath url with
  | some path => .ok (.file path)
  | none => .error ("invalid file registry source URL " ++ url)

/-! ## Manifests -/

inductive Channel where
  | stable
  | testing
  | nightly
deriving DecidableEq, Repr

def legacyChannelSuffix : Channel → String
  | .stable => ""
  | .testing => ".testing"
  | .nightly => ".nightly"

def legacyIndexUrl (root platform : String) (channel : Channel) : Except String String :=
  crates.joinUrl root
    ("/archive/.jsonindexes/" ++ platform ++ legacyChannelSuffix channel ++ ".json")

structure ManifestIndex where
  channel : Channel
  platform : String
  reference : String

structure Manifest where
  schemaVersion : Nat
  indexes : List ManifestIndex

/-- `Manifest::from_slice`, after the bytes were deserialized. -/
def Manifest.checked (manifest : Manifest) : Except String Manifest :=
  if manifest.schemaVersion ≠ 1 then
    .error ("unsupported registry manifest schema_version " ++ toString manifest.schemaVersion)
  else .ok manifest

def resolveIndexSource (manifestSource : Source) (value : String) : Except String Source :=
  match classifyReference crates value with
  | .httpUrl url => .ok (.http url)
  | .fileUrl url => Source.fromFileUrl crates url
  | .unsupportedScheme scheme =>
      .error ("unsupported registry index source scheme " ++ scheme ++ ": " ++ value)
  | .relative =>
      match manifestSource with
      | .http base => (crates.joinUrl base (relativeHttpRef value)).map Source.http
      | .file path => .ok (.file (crates.joinParent path value))

def Manifest.selectIndexes (manifest : Manifest) (manifestSource : Source) (channel : Channel)
    (platform : String) : Except String (List Source) :=
  (manifest.indexes.filter fun index => index.channel = channel ∧ index.platform = platform).mapM
    fun index => resolveIndexSource crates manifestSource index.reference

/-! ## Index documents -/

structure Verification where
  size : Nat
  blake2b : Option String

structure InstallRef where
  path : String
  kind : String
  encoding : Option String
  verification : Verification

structure PackageData where
  basename : String
  version : String
  installrefs : List InstallRef
  slot : String
  tags : Tags

structure IndexDocument where
  packages : List PackageData

structure IndexValidationError where
  indexSource : String
  package : String
  field : String
  message : String

def IndexValidationError.new (indexSource : Source) (package : PackageData)
    (field message : String) : IndexValidationError :=
  ⟨indexSource.display, package.basename, field, message⟩

/-- The `Display` of the error, with the package name as `{:?}` quotes it. -/
def IndexValidationError.display (quote : String → String) (e : IndexValidationError) : String :=
  "invalid package " ++ quote e.package ++ " in registry index " ++ e.indexSource ++
    ": field " ++ e.field ++ ": " ++ e.message

def cliMediaType (platform : String) : Option String :=
  if List.IsSuffix "-apple-darwin".toList platform.toList then
    some "application/x-mach-binary"
  else if List.IsInfix "-linux-".toList platform.toList then
    some "application/x-pie-executable"
  else if List.IsInfix "-windows-".toList platform.toList then
    some "application/x-dosexec"
  else none

section Validation

variable (indexSource artifactBase : Source) (platform : String) (package : PackageData)

def selectInstallref (wanted : InstallRef → Bool) :
    Except IndexValidationError (Option InstallRef) :=
  if package.installrefs.isEmpty then
    .error (.new indexSource package "installrefs" "package has no installrefs")
  else .ok (package.installrefs.find? wanted)

/-- `Blake2bDigest::from_str`. -/
def parseBlake2bDigest (value : String) : Except String (List UInt8) :=
  if value.utf8ByteSize ≠ 128 then
    .error ("invalid Blake2b digest length " ++ toString value.utf8ByteSize ++
      "; expected 128 hexadecimal characters")
  else
    match crates.decodeHex value with
    | .ok bytes => .ok bytes
    | .error error => .error ("invalid Blake2b hexadecimal digest: " ++ error)

def parseInstallrefDigest (installref : InstallRef) :
    Except IndexValidationError (List UInt8) :=
  match installref.verification.blake2b with
  | none =>
      .error (.new indexSource package "installrefs.verification.blake2b"
        "Blake2b digest is missing")
  | some digest =>
      (parseBlake2bDigest crates digest).mapError
        (.new indexSource package "installrefs.verification.blake2b")

def resolveInstallrefUrl (value : String) : Option String :=
  match classifyReference crates value with
  | .httpUrl url | .fileUrl url => some url
  | .unsupportedScheme _ => none
  | .relative =>
      match artifactBase with
      | .http base => (crates.joinUrl base (relativeHttpRef value)).toOption
      | .file path =>
          crates.urlFromFilePath
            (if crates.isAbsolute value then value else crates.joinParent path value)

def installrefUrl (installref : InstallRef) : Except IndexValidationError String :=
  match resolveInstallrefUrl crates artifactBase installref.path with
  | some url => .ok url
  | none =>
      .error (.new indexSource package "installrefs.ref"
        ("invalid artifact URL " ++ installref.path))

/-- `package.version.parse::<ver::Build>()`. -/
def parseBuild : Except IndexValidationError String :=
  if crates.matchesBuild package.version then .ok package.version
  else .error (.new indexSource package "version"
    ("unsupported build version format: " ++ package.version))

def validateServer : Except IndexValidationError (Option ValidatedArtifact) := do
  match ← selectInstallref indexSource package fun installref =>
      installref.kind = "application/x-tar" ∧ installref.encoding = some "zstd" with
  | none => return none
  | some installref =>
      let version ← parseBuild crates indexSource package
      let url ← installrefUrl crates indexSource artifactBase package installref
      let hash ← parseInstallrefDigest crates indexSource package installref
      return some (.server (.server package.basename package.version package.slot)
        { name := package.basename
          version := version
          url := url
          size := installref.verification.size
          hash := hash
          kind := .tarZst
          slot := package.slot
          tags := package.tags })

def validateCli : Except IndexValidationError (Option ValidatedArtifact) := do
  match cliMediaType platform with
  | none =>
      .error (.new indexSource package "installrefs.type"
        ("no CLI artifact media type for platform " ++ platform))
  | some mediaType =>
      let wanted (encoding : String) (installref : InstallRef) : Bool :=
        installref.kind = mediaType ∧ installref.encoding = some encoding
      match (package.installrefs.find? (wanted "zstd")).or
          (package.installrefs.find? (wanted "identity")) with
      | none =>
          if package.installrefs.isEmpty then
            .error (.new indexSource package "installrefs" "package has no installrefs")
          else return none
      | some installref =>
          let version ← (crates.parseSemver package.version).mapError
            (.new indexSource package "version")
          let url ← installrefUrl crates indexSource artifactBase package installref
          let hash ← parseInstallrefDigest crates indexSource package installref
          return some (.cli (.cli package.basename package.version)
            { version := version
              url := url
              size := installref.verification.size
              hash := hash
              compression := if installref.encoding = some "zstd" then some .zstd else none })

/-- A tag that is there and not empty. -/
def requiredTag (tag : String) (field message : String) : Except IndexValidationError String :=
  match (package.tags.lookup tag).filter fun value => value ≠ "" with
  | some value => .ok value
  | none => .error (.new indexSource package field message)

def validateExtension : Except IndexValidationError (Option ValidatedArtifact) := do
  let extensionName ← requiredTag indexSource package "extension" "tags.extension"
    "extension tag is missing or empty"
  let serverSlot ← requiredTag indexSource package "server_slot" "tags.server_slot"
    "server_slot tag is missing or empty"
  match ← selectInstallref indexSource package fun installref =>
      installref.kind = "application/zip" ∧ installref.encoding = some "identity" with
  | none => return none
  | some installref =>
      let version ← parseBuild crates indexSource package
      let url ← installrefUrl crates indexSource artifactBase package installref
      let hash ← parseInstallrefDigest crates indexSource package installref
      return some (.extension (.extension extensionName package.version serverSlot)
        { name := extensionName
          version := version
          url := url
          size := installref.verification.size
          hash := hash
          kind := .zip
          slot := package.slot
          tags := package.tags })

def validatePackage : Except IndexValidationError (Option ValidatedArtifact) :=
  if package.basename = "gel-server" ∨ package.basename = "edgedb-server" then
    validateServer crates indexSource artifactBase package
  else if package.basename = "gel-cli" ∨ package.basename = "edgedb-cli" then
    validateCli crates indexSource artifactBase platform package
  else if "extension" ∈ package.tags then
    validateExtension crates indexSource artifactBase package
  else .ok none

end Validation

def IndexDocument.validate (document : IndexDocument) (indexSource artifactBase : Source)
    (platform : String) : Except IndexValidationError (List ValidatedArtifact) := do
  let validated ← document.packages.mapM
    (validatePackage crates indexSource artifactBase platform)
  return validated.reduceOption

end GelCli.Registry
