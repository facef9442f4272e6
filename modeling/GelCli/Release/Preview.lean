import GelCli.Release.Versions
import GelCli.Foundation.Results
import GelCli.Foundation.Json

/-!
# The next preview version

`next_preview_version` of `preview.py`: the smallest unused number behind the
published tags of a base version and phase, unless the snapshot is published.
-/

namespace GelCli.Release

open GelCli.Foundation

/-- `_TAG_PATTERN`. -/
def tagMatch : Text → Option PreviewMatch
  | 'v' :: version => previewMatch version
  | _ => none

/-- The number that a tag takes in the series of a base version and phase. -/
def tagNumber (base : Text) (phase : Phase) (tag : Text) : Option ℕ :=
  (tagMatch tag).bind fun m => if m.base = base ∧ m.phase = phase then some m.number else none

def highestNumber (base : Text) (phase : Phase) (publishedTags : List Text) : ℕ :=
  publishedTags.foldl (fun highest tag => max highest ((tagNumber base phase tag).getD 0)) 0

def nextPreviewVersion (base : Text) (phase : Phase) (publishedTags : List Text)
    (alreadyPublished : List (Phase × Text)) (currentSnapshot : Text) :
    Except String (Option Text) := do
  let shown := Json.reprText base
  require (plainMatch base).isSome s!"unsupported release base version: {shown}"
  require (currentSnapshot ≠ []) "current snapshot must be a non-empty string"
  if (phase, currentSnapshot) ∈ alreadyPublished then
    return none
  return some (previewText ⟨base, phase, highestNumber base phase publishedTags + 1⟩)

end GelCli.Release
