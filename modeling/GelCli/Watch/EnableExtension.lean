import GelCli.Foundation.Lines
import GelCli.Foundation.Whitespace

/-!
# Enabling a missing extension

When the configuration needs an extension that the database lacks, `watch --sync` looks
for the line of `extensions.gel` that holds it as a comment and takes the `#` away.
-/

namespace GelCli.Watch

open GelCli.Foundation

/-- An error of `project::config::apply`: a hint wraps the error that it is for. -/
inductive ApplyError where
  | missingExtension (name : Text)
  | hinted (error : ApplyError)
  | other
  deriving DecidableEq

def ApplyError.withoutHint : ApplyError → ApplyError
  | .hinted error => error
  | .missingExtension name => .missingExtension name
  | .other => .other

def usingWord : Text := ['u', 's', 'i', 'n', 'g']

/-- `using extension <name>;` -/
def usingPattern (name : Text) : Text := usingWord ++ (" extension ".toList ++ (name ++ [';']))

def isCommented (name line : Text) : Bool :=
  ('#' :: usingPattern name).isPrefixOf (Text.trimStart line)

def uncomment (line : Text) : Text := Text.replaceFirst ('#' :: usingWord) usingWord line

def uncommentLine (name line : Text) : Text :=
  if isCommented name line then uncomment line else line

/-- The extension that the error asks for and the content of `extensions.gel` that enables
it. -/
def maybeEnableMissingExtension (err : ApplyError) (extensionsGel : Option Text) :
    Except ApplyError (Text × Text) :=
  match err.withoutHint, extensionsGel with
  | .missingExtension name, some content =>
      if (Text.lines content).any (isCommented name) then
        .ok (name, ['\n'].intercalate ((Text.lines content).map (uncommentLine name)))
      else .error err
  | _, _ => .error err

/-- A line of the schema file enables the extension. -/
def usesExtension (content name : Text) : Bool :=
  (Text.lines content).any fun line => (usingPattern name).isPrefixOf (Text.trimStart line)

/-! ## The file that is written -/

theorem uncomment_of_isCommented {name line : Text} (h : isCommented name line = true) :
    ∃ blank rest, (∀ c ∈ blank, isWhitespace c = true) ∧
      uncomment line = blank ++ (usingPattern name ++ rest) := by
  obtain ⟨rest, hrest⟩ := List.isPrefixOf_iff_prefix.mp h
  refine ⟨Text.leadingBlank line, rest, fun c hc => Text.isWhitespace_of_mem_leadingBlank hc, ?_⟩
  have hsplit : line = Text.leadingBlank line ++ ('#' :: usingPattern name ++ rest) := by
    rw [hrest]
    exact (Text.leadingBlank_append_trimStart line).symm
  have hblank : '#' ∉ Text.leadingBlank line := fun hmem =>
    absurd (Text.isWhitespace_of_mem_leadingBlank hmem) (by decide)
  calc uncomment line
      = Text.replaceFirst ('#' :: usingWord) usingWord
          (Text.leadingBlank line ++ ('#' :: usingPattern name ++ rest)) := by
        rw [← hsplit, uncomment]
    _ = Text.leadingBlank line ++ (usingPattern name ++ rest) := by
        rw [usingPattern, List.append_assoc, ← List.cons_append, List.append_assoc]
        exact Text.replaceFirst_append hblank _

theorem newline_notMem_uncommentLine {name line : Text} (h : '\n' ∉ line) :
    '\n' ∉ uncommentLine name line := by
  unfold uncommentLine uncomment
  split
  · exact Text.notMem_replaceFirst h (by decide)
  · exact h

theorem exists_mem_lines_uncommented {ls : List Text} (h : ∀ l ∈ ls, '\n' ∉ l)
    {name blank rest : Text} (hmem : blank ++ (usingPattern name ++ rest) ∈ ls) :
    ∃ kept, blank ++ (usingPattern name ++ kept) ∈ Text.lines (['\n'].intercalate ls) := by
  have hsplit : ∀ rest, blank ++ (usingPattern name ++ rest) =
      (blank ++ (usingWord ++ (" extension ".toList ++ name))) ++ ';' :: rest := by
    intro rest
    simp only [usingPattern, List.append_assoc, List.singleton_append]
  rw [hsplit] at hmem
  obtain ⟨kept, hkept⟩ := Text.exists_mem_lines_intercalate h (by decide) hmem
  exact ⟨kept, by rwa [hsplit]⟩

/-- The file that is written enables the extension. -/
theorem usesExtension_maybeEnable {err : ApplyError} {before : Option Text} {name content : Text}
    (h : maybeEnableMissingExtension err before = .ok (name, content)) :
    usesExtension content name = true := by
  unfold maybeEnableMissingExtension at h
  split at h
  case h_2 => cases h
  case h_1 name' old _ =>
    split at h
    case isFalse => cases h
    case isTrue hany =>
      cases h
      obtain ⟨line, hline, hcommented⟩ := List.any_eq_true.mp hany
      obtain ⟨blank, rest, hblank, huncommented⟩ := uncomment_of_isCommented hcommented
      have hmem : blank ++ (usingPattern name ++ rest) ∈
          (Text.lines old).map (uncommentLine name) := by
        refine List.mem_map.mpr ⟨line, hline, ?_⟩
        rw [uncommentLine, if_pos hcommented, huncommented]
      have hlines : ∀ l ∈ (Text.lines old).map (uncommentLine name), '\n' ∉ l := by
        intro l hl
        obtain ⟨line, hline, rfl⟩ := List.mem_map.mp hl
        exact newline_notMem_uncommentLine (Text.newline_notMem_of_mem_lines hline)
      obtain ⟨kept, hkept⟩ := exists_mem_lines_uncommented hlines hmem
      refine List.any_eq_true.mpr ⟨_, hkept, List.isPrefixOf_iff_prefix.mpr ⟨kept, ?_⟩⟩
      rw [Text.trimStart_append hblank]
      exact (Text.trimStart_of_head rfl _).symm

end GelCli.Watch
