import GelCli.Foundation.Decimal
import GelCli.Repl.Tokens

/-!
# The tokens of a command one by one

`BackslashFsm` of `completion.rs`: what the next token of a backslash command stands for,
and whether it is valid there. The commands, which the argument parser knows, are a
parameter.
-/

namespace GelCli.Repl.Backslash

open GelCli.Foundation
open Text

/-! ## The commands -/

structure CommandInfo where
  arguments : List Text
  nameDescription : Text

structure SettingInfo where
  nameDescription : Text
  values : Option (List Text)

inductive Command where
  | settings
  | normal (cmd : CommandInfo)
  | subcommands (cmds : List (Text × CommandInfo))

/-- `CommandCache` without the aliases, which are constants. The maps and the set are
lists in the order of their keys. -/
structure CommandCache where
  settings : List (Text × SettingInfo)
  commands : List (Text × Command)
  topCommands : List Text

inductive SettingValue where
  | variants (values : List Text)
  | usize

inductive BackslashFsm where
  | command
  | final
  | arguments (cmd : CommandInfo) (args : List Text)
  | subcommands (cmds : List (Text × CommandInfo))
  | setting
  | setValue (value : SettingValue)

inductive ValidationResult where
  | valid
  | invalid
  | unknown
  deriving DecidableEq

/-- `range_from` of the keys. -/
def rangeFrom (keys : List Text) (val : Text) : List Text :=
  keys.filter fun key => decide (val ≤ key)

/-! ## Steps -/

/-- What an alias stands for, or the name itself. -/
def commandPath (name : Text) : List Text :=
  match aliases.lookup (String.ofList name) with
  | some path => path.map String.toList
  | none => [name]

section Steps

variable (cache : CommandCache)

def BackslashFsm.ofCommand (path : List Text) : Option BackslashFsm := do
  let name ← path[0]?
  match cache.commands.lookup name with
  | some (.normal cmd) =>
      return if cmd.arguments.isEmpty then .final else .arguments cmd cmd.arguments
  | some (.subcommands subcmds) =>
      match path[1]? with
      | some second =>
          match subcmds.lookup second with
          | some cmd => return .arguments cmd cmd.arguments
          | none => return .final
      | none => return .subcommands subcmds
  | some .settings => return .setting
  | none => return .final

def BackslashFsm.ofSetting (name : Text) : BackslashFsm :=
  match cache.settings.lookup name with
  | some info =>
      match info.values with
      | some values => .setValue (.variants values)
      | none => .setValue .usize
  | none => .final

/-- `BackslashFsm::advance`; `none` is the panic of a slice or an index. -/
def BackslashFsm.advance (fsm : BackslashFsm) (item : Item) : Option BackslashFsm :=
  match fsm, item with
  | .command, .command name =>
      if name = "\\set".toList then some .setting
      else do
        let (_, name) ← splitAtByte name 1
        BackslashFsm.ofCommand cache (commandPath name)
  | .subcommands sub, .argument name =>
      match sub.lookup name with
      | some cmd => some (.arguments cmd cmd.arguments)
      | none => some .final
  | .arguments cmd args, .argument x =>
      if x.head? = some '-' then some (.arguments cmd args)
      else if args.length ≤ 1 then some .final
      else some (.arguments cmd (args.drop 1))
  | .setting, .argument name => some (BackslashFsm.ofSetting cache name)
  | _, _ => some .final

/-- The first key that is not in front of the text, if it begins with it. -/
def validateKey (keys : List Text) (val : Text) : ValidationResult :=
  match ((rangeFrom keys val).takeWhile fun key => val.isPrefixOf key).head? with
  | some matching => if byteLen val = byteLen matching then .valid else .unknown
  | none => .invalid

/-- `usize::from_str(arg).is_ok()` on a system of 64 bits. -/
def isUsize (arg : Text) : Bool :=
  let digits := (stripStart ['+'] arg).getD arg
  digits ≠ [] ∧ digits.all Char.isDigit ∧ Decimal.value digits < 2 ^ 64

/-- `BackslashFsm::validate` -/
def BackslashFsm.validate (fsm : BackslashFsm) (item : Item) : ValidationResult :=
  match fsm, item with
  | .command, .command cmd => validateKey cache.topCommands cmd
  | .setting, .argument arg => validateKey (cache.settings.map Prod.fst) arg
  | .setValue .usize, .argument arg => if isUsize arg then .valid else .invalid
  | .setValue (.variants all), .argument arg =>
      match all.find? fun x => arg.isPrefixOf x with
      | some val => if byteLen val = byteLen arg then .valid else .unknown
      | none => .invalid
  | .final, _ => .invalid
  | _, _ => .unknown

end Steps

/-! ## No panic -/

theorem commandPath_ne_nil (name : Text) : commandPath name ≠ [] := by
  have hall : ∀ entry ∈ aliases, entry.2 ≠ [] := by decide
  unfold commandPath
  cases hlookup : aliases.lookup (String.ofList name) with
  | none => exact List.cons_ne_nil _ _
  | some path =>
      intro hnil
      have hmem : (String.ofList name, path) ∈ aliases := by
        obtain ⟨before, after, heq, -⟩ := List.lookup_eq_some_iff.mp hlookup
        rw [heq]
        exact List.mem_append_right _ List.mem_cons_self
      exact hall _ hmem (List.map_eq_nil_iff.mp hnil)

theorem exists_ofCommand (cache : CommandCache) {path : List Text} (h : path ≠ []) :
    ∃ fsm, BackslashFsm.ofCommand cache path = some fsm := by
  obtain ⟨name, path, rfl⟩ := List.exists_cons_of_ne_nil h
  rw [BackslashFsm.ofCommand, List.getElem?_cons_zero, Option.bind_eq_bind, Option.bind_some]
  cases cache.commands.lookup name with
  | none => exact ⟨_, rfl⟩
  | some cmd =>
      cases cmd with
      | settings => exact ⟨_, rfl⟩
      | normal cmd => exact ⟨_, rfl⟩
      | subcommands subcmds =>
          cases path with
          | nil => exact ⟨_, rfl⟩
          | cons second path =>
              rw [List.getElem?_cons_succ, List.getElem?_cons_zero]
              cases hcmd : subcmds.lookup second with
              | none =>
                  refine ⟨.final, ?_⟩
                  simp only [hcmd]
                  rfl
              | some cmd =>
                  refine ⟨.arguments cmd cmd.arguments, ?_⟩
                  simp only [hcmd]
                  rfl

/-- What the tokenizer takes for a command begins with a backslash. -/
def Item.IsNamed : Item → Prop
  | .command value => ∃ name, value = '\\' :: name
  | _ => True

theorem exists_advance (cache : CommandCache) (fsm : BackslashFsm) {item : Item}
    (h : item.IsNamed) : ∃ fsm', fsm.advance cache item = some fsm' := by
  unfold BackslashFsm.advance
  split
  · next name =>
    obtain ⟨name, rfl⟩ := h
    split
    · exact ⟨_, rfl⟩
    · have hsplit : splitAtByte ('\\' :: name) 1 = some (['\\'], name) :=
        splitAtByte_append ['\\'] name
      rw [hsplit]
      exact exists_ofCommand cache (commandPath_ne_nil name)
  · next sub name =>
    cases sub.lookup name with
    | none => exact ⟨_, rfl⟩
    | some cmd => exact ⟨_, rfl⟩
  · split
    · exact ⟨_, rfl⟩
    · split <;> exact ⟨_, rfl⟩
  · exact ⟨_, rfl⟩
  · exact ⟨_, rfl⟩

theorem wordToken_isNamed {firstItem : Bool} {offset stop : Nat} {value : Text} {tok : Token}
    (h : wordToken firstItem offset stop value = some tok) : tok.item.IsNamed := by
  unfold wordToken at h
  split at h
  · cases value with
    | nil => cases h
    | cons c name =>
        simp only at h
        split at h
        · cases h
          trivial
        · next hc =>
          split at h
          · cases h
            trivial
          · cases h
            exact ⟨name, by rw [not_not.mp hc]⟩
  · cases h
    trivial

theorem readToken_isNamed {firstItem : Bool} {offset len : Nat} {tail : Text} {tok : Token}
    (h : readToken firstItem offset len tail = some tok) : tok.item.IsNamed := by
  unfold readToken at h
  cases hscan : scan none 0 tail with
  | semicolon | newline | quoteLineEnd | incomplete =>
      rw [hscan] at h
      cases h
      trivial
  | word stop =>
      rw [hscan] at h
      obtain ⟨value, -, h⟩ := Option.bind_eq_some_iff.mp h
      exact wordToken_isNamed h

theorem token_isNamed {p : Parser} {tok : Token} (h : p.token = some (some tok)) :
    tok.item.IsNamed := by
  unfold Parser.token at h
  obtain ⟨value, -, h⟩ := Option.bind_eq_some_iff.mp h
  simp only at h
  split at h
  · cases h
  · obtain ⟨tok', htok, h⟩ := Option.bind_eq_some_iff.mp h
    cases h
    exact readToken_isNamed htok

theorem Yields.isNamed {p : Parser} {toks : List Token} (h : Yields p toks) :
    ∀ tok ∈ toks, tok.item.IsNamed := by
  induction h with
  | done => exact fun tok htok => absurd htok List.not_mem_nil
  | @token p p' tok toks hnext _ ih =>
      intro tok' htok'
      rcases List.mem_cons.mp htok' with rfl | htok'
      · unfold Parser.next at hnext
        obtain ⟨result, hresult, hmap⟩ := Option.map_eq_some_iff.mp hnext
        obtain ⟨tok'', rfl, hpair⟩ := Option.map_eq_some_iff.mp hmap
        cases hpair
        exact token_isNamed hresult
      · exact ih tok' htok'

end GelCli.Repl.Backslash
