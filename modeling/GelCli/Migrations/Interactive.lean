import GelCli.Foundation.ByteIndex
import GelCli.Foundation.Dict
import GelCli.Foundation.Results
import GelCli.Foundation.Savepoints
import GelCli.Foundation.Transition
import Mathlib.Data.Finset.Insert

/-!
# Migrations that are made interactively

`InteractiveMigration` of `src/migrations/create.rs`: a loop that asks the server for a
proposal, the user for a choice, and applies what was confirmed. A step goes from one wait
for the server or the user to the next one. What they answer is the event of the step.

The transaction holds the decisions that are in effect. What is shown to the user is left
out.
-/

namespace GelCli.Migrations.Interactive

open GelCli.Foundation

/-! ## Placeholders -/

/-- A token of a statement and where it stands, in bytes. -/
structure SpannedToken where
  substitution : Bool
  text : Text
  start : Nat
  stop : Nat

abbrev Tokenizer := Text → List (Except Text SpannedToken)

inductive SubstituteError where
  | invalidQuery (reason : Text)
  | badSubstitutionToken
  | missingInput (name : Text)
  | slicePanic
deriving DecidableEq, Repr

/-- The name in `\(name)`. -/
def placeholderName (text : Text) : Option Text :=
  if "\\(".toList.isPrefixOf text then
    let item := text.drop 2
    if ")".toList.isSuffixOf item then some item.dropLast else none
  else none

/-- The output and the byte up to which the input is in it. -/
def substituteToken (input : Text) (placeholders : Dict Text Text) (s : Text × Nat) :
    Except Text SpannedToken → Except SubstituteError (Text × Nat)
  | .error reason => .error (.invalidQuery reason)
  | .ok token =>
      if token.substitution then do
        let before ← expect (Text.slice input s.2 token.start) .slicePanic
        let name ← expect (placeholderName token.text) .badSubstitutionToken
        let expr ← expect (placeholders.get name) (.missingInput name)
        return (s.1 ++ before ++ expr, token.stop)
      else return s

def substitutePlaceholders (tokenize : Tokenizer) (input : Text) (placeholders : Dict Text Text) :
    Except SubstituteError Text := do
  let (output, start) ← (tokenize input).foldlM (substituteToken input placeholders) ([], 0)
  if start = 0 then
    return input
  let (_, rest) ← expect (Text.splitAtByte input start) .slicePanic
  return output ++ rest

/-! ## Proposals and answers -/

structure RequiredUserInput where
  placeholder : Text
deriving DecidableEq, Repr

structure StatementProposal where
  text : Text
deriving DecidableEq, Repr

structure Proposal where
  promptId : Option Text
  statements : List StatementProposal
  requiredUserInput : List RequiredUserInput
deriving DecidableEq, Repr

structure CurrentMigration where
  complete : Bool
  parent : Text
  confirmed : List Text
  proposed : Option Proposal
  debugDiff : Option Text
deriving DecidableEq, Repr

inductive Choice where
  | yes
  | no
  | list
  | confirmed
  | back
  | split
  | quit
deriving DecidableEq, Repr

/-- What can be chosen; the statements are listed unasked in explicit mode. -/
def choices (explicit : Bool) : List Choice :=
  if explicit then [.yes, .no, .confirmed, .back, .split, .quit]
  else [.yes, .no, .list, .confirmed, .back, .split, .quit]

inductive InputError where
  | refused
  | other (reason : Text)
deriving DecidableEq, Repr

/-- The user is asked for one expression after the other. -/
def getUserInput (answers : Nat → Except InputError Text) (req : List RequiredUserInput) :
    Except InputError (Dict Text Text) :=
  req.zipIdx.foldlM (fun result item => do
    let input ← answers item.2
    return result.set item.1.placeholder input) .empty

/-- How a command ended. A failure is printed, which may fail too. -/
inductive Reply where
  | ok
  | error (printed consistent : Bool)
deriving DecidableEq, Repr

inductive RunError where
  | failed
  | input (reason : Text)
  | choice
  | quit
  | disconnected
  | couldNotResolve (debugInfo : Option Text)
  | substitute (error : SubstituteError)
  | noOperations
deriving DecidableEq, Repr

/-! ## The state -/

/-- What became of a proposal. -/
inductive Decision where
  | accepted (promptId : Option Text)
  | rejected
deriving DecidableEq, Repr

/-- What is waited for. -/
inductive Phase where
  | declaring
  | describing
  | approved (descr : CurrentMigration) (proposal : Proposal)
  | asking (descr : CurrentMigration) (proposal : Proposal)
  | inputting (descr : CurrentMigration) (proposal : Proposal)
  | rejecting
  | goingBack
  | applying (proposal : Proposal) (input : Dict Text Text) (text : Text)
      (rest : List StatementProposal)
  | rollingBack
  | ended (result : Except RunError CurrentMigration)

structure InteractiveMigration where
  cli : Transaction (List Decision)
  savePoint : Nat
  operations : List (Finset Text)
  confirmed : List Text
  explicit : Bool
  phase : Phase

/-- `InteractiveMigration::new` and the start of `run`. -/
def InteractiveMigration.start (expert : Bool) : InteractiveMigration where
  cli := ⟨[], []⟩
  savePoint := 0
  operations := [∅]
  confirmed := []
  explicit := !expert
  phase := .declaring

inductive Event where
  | replied (reply : Reply)
  | described (descr : Option CurrentMigration)
  | chosen (choice : Option Choice)
  | answered (answers : Nat → Except InputError Text)

/-! ## The steps -/

namespace InteractiveMigration

def goTo (s : InteractiveMigration) (phase : Phase) : InteractiveMigration := { s with phase := phase }

def stop (s : InteractiveMigration) (result : Except RunError CurrentMigration) :
    InteractiveMigration :=
  s.goTo (.ended result)

/-- `save_point` -/
def declared (s : InteractiveMigration) : InteractiveMigration :=
  { s with cli := s.cli.declare s.savePoint, phase := .describing }

/-- `rollback` -/
def rollback (s : InteractiveMigration) : Option InteractiveMigration :=
  (s.cli.rollbackTo s.savePoint).map fun cli => { s with cli := cli }

def alreadyApproved (curOper : Finset Text) (proposal : Proposal) : Bool :=
  (proposal.promptId.map fun op => decide (op ∈ curOper)).getD false

/-- The body of the loop in `run`, and `process_proposal` up to the first question. -/
def process (debugPrintErr : Bool) (s : InteractiveMigration) (descr : CurrentMigration) :
    InteractiveMigration :=
  let s := { s with confirmed := descr.confirmed }
  if descr.complete then s.stop (.ok descr)
  else
    match descr.proposed, s.operations.getLast? with
    | none, _ =>
        s.stop (.error (.couldNotResolve (if debugPrintErr then descr.debugDiff else none)))
    | some _, none => s.stop (.error .noOperations)
    | some proposal, some curOper =>
        if alreadyApproved curOper proposal then s.goTo (.approved descr proposal)
        else s.goTo (.asking descr proposal)

def choose (s : InteractiveMigration) (descr : CurrentMigration) (proposal : Proposal) :
    Choice → InteractiveMigration
  | .yes => s.goTo (.inputting descr proposal)
  | .no => s.goTo .rejecting
  | .list => s
  | .confirmed => s
  | .back =>
      if s.savePoint = 0 then s
      else { s with savePoint := s.savePoint - 1, phase := .goingBack }
  | .split => s.stop (.ok descr)
  | .quit => s.stop (.error .quit)

/-- The proposal is rejected; `operations` stays as it is. -/
def rejected (s : InteractiveMigration) : InteractiveMigration :=
  { s with
    cli := { s.cli with content := s.cli.content ++ [.rejected] }
    savePoint := s.savePoint + 1
    phase := .declaring }

def accepted (s : InteractiveMigration) (proposal : Proposal) : InteractiveMigration :=
  match s.operations.getLast? with
  | none => s.stop (.error .noOperations)
  | some last =>
      { s with
        cli := { s.cli with content := s.cli.content ++ [.accepted proposal.promptId] }
        operations := s.operations ++ [proposal.promptId.elim last fun promptId => insert promptId last]
        savePoint := s.savePoint + 1
        phase := .declaring }

/-- The statements that are left. -/
def applyRest (tokenize : Tokenizer) (s : InteractiveMigration) (proposal : Proposal)
    (input : Dict Text Text) : List StatementProposal → InteractiveMigration
  | [] => s.accepted proposal
  | statement :: rest =>
      match substitutePlaceholders tokenize statement.text input with
      | .error e => s.stop (.error (.substitute e))
      | .ok text => s.goTo (.applying proposal input text rest)

/-- The statements are applied once the input is there; `refused` is where a refusal leads. -/
def withInput (tokenize : Tokenizer) (s refused : InteractiveMigration) (proposal : Proposal)
    (answers : Nat → Except InputError Text) : InteractiveMigration :=
  match getUserInput answers proposal.requiredUserInput with
  | .ok input => s.applyRest tokenize proposal input proposal.statements
  | .error .refused => refused
  | .error (.other reason) => s.stop (.error (.input reason))

def next (tokenize : Tokenizer) (debugPrintErr : Bool) (s : InteractiveMigration) (e : Event) :
    Option InteractiveMigration :=
  match s.phase, e with
  | .declaring, .replied .ok => some s.declared
  | .describing, .described none => some (s.stop (.error .failed))
  | .describing, .described (some descr) => some (s.process debugPrintErr descr)
  | .approved _ proposal, .answered answers => some (s.withInput tokenize s proposal answers)
  | .asking _ _, .chosen none => some (s.stop (.error .choice))
  | .asking descr proposal, .chosen (some choice) =>
      if choice ∈ choices s.explicit then some (s.choose descr proposal choice) else none
  | .inputting descr proposal, .answered answers =>
      some (s.withInput tokenize (s.goTo (.asking descr proposal)) proposal answers)
  | .rejecting, .replied .ok => some s.rejected
  | .goingBack, .replied .ok =>
      s.rollback.map fun s =>
        { s with operations := s.operations.take (s.savePoint + 1), phase := .describing }
  | .applying proposal input _ rest, .replied .ok => some (s.applyRest tokenize proposal input rest)
  | .applying .., .replied (.error printed consistent) =>
      if ¬printed then some (s.stop (.error .failed))
      else if consistent then some (s.goTo .rollingBack)
      else some (s.stop (.error .disconnected))
  | .rollingBack, .replied .ok => s.rollback.map (·.goTo .describing)
  | .declaring, .replied (.error ..) | .rejecting, .replied (.error ..)
  | .goingBack, .replied (.error ..) | .rollingBack, .replied (.error ..) =>
      some (s.stop (.error .failed))
  | _, _ => none

end InteractiveMigration

/-- `InteractiveMigration::run` -/
def system (tokenize : Tokenizer) (debugPrintErr : Bool) : System InteractiveMigration Event where
  Initial s := ∃ expert, s = .start expert
  next := InteractiveMigration.next tokenize debugPrintErr

end GelCli.Migrations.Interactive
