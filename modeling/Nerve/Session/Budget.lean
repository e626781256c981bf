import Nerve.Library.Text
import Nerve.Run.Types

/-!
# The limits of a session

The command `/budget` limits what the runs of a session may cost, in money and in tokens. Here are the
command's arguments, and what is asked before a limit goes up. Costs are millionths of a dollar.
-/

namespace Nerve.Session

open Nerve.Run Text

/-! ### The command's arguments -/

inductive BudgetAction where
  | show
  | set (costMicrousd tokens : Option Nat) (force : Bool)
  deriving DecidableEq, Repr

inductive BudgetParseError where
  | empty
  | emptyValue
  | unitMissing
  | invalidValue (raw : String)
  deriving DecidableEq, Repr

def BudgetParseError.text : BudgetParseError → String
  | .empty => "usage: /budget show | /budget cost=$X | /budget tokens=N [--force]"
  | .emptyValue => "/budget value must not be empty"
  | .unitMissing => "/budget value must specify a unit: $ prefix for cost, `tokens` suffix for tokens"
  | .invalidValue raw => s!"/budget value `{raw}` is not a positive number"

/-- What must be a positive number below the bound of the machine. -/
def positive (raw : List Char) (n : Option Nat) : Except BudgetParseError Nat :=
  match n with
  | some n => if n = 0 ∨ 2 ^ 64 ≤ n then .error (.invalidValue (String.ofList raw)) else .ok n
  | none => .error (.invalidValue (String.ofList raw))

/-- Six digits behind the point count, and stand for none where they lack. -/
def microsOf (fractionalStr : List Char) : Option Nat :=
  parseUsize ((fractionalStr ++ List.replicate (6 - fractionalStr.length) '0').take 6)

def parseCostValue (raw : List Char) : Except BudgetParseError Nat :=
  let trimmed := trim raw
  if trimmed.isEmpty then .error .emptyValue
  else
    match stripPrefix ['$'] trimmed with
    | none => .error .unitMissing
    | some rest =>
      if rest.isEmpty then .error .emptyValue
      else if rest.contains '-' || rest.contains '+' || rest.head? == some '.' then
        .error (.invalidValue (String.ofList raw))
      else
        let dollarsStr := rest.takeWhile (· ≠ '.')
        let fractionalStr := (rest.dropWhile (· ≠ '.')).tail
        if dollarsStr.isEmpty || !dollarsStr.all Char.isDigit || !fractionalStr.all Char.isDigit then
          .error (.invalidValue (String.ofList raw))
        else
          positive raw do
            let dollars ← parseUsize dollarsStr
            let micros ← microsOf fractionalStr
            pure (dollars * 1000000 + micros)

def parseTokensValue (raw : List Char) : Except BudgetParseError Nat :=
  let trimmed := trim raw
  if trimmed.isEmpty then .error .emptyValue
  else if !trimmed.all Char.isDigit then .error (.invalidValue (String.ofList raw))
  else positive raw (parseUsize trimmed)

/-- The tokens after those already read. -/
def budgetArguments (cost toks : Option Nat) (force : Bool) :
    List String → Except BudgetParseError (Option Nat × Option Nat × Bool)
  | [] => .ok (cost, toks, force)
  | token :: rest =>
    if token = "--force" then budgetArguments cost toks true rest
    else
      let trimmed := trim token.toList
      if trimmed.isEmpty then .error .emptyValue
      else
        let lower := trimmed.map Char.toLower
        let valueAfterEq := trim (trimmed.dropWhile (· ≠ '=')).tail
        if "cost=".toList.isPrefixOf lower then
          if valueAfterEq.isEmpty then .error .emptyValue
          else do
            let value ← parseCostValue valueAfterEq
            budgetArguments (some value) toks force rest
        else if "tokens=".toList.isPrefixOf lower then
          if valueAfterEq.isEmpty then .error .emptyValue
          else do
            let value ← parseTokensValue valueAfterEq
            budgetArguments cost (some value) force rest
        else .error .unitMissing

def parseBudgetArgs (tokens : List String) : Except BudgetParseError BudgetAction :=
  match tokens with
  | [] => .error .empty
  | ["show"] => .ok .show
  | tokens => do
    let (cost, toks, force) ← budgetArguments none none false tokens
    if cost.isNone ∧ toks.isNone then .error .empty else pure (.set cost toks force)

/-! ### Limits -/

structure BudgetSnapshot where
  maxTotalTokens : Option Nat
  maxEstimatedCostMicrousd : Option Nat
  deriving DecidableEq, Repr

def requiresBudgetRaiseConfirmation (current : Option Nat) (requested : Nat) (force : Bool) : Bool :=
  !force && (current.map fun value => decide (value < requested)).getD true

end Nerve.Session
