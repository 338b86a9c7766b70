import Rill.Limiter
import Rill.Number.Reading

/-!
# Options of a run

Flags that change the budgets of a run. They are read from left to right and a later flag replaces
an earlier one. Arguments that do not start with a dash are not options.
-/

set_option autoImplicit false

namespace Rill

inductive OptionError where
  | invalid (option value : String)
  | unknown (option : String)
deriving DecidableEq

namespace OptionError

def message : OptionError → String
  | invalid option value => "invalid " ++ option ++ " value '" ++ value ++ "'"
  | unknown option => "unknown option '" ++ option ++ "'"

end OptionError

namespace Options

/-- A count that fits in sixty-four bits, with or without a plus sign. -/
def count? (text : String) : Option Nat :=
  let digits := match text.toList with
    | '+' :: rest => rest
    | chars => chars
  if digits.isEmpty || !digits.all Char.isDigit then none
  else
    let n := Number.digitsValue digits
    if n < Nat.pow 2 64 then some n else none

/-- A number of seconds in whole nanoseconds, a half going to the even one. It must not be negative
and must fit in sixty-four bits of seconds. -/
def nanoseconds? (seconds : Float) : Option Nat :=
  match Number.Binary.ofFloat seconds with
  | .finite negative mantissa exponent =>
      let (num, den) := Number.scaled mantissa 1 exponent
      if negative && mantissa != 0 then none
      else if den * Nat.pow 2 64 ≤ num then none
      else some (Number.divideToEven (num * Nat.pow 10 9) den)
  | _ => none

def valueOf? (flag argument : String) : Option String :=
  let front := flag.toList ++ ['=']
  if front.isPrefixOf argument.toList then
    some (String.ofList (argument.toList.drop front.length))
  else none

def isOption (argument : String) : Bool := argument.toList.head? == some '-'

def apply (limits : Limits) (argument : String) : Except OptionError Limits :=
  match valueOf? "--max-iterations" argument, valueOf? "--max-depth" argument,
      valueOf? "--timeout" argument with
  | some value, _, _ =>
      match count? value with
      | some n => .ok { limits with maxIterations := n }
      | none => .error (.invalid "--max-iterations" value)
  | _, some value, _ =>
      match count? value with
      | some n => .ok { limits with maxDepth := n }
      | none => .error (.invalid "--max-depth" value)
  | _, _, some value =>
      match (Number.read value).bind nanoseconds? with
      | some n => .ok { limits with budget := n }
      | none => .error (.invalid "--timeout" value)
  | none, none, none =>
      if argument = "--no-limits" then .ok { limits with enabled := false }
      else if isOption argument then .error (.unknown argument)
      else .ok limits

/-- The budgets that some arguments ask for; the first argument that is wrong decides the error. -/
def read (arguments : List String) : Except OptionError Limits :=
  arguments.foldlM apply .default

end Options

end Rill
