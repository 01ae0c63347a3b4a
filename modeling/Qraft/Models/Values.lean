import Mathlib.Data.Rat.Defs
import Mathlib.Data.String.Defs

/-! Values carried by the rows: JSON columns, clock readings, ids, and the
exceptions an operation raises. -/
namespace Qraft

/-- What a `JSONField` holds. -/
inductive Json where
  | null
  | bool (b : Bool)
  | num (q : ℚ)
  | str (s : String)
  | arr (xs : List Json)
  | obj (fields : List (String × Json))

abbrev JsonDict := List (String × Json)

/-- A clock reading in whole seconds. -/
abbrev Time := Nat

abbrev GraphId := Nat
abbrev TaskId := Nat
abbrev AttemptId := Nat
/-- `q2_task_id`: the id Django-Q2 gives the message of an attempt. -/
abbrev Q2TaskId := Nat

def runnerPath : String := "qraft.runner.run_task"

/-- Python's `repr` of a string of printable characters. -/
def pyRepr (s : String) : String :=
  let single := Char.ofNat 39
  let double := Char.ofNat 34
  let quote := if s.contains single && !s.contains double then double else single
  let escape (c : Char) : String :=
    if c = Char.ofNat 92 then "\\\\"
    else if c = quote then "\\" ++ String.singleton c
    else if c = Char.ofNat 10 then "\\n"
    else String.singleton c
  String.singleton quote ++ String.join (s.toList.map escape) ++ String.singleton quote

/-- Python's `repr` of a list of strings. -/
def pyReprList (xs : List String) : String := "[" ++ ", ".intercalate (xs.map pyRepr) ++ "]"

/-- Python's `a or b` on an optional string. -/
def orElse (a b : Option String) : Option String :=
  match a with
  | some "" => b
  | some x => some x
  | none => b

/-- Exceptions that roll the surrounding transaction back. -/
inductive QraftError where
  /-- `qraft.graphs.GraphError` -/
  | graphError (message : String)
  | valueError (message : String)
  /-- A unique constraint of the database. -/
  | integrityError (constraint : String)
  deriving DecidableEq, Repr

/-- `metrics.seconds_between`: a duration, when both ends are known. -/
def secondsBetween (start stop : Option Time) : Option Nat :=
  match start, stop with
  | some a, some b => some (b - a)
  | _, _ => none

end Qraft
