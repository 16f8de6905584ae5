import Separable.Event
import Separable.Decimal.Notation

/-!
# The words of log lines

The notation of every number in the log is fixed here, line by line: how many places, whether a
sign is always written, and how wide the column is.
-/

namespace Separable.Event

open Decimal

/-- The largest of some products; negative infinity if there are none. A product that is no number
never counts as larger. -/
def largestProduct (products : List Float) : Float :=
  products.foldl (fun m p => if m < p then p else m) (-1.0 / 0.0)

/-- `text` with dots after it, at least `width` characters. -/
def dotted (width : Nat) (text : String) : String :=
  text ++ String.ofList (List.replicate (width - text.length) '.')

/-- The text of a log line. -/
def text : Event Float → String
  | allocated workers terms vars scalars =>
    s!"Allocating evaluation storage for {workers} workers: {terms} terms, " ++
      s!"{vars} variables, {scalars} scalars"
  | observed mu nu objective products violation inner =>
    "mu=" ++ scientific (.rightIn 7) 1 mu ++ " nu=" ++ scientific (.rightIn 7) 1 nu ++
      " objective=" ++ scientific .signed 6 objective ++
      " infeasibility=" ++ scientific (.rightIn 10) 3 (largestProduct products) ++
      " max_violation=" ++ scientific (.rightIn 10) 3 violation ++
      " inner=" ++ inner.label
  | multipliersMoved change =>
    "Updated dual variables, maximum change " ++ scientific .plain 3 change
  | updatingMultipliers change =>
    "Updating dual variables. Maximum change: " ++ scientific .plain 3 change ++ "."
  | penaltyGrown mu => "Increased penalty parameter to " ++ scientific .plain 1 mu
  | updatingPenalty => "Updating penalty parameter."
  | multiplier constraint dual violation =>
    dotted 25 ("lambda[" ++ constraint ++ "]") ++ ": " ++ general (.leftIn 10) 6 dual ++
      match violation with
      | none => ""
      | some v => " Violation : " ++ general .plain 6 v
  | multipliersOmitted => "Not printing more dual variables."
  | minimized method message iterations value =>
    let shown := scientific .plain 6 (value.getD (0.0 / 0.0))
    method ++ ": " ++ message ++ s!" ({iterations} iterations, f={shown})"

end Separable.Event
