import Mend.Command.Check
import Mend.Command.Tap

/-!
# Running a suite of recorded repairs

A suite is a directory whose part for repairs holds programs, each beside a file with the
diagnostics that are expected in it. A program whose diagnostics are others fails its test, and so
does one without expectations or one that cannot be parsed.
-/

namespace Mend.Command

/-- The part of a suite that is about repairs. -/
def suitePart : String := "recovery"

/-- The stem of a file name that ends as program files do. -/
def programStem? (name : String) : Option String :=
  match name.toList.reverse with
  | 'k' :: 's' :: '.' :: stem => if stem = [] then none else some (String.ofList stem.reverse)
  | _ => none

/-- A program of a suite with what is expected of it. -/
structure Trial where
  stem : String
  program : Source
  expected : Source

/-- The diagnostics of a program, one a line, or why there are none. -/
def Trial.actual (trial : Trial) (limits : Limits) : Except String String :=
  match trial.program.text with
  | .error fault => .error (unreadable trial.program.name fault)
  | .ok text =>
    match Tree.ofText text limits with
    | .ok tree => .ok (String.join (tree.diagnostics.map fun d => d.render ++ "\n"))
    | .error reason => .error ("parse aborted: " ++ reason.message)

/-- Why a trial fails, if it does. -/
def Trial.failure? (trial : Trial) (limits : Limits) : Option String :=
  match trial.expected.text with
  | .error _ => some ("missing expected file: " ++ trial.expected.name)
  | .ok expected =>
    match trial.actual limits with
    | .error reason => some reason
    | .ok actual =>
      if actual = expected then none
      else some ("--- expected\n" ++ expected ++ "--- actual\n" ++ actual)

/-- The result of a trial. -/
def Trial.point (trial : Trial) (limits : Limits) : Tap.Point :=
  ⟨suitePart ++ "/" ++ trial.stem, trial.failure? limits⟩

/-- Run some trials. -/
def runSuite (trials : List Trial) (limits : Limits) : Output :=
  let points := trials.map (·.point limits)
  ⟨if Tap.failures points = 0 then 0 else 1, Tap.render points, ""⟩

/-- What is said when there is no suite. -/
def noSuite (directory : String) (style : Style) : Output :=
  ⟨2, "", if style.quiet then ""
    else "error: conformance suite directory not found: " ++ directory ++ "\n"⟩

/-- A file of a suite, read. -/
def readSource {m : Type → Type} [Monad m] (files : Files m) (name : String) : m Source := do
  return ⟨name, ← files.read name⟩

/-- The names in a directory that programs have, in order. -/
def programNames (names : List String) : List String :=
  (names.filter fun name => (programStem? name).isSome).mergeSort fun a b => decide (a ≤ b)

/-- The trials of a suite. -/
def readTrials {m : Type → Type} [Monad m] (files : Files m) (directory : String) :
    m (List Trial) := do
  let names ← files.list directory
  (programNames names).mapM fun name => do
    let stem := (programStem? name).getD name
    return ⟨stem, ← readSource files (join directory name),
      ← readSource files (join directory (stem ++ ".expected"))⟩

/-- Run the suite in a directory. -/
def suite {m : Type → Type} [Monad m] (files : Files m) (directory : String) (limits : Limits)
    (style : Style) : m Output := do
  if ← files.isThere directory then
    return runSuite (← readTrials files (join directory suitePart)) limits
  else return noSuite directory style

end Mend.Command
