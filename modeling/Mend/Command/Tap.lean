/-!
# Test reports

The results of a run of tests in the Test Anything Protocol, version 14: a plan, a line for each
test, the explanation of a failure as comments below its line, and a summary.
-/

namespace Mend.Command.Tap

/-- The result of one test. -/
structure Point where
  description : String
  /-- Why the test failed, if it did. -/
  failure : Option String
  deriving DecidableEq, Repr, Inhabited

/-- The line of characters up to the first line end, and what follows it. A return before the
line end belongs to it. -/
def splitLine : List Char → List Char × Option (List Char)
  | [] => ([], none)
  | '\n' :: cs => ([], some cs)
  | '\r' :: '\n' :: cs => ([], some cs)
  | c :: cs => (c :: (splitLine cs).1, (splitLine cs).2)

theorem splitLine_shorter {cs line rest : List Char} (h : splitLine cs = (line, some rest)) :
    rest.length < cs.length := by
  fun_induction splitLine cs generalizing line with
  | case1 => simp at h
  | case2 cs => simp_all
  | case3 cs =>
    simp only [Prod.mk.injEq, Option.some.injEq] at h
    rw [h.2]
    exact Nat.lt_succ_of_lt (Nat.lt_succ_self _)
  | case4 c cs _ _ ih =>
    simp only [Prod.mk.injEq] at h
    have := @ih (splitLine cs).1 (Prod.ext rfl h.2)
    exact Nat.lt_succ_of_lt this

/-- The lines of some characters; an empty last one is none. -/
def linesOf (cs : List Char) : List (List Char) :=
  if cs = [] then []
  else
    match _h : splitLine cs with
    | (line, none) => [line]
    | (line, some rest) => line :: linesOf rest
termination_by cs.length
decreasing_by exact splitLine_shorter _h

/-- An explanation as comments. -/
def comment (explanation : String) : String :=
  String.join
    ((linesOf explanation.toList).map fun line => "  # " ++ String.ofList line ++ "\n")

/-- The lines of the test with a number. -/
def Point.render (number : Nat) (point : Point) : String :=
  (if point.failure.isNone then "ok " else "not ok ") ++ toString number ++ " - " ++
    point.description ++ "\n" ++ (point.failure.map comment).getD ""

/-- How many tests failed. -/
def failures (points : List Point) : Nat := (points.filter (·.failure.isSome)).length

/-- The lines of the tests, from a number on. -/
def renderFrom (number : Nat) : List Point → String
  | [] => ""
  | point :: rest => point.render number ++ renderFrom (number + 1) rest

/-- The report on some tests. -/
def render (points : List Point) : String :=
  let failed := failures points
  "TAP version 14\n1.." ++ toString points.length ++ "\n" ++ renderFrom 1 points ++
    "# tests " ++ toString points.length ++ "\n# pass  " ++ toString (points.length - failed) ++
    "\n# fail  " ++ toString failed ++ "\n"

end Mend.Command.Tap
