import Mend.Machine
import Mend.Token.Lexer

/-!
# Parsing

The tree of a program and the diagnostics in it. Bad input never makes parsing fail: what is
missing is supplied and what does not fit is left out, both with a report. Parsing ends without a
tree only when the text cannot be split into tokens, or when repair breaks down.
-/

namespace Mend

/-- What can end a parse without a tree. -/
inductive Abort where
  /-- The text cannot be split into tokens. -/
  | lexical (error : LexError)
  /-- Repair broke down. -/
  | breakdown (error : Breakdown)
  /-- The bound on the steps of the machine was too low. -/
  | unfinished
  deriving DecidableEq, Repr

/-- The wording of an abort. -/
def Abort.message : Abort → String
  | lexical error => error.message
  | breakdown error => error.message
  | unfinished => "parsing did not come to an end"

/-- The tree of some tokens. -/
def Tree.ofTokens (tokens : List Token) (limits : Limits) : Except Abort Tree :=
  match Machine.run (Machine.stepBound tokens limits) (.start tokens limits) Machine.program with
  | .done m => .ok m.tree
  | .failed error => .error (.breakdown error)
  | .unfinished => .error .unfinished

/-- The tree of a text. -/
def Tree.ofText (text : String) (limits : Limits) : Except Abort Tree :=
  match Token.scan text with
  | .ok tokens => Tree.ofTokens tokens limits
  | .error error => .error (.lexical error)

end Mend
