import Mend.Diagnostic

/-!
# Tokens

A token of the input carries its kind, its text and its line. Repair never throws a token away:
a token that fits nowhere rides along on the next one that does, in `invalidLeading`, and a token
that had to be supplied is marked `missing`. What was repaired is recorded as diagnostics on the
tokens concerned.
-/

namespace Mend

/-- A token of the input, or one supplied where the input lacks it. -/
structure Token where
  kind : Kind
  text : String
  line : UInt32
  /-- The token has no place in the input; it was supplied. -/
  missing : Bool
  /-- Tokens of the input left out just before this one. -/
  invalidLeading : List Token
  diagnostics : List Diagnostic
  deriving Inhabited

namespace Token

/-- A token as it stands in the input. -/
def plain (kind : Kind) (text : String) (line : UInt32) : Token :=
  ⟨kind, text, line, false, [], []⟩

/-- A token supplied where one of this kind is required. -/
def supplied (kind : Kind) (line : UInt32) (diagnostic : Diagnostic) : Token :=
  ⟨kind, "", line, true, [], [diagnostic]⟩

/-- The end of the input. -/
def eof (line : UInt32) : Token := plain .eof "" line

/-- A token as it is shown in a list of tokens. -/
def render (t : Token) : String :=
  if t.kind = .eof then "<EOF>"
  else if t.missing then "<missing " ++ t.kind.name ++ ">"
  else t.text

/-- The token with one more diagnostic. -/
def report (t : Token) (diagnostic : Diagnostic) : Token :=
  { t with diagnostics := t.diagnostics ++ [diagnostic] }

/-- The token with more tokens left out before it, after those already there. -/
def precededBy (t : Token) (leftOut : List Token) : Token :=
  { t with invalidLeading := t.invalidLeading ++ leftOut }

theorem kind_plain (kind : Kind) (text : String) (line : UInt32) :
    (plain kind text line).kind = kind := rfl

end Token

end Mend
