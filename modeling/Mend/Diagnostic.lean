import Mend.Token.Kind

/-!
# Diagnostics

A diagnostic reports one repair of the input: a token that had to be supplied, or one that had to
be left out. It keeps what was repaired; code and wording are computed from that.
-/

namespace Mend

/-- What was wrong with the input at one place. -/
inductive Fault where
  /-- A token of this kind was required and absent. -/
  | missing (kind : Kind)
  /-- A token with this text fits nowhere. -/
  | invalid (text : String)
  deriving DecidableEq, Repr, Inhabited

namespace Fault

/-- The code under which a fault is reported. -/
def code : Fault → String
  | missing _ => "missing_token"
  | invalid _ => "invalid_token"

/-- What to call a token that has no fixed spelling. -/
def describe : Kind → String
  | .identifier => "identifier"
  | .intLiteral => "integer literal"
  | .floatLiteral => "floating point literal"
  | .stringLiteral => "string literal"
  | .templateString => "template text"
  | .documentationString => "documentation string"
  | .eof => "end of file"
  | _ => "token"

/-- The wording of a fault. -/
def message : Fault → String
  | missing kind =>
    if kind.text = "" then "missing " ++ describe kind else "missing '" ++ kind.text ++ "'"
  | invalid text => "invalid token '" ++ text ++ "'"

end Fault

/-- A fault and the line it was found on. -/
structure Diagnostic where
  fault : Fault
  line : UInt32
  deriving DecidableEq, Repr, Inhabited

namespace Diagnostic

/-- A token of the given kind is missing. -/
def missing (kind : Kind) (line : UInt32) : Diagnostic := ⟨.missing kind, line⟩

/-- A token with the given text is not wanted. -/
def invalid (text : String) (line : UInt32) : Diagnostic := ⟨.invalid text, line⟩

/-- The code of the fault. -/
def code (d : Diagnostic) : String := d.fault.code

/-- The wording of the fault. -/
def message (d : Diagnostic) : String := d.fault.message

/-- The diagnostic on one line: its line, code and wording. -/
def render (d : Diagnostic) : String :=
  toString d.line.toNat ++ ": " ++ d.code ++ ": " ++ d.message

end Diagnostic

end Mend
