import Mend.Json.Printer
import Mend.Tree.Basic

/-!
# Tokens, diagnostics and trees as JSON

The forms in which results are handed to other programs. Fields of a token that say nothing (a
token that is not missing, no tokens left out, no diagnostics) are not written.
-/

namespace Mend

/-- A diagnostic as part of a token. -/
def Diagnostic.toJson (d : Diagnostic) : Json :=
  .object [("code", .string d.code), ("line", .ofNat d.line.toNat), ("message", .string d.message)]

/-- A diagnostic in the report on a file. -/
def Diagnostic.toReport (d : Diagnostic) (file : String) : Json :=
  .object
    [("code", .string d.code), ("file", .string file), ("line", .ofNat d.line.toNat),
      ("message", .string d.message)]

mutual

/-- The fields of a token. -/
def Token.jsonFields : Token → List (String × Json)
  | ⟨kind, text, line, missing, invalidLeading, diagnostics⟩ =>
    [("kind", .string kind.name), ("text", .string text), ("line", .ofNat line.toNat)] ++
      (if missing then [("missing", .bool true)] else []) ++
      (if invalidLeading.isEmpty then []
        else [("invalid_leading", .array (Token.jsonList invalidLeading))]) ++
      (if diagnostics.isEmpty then []
        else [("diagnostics", .array (diagnostics.map Diagnostic.toJson))])

/-- Some tokens. -/
def Token.jsonList : List Token → List Json
  | [] => []
  | t :: rest => .object (Token.jsonFields t) :: Token.jsonList rest

end

/-- A token. -/
def Token.toJson (t : Token) : Json := .object t.jsonFields

namespace Tree

mutual

/-- The fields of a tree. -/
def jsonFields : Tree → List (String × Json)
  | token t => t.jsonFields
  | node kind children =>
    [("kind", .string kind.name), ("children", .array (jsonChildren children))]

/-- The children of a node, each with the sort of element it is. -/
def jsonChildren : List Tree → List Json
  | [] => []
  | token t :: rest =>
    .object (("element", .string "token") :: jsonFields (token t)) :: jsonChildren rest
  | node kind children :: rest =>
    .object (("element", .string "node") :: jsonFields (node kind children)) :: jsonChildren rest

end

/-- A tree. -/
def toJson (tree : Tree) : Json := .object tree.jsonFields

end Tree

end Mend
