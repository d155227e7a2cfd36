import Mend.Token.Kind

/-!
# Punctuation and operators

The symbols of one and of two characters. Where both readings are possible the longer one is
meant.
-/

namespace Mend.Kind

/-- The kind of a symbol of two characters. -/
def ofPair? : Char → Char → Option Kind
  | '=', '=' => some .doubleEqual
  | '!', '=' => some .notEqual
  | '<', '=' => some .lte
  | '>', '=' => some .gte
  | '&', '&' => some .logicalAnd
  | '|', '|' => some .logicalOr
  | '=', '>' => some .rightDoubleArrow
  | '-', '>' => some .rightArrow
  | '<', '-' => some .leftArrow
  | _, _ => none

/-- The kind of a character that stands alone; `invalid` if it is no symbol. -/
def ofSymbol : Char → Kind
  | '(' => .openParen
  | ')' => .closeParen
  | '\x7b' => .openBrace
  | '\x7d' => .closeBrace
  | ';' => .semicolon
  | ',' => .comma
  | '.' => .dot
  | '/' => .slash
  | '=' => .assign
  | '?' => .questionMark
  | '+' => .plus
  | '-' => .minus
  | '*' => .asterisk
  | '%' => .percent
  | '<' => .lt
  | '>' => .gt
  | '!' => .exclamation
  | '[' => .openBracket
  | ']' => .closeBracket
  | ':' => .colon
  | '|' => .pipe
  | '`' => .backtick
  | _ => .invalid

/-- The spelling of a symbol of two characters is those characters. -/
theorem text_of_ofPair? {a b : Char} {kind : Kind} (h : ofPair? a b = some kind) :
    kind.text = String.ofList [a, b] := by
  unfold ofPair? at h
  split at h <;> first | (cases h; done) | (cases h; rfl)

end Mend.Kind
