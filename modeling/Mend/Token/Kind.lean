/-!
# Kinds of tokens

A token is told apart by its kind alone wherever the grammar looks at it. Reserved words,
punctuation and operators are spelled one way; names, literals and markers have no spelling of
their own.
-/

namespace Mend

/-- The kind of a token. -/
inductive Kind where
  | importKeyword
  | publicKeyword
  | functionKeyword
  | returnsKeyword
  | typeKeyword
  | recordKeyword
  | constKeyword
  | varKeyword
  | ifKeyword
  | elseKeyword
  | whileKeyword
  | returnKeyword
  | breakKeyword
  | continueKeyword
  | trueKeyword
  | falseKeyword
  | objectKeyword
  | newKeyword
  | fromKeyword
  | inKeyword
  | whereKeyword
  | letKeyword
  | selectKeyword
  | matchKeyword
  | foreachKeyword
  | lockKeyword
  | workerKeyword
  | forkKeyword
  | waitKeyword
  | intKeyword
  | stringKeyword
  | booleanKeyword
  | floatKeyword
  | decimalKeyword
  | anyKeyword
  | openParen
  | closeParen
  | openBrace
  | closeBrace
  | semicolon
  | comma
  | dot
  | slash
  | assign
  | questionMark
  | openBracket
  | closeBracket
  | colon
  | pipe
  | rightDoubleArrow
  | rightArrow
  | leftArrow
  | backtick
  /-- The opening of an interpolation inside a string template. -/
  | interpolationStart
  | plus
  | minus
  | asterisk
  | percent
  | doubleEqual
  | notEqual
  | lt
  | lte
  | gt
  | gte
  | logicalAnd
  | logicalOr
  | exclamation
  | identifier
  | intLiteral
  | floatLiteral
  | stringLiteral
  /-- Literal text between the backticks of a string template. -/
  | templateString
  /-- Documentation lines; the text is what follows the hashes. -/
  | documentationString
  /-- A character that starts no token. -/
  | invalid
  | eof
  /-- No token at all: what a position expects that takes none of its own. -/
  | absent
  deriving DecidableEq, Repr, Inhabited

namespace Kind

/-- Every kind, in order of declaration. -/
def all : List Kind :=
  [.importKeyword, .publicKeyword, .functionKeyword, .returnsKeyword, .typeKeyword,
   .recordKeyword, .constKeyword, .varKeyword, .ifKeyword, .elseKeyword, .whileKeyword,
   .returnKeyword, .breakKeyword, .continueKeyword, .trueKeyword, .falseKeyword, .objectKeyword,
   .newKeyword, .fromKeyword, .inKeyword, .whereKeyword, .letKeyword, .selectKeyword,
   .matchKeyword, .foreachKeyword, .lockKeyword, .workerKeyword, .forkKeyword, .waitKeyword,
   .intKeyword, .stringKeyword, .booleanKeyword, .floatKeyword, .decimalKeyword, .anyKeyword,
   .openParen, .closeParen, .openBrace, .closeBrace, .semicolon, .comma, .dot, .slash, .assign,
   .questionMark, .openBracket, .closeBracket, .colon, .pipe, .rightDoubleArrow, .rightArrow,
   .leftArrow, .backtick, .interpolationStart, .plus, .minus, .asterisk, .percent, .doubleEqual,
   .notEqual, .lt, .lte, .gt, .gte, .logicalAnd, .logicalOr, .exclamation, .identifier,
   .intLiteral, .floatLiteral, .stringLiteral, .templateString, .documentationString, .invalid,
   .eof, .absent]

/-- The name under which a kind is reported. -/
def name : Kind → String
  | .importKeyword => "ImportKeyword"
  | .publicKeyword => "PublicKeyword"
  | .functionKeyword => "FunctionKeyword"
  | .returnsKeyword => "ReturnsKeyword"
  | .typeKeyword => "TypeKeyword"
  | .recordKeyword => "RecordKeyword"
  | .constKeyword => "ConstKeyword"
  | .varKeyword => "VarKeyword"
  | .ifKeyword => "IfKeyword"
  | .elseKeyword => "ElseKeyword"
  | .whileKeyword => "WhileKeyword"
  | .returnKeyword => "ReturnKeyword"
  | .breakKeyword => "BreakKeyword"
  | .continueKeyword => "ContinueKeyword"
  | .trueKeyword => "TrueKeyword"
  | .falseKeyword => "FalseKeyword"
  | .objectKeyword => "ObjectKeyword"
  | .newKeyword => "NewKeyword"
  | .fromKeyword => "FromKeyword"
  | .inKeyword => "InKeyword"
  | .whereKeyword => "WhereKeyword"
  | .letKeyword => "LetKeyword"
  | .selectKeyword => "SelectKeyword"
  | .matchKeyword => "MatchKeyword"
  | .foreachKeyword => "ForeachKeyword"
  | .lockKeyword => "LockKeyword"
  | .workerKeyword => "WorkerKeyword"
  | .forkKeyword => "ForkKeyword"
  | .waitKeyword => "WaitKeyword"
  | .intKeyword => "IntKeyword"
  | .stringKeyword => "StringKeyword"
  | .booleanKeyword => "BooleanKeyword"
  | .floatKeyword => "FloatKeyword"
  | .decimalKeyword => "DecimalKeyword"
  | .anyKeyword => "AnyKeyword"
  | .openParen => "OpenParen"
  | .closeParen => "CloseParen"
  | .openBrace => "OpenBrace"
  | .closeBrace => "CloseBrace"
  | .semicolon => "Semicolon"
  | .comma => "Comma"
  | .dot => "Dot"
  | .slash => "Slash"
  | .assign => "Assign"
  | .questionMark => "QuestionMark"
  | .openBracket => "OpenBracket"
  | .closeBracket => "CloseBracket"
  | .colon => "Colon"
  | .pipe => "Pipe"
  | .rightDoubleArrow => "RightDoubleArrow"
  | .rightArrow => "RightArrow"
  | .leftArrow => "LeftArrow"
  | .backtick => "Backtick"
  | .interpolationStart => "InterpolationStart"
  | .plus => "Plus"
  | .minus => "Minus"
  | .asterisk => "Asterisk"
  | .percent => "Percent"
  | .doubleEqual => "DoubleEqual"
  | .notEqual => "NotEqual"
  | .lt => "Lt"
  | .lte => "Lte"
  | .gt => "Gt"
  | .gte => "Gte"
  | .logicalAnd => "LogicalAnd"
  | .logicalOr => "LogicalOr"
  | .exclamation => "Exclamation"
  | .identifier => "Identifier"
  | .intLiteral => "IntLiteral"
  | .floatLiteral => "FloatLiteral"
  | .stringLiteral => "StringLiteral"
  | .templateString => "TemplateString"
  | .documentationString => "DocumentationString"
  | .invalid => "Invalid"
  | .eof => "Eof"
  | .absent => "None"

/-- The kind reported under a name. -/
def ofName? (name : String) : Option Kind := all.find? (·.name == name)

/-- The spelling of a kind that is spelled one way only, and the empty text for every other. -/
def text : Kind → String
  | .importKeyword => "import"
  | .publicKeyword => "public"
  | .functionKeyword => "function"
  | .returnsKeyword => "returns"
  | .typeKeyword => "type"
  | .recordKeyword => "record"
  | .constKeyword => "const"
  | .varKeyword => "var"
  | .ifKeyword => "if"
  | .elseKeyword => "else"
  | .whileKeyword => "while"
  | .returnKeyword => "return"
  | .breakKeyword => "break"
  | .continueKeyword => "continue"
  | .trueKeyword => "true"
  | .falseKeyword => "false"
  | .objectKeyword => "object"
  | .newKeyword => "new"
  | .fromKeyword => "from"
  | .inKeyword => "in"
  | .whereKeyword => "where"
  | .letKeyword => "let"
  | .selectKeyword => "select"
  | .matchKeyword => "match"
  | .foreachKeyword => "foreach"
  | .lockKeyword => "lock"
  | .workerKeyword => "worker"
  | .forkKeyword => "fork"
  | .waitKeyword => "wait"
  | .intKeyword => "int"
  | .stringKeyword => "string"
  | .booleanKeyword => "boolean"
  | .floatKeyword => "float"
  | .decimalKeyword => "decimal"
  | .anyKeyword => "any"
  | .openParen => "("
  | .closeParen => ")"
  | .openBrace => "\x7b"
  | .closeBrace => "\x7d"
  | .semicolon => ";"
  | .comma => ","
  | .dot => "."
  | .slash => "/"
  | .assign => "="
  | .questionMark => "?"
  | .openBracket => "["
  | .closeBracket => "]"
  | .colon => ":"
  | .pipe => "|"
  | .rightDoubleArrow => "=>"
  | .rightArrow => "->"
  | .leftArrow => "<-"
  | .backtick => "`"
  | .interpolationStart => "$\x7b"
  | .plus => "+"
  | .minus => "-"
  | .asterisk => "*"
  | .percent => "%"
  | .doubleEqual => "=="
  | .notEqual => "!="
  | .lt => "<"
  | .lte => "<="
  | .gt => ">"
  | .gte => ">="
  | .logicalAnd => "&&"
  | .logicalOr => "||"
  | .exclamation => "!"
  | _ => ""

/-- The reserved words. -/
def reserved : List Kind :=
  [.importKeyword, .publicKeyword, .functionKeyword, .returnsKeyword, .typeKeyword,
   .recordKeyword, .constKeyword, .varKeyword, .ifKeyword, .elseKeyword, .whileKeyword,
   .returnKeyword, .breakKeyword, .continueKeyword, .trueKeyword, .falseKeyword, .objectKeyword,
   .newKeyword, .fromKeyword, .inKeyword, .whereKeyword, .letKeyword, .selectKeyword,
   .matchKeyword, .foreachKeyword, .lockKeyword, .workerKeyword, .forkKeyword, .waitKeyword,
   .intKeyword, .stringKeyword, .booleanKeyword, .floatKeyword, .decimalKeyword, .anyKeyword]

/-- Whether a kind is a reserved word. -/
def isKeyword (kind : Kind) : Bool := reserved.contains kind

/-- The reserved word spelled by a text. -/
def keyword? (word : String) : Option Kind := reserved.find? (·.text == word)

/-- Whether a kind names a built-in type. -/
def isBuiltinType : Kind → Bool
  | .intKeyword | .stringKeyword | .booleanKeyword | .floatKeyword | .decimalKeyword
  | .anyKeyword => true
  | _ => false

/-- Whether a kind is a literal value. -/
def isLiteral : Kind → Bool
  | .intLiteral | .floatLiteral | .stringLiteral | .trueKeyword | .falseKeyword => true
  | _ => false

/-- Whether a kind separates list elements or ends statements. -/
def isSeparator : Kind → Bool
  | .comma | .semicolon => true
  | _ => false

/-- Whether a kind is an operator with one operand. -/
def isUnaryOperator : Kind → Bool
  | .minus | .exclamation => true
  | _ => false

/-- How tightly an operator with two operands binds; nothing for any other kind. -/
def precedence? : Kind → Option Nat
  | .logicalOr => some 1
  | .logicalAnd => some 2
  | .doubleEqual | .notEqual => some 3
  | .lt | .lte | .gt | .gte => some 4
  | .plus | .minus => some 5
  | .asterisk | .slash | .percent => some 6
  | _ => none

/-- Whether a kind is an operator with two operands. -/
def isBinaryOperator (kind : Kind) : Bool := kind.precedence?.isSome

/-! ## The list of kinds, the names and the spellings -/

theorem mem_all (kind : Kind) : kind ∈ all := by cases kind <;> decide

theorem isKeyword_of_keyword? {word : String} {kind : Kind} (h : keyword? word = some kind) :
    kind.isKeyword = true := by
  have := List.mem_of_find?_eq_some h
  simpa [isKeyword] using this

end Kind

end Mend
