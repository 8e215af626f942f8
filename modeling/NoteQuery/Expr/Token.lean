/-
Tokens of expressions.

A source text is cut into tokens from the left; blanks between tokens are passed over.  A slash
opens a pattern where an operand is expected and divides elsewhere, so each token depends on
the one before.  Every token keeps its place and the text it was read from.
-/
import NoteQuery.Text.Blank
import NoteQuery.Text.Digit

namespace NoteQuery

/-- Why a text is no expression. -/
inductive SyntaxCause where
  | unexpectedCharacter (c : Char)
  | unterminatedString
  | unterminatedPattern
  | emptyExpression
  | unexpectedToken (text : String)
  | unexpectedEnd
  | expectedMember
  | expectedKey
  | expected (closer : String) (behind : String)
  | badPattern (message : String)
deriving DecidableEq

namespace SyntaxCause

/-- The cause arises while tokens are read. -/
def isLexical : SyntaxCause → Bool
  | unexpectedCharacter _ | unterminatedString | unterminatedPattern => true
  | _ => false

def message : SyntaxCause → String
  | unexpectedCharacter c => "Unexpected character '" ++ c.toString ++ "'"
  | unterminatedString => "Unterminated string literal"
  | unterminatedPattern => "Unterminated pattern literal"
  | emptyExpression => "Empty expression"
  | unexpectedToken text => "Unexpected token '" ++ text ++ "'"
  | unexpectedEnd => "Unexpected end of expression"
  | expectedMember => "Expected property name after '.'"
  | expectedKey => "Expected string or identifier as object key"
  | expected closer behind => "Expected '" ++ closer ++ "' after " ++ behind
  | badPattern message => message

end SyntaxCause

/-- A cause and the position in the source where it shows. -/
structure SyntaxError where
  cause : SyntaxCause
  position : Nat
deriving DecidableEq

/-- The wording with the position. -/
def SyntaxError.message (e : SyntaxError) : String :=
  e.cause.message ++ " at position " ++ toString e.position

/-- The sorts of tokens. -/
inductive TokenKind where
  | number | string | identifier | pattern | operator | punctuation | eof
deriving DecidableEq

def TokenKind.name : TokenKind → String
  | number => "NUMBER"
  | string => "STRING"
  | identifier => "IDENTIFIER"
  | pattern => "PATTERN"
  | operator => "OPERATOR"
  | punctuation => "PUNCTUATION"
  | eof => "EOF"

/-- A token: its sort, what it says, the text that it was read from, and where that text
begins.  What a string says is its content without quotes and escapes, what a number says its
digits without separators. -/
structure Token where
  kind : TokenKind
  text : String
  raw : String
  first : Nat
deriving DecidableEq

/-- The position behind the token. -/
def Token.last (t : Token) : Nat :=
  t.first + t.raw.length

namespace Token

/-- The token is this one. -/
def isThis (t : Token) (kind : TokenKind) (text : String) : Bool :=
  t.kind == kind && t.text == text

def isPunctuation (t : Token) (text : String) : Bool :=
  t.isThis .punctuation text

/-! ## Characters and words -/

def isNameStart (c : Char) : Bool :=
  c.isAlpha || c == '_' || c == '$'

def isNamePart (c : Char) : Bool :=
  c.isAlphanum || c == '_' || c == '$'

/-- A digit, or a separator of digits. -/
def isDigitPart (c : Char) : Bool :=
  c == '_' || Text.isDigit c

/-- Words that are operators. -/
def wordOperators : List String := ["and", "or", "not"]

/-- Operators, those of two characters first. -/
def operators : List String :=
  ["==", "!=", ">=", "<=", "&&", "||", "+", "-", "*", "/", "%", ">", "<", "!"]

def punctuators : List Char := ['(', ')', '[', ']', '\x7b', '\x7d', ',', '.', ':']

/-- Punctuation behind which an operand is expected. -/
def operandOpeners : List String := ["(", "[", "\x7b", ",", ":"]

/-- An operand is expected behind the token, so that a slash opens a pattern. -/
def expectsOperand (t : Token) : Bool :=
  match t.kind with
  | .operator => true
  | .punctuation => operandOpeners.contains t.text
  | _ => false

/-! ## Reading -/

/-- A token without its place: the sort, what it says, and the length of its text. -/
structure Lexeme where
  kind : TokenKind
  text : List Char
  length : Nat

/-- The rest of a string behind its opening quote: the content, and the length with the closing
quote.  A backslash is dropped and the character behind it kept. -/
def readString? (quote : Char) : List Char → Option (List Char × Nat)
  | [] => none
  | '\\' :: [] => none
  | '\\' :: c :: cs => (readString? quote cs).map fun (content, n) => (c :: content, n + 2)
  | c :: cs =>
    if c = quote then some ([], 1)
    else (readString? quote cs).map fun (content, n) => (c :: content, n + 1)

/-- The length of a pattern's body with the closing slash, the first that no backslash
escapes. -/
def patternLength? (escaped : Bool) : List Char → Option Nat
  | [] => none
  | c :: cs =>
    if c = '/' && !escaped then some 1
    else (patternLength? (c = '\\' && !escaped) cs).map (· + 1)

/-- The length of a number: digits with separators, and a fraction if a digit follows the
point. -/
def numberLength (cs : List Char) : Nat :=
  let whole := (cs.takeWhile isDigitPart).length
  match cs.drop whole with
  | '.' :: c :: rest =>
    if Text.isDigit c then whole + 2 + (rest.takeWhile isDigitPart).length else whole
  | _ => whole

/-- The first token of a text that starts with no blank. -/
def readLexeme (operandNext : Bool) (c : Char) (cs : List Char) :
    Except SyntaxCause Lexeme :=
  if c = '"' || c = '\'' then
    match readString? c cs with
    | some (content, n) => .ok ⟨.string, content, n + 1⟩
    | none => .error .unterminatedString
  else if Text.isDigit c then
    let n := numberLength (c :: cs)
    .ok ⟨.number, ((c :: cs).take n).filter (· != '_'), n⟩
  else if isNameStart c then
    let word := c :: cs.takeWhile isNamePart
    let isWordOperator := wordOperators.contains (String.ofList word)
    .ok ⟨if isWordOperator then .operator else .identifier, word, word.length⟩
  else if c = '/' && operandNext then
    match patternLength? false cs with
    | none => .error .unterminatedPattern
    | some n =>
      let flags := (cs.drop n).takeWhile Char.isAlpha
      .ok ⟨.pattern, c :: cs.take (n + flags.length), 1 + n + flags.length⟩
  else
    match operators.find? fun op => op.toList.isPrefixOf (c :: cs) with
    | some op => .ok ⟨.operator, op.toList, op.length⟩
    | none =>
      if punctuators.contains c then .ok ⟨.punctuation, [c], 1⟩
      else .error (.unexpectedCharacter c)

/-- The tokens of a text that begins at `pos`, the last one marking the end. -/
def readAll (operandNext : Bool) (pos : Nat) (cs : List Char) :
    Except SyntaxError (List Token) :=
  match cs with
  | [] => .ok [⟨.eof, "", "", pos⟩]
  | c :: rest =>
    if Text.isBlank c then readAll operandNext (pos + 1) rest
    else
      match readLexeme operandNext c rest with
      | .error cause => .error ⟨cause, pos⟩
      | .ok lexeme =>
        let n := lexeme.length - 1
        let raw := String.ofList (c :: rest.take n)
        let token : Token := ⟨lexeme.kind, String.ofList lexeme.text, raw, pos⟩
        (readAll token.expectsOperand (pos + n + 1) (rest.drop n)).map (token :: ·)
termination_by cs.length
decreasing_by
  all_goals simp only [List.length_cons, List.length_drop]; omega

end Token

/-- The tokens of a source text, the last one marking the end. -/
def tokenize (source : String) : Except SyntaxError (List Token) :=
  Token.readAll true 0 source.toList

end NoteQuery
