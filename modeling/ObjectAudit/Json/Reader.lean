/-
ObjectAudit/Json/Reader.lean

Reading JSON: a machine that takes one token after the other.  What is being built
stands on a stack of frames, one for each list or object that is still open, and the
stage says what may come next.  The first token that may not come is the fault; at the
end of the text it is the end itself.
-/
import ObjectAudit.Json.Token

namespace ObjectAudit.Json

/-- A list or an object that is still open, its finished parts last first. -/
inductive Frame where
  | list (items : List Json)
  | object (fields : List (Text × Json)) (name : Text)
deriving Repr

/-- What may come next. -/
inductive Stage where
  /-- A value. -/
  | value (stack : List Frame)
  /-- The first item of a list, or its end. -/
  | firstItem (stack : List Frame)
  /-- The first name of an object, or its end. -/
  | firstName (stack : List Frame)
  /-- A further name of an object with these fields. -/
  | nextName (fields : List (Text × Json)) (stack : List Frame)
  /-- The colon behind a name. -/
  | colon (fields : List (Text × Json)) (name : Text) (stack : List Frame)
  /-- What follows a value: a comma or the end of the innermost frame, or nothing at all. -/
  | after (value : Json) (stack : List Frame)
deriving Repr

namespace Stage

/-- What is missing if none of the tokens that may come next comes. -/
def missing : Stage → Cause
  | value _ | firstItem _ => .expectedValue
  | firstName _ | nextName _ _ => .expectedName
  | colon _ _ _ => .expectedColon
  | after _ [] => .extraData
  | after _ (_ :: _) => .expectedComma

/-- Take a token where a value may stand. -/
def takeValue (stack : List Frame) (token : Token) : Except Fault Stage :=
  match token.kind with
  | .scalar v => .ok (after v stack)
  | .text pieces => .ok (after (str (.ofPieces pieces)) stack)
  | .mark '[' => .ok (firstItem stack)
  | .mark '\x7b' => .ok (firstName stack)
  | .badText fault => .error fault
  | .longInteger most digits => .error ⟨.tooManyDigits most digits, token.place⟩
  | _ => .error ⟨.expectedValue, token.place⟩

/-- Take a token where a name may stand. -/
def takeName (fields : List (Text × Json)) (stack : List Frame) (token : Token) :
    Except Fault Stage :=
  match token.kind with
  | .text pieces => .ok (colon fields (.ofPieces pieces) stack)
  | .badText fault => .error fault
  | _ => .error ⟨.expectedName, token.place⟩

/-- Take one token. -/
def step (stage : Stage) (token : Token) : Except Fault Stage :=
  match stage, token.kind with
  | value stack, _ => takeValue stack token
  | firstItem stack, .mark ']' => .ok (after (arr []) stack)
  | firstItem stack, _ => takeValue (.list [] :: stack) token
  | firstName stack, .mark '\x7d' => .ok (after (obj []) stack)
  | firstName stack, _ => takeName [] stack token
  | nextName fields stack, _ => takeName fields stack token
  | colon fields name stack, .mark ':' => .ok (value (.object fields name :: stack))
  | after v (.list items :: stack), .mark ',' => .ok (value (.list (v :: items) :: stack))
  | after v (.list items :: stack), .mark ']' => .ok (after (arr (v :: items).reverse) stack)
  | after v (.object fields name :: stack), .mark ',' =>
    .ok (nextName ((name, v) :: fields) stack)
  | after v (.object fields name :: stack), .mark '\x7d' =>
    .ok (after (ofFields ((name, v) :: fields).reverse) stack)
  | stage, _ => .error ⟨stage.missing, token.place⟩

/-- Take all tokens of a text. -/
def run : Stage → List Token → Except Fault Json
  | after v [], [] => .ok v
  -- the text ends too early
  | stage, [] => .error ⟨stage.missing, []⟩
  | stage, token :: rest =>
    match stage.step token with
    | .ok next => next.run rest
    | .error fault => .error fault

end Stage

/-! ### Whole texts -/

/-- A fault at its place in a text, all counted in characters. -/
structure FaultAt where
  cause : Cause
  /-- The characters before the place. -/
  offset : Nat
  /-- The line, from one. -/
  line : Nat
  /-- The column, from one. -/
  column : Nat
deriving DecidableEq, Repr

def Fault.locate (text : List Char) (fault : Fault) : FaultAt :=
  -- a place is the rest of the text from there on
  let before := text.take (text.length - fault.place.length)
  { cause := fault.cause
    offset := before.length
    line := before.count '\n' + 1
    column := (before.reverse.takeWhile (· != '\n')).length + 1 }

/-- The value that the tokens of a text spell.  A byte order mark is no part of one. -/
def readTokens (text : List Char) (tokens : List Token) : Except FaultAt Json :=
  let result : Except Fault Json := match text with
    | '\ufeff' :: _ => .error ⟨.byteOrderMark, text⟩
    | _ => (Stage.value []).run tokens
  match result with
  | .ok value => .ok value
  | .error fault => .error (fault.locate text)

/-- The value that a text holds. -/
def read (text : List Char) : Except FaultAt Json := readTokens text (tokens text)

/-- The value that a text holds in which no integer has more than so many digits. -/
def readWithin (most : Nat) (text : List Char) : Except FaultAt Json :=
  readTokens text ((tokens text).map (Token.withDigits most))

def Cause.message : Cause → String
  | byteOrderMark => "Unexpected UTF-8 BOM (decode using utf-8-sig)"
  | expectedValue => "Expecting value"
  | expectedName => "Expecting property name enclosed in double quotes"
  | expectedColon => "Expecting ':' delimiter"
  | expectedComma => "Expecting ',' delimiter"
  | unterminatedText => "Unterminated string starting at"
  | controlCharacter => "Invalid control character at"
  | unknownEscape => "Invalid \\escape"
  | incompleteEscape => "Invalid \\uXXXX escape"
  | extraData => "Extra data"
  | tooManyDigits most digits =>
    s!"Exceeds the limit ({most} digits) for integer string conversion: " ++
      s!"value has {digits} digits; use sys.set_int_max_str_digits() to increase the limit"

def FaultAt.message (fault : FaultAt) : String :=
  s!"{fault.cause.message}: line {fault.line} column {fault.column} (char {fault.offset})"

end ObjectAudit.Json
