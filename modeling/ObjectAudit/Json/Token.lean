/-
ObjectAudit/Json/Token.lean

The tokens of a JSON text.  Each token remembers the text from its first character on,
which is its place.  Cutting stops at the first character that starts no token and at a
text that is not well formed; both become the last token, so that the reader can report
whatever it finds first.

Digits are those of ASCII.  A number takes its fraction only with a digit behind the
point and its exponent only with a digit, so `1.` is the number `1` and a stray point.
A text is kept in pieces: characters, and halves of characters that stand alone.
-/
import ObjectAudit.Json.Basic

namespace ObjectAudit.Json

/-- Why a text is not JSON. -/
inductive Cause where
  | byteOrderMark
  | expectedValue
  | expectedName
  | expectedColon
  | expectedComma
  | unterminatedText
  | controlCharacter
  | unknownEscape
  | incompleteEscape
  | extraData
  | tooManyDigits (most digits : Nat)
deriving DecidableEq, Repr

/-- A cause and the place where it shows: the text from there on. -/
structure Fault where
  cause : Cause
  place : List Char
deriving DecidableEq, Repr

/-- What a token is. -/
inductive TokenKind where
  /-- A bracket, brace, comma or colon. -/
  | mark (c : Char)
  /-- A number or a constant. -/
  | scalar (value : Json)
  /-- An integer of more digits than may be. -/
  | longInteger (most digits : Nat)
  /-- A text. -/
  | text (pieces : List Text.Piece)
  /-- A text that is not well formed. -/
  | badText (fault : Fault)
  /-- A character that starts no token. -/
  | stray
deriving Repr

structure Token where
  kind : TokenKind
  place : List Char
deriving Repr

/-! ### Texts -/

def hexValue? (c : Char) : Option Nat :=
  if '0' ≤ c ∧ c ≤ '9' then some (c.toNat - 48)
  else if 'a' ≤ c ∧ c ≤ 'f' then some (c.toNat - 87)
  else if 'A' ≤ c ∧ c ≤ 'F' then some (c.toNat - 55)
  else none

def hexNumber? (a b c d : Char) : Option Nat := do
  let a ← hexValue? a
  let b ← hexValue? b
  let c ← hexValue? c
  let d ← hexValue? d
  return ((a * 16 + b) * 16 + c) * 16 + d

/-- The character that a short escape stands for. -/
def shortEscape? (c : Char) : Option Char :=
  [('\x22', '\x22'), ('\\', '\\'), ('/', '/'), ('b', '\x08'), ('f', '\x0c'), ('n', '\n'),
   ('r', '\r'), ('t', '\t')].lookup c

/-- Read a text behind its opening quote, whose place is `start`: its code units and
what follows the closing quote.  An escape of a code unit needs a further character
behind its four digits. -/
def scanText (start : List Char) : List Char → Except Fault (List Nat × List Char)
  | [] => .error ⟨.unterminatedText, start⟩
  | '\x22' :: rest => .ok ([], rest)
  | ['\\'] => .error ⟨.unterminatedText, start⟩
  | '\\' :: 'u' :: a :: b :: c :: d :: rest =>
    -- four digits at the very end are no escape
    match rest.isEmpty, hexNumber? a b c d with
    | false, some unit =>
      (scanText start rest).map fun (units, rest) => (unit :: units, rest)
    | _, _ => .error ⟨.incompleteEscape, 'u' :: a :: b :: c :: d :: rest⟩
  | '\\' :: 'u' :: rest => .error ⟨.incompleteEscape, 'u' :: rest⟩
  | '\\' :: c :: rest =>
    match shortEscape? c with
    | some e => (scanText start rest).map fun (units, rest) => (e.toNat :: units, rest)
    | none => .error ⟨.unknownEscape, '\\' :: c :: rest⟩
  | c :: rest =>
    if c.toNat < 0x20 then .error ⟨.controlCharacter, c :: rest⟩
    else (scanText start rest).map fun (units, rest) => (c.toNat :: units, rest)

/-! ### Numbers -/

def isDigit (c : Char) : Bool := '0' ≤ c && c ≤ '9'

def digitsValue (cs : List Char) : Nat := cs.foldl (fun n c => n * 10 + (c.toNat - 48)) 0

/-- The digits at the front and the rest. -/
def spanDigits (cs : List Char) : List Char × List Char :=
  (cs.takeWhile isDigit, cs.dropWhile isDigit)

/-- The integer part of a number: a single zero, or digits that do not start with one. -/
def spanWhole? : List Char → Option (List Char × List Char)
  | '0' :: rest => some (['0'], rest)
  | c :: rest => if isDigit c then some (spanDigits (c :: rest)) else none
  | [] => none

/-- The digits behind a decimal point, if there are any. -/
def spanFraction : List Char → List Char × List Char
  | '.' :: rest =>
    match spanDigits rest with
    -- a point without digits is left where it is
    | ([], _) => ([], '.' :: rest)
    | parts => parts
  | rest => ([], rest)

/-- The exponent, if there is a complete one. -/
def spanExponent (cs : List Char) : Option Int × List Char :=
  let attempt (negative : Bool) (after : List Char) : Option Int × List Char :=
    match spanDigits after with
    -- without digits there is no exponent, and its letter is left as well
    | ([], _) => (none, cs)
    | (digits, rest) =>
      let n : Int := digitsValue digits
      (some (if negative then -n else n), rest)
  match cs with
  | c :: rest =>
    if c = 'e' ∨ c = 'E' then
      match rest with
      | '-' :: after => attempt true after
      | '+' :: after => attempt false after
      | _ => attempt false rest
    else (none, cs)
  | [] => (none, cs)

/-- Read a number behind its sign. -/
def scanMagnitude? (negative : Bool) (cs : List Char) : Option (Json × List Char) := do
  let (whole, rest) ← spanWhole? cs
  let (fraction, rest) := spanFraction rest
  let (exponent, rest) := spanExponent rest
  -- only a number with neither is an integer
  if fraction.isEmpty && exponent.isNone then
    let n : Int := digitsValue whole
    return (int (if negative then -n else n), rest)
  else
    let digits := digitsValue (whole ++ fraction)
    return (float (Double.ofDecimal negative digits (exponent.getD 0 - fraction.length)), rest)

def constants : List (List Char × Json) :=
  [("null".toList, null), ("true".toList, bool true), ("false".toList, bool false),
   ("NaN".toList, float .nan), ("Infinity".toList, float (.infinite false)),
   ("-Infinity".toList, float (.infinite true))]

/-- Read a constant or a number. -/
def scanScalar? (cs : List Char) : Option (Json × List Char) :=
  match constants.find? fun entry => entry.1.isPrefixOf cs with
  | some (name, value) => some (value, cs.drop name.length)
  | none =>
    match cs with
    | '-' :: rest => scanMagnitude? true rest
    | _ => scanMagnitude? false cs

/-! ### Tokens -/

def isBlank (c : Char) : Bool := c == ' ' || c == '\t' || c == '\n' || c == '\r'

def isMark (c : Char) : Bool := ['[', ']', '\x7b', '\x7d', ',', ':'].contains c

/-- The token at the front of a text that starts with a character that is not blank,
and where to go on; nowhere if cutting ends here. -/
def firstToken (c : Char) (rest : List Char) : TokenKind × Option (List Char) :=
  if isMark c then (.mark c, some rest)
  else if c = '\x22' then
    match scanText (c :: rest) rest with
    | .ok (units, rest) => (.text (Text.Piece.ofUnits units), some rest)
    | .error fault => (.badText fault, none)
  else
    match scanScalar? (c :: rest) with
    | some (value, rest) => (.scalar value, some rest)
    | none => (.stray, none)

/-- The tokens of a text.  At most `limit` characters are looked at. -/
def tokensWithin : Nat → List Char → List Token
  | 0, _ => []
  | _, [] => []
  | limit + 1, c :: rest =>
    if isBlank c then tokensWithin limit rest
    else
      match firstToken c rest with
      | (kind, some next) => ⟨kind, c :: rest⟩ :: tokensWithin limit next
      | (kind, none) => [⟨kind, c :: rest⟩]

/-- The tokens of a text.  Each step takes at least one character, so its length is
limit enough. -/
def tokens (cs : List Char) : List Token := tokensWithin cs.length cs

namespace Token

/-- How many digits the integer at the place of a token has. -/
def digits (token : Token) : Nat :=
  match token.place with
  | '-' :: rest => (rest.takeWhile isDigit).length
  | cs => (cs.takeWhile isDigit).length

/-- The token where an integer may have so many digits and no more. -/
def withDigits (most : Nat) (token : Token) : Token :=
  match token.kind with
  | .scalar (int _) =>
    if token.digits ≤ most then token
    else { token with kind := .longInteger most token.digits }
  | _ => token

end Token

end ObjectAudit.Json
