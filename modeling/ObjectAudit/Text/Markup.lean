/-
ObjectAudit/Text/Markup.lean

Text with tags.  A tag is a bracket, a small letter or one of `#/@`, any characters but an
opening bracket, and the first closing bracket.  Backslashes before a tag escape it: each
pair stands for one backslash, and an odd one makes the tag stand for itself.  Elsewhere a
backslash before a bracket is lost.

A code between colons may stand for a picture; a pair of colons without blanks between them
is taken as a code whether or not it is known.
-/

namespace ObjectAudit.Text

/-- A piece of a text with tags. -/
inductive MarkupToken where
  /-- Text without tags. -/
  | text (cs : List Char)
  /-- A tag behind some backslashes. -/
  | tag (backslashes : Nat) (content : List Char)
deriving DecidableEq, Repr

def startsTag (c : Char) : Bool := ('a' ≤ c && c ≤ 'z') || c == '#' || c == '/' || c == '@'

/-- The content of the tag behind an opening bracket, if there is one. -/
def tagContent? : List Char → Option (List Char)
  | [] => none
  | c :: rest =>
    let body := rest.takeWhile fun d => d != '[' && d != ']'
    if startsTag c && (rest.drop body.length).head? == some ']' then some (c :: body) else none

/-- Cut a text into tokens.  `before` is the text since the last tag, last character first,
without the backslashes counted in `slashes`; `skip` characters belong to the last tag. -/
def cutMarkup (before : List Char) (slashes skip : Nat) : List Char → List MarkupToken
  | [] => [.text (before.reverse ++ List.replicate slashes '\\')]
  | c :: rest =>
    match skip with
    | skip + 1 => cutMarkup before slashes skip rest
    | 0 =>
      if c = '\\' then cutMarkup before (slashes + 1) 0 rest
      else
        -- the backslashes so far count only if a tag follows
        match if c = '[' then tagContent? rest else none with
        | some content =>
          .text before.reverse :: .tag slashes content
            :: cutMarkup [] 0 (content.length + 1) rest
        | none => cutMarkup (c :: List.replicate slashes '\\' ++ before) 0 0 rest

def markupTokens (cs : List Char) : List MarkupToken := cutMarkup [] 0 0 cs

def tagText (content : List Char) : List Char := '[' :: content ++ [']']

/-- Escape the tags in a text, so that it stands for itself.  A single backslash at the end
is doubled, because a tag may follow. -/
def escapeMarkup (cs : List Char) : List Char :=
  let escaped := (markupTokens cs).flatMap fun
    | .text text => text
    | .tag slashes content => List.replicate (2 * slashes + 1) '\\' ++ tagText content
  match escaped.reverse with
  | '\\' :: '\\' :: _ => escaped
  | '\\' :: _ => escaped ++ ['\\']
  | _ => escaped

/-- Drop the backslash before each opening bracket. -/
def dropEscapes : List Char → List Char
  | '\\' :: '[' :: rest => '[' :: dropEscapes rest
  | c :: rest => c :: dropEscapes rest
  | [] => []

def pictures : List (List Char × Char) :=
  [(['1', '0', '0'], Char.ofNat 0x1f4af), (['1', '2', '3', '4'], Char.ofNat 0x1f522)]

/-- Replace codes by pictures.  `code` holds what stands behind a colon that may start a
code, last character first. -/
def replaceCodes : Option (List Char) → List Char → List Char
  | none, [] => []
  | some code, [] => ':' :: code.reverse
  | none, c :: rest =>
    if c = ':' then replaceCodes (some []) rest else c :: replaceCodes none rest
  | some code, c :: rest =>
    if c = ':' then
      match pictures.lookup code.reverse with
      | some picture => picture :: replaceCodes none rest
      | none => ':' :: code.reverse ++ ':' :: replaceCodes none rest
    else if c.isWhitespace then ':' :: code.reverse ++ c :: replaceCodes none rest
    else replaceCodes (some (c :: code)) rest

/-- What a text with tags shows. -/
def showMarkup (cs : List Char) : List Char :=
  (markupTokens cs).flatMap fun
    | .text text => replaceCodes none (dropEscapes text)
    | .tag slashes content =>
      List.replicate (slashes / 2) '\\' ++
        -- with a backslash left over, the tag stands for itself
        if slashes % 2 = 1 then replaceCodes none (tagText content) else []

end ObjectAudit.Text
