/-
ObjectAudit/Text/UpperCase.lean

Upper-casing for the comparison with a plain word of Latin capitals.  Besides the
small letters of ASCII, ten letters have an upper-case form of plain capitals, some
of them of several letters.  Every other character outside ASCII is left alone: its
upper-case form is no plain capital either, so the comparison has the same answer.
Half of a character has no upper-case form, so a text that holds one spells no word.
-/
import ObjectAudit.Text.Piece

namespace ObjectAudit.Text

/-- Letters outside ASCII whose upper-case form consists of plain capitals. -/
def plainCapitals : List (Char × List Char) :=
  [('ß', ['S', 'S']), ('ı', ['I']), ('ſ', ['S']), ('ﬀ', ['F', 'F']), ('ﬁ', ['F', 'I']),
   ('ﬂ', ['F', 'L']), ('ﬃ', ['F', 'F', 'I']), ('ﬄ', ['F', 'F', 'L']), ('ﬅ', ['S', 'T']),
   ('ﬆ', ['S', 'T'])]

/-- The capitals that stand for a character, or the character itself. -/
def capitals (c : Char) : List Char :=
  if c.toNat < 0x80 then [c.toUpper] else (plainCapitals.lookup c).getD [c]

/-- Does a text, in upper case, spell a word of plain capitals? -/
def spells (text : Text) (word : String) : Bool :=
  match text with
  | whole value => value.toList.flatMap capitals == word.toList
  | torn _ _ => false

end ObjectAudit.Text
