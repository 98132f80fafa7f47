/-
ObjectAudit/Text/Order.lean

Texts in order.  Texts compare by code point, and half of a character counts as the code unit
that it is; a set of texts is kept as a sorted list without repetitions.
-/
import ObjectAudit.Text.Piece

namespace ObjectAudit.Text

/-- Sort texts by code point. -/
def sortTexts (ss : List String) : List String := ss.mergeSort fun a b => decide (a ≤ b)

/-- The set of some texts: sorted, each once. -/
def textSet (ss : List String) : List String := sortTexts ss.eraseDups

def Piece.code : Piece → Nat
  | char c => c.toNat
  | half unit _ => unit

def codes (text : Text) : List Nat := text.pieces.map Piece.code

/-- Sort texts, whole or torn. -/
def sort (texts : List Text) : List Text :=
  texts.mergeSort fun a b => !List.lex b.codes a.codes Nat.blt

/-- The set of some texts, whole or torn. -/
def set (texts : List Text) : List Text := sort texts.eraseDups

end ObjectAudit.Text
