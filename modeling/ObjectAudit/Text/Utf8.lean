/-
ObjectAudit/Text/Utf8.lean

Reading UTF-8.  A fault names the bytes that were taken before the text went wrong: the
lead byte and the continuation bytes accepted so far.  The second byte of a longer form
is restricted so that no character has two forms and no half of a pair is one.
-/
import ObjectAudit.Text.Quoted

namespace ObjectAudit.Text

inductive Utf8Cause where
  | invalidStart
  | invalidContinuation
  | unexpectedEnd
deriving DecidableEq, Repr

/-- A fault in a sequence of bytes: its first byte, where that stands, and how many
bytes belong to it. -/
structure Utf8Fault where
  cause : Utf8Cause
  position : Nat
  lead : UInt8
  count : Nat
deriving DecidableEq, Repr

/-- How a longer form goes on behind its lead byte: the bits of the lead byte, the range
of the second byte, and how many further bytes follow that one. -/
structure Utf8Form where
  bits : Nat
  least : UInt8
  greatest : UInt8
  further : Nat
deriving DecidableEq, Repr

/-- The form that a lead byte starts, if it starts one of several bytes. -/
def utf8Form? (lead : UInt8) : Option Utf8Form :=
  -- continuation bytes, and leads of forms that are too long
  if lead < 0xc2 then none
  else if lead < 0xe0 then some ⟨lead.toNat - 0xc0, 0x80, 0xbf, 0⟩
  else if lead = 0xe0 then some ⟨0, 0xa0, 0xbf, 1⟩
  -- behind this lead the halves of characters would follow
  else if lead = 0xed then some ⟨0xd, 0x80, 0x9f, 1⟩
  else if lead < 0xf0 then some ⟨lead.toNat - 0xe0, 0x80, 0xbf, 1⟩
  else if lead = 0xf0 then some ⟨0, 0x90, 0xbf, 2⟩
  else if lead < 0xf4 then some ⟨lead.toNat - 0xf0, 0x80, 0xbf, 2⟩
  else if lead = 0xf4 then some ⟨4, 0x80, 0x8f, 2⟩
  else none

/-- The state between two bytes: at a character's start, or inside one. -/
inductive Utf8State where
  | start
  /-- Inside a form that began `taken` bytes ago. -/
  | inside (lead : UInt8) (taken : Nat) (value : Nat) (form : Utf8Form)
deriving DecidableEq, Repr

/-- Read bytes from a state on; `position` is that of the next byte. -/
def decodeFrom : Utf8State → Nat → List UInt8 → Except Utf8Fault (List Char)
  | .start, _, [] => .ok []
  | .inside lead taken _ _, position, [] =>
    .error ⟨.unexpectedEnd, position - taken, lead, taken⟩
  | .start, position, byte :: rest =>
    if byte < 0x80 then
      (decodeFrom .start (position + 1) rest).map (Char.ofNat byte.toNat :: ·)
    else
      match utf8Form? byte with
      | some form => decodeFrom (.inside byte 1 form.bits form) (position + 1) rest
      | none => .error ⟨.invalidStart, position, byte, 1⟩
  | .inside lead taken value form, position, byte :: rest =>
    if form.least ≤ byte ∧ byte ≤ form.greatest then
      let value := value * 0x40 + (byte.toNat - 0x80)
      match form.further with
      | 0 => (decodeFrom .start (position + 1) rest).map (Char.ofNat value :: ·)
      | further + 1 =>
        -- only the second byte has a range of its own
        decodeFrom (.inside lead (taken + 1) value ⟨form.bits, 0x80, 0xbf, further⟩)
          (position + 1) rest
    else .error ⟨.invalidContinuation, position - taken, lead, taken⟩

/-- The characters that bytes stand for. -/
def decodeUtf8 (bytes : List UInt8) : Except Utf8Fault (List Char) :=
  decodeFrom .start 0 bytes

def Utf8Fault.message (fault : Utf8Fault) : String :=
  let place :=
    if fault.count = 1 then
      s!"byte 0x{String.ofList (hexText 2 fault.lead.toNat)} in position {fault.position}"
    else s!"bytes in position {fault.position}-{fault.position + fault.count - 1}"
  let reason := match fault.cause with
    | .invalidStart => "invalid start byte"
    | .invalidContinuation => "invalid continuation byte"
    | .unexpectedEnd => "unexpected end of data"
  s!"'utf-8' codec can't decode {place}: {reason}"

/-- One line end for all: a carriage return, with or without a line feed behind it,
becomes a line feed. -/
def unifyLineEnds : List Char → List Char
  | '\r' :: '\n' :: rest => '\n' :: unifyLineEnds rest
  | '\r' :: rest => '\n' :: unifyLineEnds rest
  | c :: rest => c :: unifyLineEnds rest
  | [] => []

end ObjectAudit.Text
