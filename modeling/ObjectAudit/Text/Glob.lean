/-
ObjectAudit/Text/Glob.lean

Glob patterns over names.  `*` stands for any text, `?` for one character, a closed
bracket group for one character of a set (or, after `!`, outside it), and every other
character for itself; a pattern covers the whole name.

A bracket group is closed by the first `]` that is not its first member; a bracket
that is never closed stands for itself.  Inside a group a hyphen between two members
makes a range.  The search for such hyphens starts after the first member and skips
the members that already belong to a range, so a hyphen elsewhere is a member like
any other.  A range whose ends are the wrong way round is dropped with both its ends;
what then stands first decides whether the group is negated.

`covers` says what a list of pieces means, by trying every end of a name after each `*`.
The matcher keeps one flag for each end instead, so that no end is tried twice;
`coverEnds_eq_map` shows that the flags are the meaning.
-/

namespace ObjectAudit

/-- One piece of a glob pattern. -/
inductive GlobPiece where
  /-- Any text, also the empty one. -/
  | anyText
  /-- Any one character. -/
  | anyChar
  /-- One character in one of the ranges, or in none of them if negated. -/
  | group (negated : Bool) (ranges : List (Char × Char))
  /-- The character itself. -/
  | char (c : Char)
deriving DecidableEq, Repr

namespace Glob

/-! ### Bracket groups -/

/-- A member of a bracket group: a character, or the hyphen of a range. -/
inductive Member where
  | char (c : Char)
  | hyphen
deriving DecidableEq, Repr

/-- Split what follows an opening bracket at its closing one: the text of the group
and what follows it. -/
def closeGroup (cs : List Char) : Option (List Char × List Char) :=
  let (bang, cs) := match cs with
    | '!' :: r => (['!'], r)
    | _ => ([], cs)
  -- a closing bracket in the first place is a member
  let (first, cs) := match cs with
    | ']' :: r => ([']'], r)
    | _ => ([], cs)
  match cs.dropWhile (· != ']') with
  | [] => none
  | _ :: rest => some (bang ++ first ++ cs.takeWhile (· != ']'), rest)

/-- Cut the text of a group at the hyphens that make ranges.  The first `skip`
members are no such hyphens. -/
def cutRanges (skip : Nat) (cs : List Char) : List (List Char) :=
  let found := (cs.drop skip).dropWhile (· != '-')
  match _h : found with
  | [] => [cs]
  | _ :: rest => cs.take (cs.length - found.length) :: cutRanges 2 rest
termination_by cs.length
decreasing_by
  have h₁ : ((cs.drop skip).dropWhile (· != '-')).length ≤ (cs.drop skip).length :=
    (List.dropWhile_sublist _).length_le
  have h₂ : (cs.drop skip).length ≤ cs.length := by simp
  have h₃ : (cs.drop skip).dropWhile (· != '-') = _ :: rest := _h
  rw [h₃] at h₁
  simp only [List.length_cons] at h₁
  omega

/-- A hyphen with nothing behind it is a member of the chunk before it. -/
def closeLast : List (List Char) → List (List Char)
  | [chunk, []] => [chunk ++ ['-']]
  | chunk :: rest => chunk :: closeLast rest
  | [] => []

/-- Put a chunk before the others; if the range between them has its ends the wrong
way round, both ends are dropped and the chunks become one. -/
def joinChunk (chunk : List Char) : List (List Char) → List (List Char)
  | [] => [chunk]
  | next :: rest =>
    match chunk.getLast?, next.head? with
    | some a, some b =>
      if b.toNat < a.toNat then (chunk.dropLast ++ next.tail) :: rest else chunk :: next :: rest
    | _, _ => chunk :: next :: rest

/-- The members of a group from its chunks, a range hyphen between two chunks. -/
def membersOf (chunks : List (List Char)) : List Member :=
  [Member.hyphen].intercalate (chunks.map fun chunk => chunk.map Member.char)

/-- The ranges that a list of members stands for. -/
def rangesOf : List Member → List (Char × Char)
  | .char a :: .hyphen :: .char b :: rest => (a, b) :: rangesOf rest
  | .char a :: rest => (a, a) :: rangesOf rest
  | .hyphen :: rest => ('-', '-') :: rangesOf rest
  | [] => []

/-- The piece that the text of a closed group stands for. -/
def groupPiece (text : List Char) : GlobPiece :=
  -- the first member is never the hyphen of a range
  let skip := if text.head? = some '!' then 2 else 1
  let chunks := (closeLast (cutRanges skip text)).foldr joinChunk []
  match membersOf chunks with
  | .char '!' :: members => .group true (rangesOf members)
  | members => .group false (rangesOf members)

/-! ### Patterns -/

theorem length_lt_of_closeGroup {cs text rest : List Char}
    (h : closeGroup cs = some (text, rest)) : rest.length < cs.length := by
  have drop_lt : ∀ {l : List Char} {c : Char} {r : List Char},
      l.dropWhile (· != ']') = c :: r → r.length < l.length := by
    intro l c r h
    have := (List.dropWhile_sublist (l := l) (· != ']')).length_le
    rw [h] at this
    simp only [List.length_cons] at this
    omega
  unfold closeGroup at h
  split at h
  rename_i bang cs₁ h₁
  split at h
  rename_i first cs₂ h₂
  split at h
  · simp at h
  · rename_i d r hd
    obtain ⟨-, rfl⟩ : _ ∧ r = rest := by simpa using h
    have e₁ : cs₁.length ≤ cs.length := by
      split at h₁ <;> · simp only [Prod.mk.injEq] at h₁; obtain ⟨-, rfl⟩ := h₁; simp
    have e₂ : cs₂.length ≤ cs₁.length := by
      split at h₂ <;> · simp only [Prod.mk.injEq] at h₂; obtain ⟨-, rfl⟩ := h₂; simp
    have := drop_lt hd
    omega

/-- The pieces of a pattern. -/
def parse : List Char → List GlobPiece
  | [] => []
  | '*' :: cs => .anyText :: parse cs
  | '?' :: cs => .anyChar :: parse cs
  | '[' :: cs =>
    match _h : closeGroup cs with
    | some (text, rest) => groupPiece text :: parse rest
    -- a group that is not closed is no group
    | none => .char '[' :: parse cs
  | c :: cs => .char c :: parse cs
termination_by cs => cs.length
decreasing_by
  all_goals first
    | (have shorter := length_lt_of_closeGroup _h; simp only [List.length_cons]; omega)
    | simp

/-! ### Matching -/

/-- Does a piece that stands for one character stand for this one? -/
def accepts : GlobPiece → Char → Bool
  | .anyText, _ => false
  | .anyChar, _ => true
  | .group negated ranges, c =>
    (ranges.any fun range => range.1.toNat ≤ c.toNat && c.toNat ≤ range.2.toNat) != negated
  | .char d, c => c == d

/-- The ends of a list, the list itself first and the empty one last. -/
def suffixes {α : Type} : List α → List (List α)
  | [] => [[]]
  | a :: as => (a :: as) :: suffixes as

/-- Do the pieces cover a name? -/
def covers : List GlobPiece → List Char → Bool
  | [], cs => cs.isEmpty
  | .anyText :: pieces, cs => (suffixes cs).any (covers pieces)
  | piece :: pieces, cs =>
    match cs with
    | [] => false
    | c :: rest => accepts piece c && covers pieces rest

/-- For each place of a list of flags, is it or a later one raised? -/
def raisedFrom : List Bool → List Bool
  | [] => []
  | b :: bs =>
    let later := raisedFrom bs
    (b || later.headD false) :: later

/-- For each end of a name, the whole name first, do the pieces cover it? -/
def coverEnds : List GlobPiece → List Char → List Bool
  | [], cs => (suffixes cs).map List.isEmpty
  | .anyText :: pieces, cs => raisedFrom (coverEnds pieces cs)
  | piece :: pieces, cs =>
    cs.zipWith (fun c later => accepts piece c && later) (coverEnds pieces cs).tail ++ [false]

/-- The flag at a place says whether the end that starts there has a raised one. -/
theorem raisedFrom_map_suffixes (f : List Char → Bool) (cs : List Char) :
    raisedFrom ((suffixes cs).map f) = (suffixes cs).map fun e => (suffixes e).any f := by
  induction cs with
  | nil => simp [suffixes, raisedFrom]
  | cons c cs ih =>
    have head : ((suffixes cs).map fun e => (suffixes e).any f).headD false
        = (suffixes cs).any f := by
      cases cs <;> simp [suffixes]
    simp only [suffixes, List.map_cons, raisedFrom, ih, head, List.any_cons]

/-- A piece for one character covers an end if it accepts its first character and the
other pieces cover the next end. -/
theorem zipWith_suffixes (f : List Char → Bool) (accept : Char → Bool) (cs : List Char) :
    cs.zipWith (fun c later => accept c && later) ((suffixes cs).map f).tail ++ [false]
      = (suffixes cs).map fun e => match e with
        | [] => false
        | c :: rest => accept c && f rest := by
  induction cs with
  | nil => rfl
  | cons c cs ih => cases cs <;> simp_all [suffixes]

/-- The flags of the ends are the meaning of the pattern at each of them. -/
theorem coverEnds_eq_map (pieces : List GlobPiece) (cs : List Char) :
    coverEnds pieces cs = (suffixes cs).map (covers pieces) := by
  induction pieces with
  | nil => rfl
  | cons piece pieces ih =>
    cases piece with
    | anyText =>
      rw [coverEnds, ih, raisedFrom_map_suffixes]
      rfl
    | _ =>
      simp only [coverEnds, ih, zipWith_suffixes]
      rfl

def isMatch (pattern name : String) : Bool :=
  (coverEnds (parse pattern.toList) name.toList).headD false

/-- A pattern matches the names that its pieces cover. -/
theorem isMatch_eq_covers (pattern name : String) :
    isMatch pattern name = covers (parse pattern.toList) name.toList := by
  rw [isMatch, coverEnds_eq_map]
  cases name.toList <;> rfl

end Glob

end ObjectAudit
