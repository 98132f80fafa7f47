/-
ObjectAudit/Proofs/GlobMeaning.lean

What glob patterns mean.  `Matches` relates a pattern to the names that it stands for, character
by character of the pattern:

    *        any text                      [..]   a character inside the group
    ?        any one character             [      itself, if no bracket closes it
    c        itself, if it is none of these

A group is closed by the first `]` behind its first member (`Closed`).  Its members are read from
left to right: a member, a hyphen and a member are a range, and any other member is itself
(`ReadAs`).  Behind a leading `!` the group stands for all characters outside (`StandsFor`).  A
range with its ends the wrong way round holds no character, and it is as if it had not been
written: a `!` that leads once such ranges are taken out leads the group.  If this `!` began a
range itself, the hyphen and the other end are left as plain members.

The matcher finds ranges by cutting the text of a group into chunks at its hyphens.  Read item by
item, the chunks are those of the items (`closeLast_cutRanges`), joining them takes out the
reversed ranges (`foldr_joinChunk_chunksOf`), and so the piece made of a group accepts what the
group stands for (`accepts_groupPiece`).

Main results: the matcher decides the relation (`isMatch_iff`), and the category of a name is the
first one with a pattern that matches it (`Taxonomy.categoryOf_eq_first_match`).
-/
import Mathlib.Data.List.TakeWhile
import ObjectAudit.Taxonomy

namespace ObjectAudit

namespace Glob

/-! ### The relation -/

/-- An item of a bracket group: one character, or all characters from one to another. -/
inductive Item where
  | single (c : Char)
  | range (first last : Char)
deriving DecidableEq, Repr

namespace Item

/-- An item holds a character.  From a character to an earlier one there is none. -/
def Holds : Item → Char → Prop
  | single a, c => c = a
  | range a b, c => a.toNat ≤ c.toNat ∧ c.toNat ≤ b.toNat

/-- Is this a range with its ends the wrong way round? -/
def isReversed : Item → Bool
  | single _ => false
  | range a b => b.toNat < a.toNat

/-- The character with which an item begins. -/
def first : Item → Char
  | single a => a
  | range a _ => a

end Item

/-- The items that are no reversed ranges. -/
def upright (items : List Item) : List Item := items.filter fun item => !item.isReversed

/-- The items that the members of a group are read as. -/
inductive ReadAs : List Char → List Item → Prop
  | nil : ReadAs [] []
  | range {a b : Char} {rest : List Char} {items : List Item} :
      ReadAs rest items → ReadAs (a :: '-' :: b :: rest) (.range a b :: items)
  | single {a : Char} {rest : List Char} {items : List Item} :
      (∀ b rest', rest ≠ '-' :: b :: rest') → ReadAs rest items →
      ReadAs (a :: rest) (.single a :: items)

/-- The text of a group stands for the characters inside, or outside, of some items. -/
inductive StandsFor : List Char → Bool → List Item → Prop
  | outside {members : List Char} {items : List Item} :
      ReadAs members items → StandsFor ('!' :: members) true items
  | inside {text : List Char} {items : List Item} :
      text.head? ≠ some '!' → ReadAs text items →
      (upright items).head?.map Item.first ≠ some '!' → StandsFor text false items
  /-- A `!` leads once reversed ranges are taken out. -/
  | uncovered {text : List Char} {items rest : List Item} :
      text.head? ≠ some '!' → ReadAs text items → upright items = .single '!' :: rest →
      StandsFor text true rest
  /-- A `!` leads that began a range. -/
  | uncoveredRange {text : List Char} {items rest : List Item} {b : Char} :
      text.head? ≠ some '!' → ReadAs text items → upright items = .range '!' b :: rest →
      StandsFor text true (.single '-' :: .single b :: rest)

/-- The text of a group that a bracket closes: a first member, whatever it is, and further ones
that are no closing brackets, all of them behind a `!` if one leads. -/
inductive Closed : List Char → Prop
  | inside {c : Char} {cs : List Char} : c ≠ '!' → ']' ∉ cs → Closed (c :: cs)
  | outside {c : Char} {cs : List Char} : ']' ∉ cs → Closed ('!' :: c :: cs)

/-- A pattern matches a name. -/
inductive Matches : List Char → List Char → Prop
  | nil : Matches [] []
  | anyText (text : List Char) {pattern name : List Char} :
      Matches pattern name → Matches ('*' :: pattern) (text ++ name)
  | anyChar (c : Char) {pattern name : List Char} :
      Matches pattern name → Matches ('?' :: pattern) (c :: name)
  | group {text pattern name : List Char} {negated : Bool} {items : List Item} {c : Char} :
      Closed text → StandsFor text negated items →
      ((∃ item ∈ items, item.Holds c) ↔ negated = false) → Matches pattern name →
      Matches ('[' :: (text ++ ']' :: pattern)) (c :: name)
  | bracket {pattern name : List Char} :
      (∀ text rest, pattern = text ++ ']' :: rest → ¬ Closed text) → Matches pattern name →
      Matches ('[' :: pattern) ('[' :: name)
  | char {c : Char} {pattern name : List Char} :
      c ∉ ['*', '?', '['] → Matches pattern name → Matches (c :: pattern) (c :: name)

/-! ### Closing brackets -/

theorem closeGroup_of_closed {text : List Char} (h : Closed text) (rest : List Char) :
    closeGroup (text ++ ']' :: rest) = some (text, rest) := by
  have hwhile : ∀ {cs : List Char}, ']' ∉ cs →
      (cs ++ ']' :: rest).takeWhile (· != ']') = cs ∧
      (cs ++ ']' :: rest).dropWhile (· != ']') = ']' :: rest := by
    intro cs hcs
    have hall : ∀ c ∈ cs, (c != ']') = true := fun c hc => bne_iff_ne.2 fun heq => hcs (heq ▸ hc)
    rw [List.takeWhile_append_of_pos hall, List.dropWhile_append_of_pos hall]
    simp
  -- a first member that is a closing bracket is skipped, any other one is taken with the rest
  cases h with
  | @inside c cs hbang hcs =>
    by_cases hc : c = ']'
    · subst hc
      simp [closeGroup, hwhile hcs]
    · simp [closeGroup, hbang, hc, hwhile hcs]
  | @outside c cs hcs =>
    by_cases hc : c = ']'
    · subst hc
      simp [closeGroup, hwhile hcs]
    · simp [closeGroup, hc, hwhile hcs]

/-- Cut at the first closing bracket. -/
theorem exists_front_of_dropWhile {cs rest : List Char} {c : Char}
    (h : cs.dropWhile (· != ']') = c :: rest) :
    ∃ front, cs.takeWhile (· != ']') = front ∧ cs = front ++ ']' :: rest ∧ ']' ∉ front := by
  obtain rfl : c = ']' := by
    have hnot := List.head?_dropWhile_not (· != ']') cs
    rw [h] at hnot
    simpa using hnot
  refine ⟨_, rfl, ?_, ?_⟩
  · rw [← h, List.takeWhile_append_dropWhile]
  · intro hmem
    have hne := List.mem_takeWhile_imp hmem
    simp at hne

theorem closed_of_closeGroup {cs text rest : List Char} (h : closeGroup cs = some (text, rest)) :
    cs = text ++ ']' :: rest ∧ Closed text := by
  unfold closeGroup at h
  split at h
  next bang behindBang hbang =>
  split at h
  next first behindFirst hfirst =>
  split at h
  · cases h
  next c r hclose =>
  obtain ⟨rfl, rfl⟩ := Prod.mk.inj (Option.some.inj h)
  obtain ⟨front, hfront, hsplit, hnone⟩ := exists_front_of_dropWhile hclose
  rw [hfront]
  -- the first member is a closing bracket, or else it stands in front of the one that closes
  split at hbang <;> obtain ⟨rfl, rfl⟩ := Prod.mk.inj hbang <;>
    split at hfirst <;> obtain ⟨rfl, rfl⟩ := Prod.mk.inj hfirst
  · exact ⟨by rw [hsplit]; rfl, .outside hnone⟩
  · next hother =>
    cases front with
    | nil => exact (hother _ hsplit).elim
    | cons member front =>
      exact ⟨by rw [hsplit]; rfl, .outside fun hmem => hnone (List.mem_cons_of_mem _ hmem)⟩
  · exact ⟨by rw [hsplit]; rfl, .inside (by decide) hnone⟩
  · next hbang' _ hother =>
    cases front with
    | nil => exact (hother _ hsplit).elim
    | cons member front =>
      refine ⟨hsplit, .inside ?_ fun hmem => hnone (List.mem_cons_of_mem _ hmem)⟩
      rintro rfl
      exact hbang' _ hsplit

theorem not_closed_of_closeGroup {cs : List Char} (h : closeGroup cs = none) :
    ∀ text rest, cs = text ++ ']' :: rest → ¬ Closed text := by
  rintro text rest rfl hclosed
  rw [closeGroup_of_closed hclosed] at h
  cases h

/-! ### Chunks -/

section Cutting

variable {skip : Nat} {cs : List Char}

theorem cutRanges_of_nil (h : (cs.drop skip).dropWhile (· != '-') = []) :
    cutRanges skip cs = [cs] := by
  rw [cutRanges]
  split
  · rfl
  · next hfound =>
    rw [h] at hfound
    cases hfound

theorem cutRanges_of_cons {c : Char} {rest : List Char}
    (h : (cs.drop skip).dropWhile (· != '-') = c :: rest) :
    cutRanges skip cs = cs.take (cs.length - (rest.length + 1)) :: cutRanges 2 rest := by
  rw [cutRanges]
  split
  · next hfound =>
    rw [h] at hfound
    cases hfound
  · next hfound =>
    rw [h] at hfound ⊢
    cases hfound
    rfl

/-- A member that is skipped anyway only goes into the first chunk. -/
theorem cutRanges_succ_cons (skip : Nat) (c : Char) (cs : List Char) :
    cutRanges (skip + 1) (c :: cs) = (cutRanges skip cs).modifyHead (c :: ·) := by
  cases hfound : (cs.drop skip).dropWhile (· != '-') with
  | nil =>
    rw [cutRanges_of_nil hfound, @cutRanges_of_nil (skip + 1) (c :: cs) hfound]
    rfl
  | cons hyphen rest =>
    have hle : rest.length + 1 ≤ cs.length := by
      have hshorter := (List.dropWhile_sublist (l := cs.drop skip) (· != '-')).length_le
      rw [hfound, List.length_cons, List.length_drop] at hshorter
      omega
    rw [cutRanges_of_cons hfound, @cutRanges_of_cons (skip + 1) (c :: cs) _ _ hfound,
      List.length_cons, Nat.succ_sub hle]
    rfl

theorem cutRanges_zero_hyphen (cs : List Char) :
    cutRanges 0 ('-' :: cs) = [] :: cutRanges 2 cs := by
  have hfound : (('-' :: cs).drop 0).dropWhile (· != '-') = '-' :: cs := by simp
  rw [cutRanges_of_cons hfound]
  simp

theorem cutRanges_zero_cons {c : Char} (h : c ≠ '-') (cs : List Char) :
    cutRanges 0 (c :: cs) = cutRanges 1 (c :: cs) := by
  have hfound : ((c :: cs).drop 0).dropWhile (· != '-') =
      ((c :: cs).drop 1).dropWhile (· != '-') := by
    simp [h]
  cases hrest : ((c :: cs).drop 1).dropWhile (· != '-') with
  | nil => rw [cutRanges_of_nil hrest, cutRanges_of_nil (hfound.trans hrest)]
  | cons hyphen rest => rw [cutRanges_of_cons hrest, cutRanges_of_cons (hfound.trans hrest)]

end Cutting

/-- The chunks of items: each range is cut at its hyphen. -/
def chunksOf : List Item → List (List Char)
  | [] => [[]]
  | .single a :: items => (chunksOf items).modifyHead (a :: ·)
  | .range a b :: items => [a] :: (chunksOf items).modifyHead (b :: ·)

/-- Only of no items the first chunk is empty, and then it is the only one. -/
theorem exists_chunksOf (items : List Item) :
    ∃ chunk rest, chunksOf items = chunk :: rest ∧ (chunk = [] → rest = []) := by
  induction items with
  | nil => exact ⟨[], [], rfl, fun _ => rfl⟩
  | cons item items ih =>
    cases item with
    | single a =>
      obtain ⟨chunk, rest, hchunks, -⟩ := ih
      refine ⟨a :: chunk, rest, ?_, fun hnil => by cases hnil⟩
      rw [chunksOf, hchunks]
      rfl
    | range a b => exact ⟨[a], _, rfl, fun hnil => by cases hnil⟩

theorem closeLast_cons_cons (chunk : List Char) (c : Char) (next : List Char)
    (rest : List (List Char)) :
    closeLast (chunk :: (c :: next) :: rest) = chunk :: closeLast ((c :: next) :: rest) := by
  cases rest <;> rfl

theorem closeLast_modifyHead (c : Char) (chunks : List (List Char)) :
    closeLast (chunks.modifyHead (c :: ·)) = (closeLast chunks).modifyHead (c :: ·) := by
  rcases chunks with - | ⟨chunk, - | ⟨- | ⟨d, next⟩, rest⟩⟩
  · rfl
  · rfl
  · cases rest <;> rfl
  · rw [closeLast_cons_cons]
    exact closeLast_cons_cons (c :: chunk) d next rest

theorem cutRanges_ne_nil (skip : Nat) (cs : List Char) : cutRanges skip cs ≠ [] := by
  cases hfound : (cs.drop skip).dropWhile (· != '-') with
  | nil => rw [cutRanges_of_nil hfound]; exact List.cons_ne_nil _ _
  | cons hyphen rest => rw [cutRanges_of_cons hfound]; exact List.cons_ne_nil _ _

/-- Cutting a group at its hyphens cuts its items. -/
theorem closeLast_cutRanges {members : List Char} {items : List Item} (h : ReadAs members items) :
    closeLast (cutRanges 1 members) = chunksOf items := by
  induction h with
  | nil =>
    rw [cutRanges_of_nil rfl]
    rfl
  -- behind a range nothing is skipped but its end, and then the next item starts anew
  | @range a b rest items _ ih =>
    rw [cutRanges_succ_cons, cutRanges_zero_hyphen, cutRanges_succ_cons, chunksOf, ← ih,
      ← closeLast_modifyHead]
    obtain ⟨chunk, chunks, hchunks⟩ := List.exists_cons_of_ne_nil (cutRanges_ne_nil 1 rest)
    rw [hchunks]
    exact closeLast_cons_cons [a] b chunk chunks
  | @single a rest items hsingle _ ih =>
    rw [chunksOf, ← ih, cutRanges_succ_cons, closeLast_modifyHead]
    congr 1
    cases rest with
    | nil => rw [cutRanges_of_nil rfl, cutRanges_of_nil rfl]
    | cons c rest =>
      by_cases hc : c = '-'
      · subst hc
        cases rest with
        | nil =>
          rw [cutRanges_zero_hyphen, cutRanges_of_nil rfl, cutRanges_of_nil rfl]
          rfl
        | cons b rest => exact absurd rfl (hsingle b rest)
      · rw [cutRanges_zero_cons hc]

/-! ### Reversed ranges -/

theorem joinChunk_cons {chunk : List Char} {rest : List (List Char)} (c : Char)
    (h : chunk = [] → rest = []) :
    joinChunk (c :: chunk) rest = (joinChunk chunk rest).modifyHead (c :: ·) := by
  cases rest with
  | nil => rfl
  | cons next rest =>
    cases chunk with
    | nil => cases h rfl
    | cons d chunk =>
      -- joining looks at the last character of the chunk, and that is another one
      simp only [joinChunk, List.getLast?_cons_cons, List.dropLast_cons_cons]
      cases (d :: chunk).getLast? with
      | none => rfl
      | some a =>
        cases next.head? with
        | none => rfl
        | some b =>
          dsimp only
          split <;> rfl

theorem foldr_joinChunk_modifyHead (c : Char) (items : List Item) :
    ((chunksOf items).modifyHead (c :: ·)).foldr joinChunk [] =
      ((chunksOf items).foldr joinChunk []).modifyHead (c :: ·) := by
  obtain ⟨chunk, rest, hchunks, hnil⟩ := exists_chunksOf items
  rw [hchunks]
  refine joinChunk_cons c ?_
  intro hchunk
  rw [hnil hchunk]
  rfl

/-- Joining chunks takes out the ranges that are reversed. -/
theorem foldr_joinChunk_chunksOf (items : List Item) :
    (chunksOf items).foldr joinChunk [] = chunksOf (upright items) := by
  induction items with
  | nil => rfl
  | cons item items ih =>
    cases item with
    | single a =>
      rw [chunksOf, foldr_joinChunk_modifyHead, ih]
      rfl
    | range a b =>
      rw [chunksOf, List.foldr_cons, foldr_joinChunk_modifyHead, ih]
      obtain ⟨chunk, rest, hchunks, -⟩ := exists_chunksOf (upright items)
      -- a range the wrong way round goes, and the chunks at its ends become one
      by_cases hreversed : b.toNat < a.toNat
      · have hkept : upright (.range a b :: items) = upright items := by
          simp [upright, Item.isReversed, hreversed]
        rw [hkept, hchunks]
        exact if_pos hreversed
      · have hkept : upright (.range a b :: items) = .range a b :: upright items := by
          simp [upright, Item.isReversed, hreversed]
        rw [hkept, chunksOf, hchunks]
        exact if_neg hreversed

/-! ### Groups -/

/-- The members between which the ranges of a group are found again. -/
def Item.members : Item → List Member
  | .single a => [.char a]
  | .range a b => [.char a, .hyphen, .char b]

/-- The least and the greatest character of an item. -/
def Item.bounds : Item → Char × Char
  | .single a => (a, a)
  | .range a b => (a, b)

theorem membersOf_modifyHead (c : Char) {chunks : List (List Char)} (h : chunks ≠ []) :
    membersOf (chunks.modifyHead (c :: ·)) = .char c :: membersOf chunks := by
  rcases chunks with - | ⟨chunk, - | ⟨next, rest⟩⟩
  · exact absurd rfl h
  · simp [membersOf]
  · simp [membersOf, List.intercalate]

theorem membersOf_cons (chunk : List Char) {chunks : List (List Char)} (h : chunks ≠ []) :
    membersOf (chunk :: chunks) = chunk.map .char ++ .hyphen :: membersOf chunks := by
  cases chunks with
  | nil => exact absurd rfl h
  | cons next rest => simp [membersOf, List.intercalate]

theorem membersOf_chunksOf (items : List Item) :
    membersOf (chunksOf items) = items.flatMap Item.members := by
  induction items with
  | nil => rfl
  | cons item items ih =>
    obtain ⟨chunk, rest, hchunks, -⟩ := exists_chunksOf items
    have hne : chunksOf items ≠ [] := by simp [hchunks]
    cases item with
    | single a =>
      rw [chunksOf, membersOf_modifyHead a hne, ih]
      rfl
    | range a b =>
      rw [chunksOf, membersOf_cons [a], membersOf_modifyHead b hne, ih]
      · rfl
      · simpa using hne

theorem rangesOf_flatMap_members (items : List Item) :
    rangesOf (items.flatMap Item.members) = items.map Item.bounds := by
  induction items with
  | nil => rfl
  | cons item items ih =>
    cases item with
    | range a b =>
      rw [List.flatMap_cons, List.map_cons, ← ih]
      rfl
    | single a =>
      rw [List.flatMap_cons, List.map_cons, ← ih]
      cases items with
      | nil => rfl
      | cons next items => cases next <;> rfl

theorem groupPiece_outside {members : List Char} {items : List Item} (h : ReadAs members items) :
    groupPiece ('!' :: members) = .group true ((upright items).map Item.bounds) := by
  have hchunks : (closeLast (cutRanges 2 ('!' :: members))).foldr joinChunk [] =
      (chunksOf (upright items)).modifyHead ('!' :: ·) := by
    rw [cutRanges_succ_cons, closeLast_modifyHead, closeLast_cutRanges h,
      foldr_joinChunk_modifyHead, foldr_joinChunk_chunksOf]
  obtain ⟨chunk, rest, hcons, -⟩ := exists_chunksOf (upright items)
  have hmembers : membersOf ((chunksOf (upright items)).modifyHead ('!' :: ·)) =
      .char '!' :: (upright items).flatMap Item.members := by
    rw [membersOf_modifyHead _ (by simp [hcons]), membersOf_chunksOf]
  simp only [groupPiece, List.head?_cons, if_true, hchunks, hmembers, rangesOf_flatMap_members]

section Inside

variable {text : List Char} {items rest : List Item}
variable (hhead : text.head? ≠ some '!') (h : ReadAs text items)

include hhead h

theorem membersOf_groupPiece :
    membersOf ((closeLast (cutRanges (if text.head? = some '!' then 2 else 1) text)).foldr
      joinChunk []) = (upright items).flatMap Item.members := by
  rw [if_neg hhead, closeLast_cutRanges h, foldr_joinChunk_chunksOf, membersOf_chunksOf]

theorem groupPiece_inside (hfirst : (upright items).head?.map Item.first ≠ some '!') :
    groupPiece text = .group false ((upright items).map Item.bounds) := by
  have hmembers := membersOf_groupPiece hhead h
  rw [groupPiece]
  split
  · next members hbang =>
    rw [hmembers] at hbang
    cases hup : upright items with
    | nil => rw [hup] at hbang; cases hbang
    | cons item rest =>
      rw [hup] at hbang hfirst
      cases item <;> simp_all [Item.members, Item.first]
  · rw [hmembers, rangesOf_flatMap_members]

theorem groupPiece_uncovered (hup : upright items = .single '!' :: rest) :
    groupPiece text = .group true (rest.map Item.bounds) := by
  have hmembers := membersOf_groupPiece hhead h
  rw [hup] at hmembers
  rw [groupPiece, ← rangesOf_flatMap_members]
  simp only [hmembers]
  rfl

theorem groupPiece_uncoveredRange {b : Char} (hup : upright items = .range '!' b :: rest) :
    groupPiece text =
      .group true ((Item.single '-' :: .single b :: rest).map Item.bounds) := by
  have hmembers := membersOf_groupPiece hhead h
  rw [hup] at hmembers
  rw [groupPiece, ← rangesOf_flatMap_members]
  simp only [hmembers]
  rfl

end Inside

theorem not_holds_of_isReversed {item : Item} (h : item.isReversed = true) (c : Char) :
    ¬ item.Holds c := by
  cases item with
  | single a => cases h
  | range a b =>
    rintro ⟨hfirst, hlast⟩
    have hlt : b.toNat < a.toNat := of_decide_eq_true h
    omega

theorem exists_holds_upright (items : List Item) (c : Char) :
    (∃ item ∈ upright items, item.Holds c) ↔ ∃ item ∈ items, item.Holds c := by
  constructor
  · rintro ⟨item, hitem, hholds⟩
    exact ⟨item, (List.mem_filter.1 hitem).1, hholds⟩
  · rintro ⟨item, hitem, hholds⟩
    refine ⟨item, List.mem_filter.2 ⟨hitem, ?_⟩, hholds⟩
    cases hreversed : item.isReversed with
    | false => rfl
    | true => exact absurd hholds (not_holds_of_isReversed hreversed c)

theorem holds_iff_bounds (item : Item) (c : Char) :
    item.Holds c ↔
      (item.bounds.1.toNat ≤ c.toNat && c.toNat ≤ item.bounds.2.toNat) = true := by
  rw [Bool.and_eq_true, decide_eq_true_iff, decide_eq_true_iff]
  cases item with
  | range a b => rfl
  | single a =>
    constructor
    · rintro rfl
      exact ⟨Nat.le_refl _, Nat.le_refl _⟩
    · rintro ⟨hle, hge⟩
      exact Char.toNat_inj.1 (Nat.le_antisymm hge hle)

theorem accepts_group_iff (negated : Bool) (items : List Item) (c : Char) :
    accepts (.group negated (items.map Item.bounds)) c = true ↔
      ((∃ item ∈ items, item.Holds c) ↔ negated = false) := by
  have hany : ((items.map Item.bounds).any fun range =>
      range.1.toNat ≤ c.toNat && c.toNat ≤ range.2.toNat) = true ↔
      ∃ item ∈ items, item.Holds c := by
    rw [List.any_map, List.any_eq_true]
    simp only [holds_iff_bounds]
    rfl
  rw [accepts, ← hany]
  cases negated <;> simp

/-- The piece made of a group accepts what the group stands for. -/
theorem accepts_groupPiece {text : List Char} {negated : Bool} {items : List Item}
    (h : StandsFor text negated items) (c : Char) :
    accepts (groupPiece text) c = true ↔ ((∃ item ∈ items, item.Holds c) ↔ negated = false) := by
  cases h with
  | outside hreads =>
    rw [groupPiece_outside hreads, accepts_group_iff, exists_holds_upright]
  | inside hhead hreads hfirst =>
    rw [groupPiece_inside hhead hreads hfirst, accepts_group_iff, exists_holds_upright]
  | uncovered hhead hreads hup => rw [groupPiece_uncovered hhead hreads hup, accepts_group_iff]
  | uncoveredRange hhead hreads hup =>
    rw [groupPiece_uncoveredRange hhead hreads hup, accepts_group_iff]

/-- Any members can be read. -/
theorem exists_readAs (members : List Char) : ∃ items, ReadAs members items := by
  -- a range takes three members at once
  induction hlength : members.length using Nat.strong_induction_on generalizing members with
  | _ length ih =>
    cases members with
    | nil => exact ⟨[], .nil⟩
    | cons a rest =>
      rw [List.length_cons] at hlength
      by_cases hrange : ∃ b rest', rest = '-' :: b :: rest'
      · obtain ⟨b, rest', rfl⟩ := hrange
        obtain ⟨items, hreads⟩ := ih rest'.length (by simp at hlength; omega) rest' rfl
        exact ⟨_, .range hreads⟩
      · obtain ⟨items, hreads⟩ := ih rest.length (by omega) rest rfl
        refine ⟨_, .single ?_ hreads⟩
        rintro b rest' rfl
        exact hrange ⟨b, rest', rfl⟩

theorem exists_standsFor (text : List Char) : ∃ negated items, StandsFor text negated items := by
  by_cases hhead : text.head? = some '!'
  · obtain ⟨members, rfl⟩ := List.head?_eq_some_iff.1 hhead
    obtain ⟨items, hreads⟩ := exists_readAs members
    exact ⟨_, _, .outside hreads⟩
  · obtain ⟨items, hreads⟩ := exists_readAs text
    -- once ranges in front are dropped, an exclamation mark may come first
    by_cases hfirst : (upright items).head?.map Item.first = some '!'
    · obtain ⟨item, hitem, hbang⟩ := Option.map_eq_some_iff.1 hfirst
      obtain ⟨rest, hup⟩ := List.head?_eq_some_iff.1 hitem
      cases item with
      | single a =>
        obtain rfl : a = '!' := hbang
        exact ⟨_, _, .uncovered hhead hreads hup⟩
      | range a b =>
        obtain rfl : a = '!' := hbang
        exact ⟨_, _, .uncoveredRange hhead hreads hup⟩
    · exact ⟨_, _, .inside hhead hreads hfirst⟩

/-! ### Patterns -/

theorem mem_suffixes {α : Type} {as e : List α} : e ∈ suffixes as ↔ e <:+ as := by
  induction as with
  | nil => simp [suffixes]
  | cons a as ih => rw [suffixes, List.mem_cons, ih, List.suffix_cons_iff]

theorem covers_anyText_iff {pieces : List GlobPiece} {cs : List Char} :
    covers (.anyText :: pieces) cs = true ↔
      ∃ text rest, cs = text ++ rest ∧ covers pieces rest = true := by
  rw [covers, List.any_eq_true]
  constructor
  · rintro ⟨rest, hrest, hcovers⟩
    obtain ⟨text, rfl⟩ := mem_suffixes.1 hrest
    exact ⟨text, rest, rfl, hcovers⟩
  · rintro ⟨text, rest, rfl, hcovers⟩
    exact ⟨rest, mem_suffixes.2 ⟨text, rfl⟩, hcovers⟩

theorem covers_cons_iff {piece : GlobPiece} (h : piece ≠ .anyText) {pieces : List GlobPiece}
    {cs : List Char} :
    covers (piece :: pieces) cs = true ↔
      ∃ c rest, cs = c :: rest ∧ accepts piece c = true ∧ covers pieces rest = true := by
  have hnil : covers (piece :: pieces) [] = false := by
    cases piece with
    | anyText => exact absurd rfl h
    | _ => rfl
  have hcons : ∀ c rest,
      covers (piece :: pieces) (c :: rest) = (accepts piece c && covers pieces rest) := by
    cases piece with
    | anyText => exact absurd rfl h
    | _ => exact fun _ _ => rfl
  constructor
  · intro hcovers
    cases cs with
    | nil =>
      rw [hnil] at hcovers
      cases hcovers
    | cons c rest =>
      rw [hcons, Bool.and_eq_true] at hcovers
      exact ⟨c, rest, rfl, hcovers⟩
  · rintro ⟨c, rest, rfl, hcovers⟩
    rw [hcons, Bool.and_eq_true]
    exact hcovers

theorem groupPiece_ne_anyText (text : List Char) : groupPiece text ≠ .anyText := by
  intro h
  rw [groupPiece] at h
  split at h <;> cases h

theorem parse_group {text : List Char} (h : Closed text) (pattern : List Char) :
    parse ('[' :: (text ++ ']' :: pattern)) = groupPiece text :: parse pattern := by
  have hclose := closeGroup_of_closed h pattern
  rw [parse]
  split
  · next hsome =>
    rw [hclose] at hsome
    cases hsome
    rfl
  · next hnone =>
    rw [hclose] at hnone
    cases hnone

theorem parse_bracket {pattern : List Char}
    (h : ∀ text rest, pattern = text ++ ']' :: rest → ¬ Closed text) :
    parse ('[' :: pattern) = .char '[' :: parse pattern := by
  rw [parse]
  split
  · next hsome =>
    obtain ⟨hsplit, hclosed⟩ := closed_of_closeGroup hsome
    exact absurd hclosed (h _ _ hsplit)
  · rfl

theorem parse_char {c : Char} (h : c ∉ ['*', '?', '[']) (pattern : List Char) :
    parse (c :: pattern) = .char c :: parse pattern := by
  simp only [List.mem_cons, List.not_mem_nil, or_false, not_or] at h
  rw [parse]
  · exact h.1
  · exact h.2.1
  · exact h.2.2

/-- The pieces of a pattern cover the names that it matches. -/
theorem covers_parse_of_matches {pattern name : List Char} (h : Matches pattern name) :
    covers (parse pattern) name = true := by
  induction h with
  | nil =>
    rw [parse]
    rfl
  | anyText text _ ih =>
    rw [parse]
    exact covers_anyText_iff.2 ⟨text, _, rfl, ih⟩
  | anyChar c _ ih =>
    rw [parse]
    exact (covers_cons_iff GlobPiece.noConfusion).2 ⟨c, _, rfl, rfl, ih⟩
  | group hclosed hstands hholds _ ih =>
    rw [parse_group hclosed]
    exact (covers_cons_iff (groupPiece_ne_anyText _)).2
      ⟨_, _, rfl, (accepts_groupPiece hstands _).2 hholds, ih⟩
  | bracket hopen _ ih =>
    rw [parse_bracket hopen]
    exact (covers_cons_iff GlobPiece.noConfusion).2 ⟨_, _, rfl, beq_self_eq_true _, ih⟩
  | char hplain _ ih =>
    rw [parse_char hplain]
    exact (covers_cons_iff GlobPiece.noConfusion).2 ⟨_, _, rfl, beq_self_eq_true _, ih⟩

/-- A pattern matches the names that its pieces cover. -/
theorem matches_of_covers_parse {pattern name : List Char}
    (h : covers (parse pattern) name = true) : Matches pattern name := by
  fun_induction parse pattern generalizing name with
  | case1 =>
    obtain rfl := List.isEmpty_iff.1 h
    exact .nil
  | case2 cs ih =>
    obtain ⟨text, rest, rfl, hcovers⟩ := covers_anyText_iff.1 h
    exact .anyText text (ih hcovers)
  | case3 cs ih =>
    obtain ⟨c, rest, rfl, -, hcovers⟩ := (covers_cons_iff GlobPiece.noConfusion).1 h
    exact .anyChar c (ih hcovers)
  | case4 cs text rest hclose ih =>
    obtain ⟨rfl, hclosed⟩ := closed_of_closeGroup hclose
    obtain ⟨c, name, rfl, haccepts, hcovers⟩ := (covers_cons_iff (groupPiece_ne_anyText text)).1 h
    obtain ⟨negated, items, hstands⟩ := exists_standsFor text
    exact .group hclosed hstands ((accepts_groupPiece hstands c).1 haccepts) (ih hcovers)
  | case5 cs hclose ih =>
    obtain ⟨c, rest, rfl, haccepts, hcovers⟩ := (covers_cons_iff GlobPiece.noConfusion).1 h
    obtain rfl := eq_of_beq haccepts
    exact .bracket (not_closed_of_closeGroup hclose) (ih hcovers)
  | case6 d cs hstar hquestion hbracket ih =>
    obtain ⟨c, rest, rfl, haccepts, hcovers⟩ := (covers_cons_iff GlobPiece.noConfusion).1 h
    obtain rfl := eq_of_beq haccepts
    refine .char ?_ (ih hcovers)
    simp only [List.mem_cons, List.not_mem_nil, or_false, not_or]
    exact ⟨hstar, hquestion, hbracket⟩

/-- The matcher decides whether a pattern matches a name. -/
theorem isMatch_iff {pattern name : String} :
    isMatch pattern name = true ↔ Matches pattern.toList name.toList := by
  rw [isMatch_eq_covers]
  exact ⟨matches_of_covers_parse, covers_parse_of_matches⟩

/-- Without the range from `b` to `a` the group begins with `!`. -/
example : isMatch "[b-a!x]" "a" = true ∧ isMatch "[b-a!x]" "x" = false := by cbv

end Glob

/-! ### Categories -/

namespace Taxonomy

/-- Some pattern of a category matches a name. -/
def Fits (patterns : Patterns) (name : String) : Prop :=
  ∃ pattern ∈ patterns.texts, Glob.Matches pattern.toList name.toList

theorem any_isMatch_iff {patterns : Patterns} {name : String} :
    (patterns.texts.any fun pattern => Glob.isMatch pattern name) = true ↔
      Fits patterns name := by
  rw [List.any_eq_true]
  simp only [Glob.isMatch_iff]
  rfl

/-- The category of a name is the first one, in the order of the taxonomy, with a pattern that
matches the whole name.  A name has no category exactly if no pattern of any category matches. -/
theorem categoryOf_eq_first_match (taxonomy : Taxonomy) (name : String) :
    (∀ category, taxonomy.categoryOf name = some category ↔
      ∃ before patterns after, taxonomy.categories = before ++ (category, patterns) :: after ∧
        Fits patterns name ∧ ∀ earlier ∈ before, ¬ Fits earlier.2 name) ∧
    (taxonomy.categoryOf name = none ↔
      ∀ entry ∈ taxonomy.categories, ∀ pattern ∈ entry.2.texts,
        ¬ Glob.Matches pattern.toList name.toList) := by
  constructor
  · intro category
    rw [categoryOf, Option.map_eq_some_iff]
    constructor
    · rintro ⟨⟨_, patterns⟩, hfind, rfl⟩
      obtain ⟨hfits, before, after, hsplit, hbefore⟩ := List.find?_eq_some_iff_append.1 hfind
      refine ⟨before, patterns, after, hsplit, any_isMatch_iff.1 hfits, ?_⟩
      -- an earlier category that fits would have been found instead
      intro earlier hearlier hfits'
      have hnot := hbefore earlier hearlier
      rw [Bool.not_eq_true'] at hnot
      exact Bool.false_ne_true (hnot.symm.trans (any_isMatch_iff.2 hfits'))
    · rintro ⟨before, patterns, after, hsplit, hfits, hbefore⟩
      refine ⟨(category, patterns), List.find?_eq_some_iff_append.2
        ⟨any_isMatch_iff.2 hfits, before, after, hsplit, ?_⟩, rfl⟩
      intro earlier hearlier
      rw [Bool.not_eq_true', Bool.eq_false_iff]
      exact fun hany => hbefore earlier hearlier (any_isMatch_iff.1 hany)
  · rw [categoryOf, Option.map_eq_none_iff, List.find?_eq_none]
    constructor
    · intro h entry hentry pattern hpattern hmatches
      exact h entry hentry (any_isMatch_iff.2 ⟨pattern, hpattern, hmatches⟩)
    · intro h entry hentry hany
      obtain ⟨pattern, hpattern, hmatches⟩ := any_isMatch_iff.1 hany
      exact h entry hentry pattern hpattern hmatches

/-- Two categories, both with a pattern for `find_report`. -/
def reportsFirst : Taxonomy :=
  ⟨[("reporting", .list ["[!_]*_report"]), ("finder", .list ["find*"])]⟩

theorem categoryOf_eq_first_match_reportsFirst :
    reportsFirst.categoryOf "find_report" = some "reporting" := by
  have hgroup : Glob.StandsFor ['!', '_'] true [.single '_'] := .outside (.single (by simp) .nil)
  have hword : Glob.Matches "_report".toList "_report".toList := by
    repeat' first | exact .nil | refine .char (by decide) ?_
  have houtside : (∃ item ∈ [Glob.Item.single '_'], item.Holds 'f') ↔ true = false := by
    simp [Glob.Item.Holds]
  have hmatches : Glob.Matches "[!_]*_report".toList "find_report".toList :=
    .group (.outside (by decide)) hgroup houtside (.anyText "ind".toList hword)
  refine ((categoryOf_eq_first_match reportsFirst "find_report").1 "reporting").2
    ⟨[], _, _, rfl, ⟨_, List.mem_singleton_self _, hmatches⟩, ?_⟩
  exact List.forall_mem_nil _

end Taxonomy

end ObjectAudit
