/-
ObjectAudit/Proofs/JsonRoundTrip.lean

A value that is written is read again as what it was, on one line or indented, whatever stands
around it.  The argument has the two halves of the reader, and the tokens that spell a value
(`spell`) stand between them:

    Cuts text kinds rest      cutting `text` gives tokens of these kinds, up to `rest`;
    Reads stage kinds next    taking tokens of these kinds leads from one stage to the other.

Both relations compose, so a written value is followed from part to part (`cuts_writeValue`,
`reads_spell`).  Only `rest` has to let an integer end, and the names of an object have to be
distinct, for of two equal names the reader keeps one.

A limit on the digits of integers is kept by both sides.  What is printed to its end is the whole
written form, and it is if and only if all integers keep to the limit (`fault?_print_eq_none_iff`);
and then the limit does not show to the reader (`readWithin_writeValue`).
-/
import ObjectAudit.Proofs.JsonTokens
import ObjectAudit.Proofs.Tables

namespace ObjectAudit.Json

open Text (Piece)

/-! ### Values that are read as they are written -/

/-- Values of null, truth values, integers, whole texts, lists and objects whose names are
whole and distinct. -/
inductive Plain : Json → Prop
  | null : Plain null
  | bool (value : Bool) : Plain (bool value)
  | int (value : Int) : Plain (int value)
  | str (value : String) : Plain (str value)
  | arr {items : List Json} (h : ∀ item ∈ items, Plain item) : Plain (arr items)
  | obj {fields : List (Text × Json)} (hnames : (fields.map Prod.fst).Nodup)
      (hwhole : ∀ field ∈ fields, ∃ name, field.1 = .whole name)
      (h : ∀ field ∈ fields, Plain field.2) : Plain (obj fields)

/-- The token of a text. -/
def textKind (text : Text) : TokenKind := .text text.pieces

mutual

/-- The tokens that spell a value. -/
def spell : Json → List TokenKind
  | str value => [textKind value]
  | arr [] => [.mark '[', .mark ']']
  | arr (item :: rest) => .mark '[' :: (spell item ++ (spellItems rest ++ [.mark ']']))
  | obj [] => [.mark '\x7b', .mark '\x7d']
  | obj ((name, value) :: rest) =>
    .mark '\x7b' :: textKind name :: .mark ':' ::
      (spell value ++ (spellFields rest ++ [.mark '\x7d']))
  | scalar => [.scalar scalar]

/-- The tokens that spell the items after the first. -/
def spellItems : List Json → List TokenKind
  | [] => []
  | item :: rest => .mark ',' :: (spell item ++ spellItems rest)

/-- The tokens that spell the fields after the first. -/
def spellFields : List (Text × Json) → List TokenKind
  | [] => []
  | (name, value) :: rest =>
    .mark ',' :: textKind name :: .mark ':' :: (spell value ++ spellFields rest)

end

/-! ### What is written -/

/-- The items after the first, as they are written. -/
def writeItems (layout : Layout) (depth : Nat) (items : List Json) : List Char :=
  (restChunks layout depth items).flatMap Chunk.chars

/-- The fields after the first, as they are written. -/
def writeFields (layout : Layout) (depth : Nat) (fields : List (Text × Json)) : List Char :=
  (fieldChunks layout depth fields).flatMap Chunk.chars

section Written

variable (layout : Layout) (depth : Nat)

theorem writeValue_null : writeValue layout depth null = ['n', 'u', 'l', 'l'] := rfl

theorem writeValue_false : writeValue layout depth (bool false) = ['f', 'a', 'l', 's', 'e'] := rfl

theorem writeValue_true : writeValue layout depth (bool true) = ['t', 'r', 'u', 'e'] := rfl

theorem writeValue_int (n : Int) : writeValue layout depth (int n) = (toString n).toList :=
  List.append_nil _

theorem writeValue_str (text : Text) : writeValue layout depth (str text) = writeText text :=
  List.append_nil _

/-- Whether or not an item is an integer, it is written behind what stands before it. -/
theorem flatMap_itemChunks (front : List Char) (item : Json) :
    (itemChunks front (valueChunks layout depth item) item).flatMap Chunk.chars =
      front ++ writeValue layout depth item := by
  cases item with
  | int value => simp [itemChunks, writeValue_int, Chunk.chars]
  | _ => rfl

theorem writeValue_arr_nil : writeValue layout depth (arr []) = ['[', ']'] := rfl

theorem writeValue_arr_cons (item : Json) (items : List Json) :
    writeValue layout depth (arr (item :: items)) =
      '[' :: (layout.lineBreak (depth + 1) ++ (writeValue layout (depth + 1) item ++
        (writeItems layout (depth + 1) items ++ (layout.lineBreak depth ++ [']'])))) := by
  rw [writeValue, valueChunks, List.flatMap_append, List.flatMap_append, flatMap_itemChunks]
  simp [writeItems, Chunk.chars]

theorem writeValue_obj_nil : writeValue layout depth (obj []) = ['\x7b', '\x7d'] := rfl

theorem writeValue_obj_cons (name : Text) (value : Json) (fields : List (Text × Json)) :
    writeValue layout depth (obj ((name, value) :: fields)) =
      '\x7b' :: (layout.lineBreak (depth + 1) ++ (writeText name ++ ':' :: ' ' ::
        (writeValue layout (depth + 1) value ++ (writeFields layout (depth + 1) fields ++
          (layout.lineBreak depth ++ ['\x7d']))))) := by
  simp [writeValue, valueChunks, writeFields, Chunk.chars]

theorem writeItems_cons (item : Json) (items : List Json) :
    writeItems layout depth (item :: items) =
      layout.separator depth ++
        (writeValue layout depth item ++ writeItems layout depth items) := by
  rw [writeItems, restChunks, List.flatMap_append, flatMap_itemChunks, List.append_assoc]
  rfl

theorem writeFields_cons (name : Text) (value : Json) (fields : List (Text × Json)) :
    writeFields layout depth ((name, value) :: fields) =
      layout.separator depth ++ (writeText name ++ ':' :: ' ' ::
        (writeValue layout depth value ++ writeFields layout depth fields)) := by
  simp [writeFields, fieldChunks, writeValue, Chunk.chars]

end Written

/-! ### Cutting -/

/-- Where the token is an integer, its text shows the digits that the integer is written
with. -/
def Token.Fits (token : Token) : Prop :=
  ∀ n, token.kind = .scalar (int n) → token.digits = (digitsOf n).length

/-- The tokens of a text are tokens of these kinds and then those of the rest. -/
def Cuts (text : List Char) (kinds : List TokenKind) (rest : List Char) : Prop :=
  ∃ cut : List Token, tokens text = cut ++ tokens rest ∧ cut.map Token.kind = kinds ∧
    ∀ token ∈ cut, token.Fits

namespace Cuts

theorem trans {text behind rest : List Char} {kinds kinds' : List TokenKind}
    (h : Cuts text kinds behind) (h' : Cuts behind kinds' rest) :
    Cuts text (kinds ++ kinds') rest := by
  obtain ⟨cut, htokens, rfl, hfits⟩ := h
  obtain ⟨cut', htokens', rfl, hfits'⟩ := h'
  refine ⟨cut ++ cut', ?_, List.map_append, ?_⟩
  · rw [htokens, htokens', List.append_assoc]
  · intro token htoken
    rcases List.mem_append.1 htoken with htoken | htoken
    · exact hfits token htoken
    · exact hfits' token htoken

/-- One token, and what follows it. -/
theorem cons {text behind rest : List Char} {kind : TokenKind} {kinds : List TokenKind}
    (h : Cuts text [kind] behind) (h' : Cuts behind kinds rest) : Cuts text (kind :: kinds) rest :=
  h.trans h'

/-- What is blank is no token. -/
theorem skip {text behind rest : List Char} {kinds : List TokenKind}
    (h : Cuts text [] behind) (h' : Cuts behind kinds rest) : Cuts text kinds rest :=
  h.trans h'

theorem of_blank {c : Char} (h : isBlank c = true) (rest : List Char) : Cuts (c :: rest) [] rest :=
  ⟨[], tokens_of_blank h rest, rfl, by simp⟩

theorem of_firstToken {c : Char} {behind rest : List Char} {kind : TokenKind}
    (hblank : isBlank c = false) (h : firstToken c behind = (kind, some rest))
    (hfits : Token.Fits ⟨kind, c :: behind⟩) : Cuts (c :: behind) [kind] rest := by
  refine ⟨[⟨kind, c :: behind⟩], tokens_of_firstToken hblank h, rfl, ?_⟩
  simpa using hfits

theorem mark {c : Char} (h : isMark c = true) (rest : List Char) :
    Cuts (c :: rest) [.mark c] rest := by
  refine of_firstToken ?_ (if_pos h) (by rintro n ⟨⟩)
  have hall : ∀ c ∈ ['[', ']', '\x7b', '\x7d', ',', ':'], isBlank c = false :=
    List.all_iff_forall_prop.1 rfl
  exact hall c (by simpa [isMark] using h)

theorem replicate_blank (n : Nat) (rest : List Char) :
    Cuts (List.replicate n ' ' ++ rest) [] rest := by
  induction n with
  | zero => exact ⟨[], rfl, rfl, by simp⟩
  | succ n ih => exact (of_blank rfl _).skip ih

theorem lineBreak (layout : Layout) (depth : Nat) (rest : List Char) :
    Cuts (layout.lineBreak depth ++ rest) [] rest := by
  cases layout with
  | oneLine => exact replicate_blank 0 rest
  | indented blanks => exact (of_blank rfl _).skip (replicate_blank _ rest)

theorem separator (layout : Layout) (depth : Nat) (rest : List Char) :
    Cuts (layout.separator depth ++ rest) [.mark ','] rest := by
  cases layout with
  | oneLine => exact (mark rfl _).cons (of_blank rfl rest)
  | indented blanks => exact (mark rfl _).cons (lineBreak (.indented blanks) depth rest)

theorem writeText (s : String) (rest : List Char) :
    Cuts (Json.writeText (.whole s) ++ rest) [textKind (.whole s)] rest := by
  have htext : Json.writeText (.whole s) ++ rest =
      '\x22' :: (s.toList.flatMap writeChar ++ '\x22' :: rest) := by
    simp [Json.writeText, Text.doubleQuote]
  have hscan := scanText_flatMap_writeChar
    ('\x22' :: (s.toList.flatMap writeChar ++ '\x22' :: rest)) s.toList rest
  rw [htext]
  refine of_firstToken rfl ?_ (by rintro n ⟨⟩)
  -- the reader joins code units, and those of whole characters join to these again
  have hkind : .text (Piece.ofUnits (s.toList.flatMap Piece.codeUnits)) = textKind (.whole s) :=
    congrArg TokenKind.text (Piece.ofUnits_flatMap_codeUnits s.toList)
  rw [firstToken, hscan, ← hkind]
  rfl

theorem of_scalar {c : Char} {behind rest : List Char} {value : Json} (hblank : isBlank c = false)
    (hmark : isMark c = false) (hquote : c ≠ '\x22')
    (h : scanScalar? (c :: behind) = some (value, rest))
    (hfits : Token.Fits ⟨.scalar value, c :: behind⟩) :
    Cuts (c :: behind) [.scalar value] rest := by
  refine of_firstToken hblank ?_ hfits
  simp only [firstToken, hmark, hquote, h, Bool.false_eq_true, if_false]

theorem of_constant {name : List Char} {value : Json} (h : (name, value) ∈ constants)
    (rest : List Char) : Cuts (name ++ rest) [.scalar value] rest := by
  simp only [constants, List.mem_cons, Prod.mk.injEq, List.not_mem_nil, or_false] at h
  rcases h with ⟨rfl, rfl⟩ | ⟨rfl, rfl⟩ | ⟨rfl, rfl⟩ | ⟨rfl, rfl⟩ | ⟨rfl, rfl⟩ | ⟨rfl, rfl⟩
  all_goals exact of_scalar rfl rfl (by decide) rfl (by rintro n ⟨⟩)

theorem integer (n : Int) {rest : List Char} (hrest : Ends rest) :
    Cuts ((toString n).toList ++ rest) [.scalar (.int n)] rest := by
  have hscan := scanScalar?_toString n hrest
  have hdigits := digits_toString (.scalar (.int n)) n hrest
  obtain ⟨c, behind, hcons, hends, hquote⟩ := exists_toString_eq_cons n
  rw [hcons, List.cons_append] at hscan hdigits ⊢
  simp only [Ends, not_or, Bool.not_eq_true] at hends
  refine of_scalar hends.1 hends.2 hquote hscan ?_
  rintro m ⟨⟩
  exact hdigits

end Cuts

/-! ### Cutting what is written -/

theorem ends_lineBreak (layout : Layout) (depth : Nat) {rest : List Char} (h : Ends rest) :
    Ends (layout.lineBreak depth ++ rest) := by
  cases layout with
  | oneLine => exact h
  | indented blanks => exact .inl rfl

theorem ends_writeItems (layout : Layout) (depth : Nat) (items : List Json) {rest : List Char}
    (h : Ends rest) : Ends (writeItems layout depth items ++ rest) := by
  cases items with
  | nil => exact h
  | cons item items =>
    rw [writeItems_cons]
    cases layout <;> exact .inr rfl

theorem ends_writeFields (layout : Layout) (depth : Nat) (fields : List (Text × Json))
    {rest : List Char} (h : Ends rest) : Ends (writeFields layout depth fields ++ rest) := by
  cases fields with
  | nil => exact h
  | cons field fields =>
    rw [writeFields_cons]
    cases layout <;> exact .inr rfl

theorem cuts_writeItems (layout : Layout) (depth : Nat) {items : List Json}
    (h : ∀ item ∈ items, ∀ rest, Ends rest →
      Cuts (writeValue layout depth item ++ rest) (spell item) rest)
    {rest : List Char} (hrest : Ends rest) :
    Cuts (writeItems layout depth items ++ rest) (spellItems items) rest := by
  induction items with
  | nil => exact ⟨[], rfl, rfl, by simp⟩
  | cons item items ih =>
    obtain ⟨hitem, hitems⟩ := List.forall_mem_cons.1 h
    simp only [writeItems_cons, spellItems, List.append_assoc]
    exact (Cuts.separator layout depth _).cons
      ((hitem _ (ends_writeItems layout depth items hrest)).trans (ih hitems))

theorem cuts_writeFields (layout : Layout) (depth : Nat) {fields : List (Text × Json)}
    (hwhole : ∀ field ∈ fields, ∃ name, field.1 = .whole name)
    (h : ∀ field ∈ fields, ∀ rest, Ends rest →
      Cuts (writeValue layout depth field.2 ++ rest) (spell field.2) rest)
    {rest : List Char} (hrest : Ends rest) :
    Cuts (writeFields layout depth fields ++ rest) (spellFields fields) rest := by
  induction fields with
  | nil => exact ⟨[], rfl, rfl, by simp⟩
  | cons field fields ih =>
    obtain ⟨name, value⟩ := field
    obtain ⟨⟨name, rfl⟩, hothers⟩ := List.forall_mem_cons.1 hwhole
    obtain ⟨hvalue, hfields⟩ := List.forall_mem_cons.1 h
    simp only [writeFields_cons, spellFields, List.append_assoc, List.cons_append]
    exact (Cuts.separator layout depth _).cons <| (Cuts.writeText name _).cons <|
      (Cuts.mark rfl _).cons <| (Cuts.of_blank rfl _).skip <|
        (hvalue _ (ends_writeFields layout depth fields hrest)).trans (ih hothers hfields)

/-- A written value is cut into the tokens that spell it. -/
theorem cuts_writeValue (layout : Layout) {value : Json} (h : value.Plain) :
    ∀ (depth : Nat) (rest : List Char), Ends rest →
      Cuts (writeValue layout depth value ++ rest) (spell value) rest := by
  -- the depth and what follows change on the way inside, so both stay general
  induction h with
  | null =>
    intro depth rest _
    simp only [writeValue_null, spell]
    exact Cuts.of_constant (.head _) rest
  | bool value =>
    intro depth rest _
    cases value with
    | false =>
      simp only [writeValue_false, spell]
      exact Cuts.of_constant (.tail _ (.tail _ (.head _))) rest
    | true =>
      simp only [writeValue_true, spell]
      exact Cuts.of_constant (.tail _ (.head _)) rest
  | int value =>
    intro depth rest hrest
    simp only [writeValue_int, spell]
    exact Cuts.integer value hrest
  | str value =>
    intro depth rest _
    simp only [writeValue_str, spell]
    exact Cuts.writeText value rest
  | @arr items _ ih =>
    intro depth rest _
    cases items with
    | nil =>
      simp only [writeValue_arr_nil, spell]
      exact (Cuts.mark rfl _).cons (Cuts.mark rfl rest)
    | cons item items =>
      -- the line break or the bracket ends a number that may stand last
      have hclose := ends_lineBreak layout depth (show Ends (']' :: rest) from .inr rfl)
      obtain ⟨hitem, hitems⟩ := List.forall_mem_cons.1 ih
      simp only [writeValue_arr_cons, spell, List.append_assoc, List.cons_append, List.nil_append]
      exact (Cuts.mark rfl _).cons <| (Cuts.lineBreak layout (depth + 1) _).skip <|
        (hitem _ _ (ends_writeItems layout (depth + 1) items hclose)).trans <|
          (cuts_writeItems layout (depth + 1) (fun item hmem => hitems item hmem _) hclose).trans <|
            (Cuts.lineBreak layout depth _).skip (Cuts.mark rfl rest)
  | @obj fields _ hwhole _ ih =>
    intro depth rest _
    cases fields with
    | nil =>
      simp only [writeValue_obj_nil, spell]
      exact (Cuts.mark rfl _).cons (Cuts.mark rfl rest)
    | cons field fields =>
      have hclose := ends_lineBreak layout depth (show Ends ('\x7d' :: rest) from .inr rfl)
      obtain ⟨name, value⟩ := field
      obtain ⟨⟨name, rfl⟩, hothers⟩ := List.forall_mem_cons.1 hwhole
      obtain ⟨hvalue, hfields⟩ := List.forall_mem_cons.1 ih
      simp only [writeValue_obj_cons, spell, List.append_assoc, List.cons_append, List.nil_append]
      exact (Cuts.mark rfl _).cons <| (Cuts.lineBreak layout (depth + 1) _).skip <|
        (Cuts.writeText name _).cons <| (Cuts.mark rfl _).cons <| (Cuts.of_blank rfl _).skip <|
          (hvalue _ _ (ends_writeFields layout (depth + 1) fields hclose)).trans <|
            (cuts_writeFields layout (depth + 1) hothers (fun field hmem => hfields field hmem _)
              hclose).trans <|
              (Cuts.lineBreak layout depth _).skip (Cuts.mark rfl rest)

/-! ### Taking tokens -/

theorem Stage.run_cons_of_step {stage next : Stage} {token : Token}
    (h : stage.step token = .ok next) (more : List Token) :
    stage.run (token :: more) = next.run more := by
  simp only [Stage.run, h]

/-- Tokens of these kinds lead from one stage to the other, whatever comes behind them. -/
def Reads (stage : Stage) (kinds : List TokenKind) (next : Stage) : Prop :=
  ∀ cut more : List Token, cut.map Token.kind = kinds → stage.run (cut ++ more) = next.run more

namespace Reads

theorem trans {stage middle next : Stage} {kinds kinds' : List TokenKind}
    (h : Reads stage kinds middle) (h' : Reads middle kinds' next) :
    Reads stage (kinds ++ kinds') next := by
  intro cut more hcut
  obtain ⟨cut₁, cut₂, rfl, hcut₁, hcut₂⟩ := List.map_eq_append_iff.1 hcut
  rw [List.append_assoc, h cut₁ _ hcut₁, h' cut₂ _ hcut₂]

theorem single {stage next : Stage} {kind : TokenKind}
    (h : ∀ place, stage.step ⟨kind, place⟩ = .ok next) : Reads stage [kind] next := by
  intro cut more hcut
  obtain ⟨token, rfl, rfl⟩ := List.map_eq_singleton_iff.1 hcut
  exact Stage.run_cons_of_step (h token.place) more

/-- One token, and what follows it. -/
theorem cons {stage middle next : Stage} {kind : TokenKind} {kinds : List TokenKind}
    (h : ∀ place, stage.step ⟨kind, place⟩ = .ok middle) (h' : Reads middle kinds next) :
    Reads stage (kind :: kinds) next :=
  (single h).trans h'

end Reads

/-- The first token that spells a value ends no list. -/
theorem exists_spell_eq_cons (value : Json) :
    ∃ kind kinds, spell value = kind :: kinds ∧ kind ≠ .mark ']' := by
  unfold spell
  split <;> exact ⟨_, _, rfl, by simp [textKind]⟩

/-- What may stand where a value may stand, may also stand as the first item of a list. -/
theorem Reads.firstItem {stack : List Frame} {kind : TokenKind} {kinds : List TokenKind}
    {next : Stage} (hkind : kind ≠ .mark ']')
    (h : Reads (.value (.list [] :: stack)) (kind :: kinds) next) :
    Reads (.firstItem stack) (kind :: kinds) next := by
  intro cut more hcut
  rw [← h cut more hcut]
  obtain ⟨token, cut, rfl, rfl, -⟩ := List.map_eq_cons_iff.1 hcut
  have hstep : (Stage.firstItem stack).step token =
      (Stage.value (.list [] :: stack)).step token := by
    simp [Stage.step]
  simp only [List.cons_append, Stage.run, hstep]

/-- The items after the first, and the end of their list. -/
theorem reads_spellItems {items : List Json}
    (h : ∀ item ∈ items, ∀ stack, Reads (.value stack) (spell item) (.after item stack))
    (value : Json) (before : List Json) (stack : List Frame) :
    Reads (.after value (.list before :: stack)) (spellItems items ++ [.mark ']'])
      (.after (arr (before.reverse ++ value :: items)) stack) := by
  induction items generalizing value before with
  | nil =>
    refine Reads.single ?_
    intro place
    simp [Stage.step]
  | cons item items ih =>
    obtain ⟨hitem, hitems⟩ := List.forall_mem_cons.1 h
    -- the items read so far stand in the frame, last first
    have hrest := ih hitems item (value :: before)
    rw [List.reverse_cons, List.append_assoc] at hrest
    rw [spellItems, List.cons_append, List.append_assoc]
    exact Reads.cons (fun _ => rfl) ((hitem _).trans hrest)

theorem Stage.step_name (fields : List (Text × Json)) (name : Text) (stack : List Frame)
    (place : List Char) :
    (Stage.nextName fields stack).step ⟨textKind name, place⟩ = .ok (.colon fields name stack) := by
  simp [Stage.step, Stage.takeName, textKind, Text.ofPieces_pieces]

/-- The fields after the first, and the end of their object. -/
theorem reads_spellFields {fields : List (Text × Json)}
    (h : ∀ field ∈ fields, ∀ stack, Reads (.value stack) (spell field.2) (.after field.2 stack))
    (name : Text) (value : Json) (before : List (Text × Json)) (stack : List Frame) :
    Reads (.after value (.object before name :: stack)) (spellFields fields ++ [.mark '\x7d'])
      (.after (ofFields (before.reverse ++ (name, value) :: fields)) stack) := by
  induction fields generalizing name value before with
  | nil =>
    refine Reads.single ?_
    intro place
    simp [Stage.step]
  | cons field fields ih =>
    obtain ⟨name', value'⟩ := field
    obtain ⟨hvalue, hfields⟩ := List.forall_mem_cons.1 h
    have hrest := ih hfields name' value' ((name, value) :: before)
    rw [List.reverse_cons, List.append_assoc] at hrest
    simp only [spellFields, List.cons_append, List.append_assoc]
    exact Reads.cons (fun _ => rfl) <| Reads.cons (Stage.step_name _ name' stack) <|
      Reads.cons (fun _ => rfl) ((hvalue _).trans hrest)

/-- The tokens that spell a value are read as this value. -/
theorem reads_spell {value : Json} (h : value.Plain) :
    ∀ stack, Reads (.value stack) (spell value) (.after value stack) := by
  induction h with
  | null => exact fun stack => Reads.single fun _ => by simp [Stage.step, Stage.takeValue]
  | bool value => exact fun stack => Reads.single fun _ => by simp [Stage.step, Stage.takeValue]
  | int value => exact fun stack => Reads.single fun _ => by simp [Stage.step, Stage.takeValue]
  | str value =>
    intro stack
    refine Reads.single ?_
    intro place
    simp [Stage.step, Stage.takeValue, textKind, Text.ofPieces_pieces]
  | @arr items _ ih =>
    intro stack
    cases items with
    | nil => exact Reads.cons (fun _ => rfl) (Reads.single fun _ => rfl)
    | cons item items =>
      obtain ⟨hitem, hitems⟩ := List.forall_mem_cons.1 ih
      obtain ⟨kind, kinds, hspell, hkind⟩ := exists_spell_eq_cons item
      -- the first item stands where the list might also have ended
      have hfirst : Reads (.firstItem stack) (spell item) (.after item (.list [] :: stack)) := by
        have hvalue := hitem (.list [] :: stack)
        rw [hspell] at hvalue ⊢
        exact hvalue.firstItem hkind
      rw [spell]
      exact Reads.cons (fun _ => rfl) (hfirst.trans (reads_spellItems hitems item [] stack))
  | @obj fields hnames _ _ ih =>
    intro stack
    -- no name is there twice, so that building the object replaces nothing
    have hfields : ofFields fields = obj fields := congrArg obj (Table.entries_ofList hnames)
    cases fields with
    | nil => exact Reads.cons (fun _ => rfl) (Reads.single fun _ => rfl)
    | cons field fields =>
      obtain ⟨name, value⟩ := field
      obtain ⟨hvalue, hvalues⟩ := List.forall_mem_cons.1 ih
      have hrest := reads_spellFields hvalues name value [] stack
      rw [List.reverse_nil, List.nil_append, hfields] at hrest
      rw [spell]
      exact Reads.cons (fun _ => rfl) <| Reads.cons (Stage.step_name [] name stack) <|
        Reads.cons (fun _ => rfl) ((hvalue _).trans hrest)

/-! ### Characters -/

/-- A character that is written: a line end or one that ASCII prints. -/
def Printed (c : Char) : Prop := c = '\n' ∨ 0x20 ≤ c.toNat ∧ c.toNat < 0x7f

instance (c : Char) : Decidable (Printed c) := inferInstanceAs (Decidable (_ ∨ _))

theorem Printed.toNat_lt {c : Char} (h : Printed c) : c.toNat < 0x80 := by
  rcases h with rfl | ⟨-, hlt⟩
  · decide
  · omega

theorem printed_of_isDigit {c : Char} (h : isDigit c = true) : Printed c := by
  simp only [isDigit, Bool.and_eq_true, decide_eq_true_eq, Char.le_def, UInt32.le_iff_toNat_le] at h
  refine .inr ?_
  show 0x20 ≤ c.val.toNat ∧ c.val.toNat < 0x7f
  have hlow : 48 ≤ c.val.toNat := h.1
  have hhigh : c.val.toNat ≤ 57 := h.2
  omega

theorem printed_digitChar {n : Nat} (h : n < 16) : Printed (Nat.digitChar n) := by
  revert n
  decide

theorem printed_unitEscape {n : Nat} (h : n < 0x10000) : ∀ c ∈ unitEscape n, Printed c := by
  rw [unitEscape, Text.hexText_four h]
  simp only [List.forall_mem_cons, List.not_mem_nil, false_implies, implies_true, and_true]
  refine ⟨by decide, by decide, ?_, ?_, ?_, ?_⟩ <;> exact printed_digitChar (by omega)

theorem printed_writeChar (c : Char) : ∀ d ∈ writeChar c, Printed d := by
  have hvalid := Text.toNat_valid c
  unfold writeChar
  split_ifs with hspecial _ _ _ _ _ hplain hplane
  · rcases hspecial with rfl | rfl <;> exact List.all_iff_forall_prop.1 rfl
  iterate 5 exact List.all_iff_forall_prop.1 rfl
  · simpa using .inr hplain
  · exact printed_unitEscape hplane
  · refine List.forall_mem_append.2 ⟨printed_unitEscape ?_, printed_unitEscape ?_⟩ <;> omega

theorem printed_writeText (s : String) : ∀ c ∈ writeText (.whole s), Printed c := by
  have hquote : Printed Text.doubleQuote := by decide
  have hbody : ∀ c ∈ s.toList.flatMap writeChar, Printed c := by
    intro c hc
    obtain ⟨d, -, hd⟩ := List.mem_flatMap.1 hc
    exact printed_writeChar d c hd
  rw [writeText, List.cons_append, List.forall_mem_cons, List.forall_mem_append]
  exact ⟨hquote, hbody, by simpa using hquote⟩

theorem printed_toString (n : Int) : ∀ c ∈ (toString n).toList, Printed c := by
  have hdigits : ∀ c ∈ digitsOf n, Printed c := fun c hc =>
    printed_of_isDigit (isDigit_of_mem_digitsOf hc)
  rw [toList_toString]
  split
  · exact List.forall_mem_cons.2 ⟨by decide, hdigits⟩
  · exact hdigits

theorem printed_lineBreak (layout : Layout) (depth : Nat) :
    ∀ c ∈ layout.lineBreak depth, Printed c := by
  cases layout with
  | oneLine => simp [Layout.lineBreak]
  | indented blanks =>
    refine List.forall_mem_cons.2 ⟨.inl rfl, ?_⟩
    intro c hc
    rw [List.eq_of_mem_replicate hc]
    decide

theorem printed_separator (layout : Layout) (depth : Nat) :
    ∀ c ∈ layout.separator depth, Printed c := by
  cases layout with
  | oneLine =>
    show ∀ c ∈ [',', ' '], Printed c
    exact List.all_iff_forall_prop.1 rfl
  | indented blanks =>
    exact List.forall_mem_cons.2 ⟨by decide, printed_lineBreak (.indented blanks) depth⟩

theorem printed_writeItems (layout : Layout) (depth : Nat) {items : List Json}
    (h : ∀ item ∈ items, ∀ c ∈ writeValue layout depth item, Printed c) :
    ∀ c ∈ writeItems layout depth items, Printed c := by
  induction items with
  | nil => simp [writeItems, restChunks]
  | cons item items ih =>
    obtain ⟨hitem, hitems⟩ := List.forall_mem_cons.1 h
    simp only [writeItems_cons, List.forall_mem_append]
    exact ⟨printed_separator layout depth, hitem, ih hitems⟩

theorem printed_writeFields (layout : Layout) (depth : Nat) {fields : List (Text × Json)}
    (hwhole : ∀ field ∈ fields, ∃ name, field.1 = .whole name)
    (h : ∀ field ∈ fields, ∀ c ∈ writeValue layout depth field.2, Printed c) :
    ∀ c ∈ writeFields layout depth fields, Printed c := by
  induction fields with
  | nil => simp [writeFields, fieldChunks]
  | cons field fields ih =>
    obtain ⟨name, value⟩ := field
    obtain ⟨⟨name, rfl⟩, hothers⟩ := List.forall_mem_cons.1 hwhole
    obtain ⟨hvalue, hfields⟩ := List.forall_mem_cons.1 h
    simp only [writeFields_cons, List.forall_mem_append, List.forall_mem_cons]
    exact ⟨printed_separator layout depth, printed_writeText name, by decide, by decide, hvalue,
      ih hothers hfields⟩

/-- Whatever the texts of a value hold, it is written in ASCII. -/
theorem printed_writeValue (layout : Layout) {value : Json} (h : value.Plain) :
    ∀ depth, ∀ c ∈ writeValue layout depth value, Printed c := by
  induction h with
  | null =>
    intro depth
    rw [writeValue_null]
    exact List.all_iff_forall_prop.1 rfl
  | bool value =>
    intro depth
    cases value with
    | false =>
      rw [writeValue_false]
      exact List.all_iff_forall_prop.1 rfl
    | true =>
      rw [writeValue_true]
      exact List.all_iff_forall_prop.1 rfl
  | int value =>
    intro depth
    rw [writeValue_int]
    exact printed_toString value
  | str value =>
    intro depth
    rw [writeValue_str]
    exact printed_writeText value
  | @arr items _ ih =>
    intro depth
    cases items with
    | nil =>
      rw [writeValue_arr_nil]
      exact List.all_iff_forall_prop.1 rfl
    | cons item items =>
      obtain ⟨hitem, hitems⟩ := List.forall_mem_cons.1 ih
      have hrest := printed_writeItems layout (depth + 1) fun item hmem => hitems item hmem _
      simp only [writeValue_arr_cons, List.forall_mem_cons, List.forall_mem_append]
      exact ⟨by decide, printed_lineBreak layout _, hitem _, hrest, printed_lineBreak layout depth,
        by decide, by simp⟩
  | @obj fields _ hwhole _ ih =>
    intro depth
    cases fields with
    | nil =>
      rw [writeValue_obj_nil]
      exact List.all_iff_forall_prop.1 rfl
    | cons field fields =>
      obtain ⟨name, value⟩ := field
      obtain ⟨⟨name, rfl⟩, hothers⟩ := List.forall_mem_cons.1 hwhole
      obtain ⟨hvalue, hvalues⟩ := List.forall_mem_cons.1 ih
      have hrest := printed_writeFields layout (depth + 1) hothers
        fun field hmem => hvalues field hmem _
      simp only [writeValue_obj_cons, List.forall_mem_cons, List.forall_mem_append]
      exact ⟨by decide, printed_lineBreak layout _, printed_writeText name, by decide, by decide,
        hvalue _, hrest, printed_lineBreak layout depth, by decide, by simp⟩

/-! ### Digits -/

mutual

/-- The integers in a value. -/
def integers : Json → List Int
  | int value => [value]
  | arr items => integersOfItems items
  | obj fields => integersOfFields fields
  | _ => []

/-- The integers in some values. -/
def integersOfItems : List Json → List Int
  | [] => []
  | item :: rest => integers item ++ integersOfItems rest

/-- The integers in the values of some fields. -/
def integersOfFields : List (Text × Json) → List Int
  | [] => []
  | (_, value) :: rest => integers value ++ integersOfFields rest

end

mutual

/-- The integers in a value are those that it is spelled with. -/
theorem int_mem_spell (n : Int) (value : Json) :
    .scalar (.int n) ∈ spell value ↔ n ∈ value.integers := by
  match value with
  | null => simp [spell, integers]
  | bool _ => simp [spell, integers]
  | int _ => simp [spell, integers]
  | float _ => simp [spell, integers]
  | str _ => simp [spell, integers, textKind]
  | arr [] => simp [spell, integers, integersOfItems]
  | arr (item :: rest) =>
    simp [spell, integers, integersOfItems, int_mem_spell n item, int_mem_spellItems n rest]
  | obj [] => simp [spell, integers, integersOfFields]
  | obj ((_, value) :: rest) =>
    simp [spell, integers, integersOfFields, textKind, int_mem_spell n value,
      int_mem_spellFields n rest]

theorem int_mem_spellItems (n : Int) (items : List Json) :
    .scalar (.int n) ∈ spellItems items ↔ n ∈ integersOfItems items := by
  match items with
  | [] => simp [spellItems, integersOfItems]
  | item :: rest =>
    simp [spellItems, integersOfItems, int_mem_spell n item, int_mem_spellItems n rest]

theorem int_mem_spellFields (n : Int) (fields : List (Text × Json)) :
    .scalar (.int n) ∈ spellFields fields ↔ n ∈ integersOfFields fields := by
  match fields with
  | [] => simp [spellFields, integersOfFields]
  | (_, value) :: rest =>
    simp [spellFields, integersOfFields, textKind, int_mem_spell n value,
      int_mem_spellFields n rest]

end

theorem Token.withDigits_eq_self {most : Nat} {token : Token} (hfits : token.Fits)
    (h : ∀ n, token.kind = .scalar (int n) → (digitsOf n).length ≤ most) :
    token.withDigits most = token := by
  unfold withDigits
  split
  · next n hkind => exact if_pos (hfits n hkind ▸ h n hkind)
  · rfl

/-! ### Printing -/

/-- Printing ends early exactly at an integer of too many digits. -/
theorem fault?_putOut_eq_none_iff {most : Nat} {chunks : List Chunk} :
    (putOut most chunks).fault? = none ↔ ∀ chunk ∈ chunks, chunk.isWithin most = true := by
  induction chunks with
  | nil => simp [putOut]
  | cons chunk rest ih =>
    rw [List.forall_mem_cons, ← ih, putOut]
    split <;> simp_all

theorem text_putOut {most : Nat} {chunks : List Chunk} (h : (putOut most chunks).fault? = none) :
    (putOut most chunks).text = chunks.flatMap Chunk.chars := by
  induction chunks with
  | nil => rfl
  | cons chunk rest ih =>
    rw [fault?_putOut_eq_none_iff, List.forall_mem_cons, ← fault?_putOut_eq_none_iff] at h
    rw [putOut, if_pos h.1, List.flatMap_cons, ← ih h.2]

theorem forall_itemChunks {most : Nat} (front : List Char) (layout : Layout) (depth : Nat)
    (item : Json) :
    (∀ chunk ∈ itemChunks front (valueChunks layout depth item) item,
        chunk.isWithin most = true) ↔
      ∀ chunk ∈ valueChunks layout depth item, chunk.isWithin most = true := by
  cases item <;> simp [itemChunks, valueChunks, Chunk.isWithin]

mutual

/-- All chunks of a value can be put out if its integers keep to the limit, and only then. -/
theorem forall_valueChunks {most : Nat} (layout : Layout) (depth : Nat) (value : Json) :
    (∀ chunk ∈ valueChunks layout depth value, chunk.isWithin most = true) ↔
      ∀ n ∈ value.integers, (digitsOf n).length ≤ most := by
  match value with
  | null => simp [valueChunks, integers, Chunk.isWithin]
  | bool true => simp [valueChunks, integers, Chunk.isWithin]
  | bool false => simp [valueChunks, integers, Chunk.isWithin]
  | int _ => simp [valueChunks, integers, Chunk.isWithin]
  | float _ => simp [valueChunks, integers, Chunk.isWithin]
  | str _ => simp [valueChunks, integers, Chunk.isWithin]
  | arr [] => simp [valueChunks, integers, integersOfItems, Chunk.isWithin]
  | arr (item :: rest) =>
    -- an item that is an integer is put out together with the bracket
    rw [valueChunks, integers, integersOfItems, List.forall_mem_append, List.forall_mem_append,
      List.forall_mem_append, forall_itemChunks, forall_valueChunks layout (depth + 1) item,
      forall_restChunks layout (depth + 1) rest]
    simp [Chunk.isWithin]
  | obj [] => simp [valueChunks, integers, integersOfFields, Chunk.isWithin]
  | obj ((_, value) :: rest) =>
    rw [valueChunks, integers, integersOfFields, List.forall_mem_append, List.forall_mem_append,
      List.forall_mem_append, List.forall_mem_cons, forall_valueChunks layout (depth + 1) value,
      forall_fieldChunks layout (depth + 1) rest]
    simp [Chunk.isWithin]

theorem forall_restChunks {most : Nat} (layout : Layout) (depth : Nat) (items : List Json) :
    (∀ chunk ∈ restChunks layout depth items, chunk.isWithin most = true) ↔
      ∀ n ∈ integersOfItems items, (digitsOf n).length ≤ most := by
  match items with
  | [] => simp [restChunks, integersOfItems]
  | item :: rest =>
    rw [restChunks, integersOfItems, List.forall_mem_append, List.forall_mem_append,
      forall_itemChunks, forall_valueChunks layout depth item, forall_restChunks layout depth rest]

theorem forall_fieldChunks {most : Nat} (layout : Layout) (depth : Nat)
    (fields : List (Text × Json)) :
    (∀ chunk ∈ fieldChunks layout depth fields, chunk.isWithin most = true) ↔
      ∀ n ∈ integersOfFields fields, (digitsOf n).length ≤ most := by
  match fields with
  | [] => simp [fieldChunks, integersOfFields]
  | (_, value) :: rest =>
    rw [fieldChunks, integersOfFields, List.forall_mem_append, List.forall_mem_append,
      List.forall_mem_cons, forall_valueChunks layout depth value,
      forall_fieldChunks layout depth rest]
    simp [Chunk.isWithin]

end

/-- A value is printed to its end if its indent is a size and its integers keep to the limit, and
only then. -/
theorem fault?_print_eq_none_iff (layout : Layout) (value : Json) :
    (print layout value).fault? = none ↔
      layout.isSized = true ∧ ∀ n ∈ value.integers, (digitsOf n).length ≤ mostDigits := by
  rw [print, ← forall_valueChunks layout 0 value, ← fault?_putOut_eq_none_iff]
  cases layout.isSized <;> simp

theorem text_print {layout : Layout} {value : Json} (h : (print layout value).fault? = none) :
    (print layout value).text = writeValue layout 0 value := by
  obtain ⟨hsized, hdigits⟩ := (fault?_print_eq_none_iff layout value).1 h
  rw [← forall_valueChunks layout 0 value, ← fault?_putOut_eq_none_iff] at hdigits
  rw [print, if_pos hsized, text_putOut hdigits, writeValue]

/-! ### Whole texts -/

/-- An object stands between its braces. -/
theorem exists_writeValue_obj (layout : Layout) (depth : Nat) (fields : List (Text × Json)) :
    ∃ inside, writeValue layout depth (obj fields) = '\x7b' :: inside ++ ['\x7d'] := by
  cases fields with
  | nil => exact ⟨[], writeValue_obj_nil layout depth⟩
  | cons field fields =>
    obtain ⟨name, value⟩ := field
    simp only [writeValue_obj_cons, ← List.append_assoc, ← List.cons_append]
    exact ⟨_, rfl⟩

theorem readTokens_eq_ok_iff {text : List Char} (h : text.head? ≠ some '\ufeff')
    {tokens : List Token} {value : Json} :
    readTokens text tokens = .ok value ↔ (Stage.value []).run tokens = .ok value := by
  unfold readTokens
  split
  · simp at h
  · cases (Stage.value []).run tokens <;> simp

/-- A written value, and nothing but blanks behind it. -/
theorem exists_tokens_writeValue (layout : Layout) (depth : Nat) {value : Json} (h : value.Plain)
    {rest : List Char} (hrest : rest = [] ∨ rest = ['\n']) :
    ∃ cut, tokens (writeValue layout depth value ++ rest) = cut ∧
      cut.map Token.kind = spell value ∧ ∀ token ∈ cut, token.Fits := by
  have hends : Ends rest ∧ tokens rest = [] := by
    rcases hrest with rfl | rfl
    · exact ⟨trivial, rfl⟩
    · exact ⟨.inl rfl, rfl⟩
  obtain ⟨cut, htokens, hkinds, hfits⟩ := cuts_writeValue layout h depth rest hends.1
  rw [hends.2, List.append_nil] at htokens
  exact ⟨cut, htokens, hkinds, hfits⟩

theorem run_spell {value : Json} (h : value.Plain) {cut : List Token}
    (hcut : cut.map Token.kind = spell value) :
    (Stage.value []).run cut = .ok value := by
  have hrun := reads_spell h [] cut [] hcut
  rw [List.append_nil] at hrun
  rw [hrun]
  rfl

section WholeText

variable (layout : Layout) {value : Json} (h : value.Plain) {rest : List Char}
  (hrest : rest = [] ∨ rest = ['\n'])

include h hrest

theorem head?_writeValue_ne : (writeValue layout 0 value ++ rest).head? ≠ some '\ufeff' := by
  have hprinted : ∀ c ∈ writeValue layout 0 value ++ rest, Printed c := by
    refine List.forall_mem_append.2 ⟨printed_writeValue layout h 0, ?_⟩
    rcases hrest with rfl | rfl <;> simp [Printed]
  intro hhead
  exact absurd (hprinted _ (List.mem_of_head? hhead)) (by decide)

/-- What is written is read again. -/
theorem read_writeValue : read (writeValue layout 0 value ++ rest) = .ok value := by
  obtain ⟨cut, htokens, hkinds, -⟩ := exists_tokens_writeValue layout 0 h hrest
  rw [read, readTokens_eq_ok_iff (head?_writeValue_ne layout h hrest), htokens]
  exact run_spell h hkinds

/-- What is written with integers that keep to a limit is read again under this limit. -/
theorem readWithin_writeValue {most : Nat}
    (hdigits : ∀ n ∈ value.integers, (digitsOf n).length ≤ most) :
    readWithin most (writeValue layout 0 value ++ rest) = .ok value := by
  obtain ⟨cut, htokens, hkinds, hfits⟩ := exists_tokens_writeValue layout 0 h hrest
  -- no integer is longer than may be, so the limit changes no token
  have hsame : ∀ token ∈ cut, token.withDigits most = token := by
    intro token htoken
    refine Token.withDigits_eq_self (hfits token htoken) ?_
    intro n hkind
    refine hdigits n ((int_mem_spell n value).1 ?_)
    rw [← hkinds, ← hkind]
    exact List.mem_map_of_mem htoken
  rw [readWithin, readTokens_eq_ok_iff (head?_writeValue_ne layout h hrest), htokens,
    List.map_congr_left hsame, List.map_id']
  exact run_spell h hkinds

end WholeText

end ObjectAudit.Json
