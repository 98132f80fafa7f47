/-
ObjectAudit/Proofs/JsonTokens.lean

What the tokens of a written value are.  Cutting a text into tokens goes on behind each token,
so a limit on the characters is never felt (`tokensWithin_eq`), and the tokens of a text are
told by its first token and what stands behind it (`tokens_of_firstToken`).

The leaves of a value follow, each in front of any text that lets them end: a text is cut at
its closing quote and spells its characters, whatever escapes they were written with
(`scanText_flatMap_writeChar`), and an integer ends at its last digit, with its value
(`scanScalar?_toString`).
-/
import Mathlib.Data.Bool.AllAny
import Mathlib.Tactic.SplitIfs
import ObjectAudit.Json.Reader
import ObjectAudit.Json.Writer

namespace ObjectAudit

/-! ### Code units -/

namespace Text

/-- One more digit in front of the last one. -/
theorem hexText_succ {width : Nat} (hwidth : 0 < width) (n : Nat) :
    hexText (width + 1) n = hexText width (n / 16) ++ [Nat.digitChar (n % 16)] := by
  unfold hexText
  rw [Nat.toDigits_eq_if (n := n) (by decide)]
  split
  · next hlt =>
    have hzero : n / 16 = 0 := Nat.div_eq_of_lt hlt
    obtain ⟨width, rfl⟩ : ∃ k, width = k + 1 := ⟨width - 1, by omega⟩
    simp [hzero, Nat.mod_eq_of_lt hlt, Nat.toDigits_zero, List.replicate_succ']
  · simp

/-- A code unit in hexadecimal has four digits. -/
theorem hexText_four {n : Nat} (h : n < 0x10000) :
    hexText 4 n = [Nat.digitChar (n / 4096), Nat.digitChar (n / 256 % 16),
      Nat.digitChar (n / 16 % 16), Nat.digitChar (n % 16)] := by
  have hone : hexText 1 (n / 16 / 16 / 16) = [Nat.digitChar (n / 4096)] := by
    have hdiv : n / 16 / 16 / 16 = n / 4096 := by omega
    have hlt : n / 4096 < 16 := by omega
    rw [hexText, hdiv, Nat.toDigits_of_lt_base hlt]
    rfl
  rw [hexText_succ (by decide), hexText_succ (by decide), hexText_succ (by decide), hone]
  have hdiv : n / 16 / 16 = n / 256 := by omega
  simp [hdiv]

/-- The code points of characters lie outside the surrogates. -/
theorem toNat_valid (c : Char) : c.toNat < 0xd800 ∨ 0xdfff < c.toNat ∧ c.toNat < 0x110000 :=
  c.valid

namespace Piece

/-- The code units of a character. -/
def codeUnits (c : Char) : List Nat :=
  if c.toNat < 0x10000 then [c.toNat]
  else [0xd800 + (c.toNat - 0x10000) / 0x400, 0xdc00 + (c.toNat - 0x10000) % 0x400]

theorem ofUnits_cons_of_toNat {c : Char} (units : List Nat) :
    ofUnits (c.toNat :: units) = char c :: ofUnits units := by
  have hvalid := toNat_valid c
  -- no character has the code of half a character
  have hhigh : isHigh c.toNat = false := by
    simp [isHigh]
    omega
  have hlow : isLow c.toNat = false := by
    simp [isLow]
    omega
  have hunit : ofUnit c.toNat = char c := by
    simp [ofUnit, hhigh, hlow]
  cases units with
  | nil => simp [ofUnits, hunit]
  | cons unit rest => simp [ofUnits, hunit, hhigh]

/-- The code units of characters spell these characters. -/
theorem ofUnits_flatMap_codeUnits (cs : List Char) :
    ofUnits (cs.flatMap codeUnits) = cs.map char := by
  induction cs with
  | nil => rfl
  | cons c rest ih =>
    rw [List.flatMap_cons, codeUnits]
    split
    · rw [List.singleton_append, ofUnits_cons_of_toNat, ih]
      rfl
    · next hge =>
      have hvalid := toNat_valid c
      -- quotient and rest by 0x400 fall in the two ranges of halves, and join to the character
      have hhigh : isHigh (0xd800 + (c.toNat - 0x10000) / 0x400) = true := by
        simp [isHigh]
        omega
      have hlow : isLow (0xdc00 + (c.toNat - 0x10000) % 0x400) = true := by
        simp [isLow]
        omega
      have hjoin : join (0xd800 + (c.toNat - 0x10000) / 0x400)
          (0xdc00 + (c.toNat - 0x10000) % 0x400) = c := by
        have hsum : 0x10000 + (0xd800 + (c.toNat - 0x10000) / 0x400 - 0xd800) * 0x400 +
            (0xdc00 + (c.toNat - 0x10000) % 0x400 - 0xdc00) = c.toNat := by omega
        rw [join, hsum, Char.ofNat_toNat]
      simp [ofUnits, hhigh, hlow, hjoin, ih]

end Piece

/-- A text is the text of its pieces. -/
theorem ofPieces_pieces (text : Text) : ofPieces text.pieces = text := by
  cases text with
  | whole value =>
    have hchars : (value.toList.map Piece.char).map Piece.standIn = value.toList := by
      simp [Piece.standIn, Piece.char?, Function.comp_def]
    rw [ofPieces, pieces, dif_neg (by simp [Piece.char?]), hchars, String.ofList_toList]
  | torn pieces h => exact dif_pos h

end Text

namespace Json

/-! ### What is left behind a token -/

/-- A code unit in front of a text leaves what the text leaves. -/
theorem exists_of_map_cons {start cs : List Char} {unit : Nat} {units : List Nat}
    {rest : List Char}
    (h : (scanText start cs).map (fun (units, rest) => (unit :: units, rest)) = .ok (units, rest)) :
    ∃ units', scanText start cs = .ok (units', rest) := by
  cases hscan : scanText start cs with
  | error fault =>
    rw [hscan] at h
    cases h
  | ok parts =>
    rw [hscan] at h
    cases h
    exact ⟨_, rfl⟩

theorem length_of_scanText {start cs : List Char} {units : List Nat} {rest : List Char}
    (h : scanText start cs = .ok (units, rest)) : rest.length < cs.length := by
  fun_induction scanText start cs generalizing units rest with
  -- reading goes on behind escapes and plain characters, and ends well only at the quote
  | case2 behind =>
    cases h
    simp
  | case4 a b c d behind unit _ _ ih =>
    obtain ⟨_, hscan⟩ := exists_of_map_cons h
    have := ih hscan
    simp only [List.length_cons]
    omega
  | case7 c behind _ _ e _ ih =>
    obtain ⟨_, hscan⟩ := exists_of_map_cons h
    have := ih hscan
    simp only [List.length_cons]
    omega
  | case10 c behind _ _ _ _ _ _ ih =>
    obtain ⟨_, hscan⟩ := exists_of_map_cons h
    have := ih hscan
    simp only [List.length_cons]
    omega
  | _ => cases h

theorem length_of_spanDigits {cs digits rest : List Char} (h : spanDigits cs = (digits, rest)) :
    rest.length ≤ cs.length := by
  have hlength : (spanDigits cs).2.length ≤ cs.length :=
    (List.dropWhile_suffix isDigit).length_le
  rwa [h] at hlength

theorem length_of_spanWhole? {cs whole rest : List Char} (h : spanWhole? cs = some (whole, rest)) :
    rest.length < cs.length := by
  unfold spanWhole? at h
  split at h
  · cases h
    simp
  · next c behind _ =>
    split at h
    · next hdigit =>
      cases h
      rw [List.dropWhile_cons, if_pos hdigit, List.length_cons]
      exact Nat.lt_succ_of_le (List.dropWhile_suffix isDigit).length_le
    · cases h
  · cases h

theorem length_spanFraction_le (cs : List Char) : (spanFraction cs).2.length ≤ cs.length := by
  unfold spanFraction
  split
  · next behind =>
    split
    · exact Nat.le_refl _
    · next hspan => exact Nat.le_succ_of_le (length_of_spanDigits rfl)
  · exact Nat.le_refl _

theorem length_spanExponent_le (cs : List Char) : (spanExponent cs).2.length ≤ cs.length := by
  unfold spanExponent
  split
  · split
    · split
      -- with a sign or without, digits have to follow
      all_goals
        dsimp only
        split
        · exact Nat.le_refl _
        · next hspan =>
          have := length_of_spanDigits hspan
          simp only [List.length_cons]
          omega
    · exact Nat.le_refl _
  · exact Nat.le_refl _

theorem length_of_scanMagnitude? {negative : Bool} {cs rest : List Char} {value : Json}
    (h : scanMagnitude? negative cs = some (value, rest)) : rest.length < cs.length := by
  unfold scanMagnitude? at h
  cases hwhole : spanWhole? cs with
  | none =>
    rw [hwhole] at h
    cases h
  | some parts =>
    obtain ⟨whole, behind⟩ := parts
    rw [hwhole] at h
    -- the number ends behind its exponent, whether it is an integer or not
    have hrest : rest = (spanExponent (spanFraction behind).2).2 := by
      simp only [Option.bind_eq_bind, Option.bind_some] at h
      split at h <;> exact (Prod.mk.inj (Option.some.inj h)).2.symm
    have hlt := length_of_spanWhole? hwhole
    have hfraction := length_spanFraction_le behind
    have hexponent := length_spanExponent_le (spanFraction behind).2
    rw [hrest]
    omega

theorem length_of_scanScalar? {cs rest : List Char} {value : Json}
    (h : scanScalar? cs = some (value, rest)) : rest.length < cs.length := by
  unfold scanScalar? at h
  split at h
  · next name value hfind =>
    cases h
    have hprefix := List.find?_some hfind
    -- no constant is empty
    have hname : 0 < name.length := by
      have hmem := List.mem_of_find?_eq_some hfind
      simp only [constants, List.mem_cons, Prod.mk.injEq, List.not_mem_nil, or_false] at hmem
      rcases hmem with ⟨rfl, -⟩ | ⟨rfl, -⟩ | ⟨rfl, -⟩ | ⟨rfl, -⟩ | ⟨rfl, -⟩ | ⟨rfl, -⟩ <;> decide
    have hle : name.length ≤ cs.length := (List.isPrefixOf_iff_prefix.1 hprefix).length_le
    rw [List.length_drop]
    omega
  · split at h
    · exact Nat.lt_succ_of_lt (length_of_scanMagnitude? h)
    · exact length_of_scanMagnitude? h

/-- Cutting goes on at most where the first character ends. -/
theorem length_of_firstToken {c : Char} {cs next : List Char} {kind : TokenKind}
    (h : firstToken c cs = (kind, some next)) : next.length ≤ cs.length := by
  unfold firstToken at h
  split at h
  · cases h
    exact Nat.le_refl _
  · split at h
    · split at h
      · next hscan =>
        cases h
        exact Nat.le_of_lt (length_of_scanText hscan)
      · cases h
    · split at h
      · next hscan =>
        cases h
        exact Nat.le_of_lt_succ (length_of_scanScalar? hscan)
      · cases h

/-- A limit that is no smaller than the text does not show. -/
theorem tokensWithin_eq {cs : List Char} {limit limit' : Nat} (h : cs.length ≤ limit)
    (h' : cs.length ≤ limit') : tokensWithin limit cs = tokensWithin limit' cs := by
  induction limit generalizing cs limit' with
  | zero =>
    obtain rfl := List.length_eq_zero_iff.1 (Nat.le_zero.1 h)
    cases limit' <;> rfl
  | succ limit ih =>
    cases cs with
    | nil => cases limit' <;> rfl
    | cons c rest =>
      cases limit' with
      | zero => cases h'
      | succ limit' =>
        have hrest := Nat.le_of_succ_le_succ h
        have hrest' := Nat.le_of_succ_le_succ h'
        rw [tokensWithin, tokensWithin, ih hrest hrest']
        -- what is left behind the token is no longer than `rest`, so either limit does for it
        cases hfirst : firstToken c rest with
        | mk kind next =>
          cases next with
          | none => rfl
          | some next =>
            have hnext := length_of_firstToken hfirst
            simp only [ih (Nat.le_trans hnext hrest) (Nat.le_trans hnext hrest')]

theorem tokens_of_blank {c : Char} (h : isBlank c = true) (rest : List Char) :
    tokens (c :: rest) = tokens rest := by
  rw [tokens, List.length_cons, tokensWithin, if_pos h]
  rfl

theorem tokens_of_firstToken {c : Char} {rest next : List Char} {kind : TokenKind}
    (hblank : isBlank c = false) (h : firstToken c rest = (kind, some next)) :
    tokens (c :: rest) = ⟨kind, c :: rest⟩ :: tokens next := by
  rw [tokens, List.length_cons, tokensWithin, hblank, h]
  simp only [Bool.false_eq_true, if_false, tokens]
  rw [tokensWithin_eq (length_of_firstToken h) (Nat.le_refl _)]

/-! ### Texts -/

theorem hexValue?_digitChar {n : Nat} (h : n < 16) : hexValue? (Nat.digitChar n) = some n := by
  revert n
  decide

theorem scanText_unitEscape (start : List Char) {n : Nat} (h : n < 0x10000) {rest : List Char}
    (hrest : rest ≠ []) :
    scanText start (unitEscape n ++ rest) =
      (scanText start rest).map fun (units, rest) => (n :: units, rest) := by
  -- four digits to the base 16, the most significant first
  have hvalue : hexNumber? (Nat.digitChar (n / 4096)) (Nat.digitChar (n / 256 % 16))
      (Nat.digitChar (n / 16 % 16)) (Nat.digitChar (n % 16)) = some n := by
    have h1 := hexValue?_digitChar (n := n / 4096) (by omega)
    have h2 := hexValue?_digitChar (n := n / 256 % 16) (by omega)
    have h3 := hexValue?_digitChar (n := n / 16 % 16) (by omega)
    have h4 := hexValue?_digitChar (n := n % 16) (by omega)
    simp only [hexNumber?, h1, h2, h3, h4]
    show some _ = _
    congr 1
    omega
  have hempty : rest.isEmpty = false := by simpa using hrest
  rw [unitEscape, Text.hexText_four h]
  simp only [List.cons_append, List.nil_append, scanText, hempty, hvalue]

theorem scanText_shortEscape (start : List Char) {e c : Char} (h : shortEscape? e = some c)
    (rest : List Char) :
    scanText start ('\\' :: e :: rest) =
      (scanText start rest).map fun (units, rest) => (c.toNat :: units, rest) := by
  have hu : e ≠ 'u' := by
    rintro rfl
    cases h
  simp [scanText, h, hu]

theorem scanText_plain (start : List Char) {c : Char} (hquote : c ≠ '\x22') (hslash : c ≠ '\\')
    (h : 0x20 ≤ c.toNat) (rest : List Char) :
    scanText start (c :: rest) =
      (scanText start rest).map fun (units, rest) => (c.toNat :: units, rest) := by
  have hcontrol : ¬c.toNat < 0x20 := by omega
  simp [scanText, hslash, hcontrol]

theorem scanText_unitPair (start : List Char) {m n : Nat} (hm : m < 0x10000) (hn : n < 0x10000)
    {rest : List Char} (hrest : rest ≠ []) :
    scanText start (unitEscape m ++ unitEscape n ++ rest) =
      (scanText start rest).map fun (units, rest) => ([m, n] ++ units, rest) := by
  have hnext : unitEscape n ++ rest ≠ [] := by simp [hrest]
  rw [List.append_assoc, scanText_unitEscape start hm hnext, scanText_unitEscape start hn hrest]
  cases scanText start rest <;> rfl

/-- A character that is written inside a text is read as its code units. -/
theorem scanText_writeChar (start : List Char) (c : Char) {rest : List Char} (hrest : rest ≠ []) :
    scanText start (writeChar c ++ rest) =
      (scanText start rest).map fun (units, rest) => (Text.Piece.codeUnits c ++ units, rest) := by
  have hunits : c.toNat < 0x10000 → Text.Piece.codeUnits c = [c.toNat] := fun h => if_pos h
  -- the short escapes differ in their letter only
  have hshort : ∀ {e : Char}, shortEscape? e = some c → c.toNat < 0x10000 →
      scanText start ('\\' :: e :: rest) =
        (scanText start rest).map fun (units, rest) => (Text.Piece.codeUnits c ++ units, rest) := by
    intro e he hlt
    rw [hunits hlt]
    exact scanText_shortEscape start he rest
  unfold writeChar
  split_ifs with hspecial hline hreturn htab hfeed hback hplain hplane
  · rcases hspecial with rfl | rfl <;> exact hshort rfl (by decide)
  · subst hline
    exact hshort rfl (by decide)
  · subst hreturn
    exact hshort rfl (by decide)
  · subst htab
    exact hshort rfl (by decide)
  · subst hfeed
    exact hshort rfl (by decide)
  · subst hback
    exact hshort rfl (by decide)
  · rw [not_or] at hspecial
    rw [hunits (by omega)]
    exact scanText_plain start hspecial.1 hspecial.2 hplain.1 rest
  · rw [hunits hplane]
    exact scanText_unitEscape start hplane hrest
  · -- beyond the first plane: two escapes, one behind the other
    have hvalid := Text.toNat_valid c
    rw [Text.Piece.codeUnits, if_neg hplane]
    exact scanText_unitPair start (by omega) (by omega) hrest

/-- A text that is written between quotes is read up to the closing quote. -/
theorem scanText_flatMap_writeChar (start cs rest : List Char) :
    scanText start (cs.flatMap writeChar ++ '\x22' :: rest) =
      .ok (cs.flatMap Text.Piece.codeUnits, rest) := by
  induction cs with
  | nil => simp [scanText]
  | cons c cs ih =>
    rw [List.flatMap_cons, List.append_assoc, scanText_writeChar start c (by simp), ih]
    rfl

/-! ### Integers -/

theorem isDigit_of_mem_digitsOf {n : Int} {c : Char} (h : c ∈ digitsOf n) : isDigit c = true :=
  Nat.isDigit_of_mem_toDigits (by decide) (by decide) h

theorem exists_digitsOf_eq_cons (n : Int) :
    ∃ c digits, digitsOf n = c :: digits ∧ isDigit c = true := by
  obtain ⟨c, digits, hdigits⟩ : ∃ c digits, digitsOf n = c :: digits :=
    List.exists_cons_of_ne_nil Nat.toDigits_ne_nil
  exact ⟨c, digits, hdigits, isDigit_of_mem_digitsOf (hdigits ▸ List.mem_cons_self)⟩

theorem toList_toString (n : Int) :
    (toString n).toList = if n < 0 then '-' :: digitsOf n else digitsOf n := by
  cases n with
  | ofNat m => exact Nat.toList_repr
  | negSucc m =>
    show ("-" ++ Nat.repr (m + 1)).toList = _
    rw [String.toList_append, Nat.toList_repr, if_pos (Int.negSucc_lt_zero m)]
    rfl

/-- A text that lets an integer or a constant in front of it end: nothing, a blank or a
mark. -/
def Ends : List Char → Prop
  | [] => True
  | c :: _ => isBlank c = true ∨ isMark c = true

theorem Ends.not_continuing {c : Char} {rest : List Char} (h : Ends (c :: rest)) :
    isDigit c = false ∧ c ≠ '.' ∧ c ≠ 'e' ∧ c ≠ 'E' := by
  have hmem : c ∈ [' ', '\t', '\n', '\r', '[', ']', '\x7b', '\x7d', ',', ':'] := by
    simpa [Ends, isBlank, isMark, or_assoc] using h
  have hall : ∀ c ∈ [' ', '\t', '\n', '\r', '[', ']', '\x7b', '\x7d', ',', ':'],
      isDigit c = false ∧ c ≠ '.' ∧ c ≠ 'e' ∧ c ≠ 'E' := List.all_iff_forall_prop.1 rfl
  exact hall c hmem

theorem spanDigits_append {digits rest : List Char} (h : ∀ c ∈ digits, isDigit c = true)
    (hrest : Ends rest) : spanDigits (digits ++ rest) = (digits, rest) := by
  have hend : rest.takeWhile isDigit = [] ∧ rest.dropWhile isDigit = rest := by
    cases rest with
    | nil => exact ⟨rfl, rfl⟩
    | cons c rest => simp [hrest.not_continuing.1]
  rw [spanDigits, List.takeWhile_append_of_pos h, List.dropWhile_append_of_pos h, hend.1, hend.2,
    List.append_nil]

/-- Zero is written as one digit, and no other integer starts with it. -/
theorem exists_toDigits_eq_cons {n : Nat} (h : 0 < n) :
    ∃ c digits, Nat.toDigits 10 n = c :: digits ∧ c ≠ '0' := by
  induction n using Nat.strongRecOn with
  | ind n ih =>
    rw [Nat.toDigits_eq_if (by decide)]
    split
    · next hlt => exact ⟨_, [], rfl, by simpa using Nat.ne_of_gt h⟩
    · next hge =>
      obtain ⟨c, digits, hdigits, hc⟩ := ih (n / 10) (by omega) (by omega)
      exact ⟨c, digits ++ [Nat.digitChar (n % 10)], by rw [hdigits]; rfl, hc⟩

theorem spanWhole?_toDigits (n : Nat) {rest : List Char} (hrest : Ends rest) :
    spanWhole? (Nat.toDigits 10 n ++ rest) = some (Nat.toDigits 10 n, rest) := by
  have hdigits : ∀ c ∈ Nat.toDigits 10 n, isDigit c = true := fun c hc =>
    Nat.isDigit_of_mem_toDigits (by decide) (by decide) hc
  rcases Nat.eq_zero_or_pos n with rfl | hpos
  · rw [Nat.toDigits_zero]
    rfl
  · -- the digits of a number above zero do not start with a zero
    have hspan := spanDigits_append hdigits hrest
    obtain ⟨c, digits, heq, hc⟩ := exists_toDigits_eq_cons hpos
    rw [heq] at hspan hdigits ⊢
    rw [List.cons_append] at hspan ⊢
    unfold spanWhole?
    split
    · next hcons => exact absurd (List.cons.inj hcons).1 hc
    · next hcons =>
      obtain ⟨rfl, rfl⟩ := List.cons.inj hcons
      rw [if_pos (hdigits c List.mem_cons_self), hspan]
    · next hnil => cases hnil

theorem digitsValue_toDigits (n : Nat) : digitsValue (Nat.toDigits 10 n) = n := by
  have hfold : (fun (sofar : Nat) (c : Char) => 10 * sofar + (c.toNat - 48)) =
      fun sofar c => sofar * 10 + (c.toNat - 48) := by
    funext sofar c
    rw [Nat.mul_comm]
  have hvalue := Nat.ofDigitChars_ten_toDigits (n := n)
  rw [Nat.ofDigitChars_eq_foldl] at hvalue
  rw [digitsValue, ← hfold]
  exact hvalue

theorem scanMagnitude?_toDigits (negative : Bool) (n : Nat) {rest : List Char}
    (hrest : Ends rest) :
    scanMagnitude? negative (Nat.toDigits 10 n ++ rest) =
      some (int (if negative then -(n : Int) else n), rest) := by
  have hfraction : spanFraction rest = ([], rest) := by
    cases rest with
    | nil => rfl
    | cons c rest => simp [spanFraction, hrest.not_continuing.2.1]
  have hexponent : spanExponent rest = (none, rest) := by
    cases rest with
    | nil => rfl
    | cons c rest => simp [spanExponent, hrest.not_continuing.2.2.1, hrest.not_continuing.2.2.2]
  simp [scanMagnitude?, spanWhole?_toDigits n hrest, hfraction, hexponent, digitsValue_toDigits]

/-- No constant starts with a digit, with or without a sign in front of it. -/
theorem find?_constants_of_digit {c : Char} (h : isDigit c = true) (rest : List Char) :
    constants.find? (fun entry => entry.1.isPrefixOf (c :: rest)) = none ∧
      constants.find? (fun entry => entry.1.isPrefixOf ('-' :: c :: rest)) = none := by
  have hne : ∀ d : Char, isDigit d = false → d ≠ c := by
    rintro d hd rfl
    rw [h] at hd
    cases hd
  have hfirst : 'n' ≠ c ∧ 't' ≠ c ∧ 'f' ≠ c ∧ 'N' ≠ c ∧ 'I' ≠ c ∧ '-' ≠ c := by
    refine ⟨hne _ ?_, hne _ ?_, hne _ ?_, hne _ ?_, hne _ ?_, hne _ ?_⟩ <;> decide
  simp [constants, hfirst]

/-- An integer starts with its sign or a digit, which is no mark, blank or quote. -/
theorem exists_toString_eq_cons (n : Int) :
    ∃ c rest, (toString n).toList = c :: rest ∧ ¬Ends [c] ∧ c ≠ '\x22' := by
  obtain ⟨c, digits, hdigits, hdigit⟩ := exists_digitsOf_eq_cons n
  rw [toList_toString]
  split
  · exact ⟨_, _, rfl, by simp [Ends, isBlank, isMark], by decide⟩
  · refine ⟨c, digits, hdigits, ?_, ?_⟩
    · intro hends
      rw [hends.not_continuing.1] at hdigit
      cases hdigit
    · rintro rfl
      exact absurd hdigit (by decide)

theorem ne_minus_of_isDigit {c : Char} (h : isDigit c = true) : c ≠ '-' := by
  rintro rfl
  exact absurd h (by decide)

/-- An integer is read to its last digit. -/
theorem scanScalar?_toString (n : Int) {rest : List Char} (hrest : Ends rest) :
    scanScalar? ((toString n).toList ++ rest) = some (int n, rest) := by
  obtain ⟨c, digits, hdigits, hdigit⟩ := exists_digitsOf_eq_cons n
  have hnone := find?_constants_of_digit hdigit (digits ++ rest)
  have hmagnitude := scanMagnitude?_toDigits (decide (n < 0)) n.natAbs hrest
  -- sign and magnitude give the number back
  have hvalue : (if decide (n < 0) then -(n.natAbs : Int) else n.natAbs) = n := by
    simp only [decide_eq_true_eq]
    split <;> omega
  rw [hvalue, show Nat.toDigits 10 n.natAbs = c :: digits from hdigits,
    List.cons_append] at hmagnitude
  rw [toList_toString, hdigits]
  split
  · next hneg =>
    rw [decide_eq_true hneg] at hmagnitude
    simp only [scanScalar?, List.cons_append, hnone.2, hmagnitude]
  · next hpos =>
    rw [decide_eq_false hpos] at hmagnitude
    simp [scanScalar?, hnone.1, ne_minus_of_isDigit hdigit, hmagnitude]

/-- An integer has the digits that it is written with. -/
theorem digits_toString (kind : TokenKind) (n : Int) {rest : List Char} (hrest : Ends rest) :
    Token.digits ⟨kind, (toString n).toList ++ rest⟩ = (digitsOf n).length := by
  have hspan : (digitsOf n ++ rest).takeWhile isDigit = digitsOf n :=
    congrArg Prod.fst (spanDigits_append (fun c hc => isDigit_of_mem_digitsOf hc) hrest)
  obtain ⟨c, digits, hdigits, hdigit⟩ := exists_digitsOf_eq_cons n
  rw [toList_toString]
  split
  · exact congrArg List.length hspan
  · rw [hdigits, List.cons_append] at hspan ⊢
    simp only [Token.digits]
    split
    · next hcons => exact absurd (List.cons.inj hcons).1 (ne_minus_of_isDigit hdigit)
    · rw [hspan]

end Json

end ObjectAudit
