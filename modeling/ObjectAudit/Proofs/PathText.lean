/-
ObjectAudit/Proofs/PathText.lean

Reading the text of a path.

A path is written with its first key as it is, each further key behind a point and each position in
brackets.  It is read from its end on: characters are collected to a word until a mark says what
the word is, a position if it stands behind an opening bracket and a key if it stands behind a
point; what is left at the beginning is the first key.

No mark belongs to a plain key, so paths of plain keys are read back (`pathOf_pathText`).  Nor does
a colon, so the path is also found at the beginning of what is said of malformed input
(`pathIn_malformedMessage`).
-/
import ObjectAudit.Snapshot.Fault

namespace ObjectAudit.Snapshot

/-! ### Reading -/

/-- Read one more character, before a word that is not closed yet and the steps behind it. -/
def readMark (c : Char) (word : List Char) (steps : Path) : List Char × Path :=
  if c = ']' then ([], steps)
  else if c = '[' then ([], .item (Nat.ofDigitChars 10 word 0) :: steps)
  else if c = '.' then ([], .key (String.ofList word) :: steps)
  else (c :: word, steps)

/-- Read characters from their end on. -/
def readMarks (cs : List Char) (word : List Char) (steps : Path) : List Char × Path :=
  cs.foldr (fun c read => readMark c read.1 read.2) (word, steps)

/-- The path that a text gives. -/
def pathOf (cs : List Char) : Path :=
  let read := readMarks cs [] []
  .key (String.ofList read.1) :: read.2

/-- The path at the beginning of a message, up to the first colon. -/
def pathIn (message : String) : Path := pathOf (message.toList.takeWhile (· != ':'))

/-- A key without marks and colons. -/
def IsPlain (key : String) : Prop := ∀ c ∈ key.toList, c ∉ ['.', '[', ']', ':']

theorem isPlain_of_all {key : String}
    (h : (key.toList.all fun c => !List.contains ['.', '[', ']', ':'] c) = true) : IsPlain key := by
  intro c hc hmark
  have hno := List.all_eq_true.1 h c hc
  rw [List.contains_iff_mem.2 hmark] at hno
  cases hno

/-- A path whose keys are plain. -/
def PlainKeys (path : Path) : Prop := ∀ key, .key key ∈ path → IsPlain key

theorem PlainKeys.tail {step : Step} {path : Path} (h : PlainKeys (step :: path)) :
    PlainKeys path :=
  fun key hkey => h key (List.mem_cons_of_mem step hkey)

theorem plainKeys_nil : PlainKeys [] := by
  intro key hkey
  cases hkey

theorem PlainKeys.consKey {key : String} {path : Path} (hkey : IsPlain key) (h : PlainKeys path) :
    PlainKeys (.key key :: path) := by
  intro key' hmem
  rcases List.mem_cons.1 hmem with heq | hrest
  · obtain rfl := Step.key.inj heq
    exact hkey
  · exact h key' hrest

theorem PlainKeys.consItem {path : Path} (position : Nat) (h : PlainKeys path) :
    PlainKeys (.item position :: path) := by
  intro key hmem
  rcases List.mem_cons.1 hmem with heq | hrest
  · cases heq
  · exact h key hrest

theorem PlainKeys.append {front path : Path} (hfront : PlainKeys front) (h : PlainKeys path) :
    PlainKeys (front ++ path) := by
  intro key hmem
  rcases List.mem_append.1 hmem with hkey | hkey
  · exact hfront key hkey
  · exact h key hkey

/-! ### Reading back -/

theorem readMarks_append (front cs word : List Char) (steps : Path) :
    readMarks (front ++ cs) word steps =
      readMarks front (readMarks cs word steps).1 (readMarks cs word steps).2 :=
  List.foldr_append

theorem readMarks_cons (c : Char) (cs word : List Char) (steps : Path) :
    readMarks (c :: cs) word steps =
      readMark c (readMarks cs word steps).1 (readMarks cs word steps).2 :=
  rfl

/-- Characters that are no marks are collected. -/
theorem readMarks_of_not_mem {cs : List Char} (h : ∀ c ∈ cs, c ∉ ['.', '[', ']'])
    (word : List Char) (steps : Path) : readMarks cs word steps = (cs ++ word, steps) := by
  induction cs with
  | nil => rfl
  | cons c cs ih =>
    obtain ⟨hc, hcs⟩ := List.forall_mem_cons.1 h
    simp only [List.mem_cons, List.not_mem_nil, or_false, not_or] at hc
    rw [readMarks_cons, ih hcs, readMark, if_neg hc.2.2, if_neg hc.2.1, if_neg hc.1]
    rfl

theorem IsPlain.not_mem_marks {key : String} (h : IsPlain key) :
    ∀ c ∈ key.toList, c ∉ ['.', '[', ']'] := by
  intro c hc hmark
  exact h c hc (List.mem_append_left [':'] hmark)

theorem toList_key_text (key : String) : (Step.key key).text.toList = '.' :: key.toList := by
  rw [Step.text, String.toList_append]
  rfl

theorem toList_item_text (position : Nat) :
    (Step.item position).text.toList = '[' :: (Nat.toDigits 10 position ++ [']']) := by
  rw [Step.text, String.toList_append, String.toList_append, Nat.toString_eq_repr,
    Nat.toList_repr]
  rfl

theorem not_mem_of_mem_toDigits {position : Nat} {c : Char} (h : c ∈ Nat.toDigits 10 position) :
    c ∉ ['.', '[', ']', ':'] := by
  have hdigit := Nat.isDigit_of_mem_toDigits (by decide) (by decide) h
  intro hmark
  simp only [List.mem_cons, List.not_mem_nil, or_false] at hmark
  rcases hmark with rfl | rfl | rfl | rfl <;> cases hdigit

/-- The text of a step is read back, before any steps. -/
theorem readMarks_text {step : Step} (h : ∀ key, step = .key key → IsPlain key) (steps : Path) :
    readMarks step.text.toList [] steps = ([], step :: steps) := by
  cases step with
  | key name =>
    rw [toList_key_text, readMarks_cons, readMarks_of_not_mem (h name rfl).not_mem_marks]
    simp [readMark]
  | item position =>
    -- digits are no marks, so they are one run up to the closing bracket
    have hdigits : ∀ c ∈ Nat.toDigits 10 position, c ∉ ['.', '[', ']'] := fun c hc hmark =>
      not_mem_of_mem_toDigits hc (List.mem_append_left [':'] hmark)
    have hclosed : readMarks [']'] [] steps = ([], steps) := rfl
    rw [toList_item_text, readMarks_cons, readMarks_append, hclosed,
      readMarks_of_not_mem hdigits]
    simp [readMark, Nat.ofDigitChars_ten_toDigits]

theorem readMarks_texts {steps : Path} (h : PlainKeys steps) :
    readMarks (String.join (steps.map Step.text)).toList [] [] = ([], steps) := by
  induction steps with
  | nil => rfl
  | cons step steps ih =>
    have hstep : ∀ key, step = .key key → IsPlain key := by
      rintro key rfl
      exact h key List.mem_cons_self
    have hsteps := ih h.tail
    rw [List.map_cons, String.join_cons, String.toList_append, readMarks_append, hsteps]
    exact readMarks_text hstep steps

/-- A path that begins with a key is read back from its text, if its keys are plain. -/
theorem pathOf_pathText {key : String} {steps : Path} (h : PlainKeys (.key key :: steps)) :
    pathOf (pathText (.key key :: steps)).toList = .key key :: steps := by
  have hsteps := readMarks_texts h.tail
  rw [pathOf, pathText, String.toList_append, readMarks_append, hsteps,
    readMarks_of_not_mem (h key List.mem_cons_self).not_mem_marks]
  simp

/-! ### Messages -/

theorem not_mem_texts {steps : Path} (h : PlainKeys steps) :
    ':' ∉ (String.join (steps.map Step.text)).toList := by
  induction steps with
  | nil => simp
  | cons step steps ih =>
    rw [List.map_cons, String.join_cons, String.toList_append, List.mem_append, not_or]
    refine ⟨?_, ih h.tail⟩
    cases step with
    | key name =>
      rw [toList_key_text]
      refine List.not_mem_cons_of_ne_of_not_mem (by decide) ?_
      exact fun hcolon => h name List.mem_cons_self ':' hcolon (by decide)
    | item position =>
      rw [toList_item_text]
      refine List.not_mem_cons_of_ne_of_not_mem (by decide) ?_
      rw [List.mem_append, not_or]
      exact ⟨fun hcolon => not_mem_of_mem_toDigits hcolon (by decide), by decide⟩

/-- What is said of malformed input begins with the path, and the path is read back from it. -/
theorem pathIn_malformedMessage {key : String} {steps : Path} (h : PlainKeys (.key key :: steps))
    (reason : String) :
    pathIn (malformedMessage (pathText (.key key :: steps)) reason) = .key key :: steps := by
  -- the first colon is the one behind the path, so the message is cut there
  have hcolon : ∀ c ∈ (pathText (.key key :: steps)).toList, (c != ':') = true := by
    intro c hc
    rw [pathText, String.toList_append] at hc
    rw [bne_iff_ne]
    rintro rfl
    rcases List.mem_append.1 hc with hkey | hsteps
    · exact h key List.mem_cons_self ':' hkey (by decide)
    · exact not_mem_texts h.tail hsteps
  have hcut : (malformedMessage (pathText (.key key :: steps)) reason).toList.takeWhile (· != ':') =
      (pathText (.key key :: steps)).toList := by
    have hmessage : (malformedMessage (pathText (.key key :: steps)) reason).toList =
        (pathText (.key key :: steps)).toList ++ ':' :: ' ' :: reason.toList := by
      rw [malformedMessage, String.toList_append, String.toList_append]
      exact List.append_assoc _ _ _
    rw [hmessage, List.takeWhile_append_of_pos hcolon]
    simp
  rw [pathIn, hcut, pathOf_pathText h]

end ObjectAudit.Snapshot
