/-
ObjectAudit/Proofs/SnapshotGrammar.lean

Which entries of a snapshot can be read.  The grammar says it of a value by its fields: a field
that has to be there (`Json.Requires`), or one that may be left out (`Json.Allows`), and what it
holds if it is there.  Only an object has fields, so whatever requires one is an object.

Each reader of a field has one lemma, which says for which values it succeeds
(`exists_text_iff` and those after it); where the part that is built from the fields has a
requirement on one of them, the lemma carries it along.  From these each reader of a part is
seen to succeed exactly on the values of its grammar, from call sites up to entries.

Main result: an entry is loaded if it follows the grammar, and rejected if not
(`read_accepts_grammar`).
-/
import ObjectAudit.Proofs.SnapshotLayout

namespace ObjectAudit

/-! ### Shapes of values -/

namespace Json

/-- A text of which something holds. -/
def TextThat (p : Text → Prop) (value : Json) : Prop := ∃ s, value.text? = some s ∧ p s

def IsText (value : Json) : Prop := value.TextThat fun _ => True

/-- A text that is not empty. -/
def IsWord (value : Json) : Prop := value.TextThat fun s => s ≠ ""

def IsTextOrNull (value : Json) : Prop := value = .null ∨ value.IsText

/-- An integer from a least one on.  A truth value is none, nor is a number like `2.0`. -/
def IsIntegerFrom (least : Int) (value : Json) : Prop := ∃ n, value = .int n ∧ least ≤ n

def IsBoolean (value : Json) : Prop := ∃ b, value = .bool b

/-- A list whose items have a shape. -/
def IsListOf (shape : Json → Prop) (value : Json) : Prop :=
  ∃ items, value = .arr items ∧ ∀ item ∈ items, shape item

/-- A field is there and has a shape. -/
def Requires (value : Json) (key : String) (shape : Json → Prop) : Prop :=
  ∃ found, value.field? key = some found ∧ shape found

/-- A field is left out or has a shape. -/
def Allows (value : Json) (key : String) (shape : Json → Prop) : Prop :=
  ∀ found, value.field? key = some found → shape found

theorem Allows.of_absent {value : Json} {key : String} (shape : Json → Prop)
    (h : value.field? key = none) : value.Allows key shape := by
  intro found hfound
  rw [h] at hfound
  cases hfound

theorem Allows.of_present {value found : Json} {key : String} {shape : Json → Prop}
    (h : value.field? key = some found) (hshape : shape found) : value.Allows key shape := by
  intro other hother
  obtain rfl := Option.some.inj (h.symm.trans hother)
  exact hshape

/-- The items of the list under a key; none if there is no list. -/
def itemsUnder (value : Json) (key : String) : List Json :=
  match value.field? key with
  | some (.arr items) => items
  | _ => []

end Json

/-! ### Texts -/

namespace Text

/-- A text that, in upper case, is a word of plain capitals. -/
def IsSpelling (word : String) : Text → Prop
  | whole s => s.toList.flatMap capitals = word.toList
  | torn _ _ => False

instance (word : String) (text : Text) : Decidable (text.IsSpelling word) :=
  match text with
  | whole s => inferInstanceAs (Decidable (s.toList.flatMap capitals = word.toList))
  | torn _ _ => inferInstanceAs (Decidable False)

/-- Where no capitals are repeated, no text spells two of the names. -/
theorem find?_spells_eq_some_iff {α : Type} {all : List α} {name : α → String}
    (hnodup : (all.map fun a => (name a).toList).Nodup) {text : Text} {a : α} (hmem : a ∈ all) :
    all.find? (fun a => text.spells (name a)) = some a ↔ text.IsSpelling (name a) := by
  cases text with
  | whole s =>
    simp only [spells, IsSpelling, BEq.comm (a := s.toList.flatMap capitals)]
    rw [find?_eq_some_iff_mem _ hnodup, and_iff_right hmem, eq_comm]
  | torn pieces h =>
    have hnone : all.find? (fun a => (torn pieces h).spells (name a)) = none :=
      List.find?_eq_none.2 fun _ _ => Bool.false_ne_true
    simp [hnone, IsSpelling]

/-- The replacement character stands for a half, so without it a text shows as no other. -/
theorem shown_eq_iff {s : String} (h : Char.ofNat 0xfffd ∉ s.toList) (text : Text) :
    text.shown = s ↔ text = s := by
  cases text with
  | whole value => simp [shown]
  | torn pieces half =>
    obtain ⟨piece, hpiece, hhalf⟩ := List.any_eq_true.1 half
    refine iff_of_false ?_ (by simp)
    rintro rfl
    refine h ?_
    rw [shown, String.toList_ofList]
    have hstand : piece.standIn = Char.ofNat 0xfffd := by
      rw [Piece.standIn, Option.isNone_iff_eq_none.1 hhalf, Option.getD_none]
    exact hstand ▸ List.mem_map_of_mem hpiece

theorem shown_ne_empty_iff (text : Text) : text.shown ≠ "" ↔ text ≠ "" :=
  not_congr (shown_eq_iff (by decide) text)

end Text

/-- A text that, in upper case, is the name of an origin in capitals. -/
def Origin.SpelledBy (origin : Origin) (text : Text) : Prop := text.IsSpelling origin.capitalName

instance (origin : Origin) (text : Text) : Decidable (origin.SpelledBy text) :=
  inferInstanceAs (Decidable (text.IsSpelling _))

theorem Layer.mem_all (layer : Layer) : layer ∈ all := by
  cases layer <;> decide

theorem AssociationKind.mem_all (kind : AssociationKind) : kind ∈ all := by
  cases kind <;> decide

theorem Delegation.wellFormed_iff {delegation : Delegation} :
    WellFormed delegation ↔ delegation.association ≠ "" ∧ delegation.member ≠ "" := by
  simp [WellFormed, Checked.defect?, firstDefect_eq_none_iff]

namespace Snapshot

open Json

/-! ### The grammar -/

structure IsCallSite (value : Json) : Prop where
  origin : value.Requires "origin" (TextThat fun s => ∃ origin : Origin, origin.SpelledBy s)
  root : value.Allows "root" IsWord
  /-- A call on the object itself starts at nothing else. -/
  selfRoot : value.Requires "origin" (TextThat Origin.self.SpelledBy) →
    value.Allows "root" (TextThat (· = "self"))
  chain : value.Requires "chain" fun chain => chain.IsListOf IsWord ∧ chain ≠ .arr []
  line : value.Requires "line" (IsIntegerFrom 1)
  rootClass : value.Allows "root_class" IsTextOrNull
  targetClass : value.Allows "target_class" IsTextOrNull

structure IsAssociation (value : Json) : Prop where
  source : value.Allows "source" IsWord
  target : value.Requires "target" IsWord
  kind : value.Requires "kind" (TextThat fun s => ∃ kind : AssociationKind, kind.name = s)
  accessor : value.Requires "accessor" IsWord

structure IsDelegation (value : Json) : Prop where
  association : value.Requires "association" IsWord
  member : value.Requires "member" IsWord

structure IsMethod (value : Json) : Prop where
  name : value.Requires "name" IsWord
  owner : value.Allows "owner" IsTextOrNull
  callSites : value.Allows "call_sites" (IsListOf IsCallSite)
  line : value.Allows "line" (IsIntegerFrom 1)
  isClassLevel : value.Allows "class_level" IsBoolean
  isCallback : value.Allows "callback" IsBoolean
  wrapsTransaction : value.Allows "transaction" IsBoolean
  delegatesTo : value.Allows "delegates_to" fun found => found = .null ∨ IsDelegation found
  includedFrom : value.Allows "included_from" IsTextOrNull
  invokedMethods : value.Allows "invokes" (IsListOf IsText)

/-- The place of an entry, among the fields of the entry. -/
structure HasPlace (value : Json) : Prop where
  file : value.Requires "file" IsText
  line : value.Allows "line" (IsIntegerFrom 1)
  column : value.Allows "column" (IsIntegerFrom 0)

structure IsClass (value : Json) : Prop where
  name : value.Requires "name" IsWord
  associations : value.Allows "associations" (IsListOf IsAssociation)
  methods : value.Allows "methods" (IsListOf IsMethod)
  layer : value.Requires "layer" (TextThat fun s => ∃ layer : Layer, layer.name = s)
  place : HasPlace value
  includedModules : value.Allows "included_modules" (IsListOf IsText)

structure IsTemplate (value : Json) : Prop where
  name : value.Requires "name" IsWord
  place : HasPlace value
  callSites : value.Allows "call_sites" (IsListOf IsCallSite)

/-- What can be read at all: an object with two lists, each of which may be left out. -/
structure IsSnapshot (value : Json) : Prop where
  object : ∃ fields, value = .obj fields
  classes : value.Allows "classes" (IsListOf fun _ => True)
  templates : value.Allows "templates" (IsListOf fun _ => True)

/-! ### Readings that succeed -/

theorem bind_eq_ok {ε α β : Type} {x : Except ε α} {f : α → Except ε β} {b : β} :
    x >>= f = .ok b ↔ ∃ a, x = .ok a ∧ f a = .ok b := by
  cases x <;> simp [bind, Except.bind]

theorem build_eq_ok {α : Type} [Checked α] {path : Path} {value value' : α} :
    build path value = .ok value' ↔ WellFormed value ∧ value' = value := by
  rw [← checked_eq_ok_iff, build]
  cases checked value <;> simp

theorem readObject_eq_ok {path : Path} {value : Json} {place : Place} :
    readObject path value = .ok place ↔ ∃ fields, value = .obj fields ∧ place = ⟨path, fields⟩ := by
  cases value <;> simp [readObject, eq_comm]

/-- What requires a field is an object. -/
theorem exists_fields_of_requires {value : Json} {key : String} {shape : Json → Prop}
    (h : value.Requires key shape) : ∃ fields, value = .obj fields := by
  obtain ⟨found, hfound, -⟩ := h
  exact exists_fields hfound

/-- A list is read if each of its items is; what is asked of each part is asked of its item. -/
theorem exists_readItems_iff {α : Type} {read : Path → Json → Reading α} {p : α → Prop}
    {shape : Json → Prop} (h : ∀ path item, (∃ a, read path item = .ok a ∧ p a) ↔ shape item)
    (path : Path) (position : Nat) (items : List Json) :
    (∃ parts, readItems path read position items = .ok parts ∧ ∀ part ∈ parts, p part) ↔
      ∀ item ∈ items, shape item := by
  induction items generalizing position with
  | nil => simp [readItems]
  | cons item rest ih =>
    rw [List.forall_mem_cons, ← ih (position + 1), ← h (path ++ [.item position])]
    simp only [readItems, bind_eq_ok]
    constructor
    · rintro ⟨_, ⟨a, ha, parts, hparts, heq⟩, hall⟩
      obtain rfl := Except.ok.inj heq
      obtain ⟨hpart, hrest⟩ := List.forall_mem_cons.1 hall
      exact ⟨⟨a, ha, hpart⟩, parts, hparts, hrest⟩
    · rintro ⟨⟨a, ha, hpart⟩, parts, hparts, hrest⟩
      exact ⟨a :: parts, ⟨a, ha, parts, hparts, rfl⟩, List.forall_mem_cons.2 ⟨hpart, hrest⟩⟩

/-! ### Fields -/

section Fields

variable (path : Path) {fields : List (Text × Json)} {key : String}

theorem asText_eq_ok {place : Place} {value : Json} {s : Text} :
    place.asText key value = .ok s ↔ value.text? = some s := by
  unfold Place.asText
  cases value.text? <;> simp

theorem required_eq_ok {path : Path} {value : Json} :
    Place.required ⟨path, fields⟩ key = .ok value ↔ (Json.obj fields).field? key = some value := by
  show Place.required ⟨path, fields⟩ key = .ok value ↔ Place.field? ⟨path, fields⟩ key = some value
  unfold Place.required
  cases Place.field? ⟨path, fields⟩ key <;> simp

/-- What is asked of a text as it shows is asked of the text. -/
theorem exists_text_iff (p : String → Prop) {q : Text → Prop} (h : ∀ s, p s.shown ↔ q s) :
    (∃ s, Place.text ⟨path, fields⟩ key = .ok s ∧ p s) ↔
      (Json.obj fields).Requires key (TextThat q) := by
  simp only [Place.text, bind_eq_ok, required_eq_ok, asText_eq_ok, Requires, TextThat, ← h]
  constructor
  · rintro ⟨_, ⟨found, hfound, s, hs, heq⟩, hp⟩
    obtain rfl := Except.ok.inj heq
    exact ⟨found, hfound, s, hs, hp⟩
  · rintro ⟨found, hfound, s, hs, hp⟩
    exact ⟨s.shown, ⟨found, hfound, s, hs, rfl⟩, hp⟩

theorem exists_textOr_iff (p : String → Prop) {q : Text → Prop} (h : ∀ s, p s.shown ↔ q s)
    {own : String} (hown : p own) :
    (∃ s, Place.textOr ⟨path, fields⟩ key own = .ok s ∧ p s) ↔
      (Json.obj fields).Allows key (TextThat q) := by
  show _ ↔ ∀ found, Place.field? ⟨path, fields⟩ key = some found → _
  unfold Place.textOr
  cases Place.field? ⟨path, fields⟩ key with
  | none => simp [hown]
  | some found =>
    cases htext : found.text? <;> simp [Place.asText, TextThat, Except.map, htext, h]

theorem exists_word_iff :
    (∃ s, Place.text ⟨path, fields⟩ key = .ok s ∧ s ≠ "") ↔
      (Json.obj fields).Requires key IsWord :=
  exists_text_iff path (· ≠ "") Text.shown_ne_empty_iff

theorem exists_wordOr_iff {own : String} (hown : own ≠ "") :
    (∃ s, Place.textOr ⟨path, fields⟩ key own = .ok s ∧ s ≠ "") ↔
      (Json.obj fields).Allows key IsWord :=
  exists_textOr_iff path (· ≠ "") Text.shown_ne_empty_iff hown

theorem exists_optionalText_iff (own : Option String) :
    (∃ text, Place.optionalText ⟨path, fields⟩ key own = .ok text) ↔
      (Json.obj fields).Allows key IsTextOrNull := by
  show _ ↔ ∀ found, Place.field? ⟨path, fields⟩ key = some found → _
  unfold Place.optionalText
  cases Place.field? ⟨path, fields⟩ key with
  | none => simp
  | some found => cases found <;> simp [IsTextOrNull, IsText, TextThat, Json.text?]

theorem asInteger_eq_ok {place : Place} {value : Json} {n : Int} :
    place.asInteger key value = .ok n ↔ value = .int n := by
  cases value <;> simp [Place.asInteger]

theorem exists_integer_iff (least : Int) :
    (∃ n, Place.integer ⟨path, fields⟩ key = .ok n ∧ least ≤ n) ↔
      (Json.obj fields).Requires key (IsIntegerFrom least) := by
  simp only [Place.integer, bind_eq_ok, required_eq_ok, asInteger_eq_ok, Requires,
    IsIntegerFrom]
  constructor
  · rintro ⟨n, ⟨found, hfound, hn⟩, hleast⟩
    exact ⟨found, hfound, n, hn, hleast⟩
  · rintro ⟨found, hfound, n, hn, hleast⟩
    exact ⟨n, ⟨found, hfound, hn⟩, hleast⟩

theorem exists_integerOr_iff {least own : Int} (hown : least ≤ own) :
    (∃ n, Place.integerOr ⟨path, fields⟩ key own = .ok n ∧ least ≤ n) ↔
      (Json.obj fields).Allows key (IsIntegerFrom least) := by
  show _ ↔ ∀ found, Place.field? ⟨path, fields⟩ key = some found → _
  unfold Place.integerOr
  cases Place.field? ⟨path, fields⟩ key with
  | none => simp [hown]
  | some found => simp [asInteger_eq_ok, IsIntegerFrom]

theorem exists_flag_iff :
    (∃ b, Place.flag ⟨path, fields⟩ key = .ok b) ↔
      (Json.obj fields).Allows key IsBoolean := by
  show _ ↔ ∀ found, Place.field? ⟨path, fields⟩ key = some found → _
  unfold Place.flag
  cases Place.field? ⟨path, fields⟩ key with
  | none => simp
  | some found => cases found <;> simp [IsBoolean]

theorem list_eq_ok {path : Path} {items : List Json} :
    Place.list ⟨path, fields⟩ key = .ok items ↔
      (Json.obj fields).field? key = none ∧ items = [] ∨
        (Json.obj fields).field? key = some (.arr items) := by
  show _ ↔ Place.field? ⟨path, fields⟩ key = none ∧ _ ∨ Place.field? ⟨path, fields⟩ key = some _
  unfold Place.list
  cases Place.field? ⟨path, fields⟩ key with
  | none => simp [eq_comm]
  | some found => cases found <;> simp

theorem exists_listOf_that_iff {α : Type} {read : Path → Json → Reading α} {p : α → Prop}
    {shape : Json → Prop} (h : ∀ path item, (∃ a, read path item = .ok a ∧ p a) ↔ shape item) :
    (∃ parts, Place.listOf ⟨path, fields⟩ key read = .ok parts ∧ ∀ part ∈ parts, p part) ↔
      (Json.obj fields).Allows key (IsListOf shape) := by
  have hitems := exists_readItems_iff h (Place.pathTo ⟨path, fields⟩ key) 0
  simp only [Place.listOf, bind_eq_ok, list_eq_ok]
  constructor
  · rintro ⟨parts, ⟨items, ⟨hnone, -⟩ | hfound, hparts⟩, hall⟩ found hkey
    · rw [hnone] at hkey
      cases hkey
    · obtain rfl := Option.some.inj (hfound.symm.trans hkey)
      exact ⟨items, rfl, (hitems items).1 ⟨parts, hparts, hall⟩⟩
  · intro hallows
    -- a list that is not there counts as empty
    cases hkey : (Json.obj fields).field? key with
    | none => exact ⟨[], ⟨[], .inl ⟨rfl, rfl⟩, rfl⟩, List.forall_mem_nil _⟩
    | some found =>
      obtain ⟨items, rfl, hshape⟩ := hallows found hkey
      obtain ⟨parts, hparts, hall⟩ := (hitems items).2 hshape
      exact ⟨parts, ⟨items, .inr rfl, hparts⟩, hall⟩

theorem exists_listOf_iff {α : Type} {read : Path → Json → Reading α} {shape : Json → Prop}
    (h : ∀ path item, (∃ a, read path item = .ok a) ↔ shape item) :
    (∃ parts, Place.listOf ⟨path, fields⟩ key read = .ok parts) ↔
      (Json.obj fields).Allows key (IsListOf shape) := by
  have hthat := @exists_listOf_that_iff path fields key _ read (fun _ => True) shape
  simpa only [and_true, implies_true] using hthat (by simpa only [and_true] using h)

theorem exists_texts_that_iff (p : String → Prop) {q : Text → Prop}
    (h : ∀ s, p s.shown ↔ q s) :
    (∃ ss, Place.texts ⟨path, fields⟩ key = .ok ss ∧ ∀ s ∈ ss, p s) ↔
      (Json.obj fields).Allows key (IsListOf (TextThat q)) := by
  refine exists_listOf_that_iff path ?_
  intro path item
  cases htext : item.text? <;> simp [TextThat, htext, h]

theorem exists_texts_iff :
    (∃ ss, Place.texts ⟨path, fields⟩ key = .ok ss) ↔
      (Json.obj fields).Allows key (IsListOf IsText) := by
  have hthat := @exists_texts_that_iff path fields key (fun _ => True) _ fun _ => Iff.rfl
  simp only [implies_true, and_true] at hthat
  exact hthat

/-- No texts are read from an empty list, or from none. -/
theorem texts_eq_nil_iff :
    Place.texts ⟨path, fields⟩ key = .ok [] ↔ (Json.obj fields).Allows key (· = .arr []) := by
  simp only [Place.texts, Place.listOf, bind_eq_ok, list_eq_ok]
  constructor
  · rintro ⟨items, ⟨hnone, -⟩ | hfound, hparts⟩ found hkey
    · rw [hnone] at hkey
      cases hkey
    · obtain rfl := Option.some.inj (hfound.symm.trans hkey)
      cases items with
      | nil => rfl
      | cons item rest =>
        simp only [readItems, bind_eq_ok] at hparts
        obtain ⟨s, -, ss, -, heq⟩ := hparts
        cases heq
  · intro hallows
    cases hkey : (Json.obj fields).field? key with
    | none => exact ⟨[], .inl ⟨rfl, rfl⟩, rfl⟩
    | some found => exact ⟨[], .inr (congrArg some (hallows found hkey)), rfl⟩

theorem exists_choice_iff {α : Type} {all : List α} (hall : ∀ a, a ∈ all) (name : α → String) :
    (∃ a, Place.choice ⟨path, fields⟩ key all name = .ok a) ↔
      (Json.obj fields).Requires key (TextThat fun s => ∃ a, name a = s) := by
  have hfind : ∀ s : Text, (all.find? fun a => Text.whole (name a) == s).isSome = true ↔
      ∃ a, name a = s := by
    intro s
    rw [List.find?_isSome]
    simp [hall]
  simp only [Place.choice, bind_eq_ok, required_eq_ok, asText_eq_ok, Requires, TextThat,
    ← hfind]
  constructor
  · rintro ⟨a, found, hfound, s, hs, hchoice⟩
    refine ⟨found, hfound, s, hs, ?_⟩
    cases hsome : all.find? fun a => Text.whole (name a) == s with
    | none => rw [hsome] at hchoice; cases hchoice
    | some _ => rfl
  · rintro ⟨found, hfound, s, hs, hsome⟩
    obtain ⟨a, ha⟩ := Option.isSome_iff_exists.1 hsome
    refine ⟨a, found, hfound, s, hs, ?_⟩
    rw [ha]
    rfl

end Fields

/-! ### Call sites -/

theorem originOf?_eq_some {s : Text} {origin : Origin} :
    originOf? s = some origin ↔ origin.SpelledBy s := by
  have hmem : origin ∈ Origin.all := by cases origin <;> decide
  exact Text.find?_spells_eq_some_iff (by decide) hmem

theorem readOrigin_eq_ok {path : Path} {fields : List (Text × Json)} {origin : Origin} :
    readOrigin ⟨path, fields⟩ = .ok origin ↔
      (Json.obj fields).Requires "origin" (TextThat origin.SpelledBy) := by
  simp only [readOrigin, bind_eq_ok, required_eq_ok, asText_eq_ok, Requires, TextThat,
    ← originOf?_eq_some]
  refine exists_congr fun found => and_congr_right fun _ => exists_congr fun s =>
    and_congr_right fun _ => ?_
  cases originOf? s with
  | none =>
    constructor
    · intro h
      cases h
    · intro h
      cases h
  | some read =>
    show Except.ok read = _ ↔ _
    simp

/-- The names of a call site: there is one, and none is empty. -/
theorem exists_chain_iff (path : Path) {fields : List (Text × Json)} {key : String} :
    (∃ ss, Place.texts ⟨path, fields⟩ key = .ok ss ∧ ss ≠ [] ∧ "" ∉ ss) ↔
      (Json.obj fields).Requires key fun chain => chain.IsListOf IsWord ∧ chain ≠ .arr [] := by
  have hwords := @exists_texts_that_iff path fields key (· ≠ "") _ Text.shown_ne_empty_iff
  constructor
  · rintro ⟨ss, hss, hne, hempty⟩
    -- a list that was read may have been left out, unless something was read from it
    have hallows := hwords.1 ⟨ss, hss, fun s hs heq => hempty (heq ▸ hs)⟩
    have hnot : ¬ (Json.obj fields).Allows key (· = .arr []) := by
      intro hnil
      exact hne (Except.ok.inj (hss.symm.trans ((texts_eq_nil_iff path).2 hnil)))
    simp only [Allows, not_forall] at hnot
    obtain ⟨found, hfound, hnot⟩ := hnot
    exact ⟨found, hfound, hallows found hfound, hnot⟩
  · rintro ⟨found, hfound, hlist, hnot⟩
    obtain ⟨ss, hss, hall⟩ := hwords.2 (.of_present hfound hlist)
    refine ⟨ss, hss, ?_, fun hmem => hall "" hmem rfl⟩
    rintro rfl
    exact hnot ((texts_eq_nil_iff path).1 hss found hfound)

theorem exists_callSite_iff (path : Path) (value : Json) :
    (∃ site, readCallSite path value = .ok site) ↔ IsCallSite value := by
  have hshown : ∀ s : Text, s.shown = "self" ↔ s = "self" := Text.shown_eq_iff (by decide)
  constructor
  · rintro ⟨site, h⟩
    simp only [readCallSite, bind_eq_ok, readObject_eq_ok] at h
    obtain ⟨_, ⟨fields, rfl, rfl⟩, origin, horigin, root, hroot, chain, hchain, line, hline,
      rootClass, hrootClass, targetClass, htargetClass, hbuilt⟩ := h
    -- a site that was built meets its requirements, which are those of the grammar
    have hsite : WellFormed { origin, root, chain, line, rootClass, targetClass : CallSite } := by
      cases hchecked : checked { origin, root, chain, line, rootClass, targetClass : CallSite } with
      | ok site' => exact (checked_eq_ok_iff.1 hchecked).1
      | error defect => rw [hchecked] at hbuilt; cases hbuilt
    obtain ⟨hword, hne, hempty, hone, hself⟩ := CallSite.wellFormed_iff.1 hsite
    obtain ⟨found, hfound, s, hs, hspelled⟩ := readOrigin_eq_ok.1 horigin
    refine
      { origin := ⟨found, hfound, s, hs, origin, hspelled⟩
        root := (exists_wordOr_iff path (by decide)).1 ⟨root, hroot, hword⟩
        selfRoot := fun hspelled => (exists_textOr_iff path (· = "self") hshown rfl).1
          ⟨root, hroot, hself ?_⟩
        chain := (exists_chain_iff path).1 ⟨chain, hchain, hne, hempty⟩
        line := (exists_integer_iff path 1).1 ⟨line, hline, hone⟩
        rootClass := (exists_optionalText_iff path none).1 ⟨rootClass, hrootClass⟩
        targetClass := (exists_optionalText_iff path none).1 ⟨targetClass, htargetClass⟩ }
    exact Except.ok.inj (horigin.symm.trans (readOrigin_eq_ok.2 hspelled))
  · intro h
    obtain ⟨fields, rfl⟩ := exists_fields_of_requires h.origin
    obtain ⟨found, hfound, s, hs, origin, hspelled⟩ := h.origin
    have horigin : readOrigin ⟨path, fields⟩ = .ok origin :=
      readOrigin_eq_ok.2 ⟨found, hfound, s, hs, hspelled⟩
    -- what may be the root depends on which origin the text spells
    have hallows : (Json.obj fields).Allows "root"
        (TextThat fun root => root ≠ "" ∧ (origin = .self → root = "self")) := by
      intro value hvalue
      obtain ⟨root, hroot, hword⟩ := h.root value hvalue
      refine ⟨root, hroot, hword, ?_⟩
      rintro rfl
      obtain ⟨_, hroot', rfl⟩ := h.selfRoot (readOrigin_eq_ok.1 horigin) value hvalue
      exact Option.some.inj (hroot.symm.trans hroot')
    obtain ⟨root, hroot, hword, hself⟩ :=
      (exists_textOr_iff path (fun s => s ≠ "" ∧ (origin = .self → s = "self"))
        (fun s => and_congr s.shown_ne_empty_iff (imp_congr_right fun _ => hshown s))
        ⟨by decide, fun _ => rfl⟩).2 hallows
    obtain ⟨chain, hchain, hne, hempty⟩ := (exists_chain_iff path).2 h.chain
    obtain ⟨line, hline, hone⟩ := (exists_integer_iff path 1).2 h.line
    obtain ⟨rootClass, hrootClass⟩ := (exists_optionalText_iff path none).2 h.rootClass
    obtain ⟨targetClass, htargetClass⟩ := (exists_optionalText_iff path none).2 h.targetClass
    have hsite : WellFormed { origin, root, chain, line, rootClass, targetClass : CallSite } :=
      CallSite.wellFormed_iff.2 ⟨hword, hne, hempty, hone, hself⟩
    refine ⟨{ origin, root, chain, line, rootClass, targetClass }, ?_⟩
    simp only [readCallSite, readObject, ok_bind, horigin, hroot, hchain, hline, hrootClass,
      htargetClass, checked_eq_ok_iff.2 ⟨hsite, rfl⟩]
    rfl

/-! ### Parts of classes -/

/-- An association without a source has the class as its source, which has a name. -/
theorem exists_association_iff {owner : String} (howner : owner ≠ "") (path : Path)
    (value : Json) :
    (∃ edge, readAssociation owner path value = .ok edge) ↔ IsAssociation value := by
  simp only [readAssociation, bind_eq_ok, readObject_eq_ok, build_eq_ok,
    Association.wellFormed_iff]
  constructor
  · rintro ⟨_, _, ⟨fields, rfl, rfl⟩, source, hsource, target, htarget, kind, hkind, accessor,
      haccessor, ⟨hsource', htarget', haccessor', -⟩, -⟩
    exact
      { source := (exists_wordOr_iff path howner).1 ⟨source, hsource, hsource'⟩
        target := (exists_word_iff path).1 ⟨target, htarget, htarget'⟩
        kind := (exists_choice_iff path AssociationKind.mem_all _).1 ⟨kind, hkind⟩
        accessor := (exists_word_iff path).1 ⟨accessor, haccessor, haccessor'⟩ }
  · intro h
    -- what is required is there, so the value is an object
    obtain ⟨fields, rfl⟩ := exists_fields_of_requires h.target
    obtain ⟨source, hsource, hsource'⟩ := (exists_wordOr_iff path howner).2 h.source
    obtain ⟨target, htarget, htarget'⟩ := (exists_word_iff path).2 h.target
    obtain ⟨kind, hkind⟩ := (exists_choice_iff path AssociationKind.mem_all _).2 h.kind
    obtain ⟨accessor, haccessor, haccessor'⟩ := (exists_word_iff path).2 h.accessor
    exact ⟨_, _, ⟨fields, rfl, rfl⟩, source, hsource, target, htarget, kind, hkind, accessor,
      haccessor, ⟨hsource', htarget', haccessor', fun _ => trivial⟩, rfl⟩

theorem exists_delegation_iff (path : Path) (value : Json) :
    (∃ delegation, readDelegation path value = .ok delegation) ↔ IsDelegation value := by
  simp only [readDelegation, bind_eq_ok, readObject_eq_ok, build_eq_ok, Delegation.wellFormed_iff]
  constructor
  · rintro ⟨_, _, ⟨fields, rfl, rfl⟩, association, hassociation, member, hmember,
      ⟨hassociation', hmember'⟩, -⟩
    exact
      { association := (exists_word_iff path).1 ⟨association, hassociation, hassociation'⟩
        member := (exists_word_iff path).1 ⟨member, hmember, hmember'⟩ }
  · intro h
    obtain ⟨fields, rfl⟩ := exists_fields_of_requires h.member
    obtain ⟨association, hassociation, hassociation'⟩ := (exists_word_iff path).2 h.association
    obtain ⟨member, hmember, hmember'⟩ := (exists_word_iff path).2 h.member
    exact ⟨_, _, ⟨fields, rfl, rfl⟩, association, hassociation, member, hmember,
      ⟨hassociation', hmember'⟩, rfl⟩

theorem exists_forwarding_iff (path : Path) (fields : List (Text × Json)) :
    (∃ forwarding, readForwarding ⟨path, fields⟩ = .ok forwarding) ↔
      (Json.obj fields).Allows "delegates_to" fun found => found = .null ∨ IsDelegation found := by
  show _ ↔ ∀ found, Place.field? ⟨path, fields⟩ "delegates_to" = some found → _
  unfold readForwarding
  cases Place.field? ⟨path, fields⟩ "delegates_to" with
  | none => simp
  | some found =>
    by_cases hnull : found = .null
    · simp [hnull]
    · have hmap : (∃ forwarding, (readDelegation (Place.pathTo ⟨path, fields⟩ "delegates_to")
          found).map some = .ok forwarding) ↔ IsDelegation found := by
        rw [← exists_delegation_iff (Place.pathTo ⟨path, fields⟩ "delegates_to")]
        cases readDelegation (Place.pathTo ⟨path, fields⟩ "delegates_to") found <;>
          simp [Except.map]
      cases found <;> simp_all

theorem exists_method_iff (owner : String) (path : Path) (value : Json) :
    (∃ method, readMethod owner path value = .ok method) ↔ IsMethod value := by
  simp only [readMethod, bind_eq_ok, readObject_eq_ok, build_eq_ok, Method.wellFormed_iff]
  constructor
  · rintro ⟨_, _, ⟨fields, rfl, rfl⟩, delegatesTo, hdelegatesTo, name, hname, owner', howner,
      callSites, hcallSites, line, hline, isClassLevel, hclassLevel, isCallback, hcallback,
      wrapsTransaction, htransaction, includedFrom, hincludedFrom, invokedMethods, hinvokes,
      ⟨hword, hone⟩, -⟩
    exact
      { name := (exists_word_iff path).1 ⟨name, hname, hword⟩
        owner := (exists_optionalText_iff path _).1 ⟨owner', howner⟩
        callSites := (exists_listOf_iff path exists_callSite_iff).1 ⟨callSites, hcallSites⟩
        line := (exists_integerOr_iff path (Int.le_refl 1)).1 ⟨line, hline, hone⟩
        isClassLevel := (exists_flag_iff path).1 ⟨isClassLevel, hclassLevel⟩
        isCallback := (exists_flag_iff path).1 ⟨isCallback, hcallback⟩
        wrapsTransaction := (exists_flag_iff path).1 ⟨wrapsTransaction, htransaction⟩
        delegatesTo := (exists_forwarding_iff path fields).1 ⟨delegatesTo, hdelegatesTo⟩
        includedFrom := (exists_optionalText_iff path _).1 ⟨includedFrom, hincludedFrom⟩
        invokedMethods := (exists_texts_iff path).1 ⟨invokedMethods, hinvokes⟩ }
  · intro h
    obtain ⟨fields, rfl⟩ := exists_fields_of_requires h.name
    obtain ⟨delegatesTo, hdelegatesTo⟩ := (exists_forwarding_iff path fields).2 h.delegatesTo
    obtain ⟨name, hname, hword⟩ := (exists_word_iff path).2 h.name
    obtain ⟨owner', howner⟩ := (exists_optionalText_iff path (some owner)).2 h.owner
    obtain ⟨callSites, hcallSites⟩ := (exists_listOf_iff path exists_callSite_iff).2 h.callSites
    obtain ⟨line, hline, hone⟩ := (exists_integerOr_iff path (Int.le_refl 1)).2 h.line
    obtain ⟨isClassLevel, hclassLevel⟩ := (exists_flag_iff path).2 h.isClassLevel
    obtain ⟨isCallback, hcallback⟩ := (exists_flag_iff path).2 h.isCallback
    obtain ⟨wrapsTransaction, htransaction⟩ := (exists_flag_iff path).2 h.wrapsTransaction
    obtain ⟨includedFrom, hincludedFrom⟩ := (exists_optionalText_iff path none).2 h.includedFrom
    obtain ⟨invokedMethods, hinvokes⟩ := (exists_texts_iff path).2 h.invokedMethods
    exact ⟨_, _, ⟨fields, rfl, rfl⟩, delegatesTo, hdelegatesTo, name, hname, owner', howner,
      callSites, hcallSites, line, hline, isClassLevel, hclassLevel, isCallback, hcallback,
      wrapsTransaction, htransaction, includedFrom, hincludedFrom, invokedMethods, hinvokes,
      ⟨hword, hone⟩, rfl⟩

/-! ### Entries -/

theorem exists_location_iff (path : Path) (fields : List (Text × Json)) :
    (∃ location, readLocation ⟨path, fields⟩ = .ok location) ↔ HasPlace (.obj fields) := by
  simp only [readLocation, bind_eq_ok, build_eq_ok, Location.wellFormed_iff]
  constructor
  · rintro ⟨_, file, hfile, line, hline, column, hcolumn, ⟨hone, hzero⟩, -⟩
    exact
      { file := (exists_text_iff path (fun _ => True) fun _ => Iff.rfl).1 ⟨file, hfile, trivial⟩
        line := (exists_integerOr_iff path (Int.le_refl 1)).1 ⟨line, hline, hone⟩
        column := (exists_integerOr_iff path (Int.le_refl 0)).1 ⟨column, hcolumn, hzero⟩ }
  · intro h
    obtain ⟨file, hfile, -⟩ := (exists_text_iff path (fun _ => True) fun _ => Iff.rfl).2 h.file
    obtain ⟨line, hline, hone⟩ := (exists_integerOr_iff path (Int.le_refl 1)).2 h.line
    obtain ⟨column, hcolumn, hzero⟩ := (exists_integerOr_iff path (Int.le_refl 0)).2 h.column
    exact ⟨_, file, hfile, line, hline, column, hcolumn, ⟨hone, hzero⟩, rfl⟩

theorem exists_class_iff (path : Path) (value : Json) :
    (∃ decl, readClass path value = .ok decl) ↔ IsClass value := by
  simp only [readClass, bind_eq_ok, readObject_eq_ok, build_eq_ok, ClassDecl.wellFormed_iff]
  constructor
  · rintro ⟨_, _, ⟨fields, rfl, rfl⟩, name, hname, associations, hassociations, methods, hmethods,
      layer, hlayer, location, hlocation, includedModules, hmodules, hword, -⟩
    exact
      { name := (exists_word_iff path).1 ⟨name, hname, hword⟩
        associations := (exists_listOf_iff path (exists_association_iff hword)).1
          ⟨associations, hassociations⟩
        methods := (exists_listOf_iff path (exists_method_iff name)).1 ⟨methods, hmethods⟩
        layer := (exists_choice_iff path Layer.mem_all _).1 ⟨layer, hlayer⟩
        place := (exists_location_iff path fields).1 ⟨location, hlocation⟩
        includedModules := (exists_texts_iff path).1 ⟨includedModules, hmodules⟩ }
  · intro h
    obtain ⟨fields, rfl⟩ := exists_fields_of_requires h.name
    -- associations and methods are read with this name, which stands in for an owner
    obtain ⟨name, hname, hword⟩ := (exists_word_iff path).2 h.name
    obtain ⟨associations, hassociations⟩ :=
      (exists_listOf_iff path (exists_association_iff hword)).2 h.associations
    obtain ⟨methods, hmethods⟩ := (exists_listOf_iff path (exists_method_iff name)).2 h.methods
    obtain ⟨layer, hlayer⟩ := (exists_choice_iff path Layer.mem_all _).2 h.layer
    obtain ⟨location, hlocation⟩ := (exists_location_iff path fields).2 h.place
    obtain ⟨includedModules, hmodules⟩ := (exists_texts_iff path).2 h.includedModules
    exact ⟨_, _, ⟨fields, rfl, rfl⟩, name, hname, associations, hassociations, methods, hmethods,
      layer, hlayer, location, hlocation, includedModules, hmodules, hword, rfl⟩

theorem exists_template_iff (path : Path) (value : Json) :
    (∃ template, readTemplate path value = .ok template) ↔ IsTemplate value := by
  simp only [readTemplate, bind_eq_ok, readObject_eq_ok, build_eq_ok, Template.wellFormed_iff]
  constructor
  · rintro ⟨_, _, ⟨fields, rfl, rfl⟩, name, hname, location, hlocation, callSites, hcallSites,
      hword, -⟩
    exact
      { name := (exists_word_iff path).1 ⟨name, hname, hword⟩
        place := (exists_location_iff path fields).1 ⟨location, hlocation⟩
        callSites := (exists_listOf_iff path exists_callSite_iff).1 ⟨callSites, hcallSites⟩ }
  · intro h
    obtain ⟨fields, rfl⟩ := exists_fields_of_requires h.name
    obtain ⟨name, hname, hword⟩ := (exists_word_iff path).2 h.name
    obtain ⟨location, hlocation⟩ := (exists_location_iff path fields).2 h.place
    obtain ⟨callSites, hcallSites⟩ := (exists_listOf_iff path exists_callSite_iff).2 h.callSites
    exact ⟨_, _, ⟨fields, rfl, rfl⟩, name, hname, location, hlocation, callSites, hcallSites,
      hword, rfl⟩

/-! ### Snapshots -/

/-- What becomes of an entry: it is loaded if its value has a shape, and rejected if not. -/
def LoadedIf {α : Type} (shape : Json → Prop) (loaded : List α) (rejected : List Rejection)
    (entry : Except Rejection α) (value : Json) : Prop :=
  (shape value ∧ ∃ part ∈ loaded, entry = .ok part) ∨
    (¬ shape value ∧ ∃ rejection ∈ rejected, entry = .error rejection)

theorem forall₂_readEntries {α : Type} {read : Path → Json → Reading α} {shape : Json → Prop}
    (h : ∀ path value, (∃ a, read path value = .ok a) ↔ shape value) (key : String)
    (position : Nat) (values : List Json) :
    List.Forall₂ (fun entry value => (∃ part, entry = .ok part) ↔ shape value)
      (readEntries key read position values) values := by
  induction values generalizing position with
  | nil => exact .nil
  | cons value rest ih =>
    refine .cons ?_ (ih (position + 1))
    rw [← h [.key key, .item position]]
    cases read [.key key, .item position] value <;> simp

theorem mem_accepted {α : Type} {entries : List (Except Rejection α)} {part : α} :
    part ∈ accepted entries ↔ .ok part ∈ entries := by
  rw [accepted, List.mem_filterMap]
  constructor
  · rintro ⟨entry, hentry, hsome⟩
    cases entry with
    | ok part' => obtain rfl := Option.some.inj hsome; exact hentry
    | error rejection => cases hsome
  · intro hentry
    exact ⟨_, hentry, rfl⟩

theorem mem_rejections {α : Type} {entries : List (Except Rejection α)} {rejection : Rejection} :
    rejection ∈ rejections entries ↔ .error rejection ∈ entries := by
  rw [rejections, List.mem_filterMap]
  constructor
  · rintro ⟨entry, hentry, hsome⟩
    cases entry with
    | ok part => cases hsome
    | error rejection' => obtain rfl := Option.some.inj hsome; exact hentry
  · intro hentry
    exact ⟨_, hentry, rfl⟩

/-- Entries of which those with a shape were read are loaded or rejected accordingly. -/
theorem forall₂_loadedIf {α : Type} {shape : Json → Prop} {entries : List (Except Rejection α)}
    {values : List Json} {rejected : List Rejection}
    (h : List.Forall₂ (fun entry value => (∃ part, entry = .ok part) ↔ shape value) entries values)
    (hrejected : ∀ rejection ∈ rejections entries, rejection ∈ rejected) :
    List.Forall₂ (LoadedIf shape (accepted entries) rejected) entries values := by
  have hmem : List.Forall₂ (fun entry value => entry ∈ entries ∧
      ((∃ part, entry = .ok part) ↔ shape value)) entries values :=
    (List.forall₂_and_left entries values).2 ⟨fun _ hentry => hentry, h⟩
  refine hmem.imp ?_
  rintro (rejection | part) value ⟨hentry, hiff⟩
  · refine .inr ⟨fun hshape => ?_, rejection, hrejected rejection (mem_rejections.2 hentry), rfl⟩
    obtain ⟨part, hpart⟩ := hiff.2 hshape
    cases hpart
  · exact .inl ⟨hiff.1 ⟨part, rfl⟩, part, mem_accepted.2 hentry, rfl⟩

theorem entryList_eq_ok {fields : List (Text × Json)} {key : String} {items : List Json} :
    entryList fields key = .ok items ↔
      (Json.obj fields).Allows key (IsListOf fun _ => True) ∧
        items = (Json.obj fields).itemsUnder key := by
  have hlist : entryList fields key = .ok items ↔
      Place.list ⟨[.key "snapshot"], fields⟩ key = .ok items := by
    unfold entryList
    cases Place.list ⟨[.key "snapshot"], fields⟩ key <;> simp
  rw [hlist, list_eq_ok]
  unfold Allows itemsUnder
  cases hkey : (Json.obj fields).field? key with
  | none => simp
  | some found => cases found <;> simp [IsListOf, eq_comm]

theorem read_eq_ok {value : Json} {contents : Contents} :
    read value = .ok contents ↔
      IsSnapshot value ∧
        contents = ⟨readEntries "classes" readClass 0 (value.itemsUnder "classes"),
          readEntries "templates" readTemplate 0 (value.itemsUnder "templates")⟩ := by
  cases value with
  | obj fields =>
    simp only [read, bind_eq_ok, entryList_eq_ok]
    constructor
    · rintro ⟨_, ⟨hclasses, rfl⟩, _, ⟨htemplates, rfl⟩, heq⟩
      exact ⟨⟨⟨fields, rfl⟩, hclasses, htemplates⟩, (Except.ok.inj heq).symm⟩
    · rintro ⟨⟨-, hclasses, htemplates⟩, rfl⟩
      exact ⟨_, ⟨hclasses, rfl⟩, _, ⟨htemplates, rfl⟩, rfl⟩
  | _ =>
    constructor
    · intro h
      cases h
    · rintro ⟨⟨⟨fields, hfields⟩, -, -⟩, -⟩
      cases hfields

/-- Reading accepts exactly the grammar.  A snapshot is read if it is an object with lists of
entries, if any, and then each class and each template is loaded if it follows the grammar, and
rejected if it does not. -/
theorem read_accepts_grammar (value : Json) :
    ((∃ contents, read value = .ok contents) ↔ IsSnapshot value) ∧
    ∀ contents, read value = .ok contents →
      List.Forall₂ (LoadedIf IsClass contents.model.classes contents.rejected)
        contents.classes (value.itemsUnder "classes") ∧
      List.Forall₂ (LoadedIf IsTemplate contents.model.templates contents.rejected)
        contents.templates (value.itemsUnder "templates") := by
  refine ⟨?_, ?_⟩
  · simp only [read_eq_ok, exists_and_left, exists_eq, and_true]
  · rintro contents h
    obtain ⟨-, rfl⟩ := read_eq_ok.1 h
    refine ⟨forall₂_loadedIf (forall₂_readEntries exists_class_iff _ _ _) ?_,
      forall₂_loadedIf (forall₂_readEntries exists_template_iff _ _ _) ?_⟩
    · exact fun _ hrejection => List.mem_append_left _ hrejection
    · exact fun _ hrejection => List.mem_append_right _ hrejection

/-- A class with a method that has no owner, whose origin is spelled with a long s. -/
def longS : Json := .obj
  [("name", .str "Invoice"), ("layer", .str "model"), ("file", .str ""),
   ("methods", .arr [.obj
     [("name", .str "total"), ("owner", .null),
      ("call_sites", .arr [.obj
        [("origin", .str "ſelf"), ("chain", .arr [.str "customer"]), ("line", .int 3)]])]])]

/-- The same class, with a truth value for a line. -/
def lineTrue : Json := .obj
  [("name", .str "Invoice"), ("layer", .str "model"), ("file", .str ""), ("line", .bool true)]

theorem isClass_longS : IsClass longS where
  name := ⟨_, rfl, "Invoice", rfl, by decide⟩
  associations := .of_absent _ rfl
  methods := by
    refine .of_present rfl ⟨_, rfl, List.forall_mem_singleton.2 ?_⟩
    exact
      { name := ⟨_, rfl, "total", rfl, by decide⟩
        owner := .of_present rfl (.inl rfl)
        callSites := by
          refine .of_present rfl ⟨_, rfl, List.forall_mem_singleton.2 ?_⟩
          exact
            { origin := ⟨_, rfl, "ſelf", rfl, .self, by decide⟩
              root := .of_absent _ rfl
              selfRoot := fun _ => .of_absent _ rfl
              chain := ⟨_, rfl, ⟨_, rfl, List.forall_mem_singleton.2 ⟨_, rfl, by decide⟩⟩, nofun⟩
              line := ⟨_, rfl, 3, rfl, by decide⟩
              rootClass := .of_absent _ rfl
              targetClass := .of_absent _ rfl }
        line := .of_absent _ rfl
        isClassLevel := .of_absent _ rfl
        isCallback := .of_absent _ rfl
        wrapsTransaction := .of_absent _ rfl
        delegatesTo := .of_absent _ rfl
        includedFrom := .of_absent _ rfl
        invokedMethods := .of_absent _ rfl }
  layer := ⟨_, rfl, "model", rfl, .model, rfl⟩
  place := ⟨⟨_, rfl, "", rfl, trivial⟩, .of_absent _ rfl, .of_absent _ rfl⟩
  includedModules := .of_absent _ rfl

theorem not_isClass_lineTrue : ¬ IsClass lineTrue := by
  intro h
  obtain ⟨n, hn, -⟩ := h.place.line (.bool true) rfl
  cases hn

theorem read_accepts_grammar_mixed :
    ∃ contents decl rejection,
      read (.obj [("classes", .arr [longS, lineTrue])]) = .ok contents ∧
      contents.classes = [.ok decl, .error rejection] ∧ decl ∈ contents.model.classes ∧
      rejection ∈ contents.rejected ∧ contents.templates = [] := by
  obtain ⟨hread, hentries⟩ := read_accepts_grammar (.obj [("classes", .arr [longS, lineTrue])])
  obtain ⟨contents, hcontents⟩ := hread.2
    ⟨⟨_, rfl⟩, .of_present rfl ⟨_, rfl, fun _ _ => trivial⟩, .of_absent _ rfl⟩
  have hclasses : List.Forall₂ _ contents.classes [longS, lineTrue] :=
    (hentries contents hcontents).1
  have htemplates : List.Forall₂ _ contents.templates [] := (hentries contents hcontents).2
  obtain ⟨first, _, hfirst, hrest, hclasses⟩ := List.forall₂_cons_right_iff.1 hclasses
  obtain ⟨second, _, hsecond, hnil, rfl⟩ := List.forall₂_cons_right_iff.1 hrest
  obtain rfl := List.forall₂_nil_right_iff.1 hnil
  -- the first entry follows the grammar and the second does not
  rcases hfirst with ⟨-, decl, hdecl, rfl⟩ | ⟨hnot, -⟩
  · rcases hsecond with ⟨hclass, -⟩ | ⟨-, rejection, hrejection, rfl⟩
    · exact absurd hclass not_isClass_lineTrue
    · exact ⟨contents, decl, rejection, hcontents, hclasses, hdecl, hrejection,
        List.forall₂_nil_right_iff.1 htemplates⟩
  · exact absurd isClass_longS hnot

end Snapshot

end ObjectAudit
