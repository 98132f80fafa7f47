/-
ObjectAudit/Proofs/FaultPaths.lean

Where the faults of a snapshot point to.

The parts of an entry (`Part`) have fields that have to be there and fields that may be left out,
and some of these hold further parts.  A fault in a part blames a place inside it (`Blames`): the
path of the fault goes on behind the path of the part, and leads from the value of the part to a
value in it.  Only a field that has to be there and is not has no value to lead to; then the path
leads to the object that lacks it (`LeadsInto`).

Each reader blames a place inside of what it reads.  For the readers of fields this is one lemma
each (`blames_text` and those after it), readers of parts are put together from these step by step
(`Blames.bind`), and a part inside another hands its blame on (`Blames.of_inner`).

Main result: the reason for which an entry is rejected begins with a path, and this leads into
the entry (`read_reasons_lead_into`).
-/
import ObjectAudit.Proofs.EntryIsolation
import ObjectAudit.Proofs.PathText

namespace ObjectAudit

/-! ### Following a path -/

namespace Json

/-- The item at a position, if this is a list that has it. -/
def item? (position : Nat) : Json → Option Json
  | arr items => items[position]?
  | _ => none

/-- The value that a path leads to. -/
def at? (value : Json) : Snapshot.Path → Option Json
  | [] => some value
  | .key name :: rest => (value.field? name).bind fun inner => inner.at? rest
  | .item position :: rest => (value.item? position).bind fun inner => inner.at? rest

end Json

namespace Snapshot

/-! ### The layout of an entry -/

/-- The kinds of objects in an entry. -/
inductive Part where
  | classEntry
  | template
  | association
  | method
  | delegation
  | callSite
deriving DecidableEq, Repr

namespace Part

/-- The fields that have to be there. -/
def required : Part → List String
  | classEntry => ["name", "layer", "file"]
  | template => ["name", "file"]
  | association => ["target", "kind", "accessor"]
  | method => ["name"]
  | delegation => ["association", "member"]
  | callSite => ["origin", "line"]

/-- The fields that may be left out. -/
def optional : Part → List String
  | classEntry => ["associations", "methods", "line", "column", "included_modules"]
  | template => ["line", "column", "call_sites"]
  | association => ["source"]
  | method =>
    ["delegates_to", "owner", "call_sites", "line", "class_level", "callback", "transaction",
     "included_from", "invokes"]
  | delegation => []
  | callSite => ["root", "chain", "root_class", "target_class"]

/-- All fields. -/
def fields (part : Part) : List String := part.required ++ part.optional

/-- The fields that list parts, and their kind. -/
def lists : Part → List (String × Part)
  | classEntry => [("associations", association), ("methods", method)]
  | template => [("call_sites", callSite)]
  | method => [("call_sites", callSite)]
  | association | delegation | callSite => []

/-- The way from a part to one that it holds. -/
inductive Holds : Part → Path → Part → Prop
  | itself (part : Part) : Holds part [] part
  | item {part inner last : Part} {key : String} {path : Path} (position : Nat) :
      (key, inner) ∈ part.lists → Holds inner path last →
      Holds part (.key key :: .item position :: path) last
  | delegation {last : Part} {path : Path} :
      Holds .delegation path last → Holds .method (.key "delegates_to" :: path) last

theorem isPlain_of_mem_fields {part : Part} {key : String} (h : key ∈ part.fields) :
    IsPlain key := by
  have hall : (part.fields.all fun key =>
      key.toList.all fun c => !List.contains ['.', '[', ']', ':'] c) = true := by
    cases part <;> decide +kernel
  exact isPlain_of_all (List.all_eq_true.1 hall key h)

theorem mem_fields_of_mem_lists {part inner : Part} {key : String} (h : (key, inner) ∈ part.lists) :
    key ∈ part.fields := by
  have hall : ∀ entry ∈ part.lists, entry.1 ∈ part.fields := by cases part <;> decide
  exact hall _ h

end Part

/-! ### Blame -/

/-- A path leads into the value of a part: to a value, or to an object for want of a field that has
to be there. -/
inductive LeadsInto (part : Part) (value : Json) (cause : ShapeCause) : Path → Prop
  | found {path : Path} {inner : Json} : value.at? path = some inner →
      LeadsInto part value cause path
  | lacking {front : Path} {key : String} {inner : Part} {fields : List (Text × Json)} :
      part.Holds front inner → key ∈ inner.required → value.at? front = some (.obj fields) →
      fields.lookup (.whole key) = none → cause = .missingField →
      LeadsInto part value cause (front ++ [.key key])

/-- If a reading of a part fails, then at a place inside the part. -/
def Blames {α : Type} (part : Part) (path : Path) (value : Json) (reading : Reading α) : Prop :=
  ∀ fault, reading = .error fault → ∃ rest, fault.path = path ++ rest ∧
    LeadsInto part value fault.cause rest ∧ PlainKeys rest

section Blame

variable {α β : Type} {part : Part} {path : Path} {value : Json}

theorem bind_eq_error {reading : Reading α} {next : α → Reading β} {fault : ShapeFault} :
    reading >>= next = .error fault ↔
      reading = .error fault ∨ ∃ a, reading = .ok a ∧ next a = .error fault := by
  cases reading <;> simp [bind, Except.bind]

theorem blames_ok (a : α) : Blames part path value (.ok a) := by
  intro fault h
  cases h

theorem Blames.bind {reading : Reading α} {next : α → Reading β}
    (h : Blames part path value reading)
    (hnext : ∀ a, reading = .ok a → Blames part path value (next a)) :
    Blames part path value (reading >>= next) := by
  intro fault hfault
  rcases bind_eq_error.1 hfault with hfirst | ⟨a, ha, hsecond⟩
  · exact h fault hfirst
  · exact hnext a ha fault hsecond

theorem Blames.map {reading : Reading α} (h : Blames part path value reading) (f : α → β) :
    Blames part path value (reading.map f) := by
  intro fault hfault
  cases reading with
  | ok a => cases hfault
  | error fault' =>
    obtain rfl := Except.error.inj hfault
    exact h fault' rfl

/-- A fault may blame a value that is there. -/
theorem blames_at {steps : Path} {found : Json} (hfound : value.at? steps = some found)
    (hplain : PlainKeys steps) (cause : ShapeCause) :
    Blames part path value (.error ⟨path ++ steps, cause⟩ : Reading α) := by
  intro fault hfault
  obtain rfl := Except.error.inj hfault
  exact ⟨steps, rfl, .found hfound, hplain⟩

theorem blames_here (cause : ShapeCause) :
    Blames part path value (.error ⟨path, cause⟩ : Reading α) := by
  have hhere := @blames_at α part path value [] value rfl plainKeys_nil cause
  rwa [List.append_nil] at hhere

theorem blames_build [Checked α] (a : α) : Blames part path value (build path a) := by
  unfold build
  cases checked a with
  | ok a => exact blames_ok a
  | error defect => exact blames_here _

/-- What is blamed inside a part that another part holds is blamed inside that one. -/
theorem Blames.of_inner {inner : Part} {found : Json} {steps : Path} {reading : Reading α}
    (hat : ∀ rest, value.at? (steps ++ rest) = found.at? rest)
    (hholds : ∀ rest last, inner.Holds rest last → part.Holds (steps ++ rest) last)
    (hplain : PlainKeys steps) (h : Blames inner (path ++ steps) found reading) :
    Blames part path value reading := by
  intro fault hfault
  obtain ⟨rest, hpath, hleads, hrest⟩ := h fault hfault
  refine ⟨steps ++ rest, hpath.trans (List.append_assoc path steps rest), ?_, hplain.append hrest⟩
  cases hleads with
  | found hinner => exact .found ((hat _).trans hinner)
  | lacking hinner hrequired hfields hnone hcause =>
    rw [← List.append_assoc]
    exact .lacking (hholds _ _ hinner) hrequired ((hat _).trans hfields) hnone hcause

end Blame

/-! ### Fields -/

section Fields

variable {α : Type} {part : Part} {path : Path} {fields : List (Text × Json)} {key : String}

theorem at?_key {found : Json} (h : fields.lookup (.whole key) = some found) (rest : Path) :
    (Json.obj fields).at? (.key key :: rest) = found.at? rest := by
  show (fields.lookup (.whole key)).bind _ = _
  rw [h]
  rfl

theorem at?_item {items : List Json} {item : Json} {position : Nat}
    (h : fields.lookup (.whole key) = some (.arr items)) (hitem : items[position]? = some item)
    (rest : Path) : (Json.obj fields).at? (.key key :: .item position :: rest) = item.at? rest := by
  rw [at?_key h]
  show items[position]?.bind _ = _
  rw [hitem]
  rfl

/-- A fault may blame a field that is there. -/
theorem blames_field {found : Json} (hkey : key ∈ part.fields)
    (hfound : fields.lookup (.whole key) = some found) (cause : ShapeCause) :
    Blames part path (.obj fields) (.error ⟨path ++ [.key key], cause⟩ : Reading α) :=
  blames_at (at?_key hfound []) (.consKey (Part.isPlain_of_mem_fields hkey) plainKeys_nil) cause

theorem blames_required (hkey : key ∈ part.required) :
    Blames part path (.obj fields) (Place.required ⟨path, fields⟩ key) := by
  unfold Place.required Place.field?
  cases hfound : fields.lookup (.whole key) with
  | some found => exact blames_ok found
  | none =>
    intro fault hfault
    obtain rfl := Except.error.inj hfault
    exact ⟨[.key key], rfl, .lacking (.itself part) hkey rfl hfound rfl,
      .consKey (Part.isPlain_of_mem_fields (List.mem_append_left _ hkey)) plainKeys_nil⟩

theorem blames_asText {found : Json} (hkey : key ∈ part.fields)
    (hfound : fields.lookup (.whole key) = some found) :
    Blames part path (.obj fields) (Place.asText ⟨path, fields⟩ key found) := by
  unfold Place.asText
  cases found.text? with
  | some s => exact blames_ok s
  | none => exact blames_field hkey hfound _

theorem blames_text (hkey : key ∈ part.required) :
    Blames part path (.obj fields) (Place.text ⟨path, fields⟩ key) :=
  (blames_required hkey).bind fun _ hfound =>
    (blames_asText (List.mem_append_left _ hkey) (required_eq_ok.1 hfound)).bind fun text _ =>
      blames_ok text.shown

/-- A text that has to be there may be blamed by what is read from it. -/
theorem blames_requiredText {next : Json → Text → Reading α} (hkey : key ∈ part.required)
    (h : ∀ got text, fields.lookup (.whole key) = some got →
      Blames part path (.obj fields) (next got text)) :
    Blames part path (.obj fields) (do
      let got ← Place.required ⟨path, fields⟩ key
      let text ← Place.asText ⟨path, fields⟩ key got
      next got text) := by
  refine (blames_required hkey).bind fun got hgot => ?_
  have hfound := required_eq_ok.1 hgot
  refine (blames_asText (List.mem_append_left _ hkey) hfound).bind fun text _ => ?_
  exact h got text hfound

theorem blames_textOr (hkey : key ∈ part.fields) (own : String) :
    Blames part path (.obj fields) (Place.textOr ⟨path, fields⟩ key own) := by
  unfold Place.textOr Place.field?
  cases hfound : fields.lookup (.whole key) with
  | some found => exact (blames_asText hkey hfound).map Text.shown
  | none => exact blames_ok own

theorem blames_optionalText (hkey : key ∈ part.fields) (own : Option String) :
    Blames part path (.obj fields) (Place.optionalText ⟨path, fields⟩ key own) := by
  unfold Place.optionalText Place.field?
  cases hfound : fields.lookup (.whole key) with
  | none => exact blames_ok own
  | some found =>
    cases found with
    | null => exact blames_ok none
    | str s => exact blames_ok (some s.shown)
    | _ => exact blames_field hkey hfound _

theorem blames_asInteger {found : Json} (hkey : key ∈ part.fields)
    (hfound : fields.lookup (.whole key) = some found) :
    Blames part path (.obj fields) (Place.asInteger ⟨path, fields⟩ key found) := by
  cases found with
  | int n => exact blames_ok n
  | _ => exact blames_field hkey hfound _

theorem blames_integer (hkey : key ∈ part.required) :
    Blames part path (.obj fields) (Place.integer ⟨path, fields⟩ key) :=
  (blames_required hkey).bind fun _ hfound =>
    blames_asInteger (List.mem_append_left _ hkey) (required_eq_ok.1 hfound)

theorem blames_integerOr (hkey : key ∈ part.fields) (own : Int) :
    Blames part path (.obj fields) (Place.integerOr ⟨path, fields⟩ key own) := by
  unfold Place.integerOr Place.field?
  cases hfound : fields.lookup (.whole key) with
  | some found => exact blames_asInteger hkey hfound
  | none => exact blames_ok own

theorem blames_flag (hkey : key ∈ part.fields) :
    Blames part path (.obj fields) (Place.flag ⟨path, fields⟩ key) := by
  unfold Place.flag Place.field?
  cases hfound : fields.lookup (.whole key) with
  | none => exact blames_ok false
  | some found =>
    cases found with
    | bool b => exact blames_ok b
    | _ => exact blames_field hkey hfound _

theorem blames_list (hkey : key ∈ part.fields) :
    Blames part path (.obj fields) (Place.list ⟨path, fields⟩ key) := by
  unfold Place.list Place.field?
  cases hfound : fields.lookup (.whole key) with
  | none => exact blames_ok []
  | some found =>
    cases found with
    | arr items => exact blames_ok items
    | _ => exact blames_field hkey hfound _

/-- A list fails at one of its items. -/
theorem exists_of_readItems_eq_error {read : Path → Json → Reading α} {position : Nat}
    {items : List Json} {fault : ShapeFault}
    (h : readItems path read position items = .error fault) :
    ∃ i item, items[i]? = some item ∧
      read (path ++ [.item (position + i)]) item = .error fault := by
  induction items generalizing position with
  | nil => cases h
  | cons item rest ih =>
    rw [readItems, bind_eq_error] at h
    rcases h with hitem | ⟨part, -, hrest⟩
    · exact ⟨0, item, rfl, hitem⟩
    · -- what fails behind the first item stands one position further on
      rcases bind_eq_error.1 hrest with hrest | ⟨parts, -, hnone⟩
      · obtain ⟨i, item', hi, hread⟩ := ih hrest
        refine ⟨i + 1, item', hi, ?_⟩
        rwa [Nat.add_assoc, Nat.add_comm 1] at hread
      · cases hnone

/-- A list blames a place inside, if each of its items does. -/
theorem blames_items {read : Path → Json → Reading α} (hkey : key ∈ part.fields)
    (h : ∀ (items : List Json) (i : Nat) item, fields.lookup (.whole key) = some (.arr items) →
      items[i]? = some item →
      Blames part path (.obj fields) (read (path ++ [.key key] ++ [.item i]) item)) :
    Blames part path (.obj fields) (Place.listOf ⟨path, fields⟩ key read) := by
  refine (blames_list hkey).bind ?_
  intro items hitems fault hfault
  obtain ⟨i, item, hi, hread⟩ := exists_of_readItems_eq_error hfault
  rw [Nat.zero_add] at hread
  rcases list_eq_ok.1 hitems with ⟨-, rfl⟩ | hlookup
  · cases hi
  · exact h items i item hlookup hi fault hread

/-- A list of parts hands on what is blamed inside one of them. -/
theorem blames_listOf {read : Path → Json → Reading α} {inner : Part}
    (hkey : (key, inner) ∈ part.lists) (h : ∀ path item, Blames inner path item (read path item)) :
    Blames part path (.obj fields) (Place.listOf ⟨path, fields⟩ key read) := by
  have hfield := Part.mem_fields_of_mem_lists hkey
  have hplain := Part.isPlain_of_mem_fields hfield
  refine blames_items hfield ?_
  intro items i item hitems hitem
  refine .of_inner (at?_item hitems hitem) (fun _ _ => .item i hkey)
    (.consKey hplain (.consItem i plainKeys_nil)) ?_
  rw [List.append_assoc]
  exact h _ item

theorem blames_texts (hkey : key ∈ part.fields) :
    Blames part path (.obj fields) (Place.texts ⟨path, fields⟩ key) := by
  refine blames_items hkey ?_
  intro items i item hitems hitem
  cases item.text? with
  | some s => exact blames_ok s.shown
  | none =>
    rw [List.append_assoc]
    exact blames_at (at?_item hitems hitem [])
      (.consKey (Part.isPlain_of_mem_fields hkey) (.consItem i plainKeys_nil)) _

theorem blames_choice (hkey : key ∈ part.required) (all : List α) (name : α → String) :
    Blames part path (.obj fields) (Place.choice ⟨path, fields⟩ key all name) := by
  refine blames_requiredText hkey fun got text hfound => ?_
  cases all.find? fun a => name a == text with
  | some a => exact blames_ok a
  | none => exact blames_field (List.mem_append_left _ hkey) hfound _

end Fields

/-! ### Parts -/

section Parts

variable (path : Path)

theorem blames_readOrigin (fields : List (Text × Json)) :
    Blames .callSite path (.obj fields) (readOrigin ⟨path, fields⟩) := by
  refine blames_requiredText (by decide) fun got name hfound => ?_
  cases originOf? name with
  | some origin => exact blames_ok origin
  | none => exact blames_field (by decide) hfound _

theorem blames_readCallSite (value : Json) :
    Blames .callSite path value (readCallSite path value) := by
  cases value with
  | obj fields =>
    refine (blames_readOrigin path fields).bind fun origin _ => ?_
    refine (blames_textOr (by decide) "self").bind fun root _ => ?_
    refine (blames_texts (by decide)).bind fun chain _ => ?_
    refine (blames_integer (by decide)).bind fun line _ => ?_
    refine (blames_optionalText (by decide) none).bind fun rootClass _ => ?_
    refine (blames_optionalText (by decide) none).bind fun targetClass _ => ?_
    -- fields that can be read may still make no call site, and then the site as a whole is blamed
    cases checked { origin, root, chain, line, rootClass, targetClass : CallSite } with
    | ok site => exact blames_ok site
    | error defect => exact blames_here _
  | _ => exact blames_here _

/-- The place of an entry stands among its fields, where the file has to be there. -/
theorem blames_readLocation {part : Part} (hfile : "file" ∈ part.required)
    (hline : "line" ∈ part.fields) (hcolumn : "column" ∈ part.fields)
    (fields : List (Text × Json)) :
    Blames part path (.obj fields) (readLocation ⟨path, fields⟩) := by
  refine (blames_text hfile).bind fun file _ => ?_
  refine (blames_integerOr hline 1).bind fun line _ => ?_
  refine (blames_integerOr hcolumn 0).bind fun column _ => ?_
  exact blames_build _

theorem blames_readAssociation (owner : String) (value : Json) :
    Blames .association path value (readAssociation owner path value) := by
  cases value with
  | obj fields =>
    refine (blames_textOr (by decide) owner).bind fun source _ => ?_
    refine (blames_text (by decide)).bind fun target _ => ?_
    refine (blames_choice (by decide) _ _).bind fun kind _ => ?_
    refine (blames_text (by decide)).bind fun accessor _ => ?_
    exact blames_build _
  | _ => exact blames_here _

theorem blames_readDelegation (value : Json) :
    Blames .delegation path value (readDelegation path value) := by
  cases value with
  | obj fields =>
    refine (blames_text (by decide)).bind fun association _ => ?_
    refine (blames_text (by decide)).bind fun member _ => ?_
    exact blames_build _
  | _ => exact blames_here _

theorem blames_readForwarding (fields : List (Text × Json)) :
    Blames .method path (.obj fields) (readForwarding ⟨path, fields⟩) := by
  have hfield : "delegates_to" ∈ Part.method.fields := by decide
  -- a fault of the delegation is one step further inside
  have hinside : ∀ found, fields.lookup (.whole "delegates_to") = some found →
      Blames .method path (.obj fields) (readDelegation (path ++ [.key "delegates_to"]) found) :=
    fun found hfound => .of_inner (at?_key hfound) (fun _ _ => .delegation)
      (.consKey (Part.isPlain_of_mem_fields hfield) plainKeys_nil) (blames_readDelegation _ found)
  unfold readForwarding Place.field?
  cases hfound : fields.lookup (.whole "delegates_to") with
  | none => exact blames_ok none
  | some found =>
    cases found with
    | null => exact blames_ok none
    | _ => exact (hinside _ hfound).map some

theorem blames_readMethod (owner : String) (value : Json) :
    Blames .method path value (readMethod owner path value) := by
  cases value with
  | obj fields =>
    refine (blames_readForwarding path fields).bind fun delegatesTo _ => ?_
    refine (blames_text (by decide)).bind fun name _ => ?_
    refine (blames_optionalText (by decide) (some owner)).bind fun owner _ => ?_
    refine (blames_listOf (by decide) blames_readCallSite).bind fun callSites _ => ?_
    refine (blames_integerOr (by decide) 1).bind fun line _ => ?_
    refine (blames_flag (by decide)).bind fun isClassLevel _ => ?_
    refine (blames_flag (by decide)).bind fun isCallback _ => ?_
    refine (blames_flag (by decide)).bind fun wrapsTransaction _ => ?_
    refine (blames_optionalText (by decide) none).bind fun includedFrom _ => ?_
    refine (blames_texts (by decide)).bind fun invokedMethods _ => ?_
    exact blames_build _
  | _ => exact blames_here _

theorem blames_readClass (value : Json) :
    Blames .classEntry path value (readClass path value) := by
  cases value with
  | obj fields =>
    refine (blames_text (by decide)).bind fun name _ => ?_
    refine (blames_listOf (by decide) fun path => blames_readAssociation path name).bind
      fun associations _ => ?_
    refine (blames_listOf (by decide) fun path => blames_readMethod path name).bind
      fun methods _ => ?_
    refine (blames_choice (by decide) _ _).bind fun layer _ => ?_
    refine (blames_readLocation path (by decide) (by decide) (by decide) fields).bind
      fun location _ => ?_
    refine (blames_texts (by decide)).bind fun includedModules _ => ?_
    exact blames_build _
  | _ => exact blames_here _

theorem blames_readTemplate (value : Json) :
    Blames .template path value (readTemplate path value) := by
  cases value with
  | obj fields =>
    refine (blames_text (by decide)).bind fun name _ => ?_
    refine (blames_readLocation path (by decide) (by decide) (by decide) fields).bind
      fun location _ => ?_
    refine (blames_listOf (by decide) blames_readCallSite).bind fun callSites _ => ?_
    exact blames_build _
  | _ => exact blames_here _

end Parts

/-! ### Rejected entries -/

/-- A reason points into an entry: it is the path of the fault with what its cause says, and the
path in it leads from the entry at the position that it names to the place of the fault. -/
structure PointsInto {α : Type} (key : String) (read : Path → Json → Reading α) (part : Part)
    (position : Nat) (entry : Json) (rest : Path) (cause : ShapeCause) (reason : String) :
    Prop where
  fails : read [.key key, .item position] entry =
    .error ⟨.key key :: .item position :: rest, cause⟩
  text : reason = key ++ (Step.item position).text ++ String.join (rest.map Step.text) ++ ": " ++
    cause.reason
  path : pathIn reason = .key key :: .item position :: rest
  leads : LeadsInto part entry cause rest

theorem at?_of_itemsUnder {value entry : Json} {key : String} {i : Nat}
    (h : (value.itemsUnder key)[i]? = some entry) :
    value.at? [.key key, .item i] = some entry := by
  unfold Json.itemsUnder at h
  show (value.field? key).bind _ = _
  split at h
  · next items hitems =>
    rw [hitems]
    show items[i]?.bind _ = _
    rw [h]
    rfl
  · cases h

/-- The reason of an entry that was rejected points into it. -/
theorem pointsInto_of_rejected {α : Type} {key : String} {read : Path → Json → Reading α}
    {part : Part} (hkey : IsPlain key)
    (hread : ∀ path value, Blames part path value (read path value)) {value : Json} {i : Nat}
    {rejection : Rejection}
    (h : (readEntries key read 0 (value.itemsUnder key))[i]? = some (.error rejection)) :
    ∃ entry rest cause, value.at? [.key key, .item i] = some entry ∧
      PointsInto key read part i entry rest cause rejection.skipped.reason := by
  rw [getElem?_readEntries, Option.map_eq_some_iff] at h
  obtain ⟨entry, hentry, hrejected⟩ := h
  unfold entryAt at hrejected
  split at hrejected
  · cases hrejected
  · next fault hfault =>
    obtain rfl := Except.error.inj hrejected
    -- the fault's path starts with the two steps to the entry
    obtain ⟨rest, hpath, hleads, hplain⟩ := hread _ entry fault hfault
    obtain ⟨path, cause⟩ := fault
    obtain rfl : path = .key key :: .item i :: rest := hpath
    refine ⟨entry, rest, cause, at?_of_itemsUnder hentry, hfault, ?_, ?_, hleads⟩
    · show malformedMessage (pathText (.key key :: .item i :: rest)) cause.reason = _
      rw [pathText, List.map_cons, String.join_cons, ← String.append_assoc]
      rfl
    · exact pathIn_malformedMessage (.consKey hkey (.consItem i hplain)) cause.reason

/-- Reasons point into the snapshot.  If a class or template is rejected, then the reason is a path
and a text; the path starts with the position of the entry and, read step by step, leads to a value
inside the entry, or to an object in it that lacks a field that has to be there.  Nothing else is
rejected. -/
theorem read_reasons_lead_into {value : Json} {contents : Contents}
    (h : read value = .ok contents) :
    (∀ (i : Nat) rejection, contents.classes[i]? = some (.error rejection) →
      ∃ entry rest cause, value.at? [.key "classes", .item i] = some entry ∧
        PointsInto "classes" readClass .classEntry i entry rest cause rejection.skipped.reason) ∧
    (∀ (i : Nat) rejection, contents.templates[i]? = some (.error rejection) →
      ∃ entry rest cause, value.at? [.key "templates", .item i] = some entry ∧
        PointsInto "templates" readTemplate .template i entry rest cause
          rejection.skipped.reason) ∧
    ∀ skipped ∈ contents.model.rejected, ∃ (i : Nat) (rejection : Rejection),
      rejection.skipped = skipped ∧
      (contents.classes[i]? = some (.error rejection) ∨
        contents.templates[i]? = some (.error rejection)) := by
  obtain ⟨-, rfl⟩ := read_eq_ok.1 h
  refine ⟨?_, ?_, ?_⟩
  · intro i rejection hentry
    exact pointsInto_of_rejected (isPlain_of_all (by decide +kernel)) blames_readClass hentry
  · intro i rejection hentry
    exact pointsInto_of_rejected (isPlain_of_all (by decide +kernel)) blames_readTemplate hentry
  · -- a skipped unit is one of the rejections, of a class or else of a template
    intro skipped hskipped
    obtain ⟨rejection, hrejection, rfl⟩ := List.mem_map.1 hskipped
    rcases List.mem_append.1 hrejection with hclass | htemplate
    · obtain ⟨i, hi⟩ := List.mem_iff_getElem?.1 (mem_rejections.1 hclass)
      exact ⟨i, rejection, rfl, .inl hi⟩
    · obtain ⟨i, hi⟩ := List.mem_iff_getElem?.1 (mem_rejections.1 htemplate)
      exact ⟨i, rejection, rfl, .inr hi⟩

/-- A class of which a call site of the second method has no origin. -/
def originless : Json := .obj
  [("name", .str "Invoice"), ("layer", .str "model"), ("file", .str "app/invoice.rb"),
   ("methods", .arr
     [.obj [("name", .str "total")],
      .obj [("name", .str "send"), ("call_sites", .arr
        [.obj [("origin", .str "self"), ("chain", .arr [.str "customer"]), ("line", .int 3)],
         .obj [("chain", .arr [.str "customer"]), ("line", .int 4)]])]])]

theorem readClass_originless (i : Nat) : readClass [.key "classes", .item i] originless =
    .error ⟨[.key "classes", .item i, .key "methods", .item 1, .key "call_sites", .item 1,
      .key "origin"], .missingField⟩ :=
  rfl

/-- The second class is rejected for the origin that is missing in it. -/
theorem read_reasons_lead_into_originless :
    let value := Json.obj [("classes", .arr [longS, originless])]
    let rest : Path := [.key "methods", .item 1, .key "call_sites", .item 1, .key "origin"]
    ∃ contents rejection, read value = .ok contents ∧
      contents.classes[1]? = some (.error rejection) ∧
      rejection.skipped.reason =
        "classes[1].methods[1].call_sites[1].origin: required field is missing" ∧
      pathIn rejection.skipped.reason = .key "classes" :: .item 1 :: rest ∧
      originless.at? rest = none ∧ LeadsInto .classEntry originless .missingField rest := by
  intro value rest
  have hvalue : IsSnapshot value :=
    ⟨⟨_, rfl⟩, .of_present rfl ⟨_, rfl, fun _ _ => trivial⟩, .of_absent _ rfl⟩
  have hread := read_eq_ok.2 ⟨hvalue, rfl⟩
  have hentry := @getElem?_readEntries _ "classes" readClass (value.itemsUnder "classes") 1
  obtain ⟨entry, rest', cause, hat, hpoints⟩ :=
    (read_reasons_lead_into hread).1 1
      (reject _ originless ⟨.key "classes" :: .item 1 :: rest, .missingField⟩) hentry
  obtain rfl : originless = entry := Option.some.inj hat
  have hfault := (readClass_originless 1).symm.trans hpoints.fails
  obtain ⟨rfl, rfl⟩ : rest = rest' ∧ .missingField = cause := by
    cases hfault
    exact ⟨rfl, rfl⟩
  exact ⟨_, _, hread, hentry, hpoints.text, hpoints.path, rfl, hpoints.leads⟩

end Snapshot

end ObjectAudit
