/-
ObjectAudit/Proofs/EntryIsolation.lean

Entries of a snapshot are read one by one, and each one alone.

What a reader is told beside the value is the way to it, and it only hands this on to the faults
that it reports.  So a value that is moved to the end of another path is read as before, and a fault
in it moves along (`relocate`).  Each reader of a field has one lemma that says so
(`text_relocate` and those after it), and each reader of a part follows from these, from call
sites up to entries.

Reading a list of entries therefore asks each value at its position and nothing else
(`readEntries_eq_mapIdx`), and the position shows only in what is said of a rejected entry.

Main result: `read_isolates_entries`.
-/
import ObjectAudit.Proofs.SnapshotGrammar

namespace ObjectAudit.Snapshot

/-! ### Moved readings -/

/-- The outcome of a reading, for a value that is moved to the end of a path. -/
def relocate {α : Type} (base : Path) (reading : Reading α) : Reading α :=
  reading.mapError fun fault => ⟨base ++ fault.path, fault.cause⟩

section Outcomes

variable {α β : Type} (base : Path)

@[simp] theorem relocate_ok (a : α) : relocate base (.ok a) = .ok a := rfl

@[simp] theorem relocate_error (path : Path) (cause : ShapeCause) :
    relocate base (.error ⟨path, cause⟩ : Reading α) = .error ⟨base ++ path, cause⟩ := rfl

theorem relocate_bind (reading : Reading α) (next : α → Reading β) :
    relocate base (reading >>= next) =
      relocate base reading >>= fun a => relocate base (next a) := by
  cases reading <;> rfl

theorem relocate_map (reading : Reading α) (f : α → β) :
    relocate base (reading.map f) = (relocate base reading).map f := by
  cases reading <;> rfl

/-- A part is built in a moved value as before. -/
theorem build_relocate [Checked α] (path : Path) (value : α) :
    build (base ++ path) value = relocate base (build path value) := by
  unfold build
  cases checked value <;> rfl

/-- The items of a list are read as before, if each of them is. -/
theorem readItems_relocate {read : Path → Json → Reading α}
    (h : ∀ path item, read (base ++ path) item = relocate base (read path item))
    (path : Path) (position : Nat) (items : List Json) :
    readItems (base ++ path) read position items =
      relocate base (readItems path read position items) := by
  induction items generalizing position with
  | nil => rfl
  | cons item rest ih =>
    simp only [readItems, relocate_bind, List.append_assoc, h, ih]
    rfl

end Outcomes

/-! ### Fields -/

section Fields

variable (base path : Path) (fields : List (Text × Json)) (key : String)

theorem pathTo_relocate :
    Place.pathTo ⟨base ++ path, fields⟩ key = base ++ Place.pathTo ⟨path, fields⟩ key :=
  List.append_assoc base path [.key key]

theorem required_relocate :
    Place.required ⟨base ++ path, fields⟩ key =
      relocate base (Place.required ⟨path, fields⟩ key) := by
  simp only [Place.required, Place.field?, pathTo_relocate]
  cases fields.lookup (.whole key) <;> rfl

theorem asText_relocate (value : Json) :
    Place.asText ⟨base ++ path, fields⟩ key value =
      relocate base (Place.asText ⟨path, fields⟩ key value) := by
  simp only [Place.asText, pathTo_relocate]
  cases value.text? <;> rfl

theorem text_relocate :
    Place.text ⟨base ++ path, fields⟩ key = relocate base (Place.text ⟨path, fields⟩ key) := by
  simp only [Place.text, required_relocate, asText_relocate, relocate_bind]
  rfl

theorem textOr_relocate (own : String) :
    Place.textOr ⟨base ++ path, fields⟩ key own =
      relocate base (Place.textOr ⟨path, fields⟩ key own) := by
  simp only [Place.textOr, Place.field?, asText_relocate]
  cases fields.lookup (.whole key) with
  | none => rfl
  | some value => exact (relocate_map base _ Text.shown).symm

theorem optionalText_relocate (own : Option String) :
    Place.optionalText ⟨base ++ path, fields⟩ key own =
      relocate base (Place.optionalText ⟨path, fields⟩ key own) := by
  simp only [Place.optionalText, Place.field?, pathTo_relocate]
  cases fields.lookup (.whole key) with
  | none => rfl
  | some value => cases value <;> rfl

theorem asInteger_relocate (value : Json) :
    Place.asInteger ⟨base ++ path, fields⟩ key value =
      relocate base (Place.asInteger ⟨path, fields⟩ key value) := by
  cases value <;> simp [Place.asInteger, pathTo_relocate]

theorem integer_relocate :
    Place.integer ⟨base ++ path, fields⟩ key =
      relocate base (Place.integer ⟨path, fields⟩ key) := by
  simp only [Place.integer, required_relocate, asInteger_relocate, relocate_bind]

theorem integerOr_relocate (own : Int) :
    Place.integerOr ⟨base ++ path, fields⟩ key own =
      relocate base (Place.integerOr ⟨path, fields⟩ key own) := by
  simp only [Place.integerOr, Place.field?, asInteger_relocate]
  cases fields.lookup (.whole key) <;> rfl

theorem flag_relocate :
    Place.flag ⟨base ++ path, fields⟩ key = relocate base (Place.flag ⟨path, fields⟩ key) := by
  simp only [Place.flag, Place.field?, pathTo_relocate]
  cases fields.lookup (.whole key) with
  | none => rfl
  | some value => cases value <;> rfl

theorem list_relocate :
    Place.list ⟨base ++ path, fields⟩ key = relocate base (Place.list ⟨path, fields⟩ key) := by
  simp only [Place.list, Place.field?, pathTo_relocate]
  cases fields.lookup (.whole key) with
  | none => rfl
  | some value => cases value <;> rfl

theorem listOf_relocate {α : Type} {read : Path → Json → Reading α}
    (h : ∀ path item, read (base ++ path) item = relocate base (read path item)) :
    Place.listOf ⟨base ++ path, fields⟩ key read =
      relocate base (Place.listOf ⟨path, fields⟩ key read) := by
  simp only [Place.listOf, list_relocate, pathTo_relocate, readItems_relocate base h,
    relocate_bind]

theorem texts_relocate :
    Place.texts ⟨base ++ path, fields⟩ key = relocate base (Place.texts ⟨path, fields⟩ key) := by
  apply listOf_relocate
  intro path item
  cases item.text? <;> rfl

theorem choice_relocate {α : Type} (all : List α) (name : α → String) :
    Place.choice ⟨base ++ path, fields⟩ key all name =
      relocate base (Place.choice ⟨path, fields⟩ key all name) := by
  simp only [Place.choice, required_relocate, asText_relocate, pathTo_relocate, relocate_bind]
  refine bind_congr fun got => bind_congr fun value => ?_
  cases all.find? fun a => Text.whole (name a) == value <;> rfl

end Fields

/-! ### Parts -/

section Parts

variable (base : Path)

theorem readObject_bind {α : Type} (path : Path) (fields : List (Text × Json))
    (next : Place → Reading α) : readObject path (.obj fields) >>= next = next ⟨path, fields⟩ :=
  rfl

theorem readOrigin_relocate (path : Path) (fields : List (Text × Json)) :
    readOrigin ⟨base ++ path, fields⟩ = relocate base (readOrigin ⟨path, fields⟩) := by
  simp only [readOrigin, required_relocate, asText_relocate, pathTo_relocate, relocate_bind]
  refine bind_congr fun got => bind_congr fun name => ?_
  cases originOf? name <;> rfl

theorem readCallSite_relocate (path : Path) (value : Json) :
    readCallSite (base ++ path) value = relocate base (readCallSite path value) := by
  cases value with
  | obj fields =>
    simp only [readCallSite, readObject_bind, readOrigin_relocate, textOr_relocate,
      texts_relocate, integer_relocate, optionalText_relocate, relocate_bind]
    refine bind_congr fun origin => bind_congr fun root => bind_congr fun chain =>
      bind_congr fun line => bind_congr fun rootClass => bind_congr fun targetClass => ?_
    -- what is wrong with the call site quotes its fields, which are the same
    cases checked { origin, root, chain, line, rootClass, targetClass : CallSite } <;> rfl
  | _ => rfl

theorem readLocation_relocate (path : Path) (fields : List (Text × Json)) :
    readLocation ⟨base ++ path, fields⟩ = relocate base (readLocation ⟨path, fields⟩) := by
  simp only [readLocation, text_relocate, integerOr_relocate, build_relocate, relocate_bind]

theorem readAssociation_relocate (owner : String) (path : Path) (value : Json) :
    readAssociation owner (base ++ path) value =
      relocate base (readAssociation owner path value) := by
  cases value with
  | obj fields =>
    simp only [readAssociation, readObject_bind, textOr_relocate, text_relocate, choice_relocate,
      build_relocate, relocate_bind]
  | _ => rfl

theorem readDelegation_relocate (path : Path) (value : Json) :
    readDelegation (base ++ path) value = relocate base (readDelegation path value) := by
  cases value with
  | obj fields =>
    simp only [readDelegation, readObject_bind, text_relocate, build_relocate, relocate_bind]
  | _ => rfl

theorem readForwarding_relocate (path : Path) (fields : List (Text × Json)) :
    readForwarding ⟨base ++ path, fields⟩ = relocate base (readForwarding ⟨path, fields⟩) := by
  simp only [readForwarding, Place.field?, pathTo_relocate, readDelegation_relocate]
  cases fields.lookup (.whole "delegates_to") with
  | none => rfl
  | some value => cases value <;> simp [relocate_map]

theorem readMethod_relocate (owner : String) (path : Path) (value : Json) :
    readMethod owner (base ++ path) value = relocate base (readMethod owner path value) := by
  cases value with
  | obj fields =>
    simp only [readMethod, readObject_bind, readForwarding_relocate, text_relocate,
      optionalText_relocate, listOf_relocate base _ _ _ (readCallSite_relocate base),
      integerOr_relocate, flag_relocate, texts_relocate, build_relocate, relocate_bind]
  | _ => rfl

/-- A class is read wherever it stands, and a fault in it moves along. -/
theorem readClass_relocate (path : Path) (value : Json) :
    readClass (base ++ path) value = relocate base (readClass path value) := by
  cases value with
  | obj fields =>
    simp only [readClass, readObject_bind, text_relocate,
      listOf_relocate base _ _ _ (readAssociation_relocate base _),
      listOf_relocate base _ _ _ (readMethod_relocate base _), choice_relocate,
      readLocation_relocate, texts_relocate, build_relocate, relocate_bind]
  | _ => rfl

/-- A template is read wherever it stands, and a fault in it moves along. -/
theorem readTemplate_relocate (path : Path) (value : Json) :
    readTemplate (base ++ path) value = relocate base (readTemplate path value) := by
  cases value with
  | obj fields =>
    simp only [readTemplate, readObject_bind, text_relocate, readLocation_relocate,
      listOf_relocate base _ _ _ (readCallSite_relocate base), build_relocate, relocate_bind]
  | _ => rfl

end Parts

/-! ### Entries -/

/-- What becomes of a value at a position in a list of entries. -/
def entryAt {α : Type} (key : String) (read : Path → Json → Reading α) (position : Nat)
    (value : Json) : Except Rejection α :=
  match read [.key key, .item position] value with
  | .ok entry => .ok entry
  | .error fault => .error (reject [.key key, .item position] value fault)

/-- Entries that are loaded or rejected, each of them one or the other, both in order. -/
inductive Splits {α : Type} : List (Except Rejection α) → List α → List Rejection → Prop
  | nil : Splits [] [] []
  | loaded {entries loaded rejected} (part : α) : Splits entries loaded rejected →
      Splits (.ok part :: entries) (part :: loaded) rejected
  | rejected {entries loaded rejected} (rejection : Rejection) : Splits entries loaded rejected →
      Splits (.error rejection :: entries) loaded (rejection :: rejected)

/-- What becomes of the values under a key of two snapshots, told from each value alone. -/
structure Isolated {α : Type} (key : String) (values values' : List Json)
    (entries entries' : List (Except Rejection α)) : Prop where
  /-- The same value at the same position, whatever else is listed. -/
  stays : ∀ i : Nat, values[i]? = values'[i]? → entries[i]? = entries'[i]?
  /-- A value that was loaded is loaded as the same part at every other position. -/
  moves : ∀ (i j : Nat) part, values[i]? = values'[j]? → entries[i]? = some (.ok part) →
    entries'[j]? = some (.ok part)
  /-- A value that was rejected is rejected at every other position, for the same cause at the same
  place inside it. -/
  fails : ∀ (i j : Nat) rejection, values[i]? = values'[j]? →
    entries[i]? = some (.error rejection) →
    ∃ rejection' rest cause, entries'[j]? = some (.error rejection') ∧
      rejection.fault = ⟨.key key :: .item i :: rest, cause⟩ ∧
      rejection'.fault = ⟨.key key :: .item j :: rest, cause⟩

section Entries

variable {α : Type} {key : String} {read : Path → Json → Reading α}

theorem readEntries_eq_mapIdx (key : String) (read : Path → Json → Reading α) (position : Nat)
    (values : List Json) :
    readEntries key read position values =
      values.mapIdx fun i => entryAt key read (position + i) := by
  induction values generalizing position with
  | nil => rfl
  | cons value rest ih =>
    rw [readEntries, ih, List.mapIdx_cons]
    simp only [Nat.add_assoc, Nat.add_comm 1]
    rfl

theorem getElem?_readEntries (values : List Json) (i : Nat) :
    (readEntries key read 0 values)[i]? = values[i]?.map (entryAt key read i) := by
  rw [readEntries_eq_mapIdx, List.getElem?_mapIdx, Nat.zero_add]

theorem splits_entries (entries : List (Except Rejection α)) :
    Splits entries (accepted entries) (rejections entries) := by
  induction entries with
  | nil => exact .nil
  | cons entry rest ih =>
    cases entry with
    | ok part => exact .loaded part ih
    | error rejection => exact .rejected rejection ih

theorem Splits.length_add_length {entries : List (Except Rejection α)} {loaded : List α}
    {rejected : List Rejection} (h : Splits entries loaded rejected) :
    loaded.length + rejected.length = entries.length := by
  induction h with
  | nil => rfl
  | loaded part _ ih => simp only [List.length_cons, ← ih]; omega
  | rejected rejection _ ih => simp only [List.length_cons, ← ih]; omega

/-- As many values are loaded or rejected as there are. -/
theorem length_accepted_add_length_rejections (key : String) (read : Path → Json → Reading α)
    (values : List Json) :
    (accepted (readEntries key read 0 values)).length +
      (rejections (readEntries key read 0 values)).length = values.length := by
  rw [(splits_entries _).length_add_length, readEntries_eq_mapIdx, List.length_mapIdx]

variable (h : ∀ base path value, read (base ++ path) value = relocate base (read path value))

include h

theorem entryAt_of_ok {value : Json} {part : α} (hread : read [] value = .ok part) (i : Nat) :
    entryAt key read i value = .ok part := by
  have hmoved := h [.key key, .item i] [] value
  rw [hread, relocate_ok, List.append_nil] at hmoved
  rw [entryAt, hmoved]

theorem entryAt_of_error {value : Json} {rest : Path} {cause : ShapeCause}
    (hread : read [] value = .error ⟨rest, cause⟩) (i : Nat) :
    entryAt key read i value =
      .error (reject [.key key, .item i] value ⟨.key key :: .item i :: rest, cause⟩) := by
  have hmoved := h [.key key, .item i] [] value
  rw [hread, relocate_error, List.append_nil] at hmoved
  rw [entryAt, hmoved]
  rfl

theorem isolated_readEntries (values values' : List Json) :
    Isolated key values values' (readEntries key read 0 values)
      (readEntries key read 0 values') := by
  refine ⟨?_, ?_, ?_⟩
  · -- an entry is read from its own value and position
    intro i hvalue
    rw [getElem?_readEntries, getElem?_readEntries, hvalue]
  · intro i j part hvalue hentry
    rw [getElem?_readEntries, Option.map_eq_some_iff] at hentry
    obtain ⟨value, hi, hpart⟩ := hentry
    rw [getElem?_readEntries, ← hvalue, hi, Option.map_some]
    -- whether a value can be read does not depend on where it stands
    cases hread : read [] value with
    | ok part' => rw [entryAt_of_ok h hread] at hpart ⊢; rw [hpart]
    | error fault => rw [entryAt_of_error h hread] at hpart; cases hpart
  · intro i j rejection hvalue hentry
    rw [getElem?_readEntries, Option.map_eq_some_iff] at hentry
    obtain ⟨value, hi, hrejection⟩ := hentry
    rw [getElem?_readEntries, ← hvalue, hi, Option.map_some]
    -- behind the place of the entry, the fault is the same wherever that is
    cases hread : read [] value with
    | ok part => rw [entryAt_of_ok h hread] at hrejection; cases hrejection
    | error fault =>
      rw [entryAt_of_error h hread] at hrejection ⊢
      obtain rfl := Except.error.inj hrejection
      exact ⟨_, fault.path, fault.cause, rfl, rfl, rfl⟩

end Entries

/-! ### Snapshots -/

/-- Entries are loaded or rejected one by one.  From an object with lists of entries, if any, each
value is either loaded or rejected, in order, rejected classes before rejected templates, and what
becomes of it is told from the value and its position.  Next to any other snapshot, a value at the
same position has the same outcome, a value that was loaded is loaded as the same part wherever it
stands, and one that was rejected is rejected for the same cause. -/
theorem read_isolates_entries {value : Json} (h : IsSnapshot value) :
    ∃ contents rejectedClasses rejectedTemplates, read value = .ok contents ∧
      contents.classes = (value.itemsUnder "classes").mapIdx (entryAt "classes" readClass) ∧
      contents.templates =
        (value.itemsUnder "templates").mapIdx (entryAt "templates" readTemplate) ∧
      Splits contents.classes contents.model.classes rejectedClasses ∧
      Splits contents.templates contents.model.templates rejectedTemplates ∧
      contents.model.rejected = (rejectedClasses ++ rejectedTemplates).map Rejection.skipped ∧
      contents.model.classes.length + contents.model.templates.length +
          contents.model.rejected.length =
        (value.itemsUnder "classes").length + (value.itemsUnder "templates").length ∧
      ∀ value' contents', read value' = .ok contents' →
        Isolated "classes" (value.itemsUnder "classes") (value'.itemsUnder "classes")
          contents.classes contents'.classes ∧
        Isolated "templates" (value.itemsUnder "templates") (value'.itemsUnder "templates")
          contents.templates contents'.templates := by
  have hclasses := readEntries_eq_mapIdx "classes" readClass 0 (value.itemsUnder "classes")
  have htemplates :=
    readEntries_eq_mapIdx "templates" readTemplate 0 (value.itemsUnder "templates")
  simp only [Nat.zero_add] at hclasses htemplates
  refine ⟨_, _, _, read_eq_ok.2 ⟨h, rfl⟩, hclasses, htemplates, splits_entries _,
    splits_entries _, rfl, ?_, ?_⟩
  · rw [← length_accepted_add_length_rejections "classes" readClass,
      ← length_accepted_add_length_rejections "templates" readTemplate]
    simp only [Contents.model, Contents.rejected, List.length_map, List.length_append]
    omega
  · intro value' contents' hread
    obtain ⟨-, rfl⟩ := read_eq_ok.1 hread
    exact ⟨isolated_readEntries readClass_relocate _ _,
      isolated_readEntries readTemplate_relocate _ _⟩

/-- Of two classes the second can be read.  In the other order it is the first one, and is read as
the same class. -/
theorem read_isolates_entries_swapped :
    let value := Json.obj [("classes", .arr [lineTrue, longS])]
    let value' := Json.obj [("classes", .arr [longS, lineTrue])]
    IsSnapshot value ∧ ∃ contents contents' decl rejection,
      read value = .ok contents ∧ read value' = .ok contents' ∧
      contents.classes = [.error rejection, .ok decl] ∧ contents.model.classes = [decl] ∧
      contents.model.rejected = [rejection.skipped] ∧ contents'.classes[0]? = some (.ok decl) := by
  intro value value'
  have hvalue : IsSnapshot value :=
    ⟨⟨_, rfl⟩, .of_present rfl ⟨_, rfl, fun _ _ => trivial⟩, .of_absent _ rfl⟩
  have hvalue' : IsSnapshot value' :=
    ⟨⟨_, rfl⟩, .of_present rfl ⟨_, rfl, fun _ _ => trivial⟩, .of_absent _ rfl⟩
  obtain ⟨contents, rejectedClasses, rejectedTemplates, hread, hclasses, htemplates, hsplit,
    hsplit', hrejected, -, hisolated⟩ := read_isolates_entries hvalue
  have hread' := read_eq_ok.2 ⟨hvalue', rfl⟩
  -- the second class follows the grammar and the first does not
  obtain ⟨decl, hdecl⟩ := (exists_class_iff [] longS).2 isClass_longS
  obtain ⟨fault, hfault⟩ : ∃ fault, readClass [] lineTrue = .error fault := by
    cases hline : readClass [] lineTrue with
    | ok decl' =>
      exact absurd ((exists_class_iff [] lineTrue).1 ⟨decl', hline⟩) not_isClass_lineTrue
    | error fault => exact ⟨fault, rfl⟩
  have hentries : contents.classes =
      [entryAt "classes" readClass 0 lineTrue, entryAt "classes" readClass 1 longS] := hclasses
  rw [entryAt_of_error readClass_relocate hfault, entryAt_of_ok readClass_relocate hdecl]
    at hentries
  have hnone : contents.templates = [] := htemplates
  rw [hentries] at hsplit
  rw [hnone] at hsplit'
  generalize hmodel : contents.model.classes = loaded at hsplit
  generalize contents.model.templates = templates at hsplit'
  cases hsplit with
  | rejected _ hrest =>
    cases hrest with
    | loaded _ hnil =>
      cases hnil
      cases hsplit'
      have hmoved := (hisolated value' _ hread').1.moves 1 0 decl rfl (by rw [hentries]; rfl)
      exact ⟨hvalue, contents, _, decl, _, hread, hread', hentries, hmodel, hrejected, hmoved⟩

end ObjectAudit.Snapshot
