/-
ObjectAudit/Proofs/SettingsBlame.lean

Which keys the faults of settings blame.  A reader blames the key that it reads, or in a table of
categories or rules the key of one of these; so what it blames is written in the settings
(`Written`, `Blames`).  The readers are put together step by step (`Blames.bind`).

The requirements come after reading, and look at values that need not be written.  But the
standard values meet them: a threshold or a list of operations that does not was given
(`written_of_ne`).  The category of callbacks alone is compared with something else that may be
given, the taxonomy.  A taxonomy without `"callback"` makes the standard category wrong, and then
the fault blames a key that is not there.

Main result: this is the only fault that blames a key which is not written (`ofJson_blames`).
-/
import ObjectAudit.Proofs.SettingsGrammar

namespace ObjectAudit.Settings

open Json

/-! ### Keys that are written -/

/-- A key that is written in a table of settings: one of its own, or that of a category or a rule in
a table of these. -/
inductive Written (fields : List (Text × Json)) : Text → Prop
  | key {key : Text} : key ∈ fields.map Prod.fst → Written fields key
  | category {name : Text} : name ∈ ((Json.obj fields).tableUnder "taxonomy").map Prod.fst →
      Written fields (Taxonomy.keyOf name)
  | rule {ruleId : Text} : ruleId ∈ ((Json.obj fields).tableUnder "severity").map Prod.fst →
      Written fields (severityKey ruleId)

section

variable {fields : List (Text × Json)} {key : Text} {value : Json}

theorem written_of_field? (h : (Json.obj fields).field? key = some value) : Written fields key := by
  obtain ⟨before, behind, rfl, -⟩ := List.lookup_eq_some_iff.1 (show fields.lookup key = _ from h)
  exact .key (List.mem_map.2 ⟨(key, value), List.mem_append_right _ List.mem_cons_self, rfl⟩)

theorem whole_ne_behind {word front : String} {text : Text}
    (h : ¬ front.toList <+: word.toList) : Text.whole word ≠ text.behind front := by
  cases text with
  | whole value =>
    intro heq
    obtain rfl := Text.whole.inj heq
    exact h (by simp)
  | torn => rintro ⟨⟩

/-- A key without parts is written only as a key of the table itself. -/
theorem not_written_callbackCategory
    (h : (Json.obj fields).field? "callback_category" = none) :
    ¬ Written fields "callback_category" := by
  have habsent := List.lookup_eq_none_iff.1
    (show fields.lookup (Text.whole "callback_category") = none from h)
  generalize hkey : Text.whole "callback_category" = key
  intro hwritten
  cases hwritten with
  -- the keys of categories and rules have a part in front that this one lacks
  | key hmem =>
    obtain ⟨field, hfield, rfl⟩ := List.mem_map.1 hmem
    exact bne_iff_ne.1 (habsent field hfield) hkey
  | category => exact whole_ne_behind (by decide) hkey
  | rule => exact whole_ne_behind (by decide) hkey

end

/-! ### Blame -/

section Blame

variable {fields : List (Text × Json)} {key : Text} {α β : Type}

/-- If a reading fails, then at a key that is written. -/
def Blames (fields : List (Text × Json)) (reading : Except SettingsFault α) : Prop :=
  ∀ fault, reading = .error fault → ∃ key cause, fault = .entry key cause ∧ Written fields key

theorem blames_ok (a : α) : Blames fields (.ok a) := by
  intro fault h
  cases h

theorem blames_entry (hkey : Written fields key) (cause : SettingsCause) :
    Blames fields (.error (.entry key cause) : Except SettingsFault α) := by
  intro fault h
  exact ⟨key, cause, (Except.error.inj h).symm, hkey⟩

theorem Blames.bind {reading : Except SettingsFault α} {next : α → Except SettingsFault β}
    (h : Blames fields reading) (hnext : ∀ a, Blames fields (next a)) :
    Blames fields (reading >>= next) := by
  intro fault hfault
  cases reading with
  | ok a => exact hnext a fault hfault
  | error first =>
    obtain rfl := Except.error.inj hfault
    exact h first rfl

theorem Blames.map {reading : Except SettingsFault α} (h : Blames fields reading) (f : α → β) :
    Blames fields (reading.map f) := by
  intro fault hfault
  cases reading with
  | ok a => cases hfault
  | error first =>
    obtain rfl := Except.error.inj hfault
    exact h first rfl

theorem blames_entryOr {own : α} {reader : Text → Json → Except SettingsFault α}
    (h : ∀ value, (Json.obj fields).field? key = some value → Blames fields (reader key value)) :
    Blames fields (entryOr fields key own reader) := by
  cases hkey : (Json.obj fields).field? key with
  | none =>
    rw [entryOr_of_absent hkey]
    exact blames_ok own
  | some value =>
    rw [entryOr_of_present hkey]
    exact h value hkey

end Blame

/-! ### Readers -/

section Readers

variable {fields : List (Text × Json)} {key : Text} (hkey : Written fields key)

include hkey

theorem blames_readWords (cause : Json → SettingsCause) (items : List Json) :
    Blames fields (readWords (fun item => .entry key (cause item)) items) := by
  induction items with
  | nil => exact blames_ok []
  | cons item rest ih =>
    rw [readWords]
    cases item.word? with
    | none => exact blames_entry hkey _
    | some word => exact ih.map _

theorem blames_readNames (value : Json) : Blames fields (readNames key value) := by
  cases value with
  | arr items => exact blames_readWords hkey _ items
  | _ => exact blames_entry hkey _

theorem blames_readRules (value : Json) : Blames fields (readRules key value) :=
  (blames_readNames hkey value).map _

theorem blames_readOperations (value : Json) : Blames fields (readOperations key value) :=
  (blames_readNames hkey value).map _

theorem blames_readInteger (value : Json) : Blames fields (readInteger key value) := by
  cases value with
  | int n => exact blames_ok n
  | _ => exact blames_entry hkey _

theorem blames_readLimit (value : Json) : Blames fields (readLimit key value) := by
  cases value with
  | null => exact blames_ok none
  | int n => exact blames_ok (some n)
  | _ => exact blames_entry hkey _

theorem blames_readFlag (value : Json) : Blames fields (readFlag key value) := by
  cases value with
  | bool b => exact blames_ok b
  | _ => exact blames_entry hkey _

theorem blames_readText (value : Json) : Blames fields (readText key value) := by
  cases value with
  | null | str => exact blames_ok _
  | _ => exact blames_entry hkey _

end Readers

section Tables

variable {fields table : List (Text × Json)}

theorem tableUnder_eq {key : String} (h : (Json.obj fields).field? key = some (.obj table)) :
    (Json.obj fields).tableUnder key = table := by
  rw [tableUnder, h]

theorem blames_patternsOf {category : Text} (hkey : Written fields (Taxonomy.keyOf category))
    (items : List Json) : Blames fields (Taxonomy.patternsOf category (.arr items)) := by
  cases items with
  | nil => exact blames_entry hkey _
  | cons item rest =>
    exact (blames_readWords hkey _ (item :: rest)).map _

theorem blames_readCategories (htaxonomy : Written fields "taxonomy")
    (hwritten : ∀ entry ∈ table, Written fields (Taxonomy.keyOf entry.1))
    (hlists : ∀ entry ∈ table, ∃ items, entry.2 = .arr items) (seen : List Text) :
    Blames fields (Taxonomy.readCategories seen (categoryPairs table)) := by
  induction table generalizing seen with
  | nil => exact blames_ok []
  | cons entry rest ih =>
    obtain ⟨hkey, hwritten⟩ := List.forall_mem_cons.1 hwritten
    obtain ⟨⟨items, hitems⟩, hlists⟩ := List.forall_mem_cons.1 hlists
    rw [categoryPairs, List.map_cons, Taxonomy.readCategories, word?, Json.text?,
      Option.filter_some]
    -- an empty name is blamed on the taxonomy, as it has no key of its own
    by_cases hempty : entry.1 = ""
    · rw [if_neg (by simpa using hempty)]
      exact blames_entry htaxonomy _
    · rw [if_pos (bne_iff_ne.2 hempty)]
      by_cases hseen : seen.contains entry.1 = true
      · simp only [if_pos hseen]
        exact blames_entry hkey _
      · simp only [if_neg hseen, hitems]
        refine (blames_patternsOf hkey items).bind fun patterns => ?_
        exact (ih hwritten hlists _).bind fun others => blames_ok _

theorem blames_readTable {value : Json} (h : (Json.obj fields).field? "taxonomy" = some value) :
    Blames fields (Taxonomy.readTable value) := by
  have htaxonomy := written_of_field? h
  cases value with
  | obj table =>
    have hwritten : ∀ entry ∈ table, Written fields (Taxonomy.keyOf entry.1) := by
      intro entry hentry
      refine .category ?_
      rw [tableUnder_eq h]
      exact List.mem_map_of_mem hentry
    cases table with
    | nil => exact blames_entry htaxonomy _
    | cons entry rest =>
      rw [Taxonomy.readTable]
      cases hunlisted : Taxonomy.unlisted? (entry :: rest) with
      | none =>
        have hlists := unlisted?_eq_none_iff.1 hunlisted
        exact blames_readCategories htaxonomy hwritten hlists []
      | some category =>
        obtain ⟨other, hother, rfl⟩ := Option.map_eq_some_iff.1 hunlisted
        exact blames_entry (hwritten other (List.mem_of_find?_eq_some hother)) _
      · exact List.cons_ne_nil _ _
  | _ => exact blames_entry htaxonomy _

theorem blames_readSeverities (hwritten : ∀ entry ∈ table, Written fields (severityKey entry.1)) :
    Blames fields (readSeverities table) := by
  induction table with
  | nil => exact blames_ok []
  | cons entry rest ih =>
    obtain ⟨hkey, hwritten⟩ := List.forall_mem_cons.1 hwritten
    rw [readSeverities]
    cases entry.2.text? with
    | none => exact blames_entry hkey _
    | some name =>
      cases hseverity : severityOf? name with
      | none => simpa only [hseverity] using blames_entry hkey _
      | some severity => simpa only [hseverity] using (ih hwritten).map _

theorem blames_readSeverityTable {value : Json}
    (h : (Json.obj fields).field? "severity" = some value) :
    Blames fields (readSeverityTable value) := by
  cases value with
  | obj table =>
    refine blames_readSeverities fun entry hentry => .rule ?_
    rw [tableUnder_eq h]
    exact List.mem_map_of_mem hentry
  | _ => exact blames_entry (written_of_field? h) _

end Tables

variable {fields : List (Text × Json)} {draft : Draft} {fault : SettingsFault}

/-- A reader that blames its key blames one that is written, as only what is given is read. -/
theorem blames_entryOr_reader {α : Type} {key : Text} {own : α}
    {reader : Text → Json → Except SettingsFault α}
    (h : Written fields key → ∀ value, Blames fields (reader key value)) :
    Blames fields (entryOr fields key own reader) :=
  blames_entryOr fun value hvalue => h (written_of_field? hvalue) value

theorem blames_readDraft (fields : List (Text × Json)) : Blames fields (readDraft fields) := by
  -- key by key, in the order of reading
  refine (blames_entryOr_reader fun hkey value =>
    (blames_readRules hkey value).map _).bind fun _ => ?_
  refine (blames_entryOr_reader blames_readRules).bind fun _ => ?_
  refine (blames_entryOr_reader blames_readOperations).bind fun _ => ?_
  refine (blames_entryOr_reader blames_readOperations).bind fun _ => ?_
  refine (blames_entryOr_reader blames_readInteger).bind fun _ => ?_
  refine (blames_entryOr_reader blames_readInteger).bind fun _ => ?_
  refine (blames_entryOr_reader blames_readInteger).bind fun _ => ?_
  refine (blames_entryOr_reader blames_readLimit).bind fun _ => ?_
  refine (blames_entryOr_reader blames_readFlag).bind fun _ => ?_
  refine (blames_entryOr_reader blames_readText).bind fun _ => ?_
  refine (blames_entryOr fun _ hvalue => blames_readTable hvalue).bind fun _ => ?_
  exact (blames_entryOr fun _ hvalue => blames_readSeverityTable hvalue).bind fun _ => blames_ok _

/-! ### Requirements -/

/-- The faults of a draft that break a requirement. -/
inductive Breaks (draft : Draft) : SettingsFault → Prop
  | demeterDepth : draft.minDemeterDepth < 1 →
      Breaks draft (.entry "min_demeter_depth" (.belowLeast 1 draft.minDemeterDepth))
  | responsibilityCategories : draft.minResponsibilityCategories < 2 →
      Breaks draft (.entry "min_responsibility_categories"
        (.belowLeast 2 draft.minResponsibilityCategories))
  | transactionClasses : draft.minTransactionClasses < 1 →
      Breaks draft (.entry "min_transaction_classes"
        (.belowLeast 1 draft.minTransactionClasses))
  | workers {limit : Int} : draft.maxWorkers = some limit →
      Breaks draft (.entry "max_workers" (.belowLeast 1 limit))
  | callbackCategory {category : Text} : draft.callback = some category →
      category ∉ draft.categories.map Prod.fst →
      Breaks draft (.entry "callback_category" (.unknownCategory category))
  | queryOperations : draft.queryOperations = [] →
      Breaks draft (.entry "query_operations" .emptyList)
  | mutationOperations : draft.mutationOperations = [] →
      Breaks draft (.entry "mutation_operations" .emptyList)

theorem breaks_of_thresholdFault? (h : draft.thresholdFault? = some fault) :
    Breaks draft fault := by
  simp only [Draft.thresholdFault?, Option.or_eq_some_iff, Option.bind_eq_some_iff,
    Option.ite_none_left_eq_some, Option.ite_none_right_eq_some, Option.some.injEq,
    List.contains_iff_mem] at h
  rcases h with (((⟨hlow, rfl⟩ | ⟨-, hlow, rfl⟩) | ⟨-, hlow, rfl⟩) | ⟨-, limit, hlimit, -, rfl⟩) |
    ⟨-, category, hcategory, hnot, rfl⟩
  · exact .demeterDepth hlow
  · exact .responsibilityCategories hlow
  · exact .transactionClasses hlow
  · exact .workers hlimit
  · exact .callbackCategory hcategory hnot

theorem breaks_of_operationFault? (h : draft.operationFault? = some fault) :
    Breaks draft fault := by
  rw [Draft.operationFault?] at h
  split at h
  · obtain rfl := Option.some.inj h
    exact .queryOperations (List.isEmpty_iff.1 ‹_›)
  · split at h
    · obtain rfl := Option.some.inj h
      exact .mutationOperations (List.isEmpty_iff.1 ‹_›)
    · cases h

theorem breaks_of_fault? (h : draft.fault? = some fault) : Breaks draft fault := by
  rcases Option.or_eq_some_iff.1 h with h | ⟨-, h⟩
  · exact breaks_of_thresholdFault? h
  · exact breaks_of_operationFault? h

/-- What is not the standard value was given. -/
theorem written_of_ne {α : Type} {key : Text} {own a : α}
    {reader : Text → Json → Except SettingsFault α}
    (h : entryOr fields key own reader = .ok a) (hne : a ≠ own) : Written fields key := by
  rcases entryOr_eq_ok_iff.1 h with ⟨-, hown⟩ | ⟨value, hvalue, -⟩
  · exact absurd hown hne
  · exact written_of_field? hvalue

/-- A taxonomy without the standard category of callbacks, and no other category in its place. -/
structure LacksCallback (fields : List (Text × Json)) : Prop where
  callbackCategory : (Json.obj fields).field? "callback_category" = none
  taxonomy : ∃ table, (Json.obj fields).field? "taxonomy" = some (.obj table) ∧
    .whole "callback" ∉ table.map Prod.fst

theorem lacksCallback_of_breaks (h : Reads fields draft) {category : Text}
    (hcategory : draft.callback = some category)
    (hnot : category ∉ draft.categories.map Prod.fst)
    (habsent : (Json.obj fields).field? "callback_category" = none) :
    category = "callback" ∧ LacksCallback fields := by
  have hcallback := h.callback
  rw [entryOr_of_absent habsent, hcategory] at hcallback
  obtain rfl : .whole "callback" = category := Option.some.inj (Except.ok.inj hcallback)
  refine ⟨rfl, habsent, ?_⟩
  rcases entryOr_eq_ok_iff.1 h.categories with ⟨-, hown⟩ | ⟨value, hvalue, hread⟩
  · -- the usual taxonomy has the category
    rw [hown] at hnot
    exact absurd (by decide) hnot
  · obtain ⟨table, rfl, -, hnames⟩ := of_readTable_eq_ok hread
    exact ⟨table, hvalue, hnames ▸ hnot⟩

/-- A fault blames a key that is written, or the category of callbacks for want of one. -/
inductive Blamed (fields : List (Text × Json)) : SettingsFault → Prop
  | written {key : Text} (cause : SettingsCause) : Written fields key →
      Blamed fields (.entry key cause)
  | callback : LacksCallback fields →
      Blamed fields (.entry "callback_category" (.unknownCategory "callback"))

/-- A threshold or a list that breaks a requirement is not the standard one, so it was given. -/
theorem Breaks.blamed (hbreaks : Breaks draft fault) (h : Reads fields draft) :
    Blamed fields fault := by
  -- each value that breaks a requirement differs from the standard one
  cases hbreaks with
  | demeterDepth hlow =>
    exact .written _ (written_of_ne h.minDemeterDepth (hlow.trans_le (by decide)).ne)
  | responsibilityCategories hlow =>
    exact .written _ (written_of_ne h.minResponsibilityCategories (hlow.trans_le (by decide)).ne)
  | transactionClasses hlow =>
    exact .written _ (written_of_ne h.minTransactionClasses (hlow.trans_le (by decide)).ne)
  | workers hlimit =>
    refine .written _ (written_of_ne h.maxWorkers ?_)
    rw [hlimit]
    exact Option.some_ne_none _
  | queryOperations hnil =>
    refine .written _ (written_of_ne h.queryOperations ?_)
    rw [hnil]
    exact (List.cons_ne_nil _ _).symm
  | mutationOperations hnil =>
    refine .written _ (written_of_ne h.mutationOperations ?_)
    rw [hnil]
    exact (List.cons_ne_nil _ _).symm
  | callbackCategory hcategory hnot =>
    cases hkey : (Json.obj fields).field? "callback_category" with
    | some value => exact .written _ (written_of_field? hkey)
    | none =>
      obtain ⟨rfl, hlacks⟩ := lacksCallback_of_breaks h hcategory hnot hkey
      exact .callback hlacks

/-! ### Any fault -/

theorem blamed_of_ofFields (h : ofFields fields = .error fault) : Blamed fields fault := by
  rw [ofFields] at h
  cases hread : readDraft fields with
  | error first =>
    rw [hread] at h
    obtain rfl := Except.error.inj h
    obtain ⟨key, cause, rfl, hwritten⟩ := blames_readDraft fields first hread
    exact .written cause hwritten
  | ok draft =>
    have hreads := readDraft_eq_ok_iff.1 hread
    obtain ⟨overrides, hgiven, -⟩ := hreads.exists_readGiven
    rw [hread] at h
    -- the severities are in order, so what is left is a broken requirement
    change draft.complete = _ at h
    rw [Draft.complete_eq hgiven] at h
    cases hfault : draft.fault? with
    | none =>
      rw [hfault] at h
      cases h
    | some broken =>
      rw [hfault] at h
      obtain rfl := Except.error.inj h
      exact (breaks_of_fault? hfault).blamed hreads

theorem blamed_of_ofJson (h : ofJson (.obj fields) = .error fault) : Blamed fields fault := by
  by_cases hknown : ∀ field ∈ fields, field.1 ∈ knownKeys
  · rw [ofJson_of_known hknown] at h
    exact blamed_of_ofFields h
  · obtain ⟨field, hfield, -, hunknown⟩ := exists_ofJson_of_unknown hknown
    rw [hunknown] at h
    obtain rfl := Except.error.inj h
    exact .written _ (.key (List.mem_map_of_mem hfield))

/-- The faults of settings blame keys that are written in them, but for one: a taxonomy without the
standard category of callbacks makes this category wrong though it is not given. -/
theorem ofJson_blames (h : ofJson (.obj fields) = .error fault) :
    ∃ key cause, fault = .entry key cause ∧
      (¬ Written fields key ↔
        LacksCallback fields ∧
          fault = .entry "callback_category" (.unknownCategory "callback")) := by
  cases blamed_of_ofJson h with
  | written cause hwritten =>
    refine ⟨_, cause, rfl, iff_of_false (not_not_intro hwritten) ?_⟩
    rintro ⟨hlacks, heq⟩
    obtain ⟨rfl, -⟩ := SettingsFault.entry.inj heq
    exact not_written_callbackCategory hlacks.callbackCategory hwritten
  | callback hlacks =>
    exact ⟨_, _, rfl, iff_of_true (not_written_callbackCategory hlacks.callbackCategory)
      ⟨hlacks, rfl⟩⟩

/-- A severity of a rule that is none. -/
def loudRule : List (Text × Json) := [("severity", .obj [("fat-model", .str "loud")])]

theorem ofJson_blames_loudRule :
    ∃ cause, ofJson (.obj loudRule) = .error (.entry "severity.fat-model" cause) ∧
      Written loudRule "severity.fat-model" := by
  have hfault : ofJson (.obj loudRule) = .error (.entry "severity.fat-model"
      (.unknownSeverity (.str "loud") ["error", "warning", "info"])) := by
    rfl
  refine ⟨_, hfault, ?_⟩
  obtain ⟨key, cause, heq, hiff⟩ := ofJson_blames hfault
  obtain ⟨rfl, -⟩ := SettingsFault.entry.inj heq
  by_contra hnot
  obtain ⟨-, hother⟩ := hiff.1 hnot
  exact absurd hother (by decide)

/-- A taxonomy with one category, and nothing else. -/
def findersOnly : List (Text × Json) := [("taxonomy", .obj [("finder", .arr [.str "find*"])])]

theorem ofJson_findersOnly :
    ofJson (.obj findersOnly) =
        .error (.entry "callback_category" (.unknownCategory "callback")) ∧
      ¬ Written findersOnly "callback_category" :=
  ⟨rfl, not_written_callbackCategory rfl⟩

end ObjectAudit.Settings
