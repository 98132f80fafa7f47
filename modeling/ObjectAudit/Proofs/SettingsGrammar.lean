/-
ObjectAudit/Proofs/SettingsGrammar.lean

Which settings are accepted.  The grammar (`Settings.IsSettings`) says of each key what may stand
under it, in the words of the grammar of snapshots, and asks two things across the keys: the
category of callbacks is one of the taxonomy, be it given or not, and every rule that is named
is known.

Each reader of an entry has one lemma, which says for which values it succeeds and, where a
requirement looks at what is read, with something that meets it.  A key that may be left out has
a value of its own, which meets the requirement too (`exists_entryOr_iff`).  Put together, settings
can be read exactly where each key holds what it may (`exists_reads_iff`).

Main result: a table of settings has an auditor exactly if it follows the grammar, and the
auditor's rules are those of the registry that the table selects (`Auditor.ofJson_accepts`).
-/
import ObjectAudit.Proofs.RuleIndependence
import ObjectAudit.Proofs.SettingsReading

namespace ObjectAudit

open Json
open Snapshot (bind_eq_ok)

/-- A text that, in upper case, is the name of a severity in capitals. -/
def Severity.SpelledBy (severity : Severity) (text : Text) : Prop :=
  text.IsSpelling severity.capitalName

namespace Settings

/-! ### The grammar -/

/-- Some names, none of them empty. -/
def IsNames (value : Json) : Prop := value.IsListOf IsWord

/-- At least one name. -/
def IsSomeNames (value : Json) : Prop := IsNames value ∧ value ≠ .arr []

theorem isNames_map_str (names : List Text) (h : .whole "" ∉ names) :
    IsNames (.arr (names.map .str)) := by
  refine ⟨_, rfl, List.forall_mem_map.2 ?_⟩
  intro name hname
  exact ⟨name, rfl, fun heq => h (heq ▸ hname)⟩

/-- A table of categories with their patterns.  Like any table it has no name twice. -/
def IsTaxonomy (value : Json) : Prop :=
  ∃ table, value = .obj table ∧ table ≠ [] ∧ (table.map Prod.fst).Nodup ∧
    ∀ entry ∈ table, entry.1 ≠ "" ∧ IsSomeNames entry.2

/-- A table of rules with their severities. -/
def IsSeverityTable (value : Json) : Prop :=
  ∃ table, value = .obj table ∧
    ∀ entry ∈ table, entry.2.TextThat fun s => ∃ severity : Severity, severity.SpelledBy s

section

variable (fields : List (Text × Json))

/-- The texts in the list under a key. -/
def namesUnder (key : String) : List Text := ((Json.obj fields).itemsUnder key).filterMap text?

/-- The categories of the taxonomy that is given, or else of the usual one. -/
def categories : List Text :=
  if (Json.obj fields).field? "taxonomy" = none then Taxonomy.standard.names.map .whole
  else ((Json.obj fields).tableUnder "taxonomy").map Prod.fst

/-- The rules that the settings name. -/
def mentionedRules : List Text :=
  namesUnder fields "enabled_rules" ++ namesUnder fields "disabled_rules" ++
    ((Json.obj fields).tableUnder "severity").map Prod.fst

/-- The rules of the registry that the settings select. -/
def selectedRules : List String :=
  RuleCheck.knownIds.filter fun ruleId =>
    .whole ruleId ∉ namesUnder fields "disabled_rules" ∧
      ((Json.obj fields).field? "enabled_rules" = none ∨
        .whole ruleId ∈ namesUnder fields "enabled_rules")

/-- Null, or one of some categories; a category that is not given is `"callback"`. -/
def CallbackAmong (names : List Text) : Prop :=
  let category := ((Json.obj fields).field? "callback_category").getD (.str "callback")
  category = .null ∨ category.TextThat (· ∈ names)

/-- What each key may hold. -/
structure HasEntries : Prop where
  enabledRules : (Json.obj fields).Allows "enabled_rules" IsNames
  disabledRules : (Json.obj fields).Allows "disabled_rules" IsNames
  queryOperations : (Json.obj fields).Allows "query_operations" IsSomeNames
  mutationOperations : (Json.obj fields).Allows "mutation_operations" IsSomeNames
  minDemeterDepth : (Json.obj fields).Allows "min_demeter_depth" (IsIntegerFrom 1)
  minResponsibilityCategories :
    (Json.obj fields).Allows "min_responsibility_categories" (IsIntegerFrom 2)
  minTransactionClasses : (Json.obj fields).Allows "min_transaction_classes" (IsIntegerFrom 1)
  maxWorkers :
    (Json.obj fields).Allows "max_workers" fun limit => limit = .null ∨ limit.IsIntegerFrom 1
  transactionCountsOwnClass :
    (Json.obj fields).Allows "transaction_counts_own_class" IsBoolean
  taxonomy : (Json.obj fields).Allows "taxonomy" IsTaxonomy
  severity : (Json.obj fields).Allows "severity" IsSeverityTable

/-- A table of settings that can be used. -/
structure IsSettings : Prop extends HasEntries fields where
  keys : ∀ field ∈ fields, field.1 ∈ knownKeys
  callbackCategory : CallbackAmong fields (categories fields)
  rules : ∀ ruleId ∈ mentionedRules fields, ruleId ∈ RuleCheck.knownIds.map Text.whole

end

/-! ### Readers -/

/-- An entry is read to something of a kind if its own value is of the kind and what is given
has the shape that is read to such. -/
theorem exists_entryOr_iff {α : Type} (fields : List (Text × Json)) (key : Text) (own : α)
    (reader : Text → Json → Except SettingsFault α) {p : α → Prop} {shape : Json → Prop}
    (hown : p own) (hreader : ∀ value, (∃ a, reader key value = .ok a ∧ p a) ↔ shape value) :
    (∃ a, entryOr fields key own reader = .ok a ∧ p a) ↔
      ∀ value, (Json.obj fields).field? key = some value → shape value := by
  cases hkey : (Json.obj fields).field? key with
  | none =>
    rw [entryOr_of_absent hkey]
    exact iff_of_true ⟨own, rfl, hown⟩ (by simp)
  | some value =>
    rw [entryOr_of_present hkey, hreader]
    simp

theorem isWord_iff {item : Json} : item.IsWord ↔ ∃ s, item.word? = some s := by
  simp only [IsWord, TextThat, word?, Option.filter_eq_some_iff, bne_iff_ne]

theorem readWords_eq_ok_iff {fault : Json → SettingsFault} {items : List Json}
    {words : List Text} :
    readWords fault items = .ok words ↔
      (∀ item ∈ items, item.IsWord) ∧ words = items.filterMap text? := by
  induction items generalizing words with
  | nil => simp [readWords, eq_comm]
  | cons item rest ih =>
    rw [readWords, List.forall_mem_cons, isWord_iff]
    cases hword : item.word? with
    | none => simp
    | some word =>
      -- a word is a text, so it is among the texts that are collected
      have htext := (Option.filter_eq_some_iff.1 hword).1
      simp only [map_eq_ok, ih, List.filterMap_cons_some htext, Option.some.injEq, exists_eq',
        true_and]
      constructor
      · rintro ⟨_, ⟨hrest, rfl⟩, rfl⟩
        exact ⟨hrest, rfl⟩
      · rintro ⟨hrest, rfl⟩
        exact ⟨_, ⟨hrest, rfl⟩, rfl⟩

theorem map_readWords_eq_ok_iff {β : Type} {fault : Json → SettingsFault} {items : List Json}
    {f : List Text → β} {b : β} :
    (readWords fault items).map f = .ok b ↔
      (∀ item ∈ items, item.IsWord) ∧ b = f (items.filterMap text?) := by
  simp only [map_eq_ok, readWords_eq_ok_iff]
  constructor
  · rintro ⟨_, ⟨hwords, rfl⟩, rfl⟩
    exact ⟨hwords, rfl⟩
  · rintro ⟨hwords, rfl⟩
    exact ⟨_, ⟨hwords, rfl⟩, rfl⟩

/-- Whatever is made of names, they are read from a list of words. -/
theorem map_readNames_eq_ok_iff {β : Type} {key : Text} {value : Json} {f : List Text → β} {b : β} :
    (readNames key value).map f = .ok b ↔
      ∃ items, value = .arr items ∧ (∀ item ∈ items, item.IsWord) ∧
        b = f (items.filterMap text?) := by
  cases value with
  | arr items =>
    simp only [readNames, map_readWords_eq_ok_iff, Json.arr.injEq, exists_eq_left']
  | _ => simp [readNames, Except.map]

theorem exists_readRules_iff (key : Text) (value : Json) :
    (∃ rules, readRules key value = .ok rules ∧ True) ↔ IsNames value := by
  simp only [readRules, map_readNames_eq_ok_iff, and_true]
  constructor
  · rintro ⟨_, items, rfl, hwords, -⟩
    exact ⟨items, rfl, hwords⟩
  · rintro ⟨items, rfl, hwords⟩
    exact ⟨_, items, rfl, hwords, rfl⟩

/-- Words are texts, so no names are read only where none are given. -/
theorem filterMap_text?_eq_nil_iff {items : List Json} (h : ∀ item ∈ items, item.IsWord) :
    items.filterMap text? = [] ↔ items = [] := by
  cases items with
  | nil => simp
  | cons item rest =>
    obtain ⟨s, hs, -⟩ := h item List.mem_cons_self
    simp [List.filterMap_cons_some hs]

theorem textSet_eq_nil_iff {ss : List String} : Text.textSet ss = [] ↔ ss = [] := by
  simp only [List.eq_nil_iff_forall_not_mem, Text.mem_textSet]

theorem exists_readOperations_iff (key : Text) (value : Json) :
    (∃ names, readOperations key value = .ok names ∧ names ≠ []) ↔ IsSomeNames value := by
  simp only [readOperations, map_readNames_eq_ok_iff]
  constructor
  · rintro ⟨_, ⟨items, rfl, hwords, rfl⟩, hne⟩
    refine ⟨⟨items, rfl, hwords⟩, ?_⟩
    intro hnil
    obtain rfl := Json.arr.inj hnil
    exact hne Text.textSet_nil
  · rintro ⟨⟨items, rfl, hwords⟩, hne⟩
    refine ⟨_, ⟨items, rfl, hwords, rfl⟩, ?_⟩
    rw [Ne, textSet_eq_nil_iff, List.map_eq_nil_iff, filterMap_text?_eq_nil_iff hwords]
    exact fun hnil => hne (congrArg Json.arr hnil)

theorem readInteger_eq_ok_iff {key : Text} {value : Json} {n : Int} :
    readInteger key value = .ok n ↔ value = .int n := by
  cases value <;> simp [readInteger]

theorem exists_readInteger_iff (key : Text) (least : Int) (value : Json) :
    (∃ n, readInteger key value = .ok n ∧ least ≤ n) ↔ value.IsIntegerFrom least := by
  simp only [readInteger_eq_ok_iff, IsIntegerFrom]

theorem exists_readLimit_iff (key : Text) (least : Int) (value : Json) :
    (∃ limit, readLimit key value = .ok limit ∧ ∀ n, limit = some n → least ≤ n) ↔
      value = .null ∨ value.IsIntegerFrom least := by
  cases value <;> simp [readLimit, readInteger, IsIntegerFrom, Except.map]

theorem exists_readFlag_iff (key : Text) (value : Json) :
    (∃ b, readFlag key value = .ok b ∧ True) ↔ value.IsBoolean := by
  cases value <;> simp [readFlag, IsBoolean]

theorem exists_readText_iff (key : Text) (names : List Text) (value : Json) :
    (∃ text, readText key value = .ok text ∧ ∀ s, text = some s → s ∈ names) ↔
      value = .null ∨ value.TextThat (· ∈ names) := by
  cases value <;> simp [readText, TextThat, Json.text?]

theorem severityOf?_eq_some {s : Text} {severity : Severity} :
    severityOf? s = some severity ↔ severity.SpelledBy s := by
  have hmem : severity ∈ Severity.all := by cases severity <;> decide
  exact Text.find?_spells_eq_some_iff (by decide) hmem

theorem exists_readSeverities_iff (table : List (Text × Json)) :
    (∃ given, readSeverities table = .ok given) ↔
      ∀ entry ∈ table, entry.2.TextThat fun s => ∃ severity : Severity, severity.SpelledBy s := by
  induction table with
  | nil => simp [readSeverities]
  | cons entry rest ih =>
    rw [List.forall_mem_cons, ← ih]
    simp only [readSeverities_cons_eq_ok_iff, ← severityOf?_eq_some]
    constructor
    · rintro ⟨_, s, severity, others, hs, hseverity, hothers, rfl⟩
      exact ⟨⟨s, hs, severity, hseverity⟩, others, hothers⟩
    · rintro ⟨⟨s, hs, severity, hseverity⟩, others, hothers⟩
      exact ⟨_, s, severity, others, hs, hseverity, hothers, rfl⟩

theorem exists_readSeverityTable_iff (value : Json) :
    (∃ given, readSeverityTable value = .ok given ∧ True) ↔ IsSeverityTable value := by
  simp only [and_true]
  cases value with
  | obj table => simp only [readSeverityTable, exists_readSeverities_iff, IsSeverityTable,
      Json.obj.injEq, exists_eq_left']
  | _ => simp [readSeverityTable, IsSeverityTable]

/-! ### Taxonomies -/

theorem unlisted?_eq_none_iff {table : List (Text × Json)} :
    Taxonomy.unlisted? table = none ↔ ∀ entry ∈ table, ∃ items, entry.2 = .arr items := by
  rw [Taxonomy.unlisted?, Option.map_eq_none_iff, List.find?_eq_none]
  refine forall₂_congr fun entry _ => ?_
  cases entry.2 <;> simp

theorem patternsOf_eq_ok_iff {category : Text} {items : List Json} {patterns : Patterns} :
    Taxonomy.patternsOf category (.arr items) = .ok patterns ↔
      IsSomeNames (.arr items) ∧
        patterns = .list ((items.filterMap text?).map Text.shown) := by
  cases items with
  | nil => simp [Taxonomy.patternsOf, isTruthy, IsSomeNames]
  | cons item rest =>
    have hnames : IsSomeNames (.arr (item :: rest)) ↔ ∀ other ∈ item :: rest, other.IsWord := by
      simp [IsSomeNames, IsNames, IsListOf]
    rw [hnames]
    exact map_readWords_eq_ok_iff

/-- The categories of a table as they are read. -/
abbrev categoryPairs (table : List (Text × Json)) : List (Json × Json) :=
  table.map fun entry => (.str entry.1, entry.2)

/-- The first of some categories is read if it is not empty and not seen. -/
theorem readCategories_cons_eq_ok_iff {seen : List Text} {entry : Text × Json}
    {rest : List (Text × Json)} {read : List (Text × Patterns)} :
    Taxonomy.readCategories seen (categoryPairs (entry :: rest)) = .ok read ↔
      entry.1 ≠ "" ∧ entry.1 ∉ seen ∧ ∃ patterns others,
        Taxonomy.patternsOf entry.1 entry.2 = .ok patterns ∧
        Taxonomy.readCategories (entry.1 :: seen) (categoryPairs rest) = .ok others ∧
        read = (entry.1, patterns) :: others := by
  rw [categoryPairs, List.map_cons, Taxonomy.readCategories, word?, Json.text?,
    Option.filter_some]
  by_cases hempty : entry.1 = ""
  · simp [hempty]
  · rw [if_pos (bne_iff_ne.2 hempty), and_iff_right hempty]
    by_cases hseen : entry.1 ∈ seen
    · simp [hseen]
    · simp only [List.contains_iff_mem, hseen, if_false, bind_eq_ok, not_false_eq_true, true_and]
      constructor
      · rintro ⟨patterns, hpatterns, others, hothers, heq⟩
        exact ⟨patterns, others, hpatterns, hothers, (Except.ok.inj heq).symm⟩
      · rintro ⟨patterns, others, hpatterns, hothers, rfl⟩
        exact ⟨patterns, hpatterns, others, hothers, rfl⟩

theorem of_readCategories_eq_ok {seen : List Text} {table : List (Text × Json)}
    {read : List (Text × Patterns)} (hlists : ∀ entry ∈ table, ∃ items, entry.2 = .arr items)
    (h : Taxonomy.readCategories seen (categoryPairs table) = .ok read) :
    (table.map Prod.fst).Nodup ∧ (∀ entry ∈ table, entry.1 ≠ "" ∧ IsSomeNames entry.2) ∧
      (∀ entry ∈ table, entry.1 ∉ seen) ∧ read.map Prod.fst = table.map Prod.fst := by
  induction table generalizing seen read with
  | nil =>
    obtain rfl := Except.ok.inj h
    simp
  | cons entry rest ih =>
    obtain ⟨hempty, hseen, patterns, others, hpatterns, hothers, rfl⟩ :=
      readCategories_cons_eq_ok_iff.1 h
    obtain ⟨⟨items, hitems⟩, hlists⟩ := List.forall_mem_cons.1 hlists
    obtain ⟨hnodup, hrest, hnew, hnames⟩ := ih hlists hothers
    rw [hitems] at hpatterns
    have hsome : IsSomeNames entry.2 := hitems ▸ (patternsOf_eq_ok_iff.1 hpatterns).1
    refine ⟨List.nodup_cons.2 ⟨?_, hnodup⟩, List.forall_mem_cons.2 ⟨⟨hempty, hsome⟩, hrest⟩,
      List.forall_mem_cons.2 ⟨hseen, ?_⟩, by rw [List.map_cons, List.map_cons, hnames]⟩
    · -- the names behind are none of those seen, and this one is seen by then
      intro hmem
      obtain ⟨other, hother, heq⟩ := List.mem_map.1 hmem
      exact hnew other hother (heq ▸ List.mem_cons_self)
    · intro other hother hmem
      exact hnew other hother (List.mem_cons_of_mem _ hmem)

theorem exists_readCategories {seen : List Text} {table : List (Text × Json)}
    (hnodup : (table.map Prod.fst).Nodup)
    (hentries : ∀ entry ∈ table, entry.1 ≠ "" ∧ IsSomeNames entry.2)
    (hseen : ∀ entry ∈ table, entry.1 ∉ seen) :
    ∃ read, Taxonomy.readCategories seen (categoryPairs table) = .ok read := by
  induction table generalizing seen with
  | nil => exact ⟨[], rfl⟩
  | cons entry rest ih =>
    obtain ⟨hnot, hnodup⟩ := List.nodup_cons.1 hnodup
    obtain ⟨⟨hempty, hsome⟩, hentries⟩ := List.forall_mem_cons.1 hentries
    obtain ⟨hnew, hseen⟩ := List.forall_mem_cons.1 hseen
    obtain ⟨items, hitems, -⟩ := hsome.1
    have hpatterns : Taxonomy.patternsOf entry.1 entry.2 =
        .ok (.list ((items.filterMap text?).map Text.shown)) := by
      rw [hitems] at hsome ⊢
      exact patternsOf_eq_ok_iff.2 ⟨hsome, rfl⟩
    -- the others are not this one, which is seen from here on
    have hothers : ∀ other ∈ rest, other.1 ∉ entry.1 :: seen := by
      intro other hother hmem
      rcases List.mem_cons.1 hmem with heq | hmem
      · exact hnot (List.mem_map.2 ⟨other, hother, heq⟩)
      · exact hseen other hother hmem
    obtain ⟨others, hread⟩ := ih hnodup hentries hothers
    exact ⟨_, readCategories_cons_eq_ok_iff.2
      ⟨hempty, hnew, _, others, hpatterns, hread, rfl⟩⟩

theorem readTable_obj {table : List (Text × Json)} (hne : table ≠ [])
    (hlists : ∀ entry ∈ table, ∃ items, entry.2 = .arr items) :
    Taxonomy.readTable (.obj table) = Taxonomy.readCategories [] (categoryPairs table) := by
  cases table with
  | nil => exact absurd rfl hne
  | cons entry rest => simp only [Taxonomy.readTable, unlisted?_eq_none_iff.2 hlists]

theorem exists_table_of_readTable {value : Json} {given : List (Text × Patterns)}
    (h : Taxonomy.readTable value = .ok given) :
    ∃ table, value = .obj table ∧ table ≠ [] ∧
      ∀ entry ∈ table, ∃ items, entry.2 = .arr items := by
  cases value with
  | obj table =>
    cases table with
    | nil => cases h
    | cons entry rest =>
      refine ⟨_, rfl, List.cons_ne_nil _ _, unlisted?_eq_none_iff.1 ?_⟩
      cases hunlisted : Taxonomy.unlisted? (entry :: rest) with
      | none => rfl
      | some category => simp [Taxonomy.readTable, hunlisted] at h
  | _ => cases h

theorem of_readTable_eq_ok {value : Json} {given : List (Text × Patterns)}
    (h : Taxonomy.readTable value = .ok given) :
    ∃ table, value = .obj table ∧ IsTaxonomy value ∧
      given.map Prod.fst = table.map Prod.fst := by
  obtain ⟨table, rfl, hne, hlists⟩ := exists_table_of_readTable h
  rw [readTable_obj hne hlists] at h
  obtain ⟨hnodup, hentries, -, hnames⟩ := of_readCategories_eq_ok hlists h
  exact ⟨table, rfl, ⟨table, rfl, hne, hnodup, hentries⟩, hnames⟩

theorem exists_readTable_iff (value : Json) :
    (∃ given, Taxonomy.readTable value = .ok given ∧ True) ↔ IsTaxonomy value := by
  constructor
  · rintro ⟨given, h, -⟩
    obtain ⟨table, -, hvalue, -⟩ := of_readTable_eq_ok h
    exact hvalue
  · rintro ⟨table, rfl, hne, hnodup, hentries⟩
    have hlists : ∀ entry ∈ table, ∃ items, entry.2 = .arr items := by
      intro entry hentry
      obtain ⟨⟨items, hitems, -⟩, -⟩ := (hentries entry hentry).2
      exact ⟨items, hitems⟩
    obtain ⟨read, hread⟩ :=
      exists_readCategories hnodup hentries fun _ _ => List.not_mem_nil
    rw [readTable_obj hne hlists]
    exact ⟨read, hread, trivial⟩

/-! ### Which entries are read -/

variable {fields : List (Text × Json)} {draft : Draft}

section Keys

variable (fields)

theorem exists_enabledRules_iff :
    (∃ rules, entryOr fields "enabled_rules" standard.enabledRules
        (fun key value => (readRules key value).map some) = .ok rules ∧ True) ↔
      (Json.obj fields).Allows "enabled_rules" IsNames := by
  refine exists_entryOr_iff fields _ _ _ trivial fun value => ?_
  rw [← exists_readRules_iff "enabled_rules"]
  simp [map_eq_ok]

theorem exists_callback_iff (names : List Text) :
    (∃ text, entryOr fields "callback_category" (standard.callbackCategory.map .whole) readText =
        .ok text ∧ ∀ s, text = some s → s ∈ names) ↔
      CallbackAmong fields names := by
  rw [CallbackAmong]
  cases hkey : (Json.obj fields).field? "callback_category" with
  | none => simp [entryOr_of_absent hkey, standard, TextThat, Json.text?]
  | some value => rw [entryOr_of_present hkey, exists_readText_iff, Option.getD_some]

theorem map_fst_of_entryOr {given : List (Text × Patterns)}
    (h : entryOr fields "taxonomy" standard.taxonomy.given (fun _ => Taxonomy.readTable) =
      .ok given) :
    given.map Prod.fst = categories fields := by
  rcases entryOr_eq_ok_iff.1 h with ⟨habsent, rfl⟩ | ⟨value, hvalue, hread⟩
  · rw [categories, if_pos habsent]
    rfl
  · obtain ⟨table, rfl, -, hnames⟩ := of_readTable_eq_ok hread
    rw [hnames, categories, tableUnder, hvalue, if_neg (Option.some_ne_none _)]

end Keys

/-- A draft that breaks no requirement is read where each key holds what it may, and the category
of callbacks is one of the taxonomy. -/
theorem exists_reads_iff :
    (∃ draft, Reads fields draft ∧ draft.fault? = none) ↔
      HasEntries fields ∧ CallbackAmong fields (categories fields) := by
  -- key by key: what can be read there to a value that meets the requirement on it
  have henabled := exists_enabledRules_iff fields
  have hdisabled := exists_entryOr_iff fields "disabled_rules" standard.disabledRules readRules
    trivial (exists_readRules_iff "disabled_rules")
  have hquery := exists_entryOr_iff fields "query_operations" standard.queryOperations
    readOperations (List.cons_ne_nil _ _) (exists_readOperations_iff "query_operations")
  have hmutation := exists_entryOr_iff fields "mutation_operations" standard.mutationOperations
    readOperations (List.cons_ne_nil _ _) (exists_readOperations_iff "mutation_operations")
  have hdepth := exists_entryOr_iff fields "min_demeter_depth" standard.minDemeterDepth
    readInteger (by decide) (exists_readInteger_iff "min_demeter_depth" 1)
  have hresponsibilities := exists_entryOr_iff fields "min_responsibility_categories"
    standard.minResponsibilityCategories readInteger (by decide)
    (exists_readInteger_iff "min_responsibility_categories" 2)
  have hclasses := exists_entryOr_iff fields "min_transaction_classes"
    standard.minTransactionClasses readInteger (by decide)
    (exists_readInteger_iff "min_transaction_classes" 1)
  have hworkers := exists_entryOr_iff fields "max_workers" standard.maxWorkers readLimit
    (by rintro n ⟨⟩) (exists_readLimit_iff "max_workers" 1)
  have hown := exists_entryOr_iff fields "transaction_counts_own_class"
    standard.transactionCountsOwnClass readFlag trivial
    (exists_readFlag_iff "transaction_counts_own_class")
  have htaxonomy := exists_entryOr_iff fields "taxonomy" standard.taxonomy.given
    (fun _ => Taxonomy.readTable) trivial exists_readTable_iff
  have hseverity := exists_entryOr_iff fields "severity" [] (fun _ => readSeverityTable) trivial
    exists_readSeverityTable_iff
  have hcallback := exists_callback_iff fields (categories fields)
  constructor
  · rintro ⟨draft, h, hfault⟩
    obtain ⟨⟨hleast, hleast₂, hleast₃, hleast₄, hamong⟩, hne, hne'⟩ :=
      Draft.fault?_eq_none_iff.1 hfault
    -- the requirement looks at the categories that were read, the grammar at those given
    rw [map_fst_of_entryOr fields h.categories] at hamong
    exact ⟨⟨henabled.1 ⟨_, h.enabledRules, trivial⟩, hdisabled.1 ⟨_, h.disabledRules, trivial⟩,
      hquery.1 ⟨_, h.queryOperations, hne⟩, hmutation.1 ⟨_, h.mutationOperations, hne'⟩,
      hdepth.1 ⟨_, h.minDemeterDepth, hleast⟩,
      hresponsibilities.1 ⟨_, h.minResponsibilityCategories, hleast₂⟩,
      hclasses.1 ⟨_, h.minTransactionClasses, hleast₃⟩, hworkers.1 ⟨_, h.maxWorkers, hleast₄⟩,
      hown.1 ⟨_, h.transactionCountsOwnClass, trivial⟩, htaxonomy.1 ⟨_, h.categories, trivial⟩,
      hseverity.1 ⟨_, h.severities, trivial⟩⟩, hcallback.1 ⟨_, h.callback, hamong⟩⟩
  · rintro ⟨h, hamong⟩
    obtain ⟨enabledRules, henabled, -⟩ := henabled.2 h.enabledRules
    obtain ⟨disabledRules, hdisabled, -⟩ := hdisabled.2 h.disabledRules
    obtain ⟨queryOperations, hquery, hne⟩ := hquery.2 h.queryOperations
    obtain ⟨mutationOperations, hmutation, hne'⟩ := hmutation.2 h.mutationOperations
    obtain ⟨minDemeterDepth, hdepth, hleast⟩ := hdepth.2 h.minDemeterDepth
    obtain ⟨minResponsibilityCategories, hresponsibilities, hleast₂⟩ :=
      hresponsibilities.2 h.minResponsibilityCategories
    obtain ⟨minTransactionClasses, hclasses, hleast₃⟩ := hclasses.2 h.minTransactionClasses
    obtain ⟨maxWorkers, hworkers, hleast₄⟩ := hworkers.2 h.maxWorkers
    obtain ⟨transactionCountsOwnClass, hown, -⟩ := hown.2 h.transactionCountsOwnClass
    obtain ⟨given, htaxonomy, -⟩ := htaxonomy.2 h.taxonomy
    obtain ⟨severities, hseverity, -⟩ := hseverity.2 h.severity
    obtain ⟨callback, hcallback, hamong⟩ := hcallback.2 hamong
    rw [← map_fst_of_entryOr fields htaxonomy] at hamong
    exact ⟨{ enabledRules, disabledRules, minDemeterDepth, minResponsibilityCategories,
             queryOperations, mutationOperations, transactionCountsOwnClass, minTransactionClasses,
             maxWorkers, categories := given, callback, severities },
      ⟨henabled, hdisabled, hquery, hmutation, hdepth, hresponsibilities, hclasses, hworkers, hown,
        hcallback, htaxonomy, hseverity⟩,
      Draft.fault?_eq_none_iff.2 ⟨⟨hleast, hleast₂, hleast₃, hleast₄, hamong⟩, hne, hne'⟩⟩

/-! ### Rules -/

theorem mem_iff_of_readRules {key : String} {ruleId : Text} {value : Json} {rules : List Text}
    (hkey : (Json.obj fields).field? key = some value) (h : readRules key value = .ok rules) :
    ruleId ∈ rules ↔ ruleId ∈ namesUnder fields key := by
  obtain ⟨items, rfl, -, rfl⟩ := map_readNames_eq_ok_iff.1 h
  rw [Text.mem_set, namesUnder, itemsUnder, hkey]

theorem namesUnder_of_absent {key : String} (hkey : (Json.obj fields).field? key = none) :
    namesUnder fields key = [] := by
  rw [namesUnder, itemsUnder, hkey]
  rfl

namespace Reads

theorem mem_disabledRules (h : Reads fields draft) {ruleId : Text} :
    ruleId ∈ draft.disabledRules ↔ ruleId ∈ namesUnder fields "disabled_rules" := by
  rcases entryOr_eq_ok_iff.1 h.disabledRules with ⟨habsent, hown⟩ | ⟨value, hvalue, hread⟩
  · rw [namesUnder_of_absent habsent, hown]
    rfl
  · exact mem_iff_of_readRules hvalue hread

/-- The rules that run are all if they are not given, and else those that are. -/
theorem enabledRules_cases (h : Reads fields draft) :
    (draft.enabledRules = none ∧ (Json.obj fields).field? "enabled_rules" = none) ∨
      ∃ rules, draft.enabledRules = some rules ∧
        (Json.obj fields).field? "enabled_rules" ≠ none ∧
        ∀ ruleId, ruleId ∈ rules ↔ ruleId ∈ namesUnder fields "enabled_rules" := by
  rcases entryOr_eq_ok_iff.1 h.enabledRules with ⟨habsent, hown⟩ | ⟨value, hvalue, hread⟩
  · exact .inl ⟨hown, habsent⟩
  · obtain ⟨rules, hrules, heq⟩ := map_eq_ok.1 hread
    refine .inr ⟨rules, heq, ?_, fun _ => mem_iff_of_readRules hvalue hrules⟩
    rw [hvalue]
    exact Option.some_ne_none _

variable {overrides : List (Text × Severity)}

theorem mem_namedRules (h : Reads fields draft) {ruleId : Text}
    (hoverrides : overrides.map Prod.fst =
      ((Json.obj fields).tableUnder "severity").map Prod.fst) :
    ruleId ∈ (draft.settings overrides).namedRules ↔ ruleId ∈ mentionedRules fields := by
  simp only [namedRules, Draft.settings, mentionedRules, List.mem_append, h.mem_disabledRules,
    hoverrides]
  rcases h.enabledRules_cases with ⟨hnone, habsent⟩ | ⟨rules, hsome, -, hmem⟩
  · rw [hnone, namesUnder_of_absent habsent, Option.getD_none]
  · rw [hsome, Option.getD_some, hmem]

theorem isEnabled_iff (h : Reads fields draft) {ruleId : String} :
    (draft.settings overrides).isEnabled ruleId = true ↔
      .whole ruleId ∉ namesUnder fields "disabled_rules" ∧
        ((Json.obj fields).field? "enabled_rules" = none ∨
          .whole ruleId ∈ namesUnder fields "enabled_rules") := by
  rw [← h.mem_disabledRules]
  rcases h.enabledRules_cases with ⟨hnone, habsent⟩ | ⟨rules, hsome, hpresent, hmem⟩
  · simp [isEnabled, Draft.settings, hnone, habsent]
  · simp [isEnabled, Draft.settings, hsome, hpresent, hmem]

end Reads

/-- The rules that settings select, by name. -/
theorem map_id_select (settings : Settings) :
    (Rule.select settings).map Rule.id = RuleCheck.knownIds.filter settings.isEnabled := by
  have hids : (RuleCheck.registry settings).map RuleCheck.id = RuleCheck.knownIds := rfl
  rw [← hids, Rule.select, List.map_map, List.filter_map]
  rfl

theorem Reads.map_id_select (h : Reads fields draft) (overrides : List (Text × Severity)) :
    (Rule.select (draft.settings overrides)).map Rule.id = selectedRules fields := by
  rw [Settings.map_id_select, selectedRules]
  refine List.filter_congr fun ruleId _ => ?_
  rw [Bool.eq_iff_iff, h.isEnabled_iff, decide_eq_true_iff]

end Settings

namespace Auditor

open Settings

theorem ofJson_eq_ok_iff {fields : List (Text × Json)} {auditor : Auditor} :
    Settings.ofJson (.obj fields) >>= ofSettings = .ok auditor ↔
      (∀ field ∈ fields, field.1 ∈ knownKeys) ∧
        (∀ ruleId ∈ mentionedRules fields, ruleId ∈ RuleCheck.knownIds.map Text.whole) ∧
        ∃ draft overrides, Reads fields draft ∧ readGiven draft.severities = .ok overrides ∧
          draft.fault? = none ∧
          auditor = ⟨draft.settings overrides, Rule.select (draft.settings overrides)⟩ := by
  simp only [bind_eq_ok, ofJson_obj_eq_ok_iff, ofFields_eq_ok_iff, ofSettings_eq_ok_iff]
  constructor
  · rintro ⟨_, ⟨hkeys, draft, overrides, hreads, hgiven, hfault, rfl⟩, hrules, rfl⟩
    refine ⟨hkeys, ?_, draft, overrides, hreads, hgiven, hfault, rfl⟩
    intro ruleId hrule
    exact hrules ruleId ((hreads.mem_namedRules (hreads.map_fst_overrides hgiven)).2 hrule)
  · rintro ⟨hkeys, hrules, draft, overrides, hreads, hgiven, hfault, rfl⟩
    refine ⟨_, ⟨hkeys, draft, overrides, hreads, hgiven, hfault, rfl⟩, ?_, rfl⟩
    intro ruleId hrule
    exact hrules ruleId ((hreads.mem_namedRules (hreads.map_fst_overrides hgiven)).1 hrule)

/-- A table of settings has an auditor exactly if it follows the grammar.  The auditor's rules are
then those of the registry, in its order, that are not disabled and, if some are enabled,
are among these. -/
theorem ofJson_accepts (fields : List (Text × Json)) :
    ((∃ auditor, Settings.ofJson (.obj fields) >>= ofSettings = .ok auditor) ↔
      IsSettings fields) ∧
    ∀ auditor, Settings.ofJson (.obj fields) >>= ofSettings = .ok auditor →
      auditor.rules.map Rule.id = selectedRules fields := by
  simp only [ofJson_eq_ok_iff]
  refine ⟨⟨?_, ?_⟩, ?_⟩
  · rintro ⟨_, hkeys, hrules, draft, _, hreads, -, hfault, -⟩
    obtain ⟨hentries, hcallback⟩ := exists_reads_iff.1 ⟨draft, hreads, hfault⟩
    exact ⟨hentries, hkeys, hcallback, hrules⟩
  · intro h
    obtain ⟨draft, hreads, hfault⟩ := exists_reads_iff.2 ⟨h.toHasEntries, h.callbackCategory⟩
    -- severities are read by name, so that none can fail once they are a draft
    obtain ⟨overrides, hgiven, -⟩ := hreads.exists_readGiven
    exact ⟨_, h.keys, h.rules, draft, overrides, hreads, hgiven, hfault, rfl⟩
  · rintro _ ⟨-, -, draft, overrides, hreads, -, -, rfl⟩
    exact hreads.map_id_select overrides

-- half of a character is not the category that it shows as
example :
    Settings.ofJson (.obj [("taxonomy", .obj [("\ufffd", .arr [.str "find*"])]),
      ("callback_category", .str (.ofPieces [.ofUnit 0xd800]))]) =
    .error (.entry "callback_category" (.unknownCategory (.ofPieces [.ofUnit 0xd800]))) := by
  rfl

/-- One rule, with a taxonomy that has no callbacks. -/
def fatModelOnly : List (Text × Json) :=
  [("enabled_rules", .arr [.str "fat-model", .str "law-of-demeter"]),
   ("disabled_rules", .arr [.str "law-of-demeter"]),
   ("taxonomy", .obj [("finder", .arr [.str "find*"])]),
   ("callback_category", .null),
   ("severity", .obj [("fat-model", .str "Info")])]

theorem ofJson_accepts_fatModelOnly :
    ∃ auditor, Settings.ofJson (.obj fatModelOnly) >>= ofSettings = .ok auditor ∧
      auditor.rules.map Rule.id = ["fat-model"] := by
  obtain ⟨haccepts, hrules⟩ := ofJson_accepts fatModelOnly
  have hpatterns : IsSomeNames (.arr [.str "find*"]) :=
    ⟨isNames_map_str ["find*"] (by decide), by simp⟩
  have hinfo : Severity.info.SpelledBy "Info" := by
    show _ = _
    decide
  have hsettings : IsSettings fatModelOnly :=
    { enabledRules :=
        .of_present rfl (isNames_map_str ["fat-model", "law-of-demeter"] (by decide))
      disabledRules := .of_present rfl (isNames_map_str ["law-of-demeter"] (by decide))
      queryOperations := .of_absent _ rfl
      mutationOperations := .of_absent _ rfl
      minDemeterDepth := .of_absent _ rfl
      minResponsibilityCategories := .of_absent _ rfl
      minTransactionClasses := .of_absent _ rfl
      maxWorkers := .of_absent _ rfl
      transactionCountsOwnClass := .of_absent _ rfl
      taxonomy := .of_present rfl ⟨_, rfl, List.cons_ne_nil _ _, by decide,
        List.forall_mem_singleton.2 ⟨by decide, hpatterns⟩⟩
      severity := .of_present rfl ⟨_, rfl,
        List.forall_mem_singleton.2 ⟨"Info", rfl, .info, hinfo⟩⟩
      keys := by decide
      callbackCategory := .inl rfl
      rules := by decide }
  obtain ⟨auditor, h⟩ := haccepts.2 hsettings
  exact ⟨auditor, h, (hrules auditor h).trans (by decide)⟩

end Auditor

end ObjectAudit
