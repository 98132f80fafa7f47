/-
ObjectAudit/Proofs/SettingsReading.lean

How settings are read, apart from the order.  Each key is read by a step of its own, which gives
the standard value if the key is not there (`entryOr`); all steps together give a draft (`Reads`).
The severities in it are ones that were read, so that they are never at fault, and what is left is
whether it breaks a requirement (`Draft.fault?`, `ofFields_eq_ok_iff`).

Before this, keys that are not known are refused (`ofJson_of_known`, `exists_ofJson_of_unknown`).
-/
import ObjectAudit.Proofs.SnapshotGrammar
import ObjectAudit.Settings.Reader

namespace ObjectAudit

/-- The fields of the table under a key; none if there is no table. -/
def Json.tableUnder (value : Json) (key : String) : List (Text × Json) :=
  match value.field? key with
  | some (.obj fields) => fields
  | _ => []

namespace Settings

open Json
open Snapshot (bind_eq_ok)

/-! ### Entries -/

section Entries

variable {fields : List (Text × Json)} {key : Text} {α : Type} {own : α}
  {reader : Text → Json → Except SettingsFault α}

theorem entryOr_of_absent (h : (Json.obj fields).field? key = none) :
    entryOr fields key own reader = .ok own := by
  rw [entryOr, show fields.lookup key = none from h]

theorem entryOr_of_present {value : Json} (h : (Json.obj fields).field? key = some value) :
    entryOr fields key own reader = reader key value := by
  rw [entryOr, show fields.lookup key = some value from h]

theorem entryOr_eq_ok_iff {a : α} :
    entryOr fields key own reader = .ok a ↔
      ((Json.obj fields).field? key = none ∧ a = own) ∨
        ∃ value, (Json.obj fields).field? key = some value ∧ reader key value = .ok a := by
  cases hkey : (Json.obj fields).field? key with
  | none => simp [entryOr_of_absent hkey, eq_comm]
  | some value => simp [entryOr_of_present hkey]

end Entries

theorem map_eq_ok {ε α β : Type} {x : Except ε α} {f : α → β} {b : β} :
    x.map f = .ok b ↔ ∃ a, x = .ok a ∧ b = f a := by
  cases x <;> simp [Except.map, eq_comm]

/-! ### All entries together -/

/-- A draft is what is read under each key, or the standard where a key is not there. -/
structure Reads (fields : List (Text × Json)) (draft : Draft) : Prop where
  enabledRules : entryOr fields "enabled_rules" standard.enabledRules
    (fun key value => (readRules key value).map some) = .ok draft.enabledRules
  disabledRules : entryOr fields "disabled_rules" standard.disabledRules readRules =
    .ok draft.disabledRules
  queryOperations : entryOr fields "query_operations" standard.queryOperations readOperations =
    .ok draft.queryOperations
  mutationOperations : entryOr fields "mutation_operations" standard.mutationOperations
    readOperations = .ok draft.mutationOperations
  minDemeterDepth : entryOr fields "min_demeter_depth" standard.minDemeterDepth readInteger =
    .ok draft.minDemeterDepth
  minResponsibilityCategories : entryOr fields "min_responsibility_categories"
    standard.minResponsibilityCategories readInteger = .ok draft.minResponsibilityCategories
  minTransactionClasses : entryOr fields "min_transaction_classes" standard.minTransactionClasses
    readInteger = .ok draft.minTransactionClasses
  maxWorkers : entryOr fields "max_workers" standard.maxWorkers readLimit = .ok draft.maxWorkers
  transactionCountsOwnClass : entryOr fields "transaction_counts_own_class"
    standard.transactionCountsOwnClass readFlag = .ok draft.transactionCountsOwnClass
  callback : entryOr fields "callback_category" (standard.callbackCategory.map .whole) readText =
    .ok draft.callback
  categories : entryOr fields "taxonomy" standard.taxonomy.given (fun _ => Taxonomy.readTable) =
    .ok draft.categories
  severities : entryOr fields "severity" [] (fun _ => readSeverityTable) = .ok draft.severities

variable {fields : List (Text × Json)} {draft : Draft} {settings : Settings}

theorem readDraft_eq_ok_iff : readDraft fields = .ok draft ↔ Reads fields draft := by
  simp only [readDraft, bind_eq_ok]
  constructor
  · rintro ⟨_, henabled, _, hdisabled, _, hquery, _, hmutation, _, hdepth, _, hcategories, _,
      hclasses, _, hworkers, _, hown, _, hcallback, _, htaxonomy, _, hseverity, heq⟩
    obtain rfl := Except.ok.inj heq
    exact ⟨henabled, hdisabled, hquery, hmutation, hdepth, hcategories, hclasses, hworkers, hown,
      hcallback, htaxonomy, hseverity⟩
  · intro h
    exact ⟨_, h.enabledRules, _, h.disabledRules, _, h.queryOperations, _, h.mutationOperations,
      _, h.minDemeterDepth, _, h.minResponsibilityCategories, _, h.minTransactionClasses, _,
      h.maxWorkers, _, h.transactionCountsOwnClass, _, h.callback, _, h.categories, _,
      h.severities, rfl⟩

/-! ### Severities -/

theorem readSeverities_cons_eq_ok_iff {entry : Text × Json} {rest : List (Text × Json)}
    {given : List (Text × GivenSeverity)} :
    readSeverities (entry :: rest) = .ok given ↔
      ∃ s severity others, entry.2.text? = some s ∧ severityOf? s = some severity ∧
        readSeverities rest = .ok others ∧ given = (entry.1, .severity severity) :: others := by
  cases htext : entry.2.text? with
  | none => simp [readSeverities, htext]
  | some s =>
    cases hseverity : severityOf? s with
    | none => simp [readSeverities, htext, hseverity]
    | some severity => simp [readSeverities, htext, hseverity, map_eq_ok]

/-- Severities that were read by name are severities. -/
theorem exists_readGiven_of_readSeverities {table : List (Text × Json)}
    {given : List (Text × GivenSeverity)} (h : readSeverities table = .ok given) :
    ∃ overrides, readGiven given = .ok overrides ∧
      overrides.map Prod.fst = table.map Prod.fst := by
  induction table generalizing given with
  | nil =>
    obtain rfl := Except.ok.inj h
    exact ⟨[], rfl, rfl⟩
  | cons entry rest ih =>
    obtain ⟨_, severity, others, -, -, hothers, rfl⟩ := readSeverities_cons_eq_ok_iff.1 h
    obtain ⟨overrides, hoverrides, hnames⟩ := ih hothers
    -- what is read from a name is a severity, never another value
    refine ⟨(entry.1, severity) :: overrides, ?_, ?_⟩
    · rw [readGiven, hoverrides]
      rfl
    · rw [List.map_cons, List.map_cons, hnames]

/-- The rules of the table of severities are those that get a severity. -/
theorem Reads.exists_readGiven (h : Reads fields draft) :
    ∃ overrides, readGiven draft.severities = .ok overrides ∧
      overrides.map Prod.fst = ((Json.obj fields).tableUnder "severity").map Prod.fst := by
  rcases entryOr_eq_ok_iff.1 h.severities with ⟨habsent, hown⟩ | ⟨value, hvalue, hread⟩
  · rw [tableUnder, habsent, hown]
    exact ⟨[], rfl, rfl⟩
  · cases value with
    | obj table =>
      rw [tableUnder, hvalue]
      exact exists_readGiven_of_readSeverities hread
    | _ => cases hread

theorem Reads.map_fst_overrides (h : Reads fields draft) {overrides : List (Text × Severity)}
    (hgiven : readGiven draft.severities = .ok overrides) :
    overrides.map Prod.fst = ((Json.obj fields).tableUnder "severity").map Prod.fst := by
  obtain ⟨_, hread, hnames⟩ := h.exists_readGiven
  obtain rfl := Except.ok.inj (hgiven.symm.trans hread)
  exact hnames

/-! ### Requirements -/

/-- The first requirement that a draft breaks. -/
def Draft.fault? (draft : Draft) : Option SettingsFault :=
  draft.thresholdFault?.or draft.operationFault?

theorem Draft.complete_eq {overrides : List (Text × Severity)}
    (h : readGiven draft.severities = .ok overrides) :
    draft.complete = draft.fault?.elim (.ok (draft.settings overrides)) .error := by
  rw [complete, h, fault?]
  cases draft.thresholdFault? with
  | some fault => rfl
  | none => cases draft.operationFault? <;> rfl

theorem Draft.fault?_eq_none_iff :
    draft.fault? = none ↔
      (1 ≤ draft.minDemeterDepth ∧ 2 ≤ draft.minResponsibilityCategories ∧
        1 ≤ draft.minTransactionClasses ∧
        (∀ workers, draft.maxWorkers = some workers → 1 ≤ workers) ∧
        ∀ category, draft.callback = some category → category ∈ draft.categories.map Prod.fst) ∧
      draft.queryOperations ≠ [] ∧ draft.mutationOperations ≠ [] := by
  rw [fault?, Option.or_eq_none_iff, thresholdFault?_eq_none_iff]
  refine and_congr_right fun _ => ?_
  cases hquery : draft.queryOperations <;> cases hmutation : draft.mutationOperations <;>
    simp [operationFault?, hquery, hmutation]

theorem ofFields_eq_ok_iff :
    ofFields fields = .ok settings ↔
      ∃ draft overrides, Reads fields draft ∧ readGiven draft.severities = .ok overrides ∧
        draft.fault? = none ∧ settings = draft.settings overrides := by
  simp only [ofFields, bind_eq_ok, readDraft_eq_ok_iff]
  constructor
  · rintro ⟨draft, hreads, hcomplete⟩
    obtain ⟨overrides, hgiven, -⟩ := hreads.exists_readGiven
    -- severities are never at fault here, so only a requirement can still be broken
    rw [Draft.complete_eq hgiven] at hcomplete
    cases hfault : draft.fault? with
    | none =>
      rw [hfault] at hcomplete
      exact ⟨draft, overrides, hreads, hgiven, hfault, (Except.ok.inj hcomplete).symm⟩
    | some fault =>
      rw [hfault] at hcomplete
      cases hcomplete
  · rintro ⟨draft, overrides, hreads, hgiven, hfault, rfl⟩
    refine ⟨draft, hreads, ?_⟩
    rw [Draft.complete_eq hgiven, hfault]
    rfl

/-! ### Known keys -/

theorem ofJson_of_known (h : ∀ field ∈ fields, field.1 ∈ knownKeys) :
    ofJson (.obj fields) = ofFields fields := by
  have hfind : (fields.map fun field => Json.str field.1).find? (fun key => !isKnown key) =
      none := by
    simpa [isKnown, Json.text?] using h
  simp only [ofJson, keysOf, bind, Except.bind, hfind]

/-- Of the keys that are not known one is blamed. -/
theorem exists_ofJson_of_unknown (h : ¬ ∀ field ∈ fields, field.1 ∈ knownKeys) :
    ∃ field ∈ fields, field.1 ∉ knownKeys ∧
      ofJson (.obj fields) = .error (.entry field.1 .unknownKey) := by
  cases hfind : (fields.map fun field => Json.str field.1).find? fun key => !isKnown key with
  | none =>
    refine absurd ?_ h
    simpa [isKnown, Json.text?] using hfind
  | some key =>
    obtain ⟨field, hfield, rfl⟩ := List.mem_map.1 (List.mem_of_find?_eq_some hfind)
    have hunknown := List.find?_some hfind
    refine ⟨field, hfield, by simpa [isKnown, Json.text?] using hunknown, ?_⟩
    simp only [ofJson, keysOf, bind, Except.bind, hfind]
    rfl

theorem ofJson_obj_eq_ok_iff :
    ofJson (.obj fields) = .ok settings ↔
      (∀ field ∈ fields, field.1 ∈ knownKeys) ∧ ofFields fields = .ok settings := by
  by_cases hknown : ∀ field ∈ fields, field.1 ∈ knownKeys
  · rw [ofJson_of_known hknown, and_iff_right hknown]
  · obtain ⟨field, -, -, hfault⟩ := exists_ofJson_of_unknown hknown
    simp only [hfault, hknown, reduceCtorEq, false_and]

end Settings

end ObjectAudit
