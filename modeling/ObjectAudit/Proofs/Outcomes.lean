/-
ObjectAudit/Proofs/Outcomes.lean

Units and their outcomes.  The outcome of a unit is its analysis if it has no flaw, and a
skipped entry with its flaws if it has one (`outcome_eq`); so the analyses and the skipped
entries of a run are those of the units without and with flaws, in order of declaration.

A unit whose name was declared before is flawed.  Therefore the names of the units without
flaws are different from each other (`nodup_names_sound`), whether they are classes or
templates, and keeping analyses by name loses none of them (`values_analysesOf`).

The last section puts this together for the audit of a model: what it skipped and what it
analysed.
-/
import ObjectAudit.Proofs.AnalysisShape

namespace ObjectAudit

namespace AuditUnit

/-- The analysis of a unit, malformed or not. -/
def analysisOf (survey : Survey) : AuditUnit → UnitAnalysis
  | classUnit decl _ => survey.classAnalysis decl
  | templateUnit template _ => survey.templateAnalysis template

/-- The entry under which a unit is skipped. -/
def toSkipped (unit : AuditUnit) : Skipped :=
  ⟨unit.name, Malformed.reason ⟨unit.name, unit.flaws⟩, unit.location⟩

/-- Was the name of a unit declared before? -/
def isRepeated : AuditUnit → Bool
  | classUnit _ repeated => repeated
  | templateUnit _ repeated => repeated

/-- Has a unit no flaw? -/
def isSound (unit : AuditUnit) : Bool := unit.flaws.isEmpty

/-! ### Outcomes -/

/-- A unit is analysed if it has no flaw, and skipped if it has one. -/
theorem outcome_eq (survey : Survey) (unit : AuditUnit) :
    unit.outcome survey =
      if unit.isSound then .analysed (unit.analysisOf survey) else .skipped unit.toSkipped := by
  unfold outcome analyse isSound toSkipped
  cases hflaws : unit.flaws with
  | nil => cases unit <;> rfl
  | cons flaw rest => rfl

/-- What is taken from the outcomes of some units comes from those that have it. -/
theorem filterMap_outcome {β : Type} {survey : Survey} {f : Outcome → Option β}
    {p : AuditUnit → Bool} {g : AuditUnit → β}
    (h : ∀ unit, f (unit.outcome survey) = if p unit then some (g unit) else none)
    (units : List AuditUnit) :
    (units.map (outcome survey)).filterMap f = (units.filter p).map g := by
  induction units with
  | nil => rfl
  | cons unit rest ih =>
    rw [List.map_cons, List.filterMap_cons, h, List.filter_cons, ih]
    cases p unit <;> rfl

theorem filterMap_analysis? (survey : Survey) (units : List AuditUnit) :
    (units.map (outcome survey)).filterMap Outcome.analysis? =
      (units.filter isSound).map (analysisOf survey) := by
  apply filterMap_outcome
  intro unit
  rw [outcome_eq]
  cases unit.isSound <;> rfl

theorem filterMap_skipped? (survey : Survey) (units : List AuditUnit) :
    (units.map (outcome survey)).filterMap Outcome.skipped? =
      (units.filter fun unit => !unit.isSound).map toSkipped := by
  apply filterMap_outcome
  intro unit
  rw [outcome_eq]
  cases unit.isSound <;> rfl

@[simp] theorem analysisOf_subject (survey : Survey) (unit : AuditUnit) :
    (unit.analysisOf survey).subject = unit.name := by
  cases unit <;> rfl

@[simp] theorem analysisOf_location (survey : Survey) (unit : AuditUnit) :
    (unit.analysisOf survey).location = unit.location := by
  cases unit <;> rfl

/-! ### Measured chains -/

/-- All chains that are measured in a unit; of those with the same expression in the same
method the analysis keeps one. -/
def measuredChains (survey : Survey) : AuditUnit → List AccessChain
  | classUnit decl _ => decl.methods.flatMap fun method => method.callSites.filterMap fun site =>
    measure? survey.graph survey.methods site decl.qualifiedName (some method.name)
      (some decl.qualifiedName)
  | templateUnit template _ => template.callSites.filterMap fun site =>
    measure? survey.graph survey.methods site template.name none none

theorem chains_analysisOf (survey : Survey) (unit : AuditUnit) :
    (unit.analysisOf survey).chains = AccessChain.distinct (unit.measuredChains survey) := by
  cases unit <;> rfl

/-- A measured chain is the measure of a call site, in a method if the unit is a class. -/
theorem exists_measure?_of_mem {survey : Survey} {unit : AuditUnit} {chain : AccessChain}
    (h : chain ∈ unit.measuredChains survey) :
    ∃ site method owner,
      measure? survey.graph survey.methods site unit.name method owner = some chain ∧
        method.isSome = !(unit.analysisOf survey).isTemplate := by
  cases unit with
  | classUnit decl repeated =>
    obtain ⟨method, -, hchain⟩ := List.mem_flatMap.1 h
    obtain ⟨site, -, hmeasure⟩ := List.mem_filterMap.1 hchain
    exact ⟨site, some method.name, some decl.qualifiedName, hmeasure, rfl⟩
  | templateUnit template repeated =>
    obtain ⟨site, -, hmeasure⟩ := List.mem_filterMap.1 h
    exact ⟨site, none, none, hmeasure, rfl⟩

/-- A measured chain belongs to its unit, starts at an audited class and crosses an
association. -/
theorem of_mem_measuredChains {survey : Survey} {unit : AuditUnit} {chain : AccessChain}
    (h : chain ∈ unit.measuredChains survey) :
    chain.subject = unit.name ∧ survey.graph.hasClass chain.startClass = true ∧
      chain.hops ≠ [] := by
  obtain ⟨site, method, owner, hmeasure, -⟩ := exists_measure?_of_mem h
  obtain ⟨hsubject, -, -, hstart, hhops⟩ := measure?_eq_some hmeasure
  exact ⟨hsubject, hstart, hhops⟩

/-! ### Repeated names -/

section MarkRepeated

variable {α : Type} {nameOf : α → String}

theorem map_fst_markRepeated (nameOf : α → String) (seen : List String) (l : List α) :
    (markRepeated nameOf seen l).map Prod.fst = l := by
  induction l generalizing seen with
  | nil => rfl
  | cons a rest ih => rw [markRepeated, List.map_cons, ih]

/-- What is not marked as repeated has a name of its own, which was not seen before. -/
theorem nodup_markRepeated (nameOf : α → String) (seen : List String) (l : List α) :
    (((markRepeated nameOf seen l).filter fun marked => !marked.2).map
        fun marked => nameOf marked.1).Nodup ∧
      ∀ marked ∈ markRepeated nameOf seen l, marked.2 = false → nameOf marked.1 ∉ seen := by
  induction l generalizing seen with
  | nil => simp [markRepeated]
  | cons a rest ih =>
    obtain ⟨hnodup, hseen⟩ := ih (nameOf a :: seen)
    -- behind `a` its name counts as seen, so what is not marked there has another one
    have hseen' : ∀ marked ∈ markRepeated nameOf (nameOf a :: seen) rest, marked.2 = false →
        nameOf marked.1 ≠ nameOf a ∧ nameOf marked.1 ∉ seen := by
      intro marked hmarked hfalse
      have := hseen marked hmarked hfalse
      simpa using this
    rw [markRepeated]
    refine ⟨?_, ?_⟩
    · rw [List.filter_cons]
      split
      · rw [List.map_cons]
        refine List.nodup_cons.2 ⟨?_, hnodup⟩
        intro hmem
        obtain ⟨marked, hmarked, heq⟩ := List.mem_map.1 hmem
        obtain ⟨hmarked, hfalse⟩ := List.mem_filter.1 hmarked
        exact (hseen' marked hmarked (by simpa using hfalse)).1 heq
      · exact hnodup
    · intro marked hmarked hfalse
      rcases List.mem_cons.1 hmarked with rfl | hmarked
      · simpa using hfalse
      · exact (hseen' marked hmarked hfalse).2

end MarkRepeated

theorem isRepeated_eq_false_of_isSound {unit : AuditUnit} (h : unit.isSound = true) :
    unit.isRepeated = false := by
  cases unit with
  | classUnit decl repeated =>
    cases repeated with
    | false => rfl
    | true => simp [isSound, flaws, ClassDecl.flaws] at h
  | templateUnit template repeated =>
    cases repeated with
    | false => rfl
    | true => simp [isSound, flaws, Template.flaws] at h

/-! ### The units of a model -/

theorem exists_of_mem_schedule {model : Model} {unit : AuditUnit} (h : unit ∈ schedule model) :
    (∃ decl ∈ model.classes, ∃ repeated, unit = classUnit decl repeated) ∨
      ∃ template ∈ model.templates, ∃ repeated, unit = templateUnit template repeated := by
  rcases List.mem_append.1 h with hclass | htemplate
  · obtain ⟨⟨decl, repeated⟩, hmarked, rfl⟩ := List.mem_map.1 hclass
    have hdecl := List.mem_map_of_mem (f := Prod.fst) hmarked
    rw [map_fst_markRepeated] at hdecl
    exact .inl ⟨decl, hdecl, repeated, rfl⟩
  · obtain ⟨⟨template, repeated⟩, hmarked, rfl⟩ := List.mem_map.1 htemplate
    have htemplate := List.mem_map_of_mem (f := Prod.fst) hmarked
    rw [map_fst_markRepeated] at htemplate
    exact .inr ⟨template, htemplate, repeated, rfl⟩

/-- Units whose names were not declared before have names of their own. -/
theorem nodup_names_unrepeated (model : Model) :
    (((schedule model).filter fun unit => !unit.isRepeated).map name).Nodup := by
  obtain ⟨hclasses, -⟩ := nodup_markRepeated ClassDecl.qualifiedName [] model.classes
  obtain ⟨htemplates, hseen⟩ := nodup_markRepeated Template.name
    (model.classes.map ClassDecl.qualifiedName) model.templates
  rw [schedule, List.filter_append, List.filter_map, List.filter_map, List.map_append,
    List.map_map, List.map_map]
  refine List.nodup_append.2 ⟨hclasses, htemplates, ?_⟩
  -- a template that is not marked has a name that no class has
  intro className hclass templateName htemplate heq
  obtain ⟨⟨template, repeated⟩, hmarked, rfl⟩ := List.mem_map.1 htemplate
  obtain ⟨hmarked, hfalse⟩ := List.mem_filter.1 hmarked
  refine hseen _ hmarked (by simpa [isRepeated] using hfalse) ?_
  obtain ⟨⟨decl, repeated'⟩, hmarked', rfl⟩ := List.mem_map.1 hclass
  have hdecl := List.mem_map_of_mem (f := Prod.fst) (List.mem_filter.1 hmarked').1
  rw [map_fst_markRepeated] at hdecl
  exact List.mem_map.2 ⟨decl, hdecl, heq⟩

/-- Units without flaws have names of their own. -/
theorem nodup_names_sound (model : Model) :
    (((schedule model).filter isSound).map name).Nodup := by
  -- a repeated name is a flaw, so units without flaws are among those not repeated
  have hsound : (schedule model).filter isSound =
      ((schedule model).filter fun unit => !unit.isRepeated).filter isSound := by
    rw [List.filter_filter]
    refine List.filter_congr ?_
    intro unit _
    cases h : unit.isSound with
    | false => rfl
    | true => rw [isRepeated_eq_false_of_isSound h]; rfl
  rw [hsound]
  exact (nodup_names_unrepeated model).sublist (List.filter_sublist.map name)

end AuditUnit

/-! ### Analyses by name -/

/-- No analysis replaces another one. -/
theorem entries_analysesOf (survey : Survey) (model : Model) :
    (analysesOf ((AuditUnit.schedule model).map (AuditUnit.outcome survey))).entries =
      ((AuditUnit.schedule model).filter AuditUnit.isSound).map fun unit =>
        (unit.name, unit.analysisOf survey) := by
  have hpairs : (((AuditUnit.schedule model).filter AuditUnit.isSound).map
      (AuditUnit.analysisOf survey)).map (fun analysis => (analysis.subject, analysis)) =
      ((AuditUnit.schedule model).filter AuditUnit.isSound).map fun unit =>
        (unit.name, unit.analysisOf survey) := by
    rw [List.map_map]
    refine List.map_congr_left ?_
    intro unit _
    simp
  rw [analysesOf, AuditUnit.filterMap_analysis?, hpairs]
  refine Table.entries_ofList ?_
  rw [List.map_map]
  exact AuditUnit.nodup_names_sound model

theorem values_analysesOf (survey : Survey) (model : Model) :
    (analysesOf ((AuditUnit.schedule model).map (AuditUnit.outcome survey))).values =
      ((AuditUnit.schedule model).filter AuditUnit.isSound).map (AuditUnit.analysisOf survey) := by
  rw [Table.values, entries_analysesOf, List.map_map]
  rfl

/-! ### The audit of a model -/

namespace Audit

variable (auditor : Auditor) (model : Model)

/-- Skipped are the entries that could not be read, and then the units with flaws. -/
theorem skipped_ofModel :
    (ofModel auditor model).report.skipped =
      model.rejected ++ ((AuditUnit.schedule model).filter fun unit => !unit.isSound).map
        AuditUnit.toSkipped := by
  show model.rejected ++ List.filterMap Outcome.skipped? (List.map _ _) = _
  rw [AuditUnit.filterMap_skipped?]

theorem values_ofModel :
    (ofModel auditor model).analyses.values =
      ((AuditUnit.schedule model).filter AuditUnit.isSound).map
        (AuditUnit.analysisOf (Survey.ofModel model auditor.settings)) :=
  values_analysesOf _ model

end Audit

end ObjectAudit
