/-
ObjectAudit/Proofs/BodyPrivacy.lean

What the body of a class holds stays there.  If a class is replaced by one with the same
outline, then whatever else changes (call sites, owners, lines, flags, its layer and its place)
is seen only in what is reported about it: all other violations stay the same, in the same
order.

There are three ways in which a body could reach others.  Analyses of other units see only
outlines (`Model.analysisOf_eq`), rules look only into the methods of the unit that they judge
(`RuleCheck.findings_eq`), and a unit is skipped for its own flaws or for a name that was
declared before.  The rest is that selecting violations by the units that they are about may be
done before they are put together (`Audit.filter_className_violations`).
-/
import ObjectAudit.Proofs.Outline
import ObjectAudit.Proofs.Totality

namespace ObjectAudit

open List (Forall₂)

/-! ### What is reported about some units -/

namespace Audit

variable (auditor : Auditor) (model : Model) (p : String → Bool)

theorem filter_inNameOrder :
    (inNameOrder (ofModel auditor model).analyses).filter (fun analysis => p analysis.subject) =
      ((((AuditUnit.schedule model).filter fun unit => p unit.name).filter
        AuditUnit.isSound).map
          (AuditUnit.analysisOf (Survey.ofModel model auditor.settings))).mergeSort
        fun a b => decide (a.subject ≤ b.subject) := by
  rw [inNameOrder, (Text.sortsBy_le.comap UnitAnalysis.subject).filter_mergeSort, values_ofModel,
    List.filter_map, List.filter_filter, List.filter_filter]
  simp only [Function.comp_def, AuditUnit.analysisOf_subject, Bool.and_comm]

theorem filter_skipped :
    (ofModel auditor model).report.skipped.filter (fun skipped => p skipped.className) =
      model.rejected.filter (fun skipped => p skipped.className) ++
        (((AuditUnit.schedule model).filter fun unit => p unit.name).filter fun unit =>
          !unit.isSound).map AuditUnit.toSkipped := by
  rw [skipped_ofModel, List.filter_append, List.filter_map, List.filter_filter,
    List.filter_filter]
  simp only [Function.comp_def, AuditUnit.toSkipped, Bool.and_comm]

/-- Violations selected by the units that they are about are what the rules report about these
units, and these units where they are skipped, sorted. -/
theorem filter_className_violations :
    (ofModel auditor model).report.violations.filter (fun violation => p violation.className) =
      Violation.sort
        (reportedBy (MethodIndex.ofModel model)
            ((inNameOrder (ofModel auditor model).analyses).filter fun analysis =>
              p analysis.subject) auditor.rules ++
          ((ofModel auditor model).report.skipped.filter fun skipped => p skipped.className).map
            Skipped.toViolation) := by
  rw [violations_ofModel, Violation.filter_sort, List.filter_append, reportedBy,
    List.filter_flatMap, List.filter_map]
  simp only [Rule.filter_subjects_evaluate]
  rfl

end Audit

/-! ### Models that differ in one class -/

/-- Classes with the same outline, and the same unless they have a given name. -/
structure ClassDecl.AlikeBeside (subject : String) (decl decl' : ClassDecl) : Prop where
  outline : decl.outline = decl'.outline
  eq : decl.qualifiedName ≠ subject → decl = decl'

theorem ClassDecl.AlikeBeside.qualifiedName {subject : String} {decl decl' : ClassDecl}
    (h : decl.AlikeBeside subject decl') : decl.qualifiedName = decl'.qualifiedName :=
  congrArg Outline.qualifiedName h.outline

namespace Model

/-- Models that are the same but for the bodies of classes of one name. -/
structure AlikeBeside (subject : String) (model model' : Model) : Prop where
  classes : Forall₂ (ClassDecl.AlikeBeside subject) model.classes model'.classes
  templates : model.templates = model'.templates
  rejected : model.rejected = model'.rejected

/-- The model with another class in the place of one. -/
def replaceClass (model : Model) (position : Nat) (decl : ClassDecl) : Model :=
  { model with classes := model.classes.set position decl }

theorem Admissible.replaceClass {model : Model} (h : model.Admissible) (position : Nat)
    {decl : ClassDecl} (hdecl : decl.Admissible) :
    (model.replaceClass position decl).Admissible where
  classes other hother := by
    rcases List.mem_or_eq_of_mem_set hother with hmem | rfl
    · exact h.classes other hmem
    · exact hdecl
  templates := h.templates
  rejected := h.rejected

namespace AlikeBeside

/-- To replace a class by one with the same outline changes its body only. -/
theorem replaceClass {model : Model} {position : Nat} {decl decl' : ClassDecl}
    (hentry : model.classes[position]? = some decl) (houtline : decl.outline = decl'.outline) :
    model.AlikeBeside decl.qualifiedName (model.replaceClass position decl') where
  classes := by
    show Forall₂ _ model.classes (model.classes.set position decl')
    generalize model.classes = classes at hentry
    induction classes generalizing position with
    | nil => cases hentry
    | cons first rest ih =>
      cases position with
      | zero =>
        obtain rfl := Option.some.inj hentry
        refine .cons ⟨houtline, fun hne => absurd rfl hne⟩ ?_
        exact List.forall₂_same.2 fun other _ => ⟨rfl, fun _ => rfl⟩
      | succ position => exact .cons ⟨rfl, fun _ => rfl⟩ (ih hentry)
  templates := rfl
  rejected := rfl

variable {subject : String} {model model' : Model} (h : model.AlikeBeside subject model')

include h

theorem outlines : model.outlines = model'.outlines :=
  map_eq_of_forall₂ (fun _ _ hdecl => hdecl.outline) h.classes

theorem class?_eq {name : String} (hname : name ≠ subject) :
    model.class? name = model'.class? name := by
  -- the first class of a name is the first of all that have it, and these are the same
  rw [class?, class?, ← List.head?_filter, ← List.head?_filter]
  apply congrArg
  refine filter_eq_of_forall₂ ?_ h.classes
  intro decl decl' hdecl
  refine ⟨by rw [hdecl.qualifiedName], ?_⟩
  intro heq
  exact hdecl.eq (eq_of_beq heq ▸ hname)

/-- The methods of all other classes are the same. -/
theorem get?_eq {className : String} (hname : className ≠ subject) (name : String) :
    (MethodIndex.ofModel model).get? className name =
      (MethodIndex.ofModel model').get? className name := by
  rw [MethodIndex.get?_ofModel, MethodIndex.get?_ofModel, h.class?_eq hname]

/-- All other units are the same, in the same order, and repeated or not as before. -/
theorem filter_schedule_eq :
    (AuditUnit.schedule model).filter (fun unit => unit.name != subject) =
      (AuditUnit.schedule model').filter fun unit => unit.name != subject := by
  have htemplates : Forall₂ Eq model.templates model'.templates := by
    rw [h.templates]
    exact List.forall₂_same.2 fun _ _ => rfl
  have hunits := AuditUnit.forall₂_schedule (fun _ _ hdecl => hdecl.qualifiedName)
    (fun _ _ => congrArg Template.name) h.classes htemplates
  refine filter_eq_of_forall₂ ?_ hunits
  intro unit unit' hunit
  cases hunit with
  | @classUnit decl decl' repeated hdecl =>
    show (decl.qualifiedName != subject) = (decl'.qualifiedName != subject) ∧ _
    refine ⟨by rw [hdecl.qualifiedName], ?_⟩
    intro hne
    rw [hdecl.eq (bne_iff_ne.1 hne)]
  | templateUnit repeated heq =>
    rw [heq]
    exact ⟨rfl, fun _ => rfl⟩

end AlikeBeside

end Model

/-! ### The audit of a model -/

/-- Bodies of one class are not seen in what is reported about other units. -/
theorem Audit.filter_violations_eq (auditor : Auditor) {subject : String} {model model' : Model}
    (h : model.AlikeBeside subject model') :
    (ofModel auditor model).report.violations.filter
        (fun violation => violation.className != subject) =
      (ofModel auditor model').report.violations.filter
        fun violation => violation.className != subject := by
  -- other units are the same and see outlines only, so their analyses are the same
  have hanalyses := filter_inNameOrder auditor model (· != subject)
  rw [h.filter_schedule_eq, Model.analysisOf_eq h.outlines,
    ← filter_inNameOrder auditor model' (· != subject)] at hanalyses
  have hskipped := filter_skipped auditor model (· != subject)
  rw [h.filter_schedule_eq, h.rejected,
    ← filter_skipped auditor model' (· != subject)] at hskipped
  rw [filter_className_violations auditor model (· != subject),
    filter_className_violations auditor model' (· != subject), hanalyses, hskipped]
  -- a rule that judges another unit looks into the methods of that unit
  have hreported : ∀ rule : Rule,
      rule.evaluate (MethodIndex.ofModel model)
          ((inNameOrder (ofModel auditor model').analyses).filter (·.subject != subject)) =
        rule.evaluate (MethodIndex.ofModel model')
          ((inNameOrder (ofModel auditor model').analyses).filter (·.subject != subject)) := by
    intro rule
    apply rule.evaluate_eq
    intro analysis hanalysis
    exact h.get?_eq (bne_iff_ne.1 (List.mem_filter.1 hanalysis).2)
  simp only [reportedBy, hreported]

/-- The class with all bodies and owners taken away, and moved to another layer. -/
def ClassDecl.hollow (decl : ClassDecl) : ClassDecl :=
  { decl with
    methods := decl.methods.map fun method =>
      { name := method.name, owner := none, isClassLevel := method.isClassLevel
        delegatesTo := method.delegatesTo }
    layer := .other }

theorem ClassDecl.outline_hollow (decl : ClassDecl) : decl.outline = decl.hollow.outline := by
  rw [outline, outline, hollow, List.map_map]
  rfl

namespace Auditor

/-- Bodies do not leak.  If a class is replaced by one with the same name, the same
associations, and methods with the same names, levels and delegations in the same order, then
both audits return, and they report the same about all units of other names, in the same
order. -/
theorem auditInOrder_body_private (auditor : Auditor) {model : Model} (hmodel : model.Admissible)
    {position : Nat} {decl decl' : ClassDecl} (hentry : model.classes[position]? = some decl)
    (hdecl : decl'.Admissible) (houtline : decl.outline = decl'.outline) {order order' : List Nat}
    (horder : order.Perm (List.range (AuditUnit.schedule model).length))
    (horder' : order'.Perm
      (List.range (AuditUnit.schedule (model.replaceClass position decl')).length)) :
    ∃ audit audit', auditor.auditInOrder model .never order = .ok audit ∧
      auditor.auditInOrder (model.replaceClass position decl') .never order' = .ok audit' ∧
      audit.report.violations.filter
          (fun violation => violation.className != decl.qualifiedName) =
        audit'.report.violations.filter
          fun violation => violation.className != decl.qualifiedName := by
  refine ⟨_, _, auditor.auditInOrder_eq_ofModel hmodel horder,
    auditor.auditInOrder_eq_ofModel (hmodel.replaceClass position hdecl) horder', ?_⟩
  exact Audit.filter_violations_eq auditor (.replaceClass hentry houtline)

theorem auditInOrder_body_private_hollow :
    ∃ decl, Model.tangled.classes[3]? = some decl ∧ decl ≠ decl.hollow ∧
      decl.flaws false = [] ∧ decl.hollow.flaws false ≠ [] ∧
      ∃ audit audit',
        standard.auditInOrder .tangled .never [4, 2, 0, 5, 1, 3] = .ok audit ∧
        standard.auditInOrder (Model.tangled.replaceClass 3 decl.hollow) .never
          [0, 1, 2, 3, 4, 5] = .ok audit' ∧
        audit.report.violations.filter
            (fun violation => violation.className != decl.qualifiedName) =
          audit'.report.violations.filter
            fun violation => violation.className != decl.qualifiedName := by
  have hentry : Model.tangled.classes[3]? = some _ := rfl
  refine ⟨_, hentry, by decide, by decide, by decide, ?_⟩
  exact auditInOrder_body_private standard Model.tangled_admissible hentry (by decide)
    (ClassDecl.outline_hollow _) (by decide) (by decide)

end Auditor

end ObjectAudit
