/-
ObjectAudit/Proofs/Redeclaration.lean

A class that is declared once more is inert.  Four parts of an audit treat repeated names, each
in its own way: the graph takes the edges of first declarations, the method index lets the first
declaration win, the class names are a set, and a unit is marked as repeated if its name was
seen.  A further declaration of a name that stands before it leaves the first three as they were,
so the whole survey is the same (`Model.survey_insertClass`), and adds one marked unit in its
place without changing the marks of the others (`Model.exists_schedule_insertClass`).

That unit is skipped.  So the audit differs by one skipped entry and one violation, which sorting
puts somewhere between the others (`SortsBy.exists_mergeSort_insert`).
-/
import ObjectAudit.Proofs.Totality

namespace ObjectAudit

open Text

/-! ### Marks -/

namespace AuditUnit

variable {α : Type} {nameOf : α → String}

/-- Marks depend on which names were seen, and not on how often or in which order. -/
theorem markRepeated_congr {seen seen' : List String} (h : ∀ name, name ∈ seen ↔ name ∈ seen')
    (l : List α) : markRepeated nameOf seen l = markRepeated nameOf seen' l := by
  induction l generalizing seen seen' with
  | nil => rfl
  | cons a rest ih =>
    have hcontains : seen.contains (nameOf a) = seen'.contains (nameOf a) := by
      apply Bool.eq_iff_iff.2
      simp [h]
    have hseen : ∀ name, name ∈ nameOf a :: seen ↔ name ∈ nameOf a :: seen' := by
      intro name
      simp [h]
    rw [markRepeated, markRepeated, hcontains, ih hseen]

/-- Behind some elements, their names have been seen. -/
theorem markRepeated_append (seen : List String) (l l' : List α) :
    markRepeated nameOf seen (l ++ l') =
      markRepeated nameOf seen l ++ markRepeated nameOf (l.map nameOf ++ seen) l' := by
  induction l generalizing seen with
  | nil => rfl
  | cons a rest ih =>
    have hseen : ∀ name, name ∈ rest.map nameOf ++ nameOf a :: seen ↔
        name ∈ (a :: rest).map nameOf ++ seen := by
      intro name
      simp [or_left_comm]
    rw [List.cons_append, markRepeated, ih, markRepeated, markRepeated_congr hseen]
    rfl

/-- One more element with a name that was seen is marked, and all others as they were. -/
theorem exists_markRepeated_insert {front : List α} {a : α} (h : nameOf a ∈ front.map nameOf)
    (back : List α) :
    ∃ marked marked', markRepeated nameOf [] (front ++ back) = marked ++ marked' ∧
      markRepeated nameOf [] (front ++ a :: back) = marked ++ (a, true) :: marked' := by
  have hcontains : (front.map nameOf ++ []).contains (nameOf a) = true :=
    List.contains_iff_mem.2 (List.mem_append_left [] h)
  -- its name adds nothing to those seen behind it
  have hseen : ∀ name, name ∈ nameOf a :: (front.map nameOf ++ []) ↔
      name ∈ front.map nameOf ++ [] := by
    intro name
    rw [List.mem_cons]
    constructor
    · rintro (rfl | hmem)
      · exact List.mem_append_left [] h
      · exact hmem
    · exact .inr
  refine ⟨_, _, markRepeated_append [] front back, ?_⟩
  rw [markRepeated_append, markRepeated, hcontains, markRepeated_congr hseen]

end AuditUnit

/-! ### Models with one more declaration -/

namespace Model

/-- The model with a further class behind the first so many. -/
def insertClass (model : Model) (position : Nat) (decl : ClassDecl) : Model :=
  { model with classes := model.classes.take position ++ decl :: model.classes.drop position }

/-- The name of a class is declared before a position. -/
def DeclaredBefore (model : Model) (position : Nat) (decl : ClassDecl) : Prop :=
  decl.qualifiedName ∈ (model.classes.take position).map ClassDecl.qualifiedName

instance (model : Model) (position : Nat) (decl : ClassDecl) :
    Decidable (model.DeclaredBefore position decl) :=
  inferInstanceAs (Decidable (_ ∈ _))

/-- A further declaration of the one class of `tangled` that is without flaws.  On its own it
would be without flaws too, with an edge and a method that no other class has. -/
def orderAgain : ClassDecl :=
  let invoice : Association :=
    { source := "Order", target := "Invoice", kind := .ownsMany, accessor := "invoices" }
  let site : CallSite :=
    { origin := .self, root := "self", chain := ["invoices", "customer", "name"], line := 4 }
  { qualifiedName := "Order", associations := [invoice]
    methods := [{ name := "billed", owner := some "Order", callSites := [site] }]
    layer := .view, location := ⟨.ofText "lib/order.rb", 1, 0⟩ }

theorem Admissible.insertClass {model : Model} (h : model.Admissible) (position : Nat)
    {decl : ClassDecl} (hdecl : decl.Admissible) :
    (model.insertClass position decl).Admissible where
  classes other hother := by
    rcases List.mem_append.1 hother with hfront | hback
    · exact h.classes other (List.mem_of_mem_take hfront)
    · rcases List.mem_cons.1 hback with rfl | hback
      · exact hdecl
      · exact h.classes other (List.mem_of_mem_drop hback)
  templates := h.templates
  rejected := h.rejected

variable {model : Model} {position : Nat} {decl : ClassDecl}
variable (h : model.DeclaredBefore position decl)

include h

theorem mem_names_insertClass (name : String) :
    name ∈ (model.insertClass position decl).classes.map ClassDecl.qualifiedName ↔
      name ∈ model.classes.map ClassDecl.qualifiedName := by
  rw [← List.take_append_drop position model.classes]
  show name ∈ List.map _ (_ ++ decl :: _) ↔ _
  rw [List.map_append, List.map_append, List.map_cons, List.mem_append, List.mem_append,
    List.mem_cons]
  constructor
  · rintro (hfront | rfl | hback)
    · exact .inl hfront
    · exact .inl h
    · exact .inr hback
  · rintro (hfront | hback)
    · exact .inl hfront
    · exact .inr (.inr hback)

theorem classNames_insertClass : (model.insertClass position decl).classNames = model.classNames :=
  textSet_congr (mem_names_insertClass h)

theorem declaredEdges_insertClass :
    Graph.declaredEdges (model.insertClass position decl) = Graph.declaredEdges model := by
  have hfirst : Graph.firstDeclarations (model.insertClass position decl).classes =
      Graph.firstDeclarations model.classes := by
    refine (eraseDupsBy_insert ClassDecl.qualifiedName h _).trans ?_
    rw [List.take_append_drop]
    rfl
  rw [Graph.declaredEdges, Graph.declaredEdges, hfirst]

theorem methods_insertClass :
    MethodIndex.ofModel (model.insertClass position decl) = MethodIndex.ofModel model := by
  have hkey : decl.qualifiedName ∈ ((model.classes.take position).map fun decl =>
      (decl.qualifiedName, MethodIndex.ofMethods decl.methods)).map Prod.fst := by
    rw [List.map_map]
    exact h
  refine congrArg MethodIndex.mk ?_
  show Table.ofListNew (List.map _ (_ ++ decl :: _)) = Table.ofListNew _
  rw [List.map_append, List.map_cons, Table.ofListNew_insert hkey, ← List.map_append,
    List.take_append_drop]

/-- Nothing that analyses and rules look up has changed. -/
theorem survey_insertClass (settings : Settings) :
    Survey.ofModel (model.insertClass position decl) settings = Survey.ofModel model settings := by
  rw [Survey.ofModel, Survey.ofModel, Graph.ofModel, Graph.ofModel, classNames_insertClass h,
    declaredEdges_insertClass h, methods_insertClass h]

/-- One unit more, which is marked as repeated; all others are as they were. -/
theorem exists_schedule_insertClass :
    ∃ before after, AuditUnit.schedule model = before ++ after ∧
      AuditUnit.schedule (model.insertClass position decl) =
        before ++ .classUnit decl true :: after := by
  -- templates are marked by the names of the classes, and these are the same
  have htemplates : AuditUnit.markRepeated Template.name
      ((model.insertClass position decl).classes.map ClassDecl.qualifiedName) model.templates =
      AuditUnit.markRepeated Template.name (model.classes.map ClassDecl.qualifiedName)
        model.templates :=
    AuditUnit.markRepeated_congr (mem_names_insertClass h) _
  obtain ⟨marked, marked', hmarked, hmarked'⟩ :=
    AuditUnit.exists_markRepeated_insert h (model.classes.drop position)
  rw [List.take_append_drop] at hmarked
  refine ⟨marked.map fun entry => .classUnit entry.1 entry.2,
    marked'.map (fun entry => .classUnit entry.1 entry.2) ++
      (AuditUnit.markRepeated Template.name (model.classes.map ClassDecl.qualifiedName)
        model.templates).map fun entry => .templateUnit entry.1 entry.2, ?_, ?_⟩
  · rw [AuditUnit.schedule, hmarked, List.map_append, List.append_assoc]
  · show List.map _ (AuditUnit.markRepeated _ _ (_ ++ decl :: _)) ++
      List.map _ (AuditUnit.markRepeated _ _ model.templates) = _
    rw [hmarked', htemplates, List.map_append, List.map_cons, List.append_assoc]
    rfl

end Model

/-! ### The audit of a model -/

namespace Audit

variable (auditor : Auditor) {model : Model} {position : Nat} {decl : ClassDecl}
variable (h : model.DeclaredBefore position decl)

include h

/-- The same units are without flaws, and they have the same analyses. -/
theorem analyses_insertClass :
    (ofModel auditor (model.insertClass position decl)).analyses =
      (ofModel auditor model).analyses := by
  obtain ⟨before, after, hunits, hunits'⟩ := Model.exists_schedule_insertClass h
  have hflawed : (AuditUnit.classUnit decl true).isSound = false := rfl
  show analysesOf (List.map _ _) = analysesOf (List.map _ _)
  rw [analysesOf, analysesOf, AuditUnit.filterMap_analysis?, AuditUnit.filterMap_analysis?, hunits,
    hunits', Model.survey_insertClass h, List.filter_append, List.filter_append, List.filter_cons,
    hflawed]
  rfl

/-- One more entry is skipped. -/
theorem exists_skipped_insertClass :
    ∃ before after, (ofModel auditor model).report.skipped = before ++ after ∧
      (ofModel auditor (model.insertClass position decl)).report.skipped =
        before ++ (AuditUnit.classUnit decl true).toSkipped :: after := by
  obtain ⟨before, after, hunits, hunits'⟩ := Model.exists_schedule_insertClass h
  have hflawed : (!(AuditUnit.classUnit decl true).isSound) = true := rfl
  refine ⟨model.rejected ++ (before.filter fun unit => !unit.isSound).map AuditUnit.toSkipped,
    (after.filter fun unit => !unit.isSound).map AuditUnit.toSkipped, ?_, ?_⟩
  · rw [skipped_ofModel, hunits, List.filter_append, List.map_append, List.append_assoc]
  · rw [skipped_ofModel, hunits', List.filter_append, List.filter_cons, if_pos hflawed,
      List.map_append, List.map_cons, List.append_assoc]
    rfl

/-- One more violation is reported, for that entry. -/
theorem exists_violations_insertClass :
    ∃ before after, (ofModel auditor model).report.violations = before ++ after ∧
      (ofModel auditor (model.insertClass position decl)).report.violations =
        before ++ (AuditUnit.classUnit decl true).toSkipped.toViolation :: after := by
  obtain ⟨before, after, hskipped, hskipped'⟩ := exists_skipped_insertClass auditor h
  rw [violations_ofModel, violations_ofModel, analyses_insertClass auditor h,
    Model.methods_insertClass h, hskipped, hskipped', List.map_append, List.map_append,
    List.map_cons, ← List.append_assoc, ← List.append_assoc]
  exact Violation.sortsBy_before.exists_mergeSort_insert _ _ _

theorem stats_insertClass :
    (ofModel auditor (model.insertClass position decl)).report.stats =
      { (ofModel auditor model).report.stats with
        classesSkipped := (ofModel auditor model).report.stats.classesSkipped + 1 } := by
  obtain ⟨before, after, hskipped, hskipped'⟩ := exists_skipped_insertClass auditor h
  -- one more unit is skipped; all else that is counted is the same
  have hlength : ((ofModel auditor (model.insertClass position decl)).report.skipped.length : Int) =
      (ofModel auditor model).report.skipped.length + 1 := by
    rw [hskipped, hskipped']
    simp
    omega
  have hgraph : Graph.ofModel (model.insertClass position decl) = Graph.ofModel model :=
    congrArg Survey.graph (Model.survey_insertClass h auditor.settings)
  show statsOf (Graph.ofModel (model.insertClass position decl))
      (ofModel auditor (model.insertClass position decl)).analyses.values
      (ofModel auditor (model.insertClass position decl)).report.skipped auditor.rules = _
  rw [analyses_insertClass auditor h, hgraph, statsOf, hlength]
  rfl

end Audit

namespace Auditor

/-- A class that is declared once more is inert.  Whatever it holds, the audit of the model with
it differs from that of the model without it by one skipped entry, the violation that keeps the
entry visible, and their count: the graph, the methods and the analyses are the same, all other
violations and entries keep their order, and all other counters their values. -/
theorem auditInOrder_redeclared (auditor : Auditor) {model : Model} (hmodel : model.Admissible)
    {position : Nat} {decl : ClassDecl} (hdecl : decl.Admissible)
    (hbefore : model.DeclaredBefore position decl) {order order' : List Nat}
    (horder : order.Perm (List.range (AuditUnit.schedule model).length))
    (horder' : order'.Perm
      (List.range (AuditUnit.schedule (model.insertClass position decl)).length)) :
    ∃ audit audit' skipped, auditor.auditInOrder model .never order = .ok audit ∧
      auditor.auditInOrder (model.insertClass position decl) .never order' = .ok audit' ∧
      audit'.survey = audit.survey ∧ audit'.analyses = audit.analyses ∧
      skipped = (AuditUnit.classUnit decl true).toSkipped ∧
      (∃ before after, audit.report.skipped = before ++ after ∧
        audit'.report.skipped = before ++ skipped :: after) ∧
      (∃ before after, audit.report.violations = before ++ after ∧
        audit'.report.violations = before ++ skipped.toViolation :: after) ∧
      audit'.report.stats =
        { audit.report.stats with classesSkipped := audit.report.stats.classesSkipped + 1 } := by
  refine ⟨_, _, _, auditor.auditInOrder_eq_ofModel hmodel horder,
    auditor.auditInOrder_eq_ofModel (hmodel.insertClass position hdecl) horder', ?_, ?_, rfl, ?_,
    ?_, ?_⟩
  · exact Model.survey_insertClass hbefore auditor.settings
  · exact Audit.analyses_insertClass auditor hbefore
  · exact Audit.exists_skipped_insertClass auditor hbefore
  · exact Audit.exists_violations_insertClass auditor hbefore
  · exact Audit.stats_insertClass auditor hbefore

theorem auditInOrder_redeclared_order :
    Model.tangled.DeclaredBefore 4 Model.orderAgain ∧ Model.orderAgain.flaws false = [] ∧
    ∃ audit audit' skipped,
      standard.auditInOrder .tangled .never [4, 2, 0, 5, 1, 3] = .ok audit ∧
      standard.auditInOrder (Model.tangled.insertClass 4 Model.orderAgain) .never
        [6, 0, 5, 1, 4, 2, 3] = .ok audit' ∧
      audit'.survey = audit.survey ∧ audit'.analyses = audit.analyses ∧
      skipped = (AuditUnit.classUnit Model.orderAgain true).toSkipped ∧
      (∃ before after, audit.report.skipped = before ++ after ∧
        audit'.report.skipped = before ++ skipped :: after) ∧
      (∃ before after, audit.report.violations = before ++ after ∧
        audit'.report.violations = before ++ skipped.toViolation :: after) ∧
      audit'.report.stats =
        { audit.report.stats with classesSkipped := audit.report.stats.classesSkipped + 1 } := by
  have hbefore : Model.tangled.DeclaredBefore 4 Model.orderAgain := by decide
  exact ⟨hbefore, by decide, auditInOrder_redeclared standard Model.tangled_admissible (by decide)
    hbefore (by decide) (by decide)⟩

end Auditor

end ObjectAudit
