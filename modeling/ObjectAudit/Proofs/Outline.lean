/-
ObjectAudit/Proofs/Outline.lean

What a class shows to the rest of a model: its name, its associations, and the signatures of
its methods (`ClassDecl.outline`).  The graph of a model is made from the outlines of its
classes (`Model.graph_eq`), and so is all that code sees of the methods of other classes
(`Model.signaturesAlike`).  Models with the same outlines therefore give each unit the same
analysis.

The units of two models correspond to each other if their classes and templates do, name by
name (`AuditUnit.forall₂_schedule`): which of them are repeated is a matter of names alone.
-/
import ObjectAudit.Proofs.Correspondence
import ObjectAudit.Proofs.SurveyAgreement

namespace ObjectAudit

open List (Forall₂)

/-! ### Outlines -/

/-- What a class shows to the rest of a model. -/
structure ClassDecl.Outline where
  qualifiedName : String
  associations : List Association
  methods : List Method.Signature
deriving DecidableEq, Repr

/-- The outline of a class. -/
def ClassDecl.outline (decl : ClassDecl) : Outline :=
  ⟨decl.qualifiedName, decl.associations, decl.methods.map Method.signature⟩

/-- The outlines of the classes of a model, in order of declaration. -/
def Model.outlines (model : Model) : List ClassDecl.Outline :=
  model.classes.map ClassDecl.outline

theorem Model.names_eq_map_outlines (model : Model) :
    model.classes.map ClassDecl.qualifiedName =
      model.outlines.map ClassDecl.Outline.qualifiedName := by
  rw [outlines, List.map_map]
  rfl

/-- Edges come from the first outline of each name. -/
theorem Graph.declaredEdges_eq_flatMap_outlines (model : Model) :
    declaredEdges model =
      (model.outlines.eraseDupsBy fun a b => a.qualifiedName == b.qualifiedName).flatMap
        fun outline => outline.associations.filter fun edge =>
          edge.source == outline.qualifiedName := by
  rw [declaredEdges, firstDeclarations, Model.outlines, eraseDupsBy_map, List.flatMap_map]
  rfl

/-- The signature of a method is the first of its name in the first outline of its class. -/
theorem MethodIndex.map_signature_get?_ofModel (model : Model) (className name : String) :
    ((ofModel model).get? className name).map Method.signature =
      (model.outlines.find? fun outline => outline.qualifiedName == className).bind
        fun outline => outline.methods.find? fun signature => signature.name == name := by
  rw [get?_ofModel, Option.map_bind, Model.outlines, List.find?_map, Option.bind_map]
  congr 1
  funext decl
  show (decl.method? name).map _ = (decl.methods.map _).find? _
  rw [List.find?_map]
  rfl

namespace Model

variable {model model' : Model} (h : model.outlines = model'.outlines)

include h

theorem classNames_eq : model.classNames = model'.classNames := by
  rw [classNames, classNames, names_eq_map_outlines, names_eq_map_outlines, h]

/-- Models with the same outlines have the same graph. -/
theorem graph_eq : Graph.ofModel model = Graph.ofModel model' := by
  rw [Graph.ofModel, Graph.ofModel, classNames_eq h, Graph.declaredEdges_eq_flatMap_outlines,
    Graph.declaredEdges_eq_flatMap_outlines, h]

theorem signaturesAlike :
    SignaturesAlike (Graph.ofModel model) (MethodIndex.ofModel model) (Graph.ofModel model')
      (MethodIndex.ofModel model') where
  edge source accessor := by rw [graph_eq h]
  hasClass name := by rw [graph_eq h]
  signature className name := by
    rw [MethodIndex.map_signature_get?_ofModel, MethodIndex.map_signature_get?_ofModel, h]

/-- Models with the same outlines give each unit the same analysis. -/
theorem analysisOf_eq (settings : Settings) :
    AuditUnit.analysisOf (Survey.ofModel model settings) =
      AuditUnit.analysisOf (Survey.ofModel model' settings) := by
  funext unit
  exact (signaturesAlike h).analysisOf_eq settings unit

end Model

/-! ### Units that correspond to each other -/

namespace AuditUnit

/-- Units of the same kind, repeated or not, whose classes or templates correspond to each
other. -/
inductive Alike (R : ClassDecl → ClassDecl → Prop) (S : Template → Template → Prop) :
    AuditUnit → AuditUnit → Prop
  | classUnit {decl decl' : ClassDecl} (repeated : Bool) :
      R decl decl' → Alike R S (.classUnit decl repeated) (.classUnit decl' repeated)
  | templateUnit {template template' : Template} (repeated : Bool) :
      S template template' →
        Alike R S (.templateUnit template repeated) (.templateUnit template' repeated)

/-- Where names are the same, the same of them are repeated. -/
theorem forall₂_markRepeated {α : Type} {nameOf : α → String} {R : α → α → Prop}
    (hname : ∀ a b, R a b → nameOf a = nameOf b) {l l' : List α} (h : Forall₂ R l l')
    (seen : List String) :
    Forall₂ (fun marked marked' => R marked.1 marked'.1 ∧ marked.2 = marked'.2)
      (markRepeated nameOf seen l) (markRepeated nameOf seen l') := by
  induction h generalizing seen with
  | nil => exact .nil
  | @cons a b _ _ hab _ ih =>
    rw [markRepeated, markRepeated, hname a b hab]
    exact .cons ⟨hab, rfl⟩ (ih _)

/-- Models whose classes and templates correspond to each other, with the same names, have
units that do. -/
theorem forall₂_schedule {R : ClassDecl → ClassDecl → Prop} {S : Template → Template → Prop}
    (hclass : ∀ decl decl', R decl decl' → decl.qualifiedName = decl'.qualifiedName)
    (htemplate : ∀ template template', S template template' → template.name = template'.name)
    {model model' : Model} (hclasses : Forall₂ R model.classes model'.classes)
    (htemplates : Forall₂ S model.templates model'.templates) :
    Forall₂ (Alike R S) (schedule model) (schedule model') := by
  -- a template is repeated also if a class has its name
  rw [schedule, schedule, map_eq_of_forall₂ hclass hclasses]
  refine List.rel_append ?_ ?_
  · refine List.forall₂_map_left_iff.2 (List.forall₂_map_right_iff.2 ?_)
    refine (forall₂_markRepeated hclass hclasses []).imp ?_
    rintro ⟨decl, repeated⟩ ⟨decl', _⟩ ⟨hdecl, rfl⟩
    exact .classUnit repeated hdecl
  · refine List.forall₂_map_left_iff.2 (List.forall₂_map_right_iff.2 ?_)
    refine (forall₂_markRepeated htemplate htemplates _).imp ?_
    rintro ⟨template, repeated⟩ ⟨template', _⟩ ⟨htemplate, rfl⟩
    exact .templateUnit repeated htemplate

end AuditUnit

end ObjectAudit
