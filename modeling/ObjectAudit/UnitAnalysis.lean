/-
ObjectAudit/UnitAnalysis.lean

What is found out about one class or template before any rule looks at it.  An analysis
reads the graph, the method index, the settings and its own unit, and nothing else, so
units can be analysed in any order.
-/
import ObjectAudit.AccessChain
import ObjectAudit.Cluster
import ObjectAudit.Integrity
import ObjectAudit.LayeredCall
import ObjectAudit.Mutation
import ObjectAudit.Settings.Basic

namespace ObjectAudit

/-- What is found out about one class or template. -/
structure UnitAnalysis where
  subject : String
  layer : Layer
  location : Location
  isTemplate : Bool := false
  chains : List AccessChain := []
  calls : List LayeredCall := []
  clusters : List Cluster := []
  mutations : List Mutation := []
  transactions : List Transaction := []
  methodCount : Int := 0
  callSiteCount : Int := 0
deriving DecidableEq, Repr

instance : Checked UnitAnalysis where
  defect? analysis := firstDefect
    [nonempty "subject" analysis.subject,
     (analysis.isTemplate && analysis.layer != .view,
       .templateLayer analysis.layer.capitalName),
     atLeast "method_count" 0 analysis.methodCount,
     atLeast "call_site_count" 0 analysis.callSiteCount]

/-- What the analysis of every unit reads. -/
structure Survey where
  graph : Graph
  methods : MethodIndex
  settings : Settings

namespace Survey

def ofModel (model : Model) (settings : Settings) : Survey :=
  ⟨Graph.ofModel model, MethodIndex.ofModel model, settings⟩

variable (survey : Survey)

def clustering : Clustering :=
  ⟨survey.graph, survey.settings.taxonomy, survey.settings.callbackCategory⟩

/-- What is found out about a class that is not malformed. -/
def classAnalysis (decl : ClassDecl) : UnitAnalysis :=
  let mutations := mutationsOf survey.graph survey.methods survey.settings.mutationOperations decl
  { subject := decl.qualifiedName
    layer := decl.layer
    location := decl.location
    chains := AccessChain.ofClass survey.graph survey.methods decl
    calls := LayeredCall.ofClass survey.graph survey.methods survey.settings.queryOperations decl
    clusters := survey.clustering.clusters decl
    mutations
    transactions := transactionsOf survey.settings.transactionCountsOwnClass mutations decl
    methodCount := decl.methods.length
    callSiteCount :=
      (decl.methods.map fun method => (method.callSites.length : Int)).foldr (· + ·) 0 }

def templateAnalysis (template : Template) : UnitAnalysis :=
  { subject := template.name
    layer := .view
    location := template.location
    isTemplate := true
    chains := AccessChain.ofTemplate survey.graph survey.methods template
    calls :=
      LayeredCall.ofTemplate survey.graph survey.methods survey.settings.queryOperations template
    callSiteCount := template.callSites.length }

end Survey

/-- A class or template to be analysed, and whether its name was declared before. -/
inductive AuditUnit where
  | classUnit (decl : ClassDecl) (repeated : Bool)
  | templateUnit (template : Template) (repeated : Bool)
deriving DecidableEq, Repr

namespace AuditUnit

def name : AuditUnit → String
  | classUnit decl _ => decl.qualifiedName
  | templateUnit template _ => template.name

def location : AuditUnit → Location
  | classUnit decl _ => decl.location
  | templateUnit template _ => template.location

def flaws : AuditUnit → List Flaw
  | classUnit decl repeated => decl.flaws repeated
  | templateUnit template repeated => template.flaws repeated

/-- Name after name, whether it occurs before. -/
def markRepeated {α : Type} (nameOf : α → String) (seen : List String) : List α → List (α × Bool)
  | [] => []
  | a :: rest => (a, seen.contains (nameOf a)) :: markRepeated nameOf (nameOf a :: seen) rest

/-- The units of a model: its classes, then its templates, in order of declaration.  A name
counts as declared before whether a class or a template had it. -/
def schedule (model : Model) : List AuditUnit :=
  let classNames := model.classes.map ClassDecl.qualifiedName
  (markRepeated ClassDecl.qualifiedName [] model.classes).map (fun (decl, repeated) =>
      classUnit decl repeated) ++
    (markRepeated Template.name classNames model.templates).map fun (template, repeated) =>
      templateUnit template repeated

/-- Analyse a unit, unless it is malformed. -/
def analyse (survey : Survey) (unit : AuditUnit) : Except Malformed UnitAnalysis :=
  match unit.flaws with
  | [] => .ok (match unit with
    | classUnit decl _ => survey.classAnalysis decl
    | templateUnit template _ => survey.templateAnalysis template)
  | flaws => .error ⟨unit.name, flaws⟩

end AuditUnit

end ObjectAudit
