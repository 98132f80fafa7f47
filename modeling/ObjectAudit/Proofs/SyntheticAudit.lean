/-
ObjectAudit/Proofs/SyntheticAudit.lean

The audit of a row of classes, for every size of the row.  One analysis describes what is found
out about each class (`classAnalysis_decl`), and one lemma for each rule says what it finds in
that analysis:

    law-of-demeter     one chain of depth 2, in all classes but the last two
    fat-model          a finder and a conversion, in every class
    the other rules    nothing.

Counting over the row then gives the counters (`stats_model`) and the violations
(`violations_model`) of the whole audit.
-/
import ObjectAudit.Proofs.SyntheticRow

namespace ObjectAudit

namespace SyntheticRow

open Snapshot (accessorAt synthetic)

/-! ### The analysis of a class -/

section Analysis

variable {size position : Nat}

/-- A call site of a class in the row, with its layer; it builds no query. -/
def call (position : Nat) : LayeredCall :=
  { subject := className position, method := some "label", layer := .model
    callSite := site position }

theorem chains_decl :
    AccessChain.ofClass (Graph.ofModel (model size)) (MethodIndex.ofModel (model size))
      (decl size position) = if position + 2 < size then [chain position] else [] := by
  show AccessChain.distinct ((sites size position).filterMap (fun site =>
    measure? _ _ site (className position) (some "label") (some (className position))) ++ []) = _
  unfold sites
  split
  · next h => simp [measure?_site h, AccessChain.distinct, List.eraseDupsBy_cons]
  · simp [AccessChain.distinct]

theorem calls_decl :
    LayeredCall.ofClass (Graph.ofModel (model size)) (MethodIndex.ofModel (model size))
        Settings.standard.queryOperations (decl size position) =
      if position + 2 < size then [call position] else [] := by
  show (sites size position).map (fun site => LayeredCall.ofSite _ _ _ site (className position)
    (some "label") .model (some (className position))) ++ [] = _
  unfold sites
  split
  · next h =>
    have huses := operationUses_site h (show "name" ∉ Settings.standard.queryOperations by decide)
    simp [LayeredCall.ofSite, huses, call]
  · rfl

theorem mutationsOf_decl :
    mutationsOf (Graph.ofModel (model size)) (MethodIndex.ofModel (model size))
      Settings.standard.mutationOperations (decl size position) = [] := by
  show (sites size position).filterMap (mutation? _ _ _ _ _) ++ [] = _
  unfold sites
  split
  · next h =>
    -- the last name of the call site is no operation
    have huses := operationUses_site h
      (show "name" ∉ Settings.standard.mutationOperations by decide)
    have hnone : mutation? (Graph.ofModel (model size)) (MethodIndex.ofModel (model size))
        Settings.standard.mutationOperations (decl size position) (label size position)
        (site position) = none := by
      simp [mutation?, firstMutation?, decl, huses]
    simp [hnone]
  · rfl

/-- All that is found out about a class of the row. -/
def analysis (size position : Nat) : UnitAnalysis :=
  { subject := className position, layer := .model, location := location position
    chains := if position + 2 < size then [chain position] else []
    calls := if position + 2 < size then [call position] else []
    clusters := clusters position
    methodCount := 3
    callSiteCount := (sites size position).length }

theorem classAnalysis_decl :
    (Survey.ofModel (model size) .standard).classAnalysis (decl size position) =
      analysis size position := by
  have hclusters : (Survey.ofModel (model size) .standard).clustering.clusters
      (decl size position) = clusters position := clusters_decl
  have hcount : ((decl size position).methods.map fun method =>
      (method.callSites.length : Int)).foldr (· + ·) 0 = ((sites size position).length : Int) := by
    show (0 : Int) + (0 + (((sites size position).length : Int) + 0)) = _
    omega
  simp only [Survey.classAnalysis, hclusters, hcount]
  simp only [Survey.ofModel, chains_decl, calls_decl, mutationsOf_decl]
  rfl

end Analysis

/-! ### Findings -/

section Findings

variable {size position : Nat}

/-- What is reported about a class that reaches to the one after the next. -/
def demeterViolation (position : Nat) : Violation :=
  { ruleId := "law-of-demeter"
    severity := .warning
    className := className position
    message :=
      s!"'self.{accessorAt (position + 1)}.{accessorAt (position + 2)}.name' reaches through " ++
      s!"{className position} -> {className (position + 1)} -> {className (position + 2)} " ++
      s!"(depth 2); ask {className (position + 1)} for what is needed instead"
    location := (location position).atLine 5
    method := some "label"
    line := some 5
    remedy := some .delegation }

/-- What is said about every class. -/
def fatModelMessage : String :=
  "mixes 2 unrelated responsibilities: finder [find_by_code]; conversion [to_csv]"

/-- What is reported about every class. -/
def fatModelViolation (position : Nat) : Violation :=
  { ruleId := "fat-model"
    severity := .warning
    className := className position
    message := fatModelMessage
    location := location position
    remedy := some .extractedCollaborator }

theorem depth_chain (position : Nat) : (chain position).depth = 2 := rfl

theorem message_chain (position : Nat) :
    (chain position).finding.message = (demeterViolation position).message := by
  have hexpression : (chain position).callSite.expression =
      "self" ++ "." ++ accessorAt (position + 1) ++ "." ++ accessorAt (position + 2) ++ "." ++
        "name" := rfl
  have hway : " -> ".intercalate (chain position).path =
      className position ++ " -> " ++ className (position + 1) ++ " -> " ++
        className (position + 2) := rfl
  have hneighbor : (chain position).path.getD 1 "" = className (position + 1) := rfl
  have hdepth : toString (chain position).depth = "2" := by
    rw [depth_chain]
    decide
  have htext : ∀ s : String, toString s = s := fun _ => rfl
  simp only [AccessChain.finding, hexpression, hway, hneighbor, hdepth, demeterViolation, htext]
  -- the two messages differ in how their parts are bracketed
  apply String.toList_injective
  simp

theorem toViolation_chain (size position : Nat) :
    (chain position).finding.toViolation ⟨.lawOfDemeter 2, .warning⟩ (analysis size position) =
      demeterViolation position := by
  show { demeterViolation position with message := (chain position).finding.message } = _
  rw [message_chain]

/-- The responsibilities of a class are the finder and the conversion. -/
theorem nonTrivial_clusters (position : Nat) :
    Cluster.nonTrivial (clusters position) =
      [⟨className position, ["find_by_code"], some "finder", ["finder"]⟩,
       ⟨className position, ["to_csv"], some "conversion", ["conversion"]⟩] := rfl

theorem includedModules_clusters (h : position < size) :
    includedModules (MethodIndex.ofModel (model size)) (className position)
      (Cluster.nonTrivial (clusters position)) = [] := by
  have hnone : ∀ name ∈ ["find_by_code", "to_csv"],
      ((MethodIndex.ofModel (model size)).get? (className position) name).bind
        Method.includedFrom = none := by
    intro name hname
    rw [get?_model h]
    rcases List.mem_cons.1 hname with rfl | hname
    · rfl
    · rcases List.mem_singleton.1 hname with rfl
      rfl
  rw [nonTrivial_clusters, includedModules]
  simp [hnone]

theorem length_distinctCategories_clusters (position : Nat) :
    (distinctCategories (Cluster.nonTrivial (clusters position))).length = 2 := rfl

theorem fatModelFinding_clusters (h : position < size) :
    fatModelFinding (MethodIndex.ofModel (model size)) (className position)
        (Cluster.nonTrivial (clusters position)) =
      { message := fatModelMessage, remedy := .extractedCollaborator } := by
  have hgroups : "; ".intercalate ((Cluster.nonTrivial (clusters position)).map Cluster.groupText) =
      "finder [find_by_code]; conversion [to_csv]" := by
    show "; ".intercalate [Cluster.groupText ⟨"", ["find_by_code"], some "finder", []⟩,
      Cluster.groupText ⟨"", ["to_csv"], some "conversion", []⟩] = _
    decide
  simp only [fatModelFinding, includedModules_clusters h, length_distinctCategories_clusters,
    hgroups]
  decide

theorem findings_fatModel (h : position < size) :
    (RuleCheck.fatModel 2).findings (MethodIndex.ofModel (model size)) (analysis size position) =
      [{ message := fatModelMessage, remedy := .extractedCollaborator }] := by
  rw [← fatModelFinding_clusters h]
  simp only [RuleCheck.findings, analysis, length_distinctCategories_clusters]
  rfl

theorem findings_lawOfDemeter (methods : MethodIndex) :
    (RuleCheck.lawOfDemeter 2).findings methods (analysis size position) =
      if position + 2 < size then [(chain position).finding] else [] := by
  show List.map _ (List.filter _ (if position + 2 < size then [chain position] else [])) = _
  split <;> rfl

theorem findings_queryOutsideModel (methods : MethodIndex) :
    RuleCheck.queryOutsideModel.findings methods (analysis size position) = [] := by
  show List.map _ (List.filter _ (if position + 2 < size then [call position] else [])) = _
  split <;> rfl

theorem findings_neighborQuery (methods : MethodIndex) :
    RuleCheck.neighborQuery.findings methods (analysis size position) = [] := by
  show List.filterMap _ (if position + 2 < size then [call position] else []) = _
  split <;> rfl

theorem findings_transactionOrchestration (methods : MethodIndex) :
    (RuleCheck.transactionOrchestration 2).findings methods (analysis size position) = [] := rfl

theorem findings_callbackSideEffects (methods : MethodIndex) :
    RuleCheck.callbackSideEffects.findings methods (analysis size position) = [] := rfl

end Findings

/-! ### The audit of the row -/

theorem admissible_decl (size position : Nat) : (decl size position).Admissible where
  self := ClassDecl.wellFormed_iff.2 (className_ne position (by simp))
  location := rfl
  associations := by
    show ∀ edge ∈ edges size position, WellFormed edge
    unfold edges
    split
    · simpa using wellFormed_edge position
    · simp
  methods := by
    have hsites : ∀ site ∈ sites size position, WellFormed site := by
      unfold sites
      split
      · simpa using wellFormed_site position
      · simp
    intro method hmethod
    simp only [decl, List.mem_cons, List.not_mem_nil, or_false] at hmethod
    rcases hmethod with rfl | rfl | rfl
    · exact ⟨rfl, by simp [finder], by simp [finder]⟩
    · exact ⟨rfl, by simp [conversion], by simp [conversion]⟩
    · exact ⟨rfl, hsites, by simp [label]⟩

theorem admissible_model (size : Nat) : (model size).Admissible where
  classes := List.forall_mem_map.2 fun position _ => admissible_decl size position
  templates := by simp [model]
  rejected := by simp [model]

/-- No class of the row is malformed. -/
theorem isSound_decl (size position : Nat) :
    (AuditUnit.classUnit (decl size position) false).isSound = true := by
  have hedges : associationFlaws (className position) [] (edges size position) = [] := by
    unfold edges
    split
    · simp [associationFlaws]
    · rfl
  show ([] ++ associationFlaws (className position) [] (edges size position) ++
    (decl size position).methods.flatMap _).isEmpty = true
  rw [hedges]
  simp [decl, finder, conversion, label, ownerFlaws, delegationFlaws]

theorem schedule_model (size : Nat) :
    AuditUnit.schedule (model size) =
      (List.range size).map fun position => .classUnit (decl size position) false := by
  have hnames : (model size).NamesDistinct := by
    show ((model size).classes.map ClassDecl.qualifiedName ++ []).Nodup
    rw [List.append_nil]
    exact nodup_names size
  rw [AuditUnit.schedule_eq_of_namesDistinct hnames, model, List.map_map]
  exact List.append_nil _

theorem filter_isSound_schedule (size : Nat) :
    (AuditUnit.schedule (model size)).filter AuditUnit.isSound =
      AuditUnit.schedule (model size) := by
  refine List.filter_eq_self.2 ?_
  rw [schedule_model]
  exact List.forall_mem_map.2 fun position _ => isSound_decl size position

/-- As many of a row as have so many others behind them. -/
theorem flatMap_range_ite {α : Type} (f : Nat → α) (size ahead : Nat) :
    ((List.range size).flatMap fun position =>
        if position + ahead < size then [f position] else []) =
      (List.range (size - ahead)).map f := by
  -- for a front of the row, as the condition looks at the whole of it
  suffices ∀ n, ((List.range n).flatMap fun position =>
      if position + ahead < size then [f position] else []) =
        (List.range (min n (size - ahead))).map f by
    have hmin : min size (size - ahead) = size - ahead := by omega
    rw [this size, hmin]
  intro n
  induction n with
  | zero => simp
  | succ n ih =>
    rw [List.range_succ, List.flatMap_append, ih, List.flatMap_singleton]
    split
    · next h =>
      have hmin : min (n + 1) (size - ahead) = min n (size - ahead) + 1 := by omega
      have hn : min n (size - ahead) = n := by omega
      rw [hmin, List.range_succ, List.map_append, hn]
      rfl
    · next h =>
      have hmin : min (n + 1) (size - ahead) = min n (size - ahead) := by omega
      rw [hmin, List.append_nil]

/-- Each class but the last one has its association in the graph. -/
theorem edges_model (size : Nat) :
    (Graph.ofModel (model size)).edges = (List.range (size - 1)).map edge := by
  have hdeclared : Graph.declaredEdges (model size) = (List.range (size - 1)).map edge := by
    -- every class is declared once
    have hfirst : Graph.firstDeclarations (model size).classes = (model size).classes :=
      eraseDupsBy_eq_self ClassDecl.qualifiedName (nodup_names size)
    rw [Graph.declaredEdges, hfirst, model, List.flatMap_map, ← flatMap_range_ite edge size 1]
    refine List.flatMap_congr ?_
    intro position _
    show (edges size position).filter (fun edge => edge.source == className position) = _
    unfold edges
    split <;> simp
  show (Graph.declaredEdges (model size)).map _ = _
  rw [hdeclared, List.map_map]
  refine List.map_congr_left ?_
  intro position hposition
  exact resolve_edge (by have := List.mem_range.1 hposition; omega)

theorem unresolved_model (size : Nat) : (Graph.ofModel (model size)).unresolved = [] := by
  rw [Graph.unresolved, edges_model]
  refine List.filter_eq_nil_iff.2 ?_
  simp [edge]

theorem values_model (size : Nat) :
    (Audit.ofModel .standard (model size)).analyses.values =
      (List.range size).map (analysis size) := by
  rw [Audit.values_ofModel, filter_isSound_schedule, schedule_model, List.map_map]
  refine List.map_congr_left ?_
  intro position _
  exact classAnalysis_decl

theorem skipped_model (size : Nat) :
    (Audit.ofModel .standard (model size)).report.skipped = [] := by
  rw [Audit.skipped_ofModel]
  show [] ++ _ = _
  rw [List.nil_append, List.map_eq_nil_iff, List.filter_eq_nil_iff, schedule_model]
  refine List.forall_mem_map.2 ?_
  intro position _
  simp [isSound_decl]

section Evaluation

variable (size : Nat)

/-- A rule that finds nothing in any class reports nothing. -/
theorem evaluate_eq_nil {check : RuleCheck} (severity : Severity) (h : ∀ position,
      check.findings (MethodIndex.ofModel (model size)) (analysis size position) = []) :
    Rule.evaluate ⟨check, severity⟩ (MethodIndex.ofModel (model size))
      ((List.range size).map (analysis size)) = [] := by
  rw [Rule.evaluate, List.flatMap_map]
  refine List.flatMap_eq_nil_iff.2 ?_
  intro position _
  rw [h, List.map_nil]

theorem evaluate_lawOfDemeter :
    Rule.evaluate ⟨.lawOfDemeter 2, .warning⟩ (MethodIndex.ofModel (model size))
        ((List.range size).map (analysis size)) =
      (List.range (size - 2)).map demeterViolation := by
  rw [Rule.evaluate, List.flatMap_map, ← flatMap_range_ite]
  refine List.flatMap_congr ?_
  intro position _
  rw [findings_lawOfDemeter]
  split
  · rw [List.map_singleton, toViolation_chain]
  · rfl

theorem evaluate_fatModel :
    Rule.evaluate ⟨.fatModel 2, .warning⟩ (MethodIndex.ofModel (model size))
        ((List.range size).map (analysis size)) =
      (List.range size).map fatModelViolation := by
  rw [Rule.evaluate, List.flatMap_map, List.map_eq_flatMap]
  refine List.flatMap_congr ?_
  intro position hposition
  rw [findings_fatModel (List.mem_range.1 hposition)]
  rfl

/-- What the rules report, rule by rule. -/
theorem reportedBy_model :
    reportedBy (MethodIndex.ofModel (model size)) ((List.range size).map (analysis size))
        Rule.standard =
      (List.range (size - 2)).map demeterViolation ++ (List.range size).map fatModelViolation := by
  have hrules : Rule.standard =
      [⟨.lawOfDemeter 2, .warning⟩, ⟨.queryOutsideModel, .error⟩, ⟨.neighborQuery, .warning⟩,
       ⟨.fatModel 2, .warning⟩, ⟨.transactionOrchestration 2, .warning⟩,
       ⟨.callbackSideEffects, .warning⟩] := by
    decide
  -- of the six rules only two find anything
  simp only [reportedBy, hrules, List.flatMap_cons, List.flatMap_nil, evaluate_lawOfDemeter,
    evaluate_fatModel, evaluate_eq_nil size .error fun _ => findings_queryOutsideModel _,
    evaluate_eq_nil size .warning fun _ => findings_neighborQuery _,
    evaluate_eq_nil size .warning fun _ => findings_transactionOrchestration _,
    evaluate_eq_nil size .warning fun _ => findings_callbackSideEffects _, List.nil_append,
    List.append_nil]

end Evaluation

/-- Classes are counted, and no templates. -/
theorem countP_analysis (size : Nat) :
    ((List.range size).map (analysis size)).countP (fun analysis => !analysis.isTemplate) = size ∧
      ((List.range size).map (analysis size)).countP UnitAnalysis.isTemplate = 0 := by
  constructor
  · have hall : ∀ unit ∈ (List.range size).map (analysis size), (!unit.isTemplate) = true :=
      List.forall_mem_map.2 fun _ _ => rfl
    rw [List.countP_eq_length.2 hall, List.length_map, List.length_range]
  · refine List.countP_eq_zero.2 (List.forall_mem_map.2 ?_)
    intro position _
    exact Bool.false_ne_true

theorem sum_methodCount_analysis (size : Nat) :
    (((List.range size).map (analysis size)).map UnitAnalysis.methodCount).sum =
      3 * (size : Int) := by
  have hthree : ((List.range size).map (analysis size)).map UnitAnalysis.methodCount =
      List.replicate size 3 := by
    rw [List.map_map]
    show (List.range size).map (Function.const Nat 3) = _
    rw [List.map_const, List.length_range]
  rw [hthree, List.sum_replicate, nsmul_eq_mul, mul_comm]

theorem sum_callSiteCount_analysis (size : Nat) :
    (((List.range size).map (analysis size)).map UnitAnalysis.callSiteCount).sum =
      ((size - 2 : Nat) : Int) := by
  have hlength := congrArg List.length (flatMap_range_ite site size 2)
  rw [List.length_flatMap, List.length_map, List.length_range] at hlength
  rw [← hlength, Nat.cast_list_sum, List.map_map, List.map_map]
  rfl

/-- What is counted in the row. -/
theorem stats_model (size : Nat) :
    (Audit.ofModel .standard (model size)).report.stats =
      { classesAnalyzed := size
        classesSkipped := 0
        templatesAnalyzed := 0
        methodsAnalyzed := 3 * size
        callSitesAnalyzed := (size - 2 : Nat)
        associationEdges := (size - 1 : Nat)
        unresolvedEdges := 0
        rulesRun := 6
        timeMs := .zero } := by
  show statsOf (Graph.ofModel (model size)) (Audit.ofModel .standard (model size)).analyses.values
    (Audit.ofModel .standard (model size)).report.skipped Rule.standard = _
  rw [values_model, skipped_model]
  have hcounts := countP_analysis size
  have hmethods : List.foldr (· + ·) 0 (((List.range size).map (analysis size)).map
      UnitAnalysis.methodCount) = 3 * (size : Int) := sum_methodCount_analysis size
  have hsites : List.foldr (· + ·) 0 (((List.range size).map (analysis size)).map
      UnitAnalysis.callSiteCount) = ((size - 2 : Nat) : Int) := sum_callSiteCount_analysis size
  simp only [statsOf, hcounts, hmethods, hsites, edges_model, unresolved_model, List.length_map,
    List.length_range]
  rfl

theorem violations_model (size : Nat) :
    (Audit.ofModel .standard (model size)).report.violations.Perm
      ((List.range (size - 2)).map demeterViolation ++
        (List.range size).map fatModelViolation) := by
  -- names are not in the order of positions, so the violations are told only up to their order
  have horder : (inNameOrder (Audit.ofModel .standard (model size)).analyses).Perm
      ((List.range size).map (analysis size)) := by
    rw [← values_model]
    exact List.mergeSort_perm _ _
  rw [Audit.violations_ofModel, skipped_model, List.map_nil, List.append_nil, ← reportedBy_model]
  refine (Violation.sort_perm _).trans ?_
  refine List.Perm.flatMap_left _ ?_
  intro rule _
  exact horder.flatMap_right _

end SyntheticRow

namespace Auditor

open SyntheticRow

/-- Audited with the usual settings, a row of any size is read and analysed as a whole. -/
theorem auditInOrder_synthetic (size : Int) :
    ∃ contents, Snapshot.read (Snapshot.synthetic size) = .ok contents ∧
      contents.rejected = [] ∧ contents.model.classes.length = max size 0 ∧
      contents.model.templates = [] ∧
      ∀ order, order.Perm (List.range (AuditUnit.schedule contents.model).length) →
        ∃ audit, standard.auditInOrder contents.model .never order = .ok audit ∧
          audit.report.skipped = [] ∧
          audit.report.stats =
            { classesAnalyzed := max size 0
              classesSkipped := 0
              templatesAnalyzed := 0
              methodsAnalyzed := 3 * max size 0
              callSitesAnalyzed := max (size - 2) 0
              associationEdges := max (size - 1) 0
              unresolvedEdges := 0
              rulesRun := 6
              timeMs := .zero } ∧
          audit.report.violations.Perm
            ((List.range (size - 2).toNat).map demeterViolation ++
              (List.range size.toNat).map fatModelViolation) := by
  obtain ⟨contents, hread, hmodel, hrejected⟩ := read_synthetic size
  -- the size is an integer, and a row of a negative one is empty
  have hsize : (size.toNat : Int) = max size 0 := by omega
  have hsites : ((size.toNat - 2 : Nat) : Int) = max (size - 2) 0 := by omega
  have hedges : ((size.toNat - 1 : Nat) : Int) = max (size - 1) 0 := by omega
  have hreaching : size.toNat - 2 = (size - 2).toNat := by omega
  refine ⟨contents, hread, hrejected, ?_, by rw [hmodel]; rfl, ?_⟩
  · rw [hmodel, model, List.length_map, List.length_range, hsize]
  · rw [hmodel]
    intro order horder
    refine ⟨_, auditInOrder_eq_ofModel standard (admissible_model size.toNat) horder,
      skipped_model size.toNat, ?_, ?_⟩
    · rw [stats_model, hsize, hsites, hedges]
    · rw [← hreaching]
      exact violations_model size.toNat

theorem auditInOrder_synthetic_three :
    ∃ contents audit, Snapshot.read (Snapshot.synthetic 3) = .ok contents ∧
      [2, 0, 1].Perm (List.range (AuditUnit.schedule contents.model).length) ∧
      standard.auditInOrder contents.model .never [2, 0, 1] = .ok audit ∧
      audit.report.violations.Perm
        [demeterViolation 0, fatModelViolation 0, fatModelViolation 1, fatModelViolation 2] := by
  obtain ⟨contents, hread, -, hclasses, htemplates, haudit⟩ := auditInOrder_synthetic 3
  have hlength : (AuditUnit.schedule contents.model).length = 3 := by
    rw [AuditUnit.length_schedule, htemplates, List.length_nil]
    omega
  have horder : [2, 0, 1].Perm (List.range (AuditUnit.schedule contents.model).length) := by
    rw [hlength]
    decide
  obtain ⟨audit, hreturns, -, -, hviolations⟩ := haudit [2, 0, 1] horder
  exact ⟨contents, audit, hread, horder, hreturns, hviolations⟩

end Auditor

end ObjectAudit
