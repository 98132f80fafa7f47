/-
ObjectAudit/Proofs/Responsibilities.lean

How many responsibilities a class has.  Methods of one category are linked, so a category lives
in one component, and no two clusters have the same one (`nodup_categories`).  A cluster with a
category is therefore never trivial (`nonTrivial_clusters`), and the number of categories that
is compared with the threshold is the number of components in which some method has a category
(`length_distinctCategories`, `ncard_categorizedComponents`).

Main result: a class is reported, once, exactly if that number reaches the threshold
(`auditInOrder_fatModel`).
-/
import Mathlib.Data.Set.Card
import ObjectAudit.Proofs.Affinity
import ObjectAudit.Proofs.RuleIndependence

namespace ObjectAudit

open Relation Text

namespace Clustering

/-! ### Components -/

/-- The methods that are connected with a method. -/
def component (clustering : Clustering) (decl : ClassDecl) (name : String) : Set String :=
  {other | other ∈ decl.methodNames ∧ EqvGen (clustering.Linked decl) name other}

/-- The components of a class in which some method has a category. -/
def categorizedComponents (clustering : Clustering) (decl : ClassDecl) : Set (Set String) :=
  {members | ∃ name category, clustering.categoryNamed decl name = some category ∧
    members = clustering.component decl name}

variable {clustering : Clustering} {decl : ClassDecl}

theorem mem_methodNames_of_categoryNamed {name category : String}
    (h : clustering.categoryNamed decl name = some category) : name ∈ decl.methodNames := by
  obtain ⟨method, hmethod, -, rfl⟩ := exists_of_categoryNamed h
  exact List.mem_map.2 ⟨method, List.mem_of_find?_eq_some hmethod, rfl⟩

/-- Methods of one category are linked. -/
theorem linked_of_categoryNamed {name name' category : String}
    (h : clustering.categoryNamed decl name = some category)
    (h' : clustering.categoryNamed decl name' = some category) :
    clustering.Linked decl name name' := by
  obtain ⟨method, hmethod, hcategory, rfl⟩ := exists_of_categoryNamed h
  obtain ⟨method', hmethod', hcategory', rfl⟩ := exists_of_categoryNamed h'
  exact .sameCategory hmethod hmethod' hcategory hcategory'

theorem component_eq_iff {name name' : String} (h' : name' ∈ decl.methodNames) :
    clustering.component decl name = clustering.component decl name' ↔
      EqvGen (clustering.Linked decl) name name' := by
  constructor
  · intro heq
    have hself : name' ∈ clustering.component decl name' := ⟨h', EqvGen.refl _⟩
    rw [← heq] at hself
    exact hself.2
  · intro hconnected
    ext other
    refine and_congr_right fun _ => ⟨?_, ?_⟩
    · exact EqvGen.trans _ _ _ (EqvGen.symm _ _ hconnected)
    · exact EqvGen.trans _ _ _ hconnected

/-! ### Categories of clusters -/

/-- No two clusters have the same category. -/
theorem nodup_categories (clustering : Clustering) (decl : ClassDecl) :
    ((clustering.clusters decl).filterMap Cluster.category).Nodup := by
  obtain ⟨rep, hiff, hclusters⟩ := clustering.exists_clusters_eq decl
  rw [hclusters, List.filterMap_map]
  refine List.pairwise_filterMap.2 ?_
  have hfirsts := List.pairwise_map.1 (nodup_map_eraseDupsBy rep decl.methodNames.eraseDups)
  refine hfirsts.imp ?_
  rintro first first' hne category hcategory category' hcategory' rfl
  -- a category of two clusters would link a method of the one with a method of the other
  obtain ⟨name, hname, hnamed⟩ := (leading_of_category_clusterOf hcategory).member
  obtain ⟨name', hname', hnamed'⟩ := (leading_of_category_clusterOf hcategory').member
  have hsame := (hiff name name').2 (EqvGen.rel _ _ (linked_of_categoryNamed hnamed hnamed'))
  have hfirst := eq_of_beq (List.mem_filter.1 hname).2
  have hfirst' := eq_of_beq (List.mem_filter.1 hname').2
  exact hne (hfirst.symm.trans (hsame.trans hfirst'))

/-- Every cluster with a category counts as a responsibility. -/
theorem nonTrivial_clusters (clustering : Clustering) (decl : ClassDecl) :
    Cluster.nonTrivial (clustering.clusters decl) =
      (clustering.clusters decl).filter fun cluster => cluster.category.isSome := by
  refine List.filter_congr ?_
  intro cluster _
  cases hcategory : cluster.category with
  | none => rfl
  | some category =>
    have hcount := List.nodup_iff_count_le_one.1 (clustering.nodup_categories decl) category
    rw [List.count_filterMap] at hcount
    simp [hcount]

theorem length_distinctCategories (clustering : Clustering) (decl : ClassDecl) :
    (distinctCategories (Cluster.nonTrivial (clustering.clusters decl))).length =
      (clustering.clusters decl).countP fun cluster => cluster.category.isSome := by
  have hkept : ((clustering.clusters decl).filter fun cluster =>
      cluster.category.isSome).filterMap Cluster.category =
      (clustering.clusters decl).filterMap Cluster.category := by
    rw [List.filterMap_filter]
    refine List.filterMap_congr ?_
    intro cluster _
    cases cluster.category <;> rfl
  have hdistinct : ((clustering.clusters decl).filterMap Cluster.category).eraseDups =
      (clustering.clusters decl).filterMap Cluster.category := by
    refine eraseDupsBy_eq_self (fun category : String => category) ?_
    rw [List.map_id']
    exact clustering.nodup_categories decl
  rw [distinctCategories, nonTrivial_clusters, hkept, hdistinct, List.length_filterMap_eq_countP]

theorem isSome_category_clusterOf {members : List String} {name category : String}
    (hname : name ∈ members) (hnamed : clustering.categoryNamed decl name = some category) :
    (clustering.clusterOf decl.qualifiedName (firstMethods decl) members).category.isSome =
      true := by
  refine Option.isSome_iff_ne_none.2 ?_
  intro hnone
  rw [category_clusterOf_eq_none_iff.1 hnone name hname] at hnamed
  cases hnamed

/-- The components with a category are those of the first methods of clusters with a
category. -/
theorem exists_categorizedComponents_eq (clustering : Clustering) (decl : ClassDecl) :
    ∃ firsts : List String, firsts.Nodup ∧
      Set.InjOn (clustering.component decl) {first | first ∈ firsts} ∧
      clustering.categorizedComponents decl =
        clustering.component decl '' {first | first ∈ firsts} ∧
      (clustering.clusters decl).countP (fun cluster => cluster.category.isSome) =
        firsts.length := by
  obtain ⟨rep, hiff, hclusters⟩ := clustering.exists_clusters_eq decl
  have hnodup := nodup_map_eraseDupsBy rep decl.methodNames.eraseDups
  refine ⟨(decl.methodNames.eraseDups.eraseDupsBy fun a b => rep a == rep b).filter fun first =>
    (clustering.clusterOf decl.qualifiedName (firstMethods decl)
      (decl.methodNames.eraseDups.filter fun name => rep name == rep first)).category.isSome,
    ?_, ?_, ?_, ?_⟩
  · exact (hnodup.of_map rep).filter _
  · -- different representatives have different components
    intro first hfirst first' hfirst' heq
    have hmem := (List.mem_filter.1 hfirst).1
    have hmem' := (List.mem_filter.1 hfirst').1
    have hname' := List.mem_eraseDups.1 ((eraseDupsBy_sublist _ _).subset hmem')
    exact List.inj_on_of_nodup_map hnodup hmem hmem'
      ((hiff _ _).2 ((component_eq_iff hname').1 heq))
  · -- a component with a category is that of its representative
    ext members
    constructor
    · rintro ⟨name, category, hnamed, rfl⟩
      have hname := mem_methodNames_of_categoryNamed hnamed
      have hmem := List.mem_eraseDups.2 hname
      obtain ⟨first, hfirst, hrep⟩ := exists_mem_eraseDupsBy rep hmem
      have hmember : name ∈ decl.methodNames.eraseDups.filter fun name => rep name == rep first :=
        List.mem_filter.2 ⟨hmem, beq_iff_eq.2 hrep.symm⟩
      refine ⟨first, List.mem_filter.2 ⟨hfirst, isSome_category_clusterOf hmember hnamed⟩, ?_⟩
      exact (component_eq_iff hname).2 ((hiff _ _).1 hrep)
    · rintro ⟨first, hfirst, rfl⟩
      obtain ⟨hmem, hsome⟩ := List.mem_filter.1 hfirst
      obtain ⟨category, hcategory⟩ := Option.isSome_iff_exists.1 hsome
      obtain ⟨name, hname, hnamed⟩ := (leading_of_category_clusterOf hcategory).member
      have hrep := eq_of_beq (List.mem_filter.1 hname).2
      refine ⟨name, category, hnamed, ?_⟩
      exact (component_eq_iff (mem_methodNames_of_categoryNamed hnamed)).2 ((hiff _ _).1 hrep.symm)
  · rw [hclusters, List.countP_map, List.countP_eq_length_filter]
    rfl

theorem finite_categorizedComponents (clustering : Clustering) (decl : ClassDecl) :
    (clustering.categorizedComponents decl).Finite := by
  obtain ⟨firsts, -, -, heq, -⟩ := clustering.exists_categorizedComponents_eq decl
  rw [heq]
  exact (List.finite_toSet firsts).image _

/-- There are as many clusters with a category as components with one. -/
theorem ncard_categorizedComponents (clustering : Clustering) (decl : ClassDecl) :
    (clustering.categorizedComponents decl).ncard =
      (clustering.clusters decl).countP fun cluster => cluster.category.isSome := by
  obtain ⟨firsts, hnodup, hinj, heq, hcount⟩ := clustering.exists_categorizedComponents_eq decl
  have hset : {first | first ∈ firsts} = (firsts.toFinset : Set String) := by
    ext first
    simp
  rw [heq, hcount, hinj.ncard_image, hset, Set.ncard_coe_finset,
    List.toFinset_card_of_nodup hnodup]

/-- Where all methods with a category have the same one, there is one component of them at
most. -/
theorem ncard_categorizedComponents_le_one {category : String}
    (h : ∀ name found, clustering.categoryNamed decl name = some found → found = category) :
    (clustering.categorizedComponents decl).ncard ≤ 1 := by
  refine (Set.ncard_le_one (clustering.finite_categorizedComponents decl)).2 ?_
  rintro _ ⟨name, found, hnamed, rfl⟩ _ ⟨name', found', hnamed', rfl⟩
  obtain rfl := h name found hnamed
  obtain rfl := h name' found' hnamed'
  exact (component_eq_iff (mem_methodNames_of_categoryNamed hnamed')).2
    (EqvGen.rel _ _ (linked_of_categoryNamed hnamed hnamed'))

end Clustering

/-! ### The verdict -/

/-- What the rule finds in a class: one thing if the components with a category are as many as
the threshold, else nothing. -/
theorem RuleCheck.length_findings_fatModel (methods : MethodIndex) (survey : Survey)
    (decl : ClassDecl) (minCategories : Int) :
    ((fatModel minCategories).findings methods (survey.classAnalysis decl)).length =
      if minCategories ≤ (survey.clustering.categorizedComponents decl).ncard then 1 else 0 := by
  have hlength := survey.clustering.length_distinctCategories decl
  rw [← survey.clustering.ncard_categorizedComponents decl] at hlength
  have hclusters : (survey.classAnalysis decl).clusters = survey.clustering.clusters decl := rfl
  have htemplate : (survey.classAnalysis decl).isTemplate = false := rfl
  rw [findings, hclusters, hlength, htemplate]
  by_cases hmin : minCategories ≤ (survey.clustering.categorizedComponents decl).ncard
  · have hnot : ¬ ((survey.clustering.categorizedComponents decl).ncard : Int) < minCategories :=
      not_lt.2 hmin
    simp [hmin, hnot]
  · simp [hmin, not_le.1 hmin]

/-- How often the rule is listed with a class without flaws. -/
theorem Audit.length_about_fatModel (settings : Settings) {model : Model} {decl : ClassDecl}
    {repeated : Bool} (hunit : .classUnit decl repeated ∈ AuditUnit.schedule model)
    (hsound : (AuditUnit.classUnit decl repeated).isSound = true) :
    ((ofModel ⟨settings, Rule.select settings⟩ model).report.about "fat-model"
        decl.qualifiedName).length =
      if settings.isEnabled "fat-model" = true ∧ settings.minResponsibilityCategories ≤
          ((Survey.ofModel model settings).clustering.categorizedComponents decl).ncard
      then 1 else 0 := by
  have hcheck : .fatModel settings.minResponsibilityCategories ∈ RuleCheck.registry settings := by
    simp [RuleCheck.registry]
  have hid : (RuleCheck.fatModel settings.minResponsibilityCategories).id = "fat-model" := rfl
  have habout : (ofModel ⟨settings, Rule.select settings⟩ model).report.about "fat-model"
      decl.qualifiedName = _ := about_select hcheck hid hunit hsound
  rw [habout]
  cases settings.isEnabled "fat-model" with
  | false => simp
  | true =>
    rw [if_pos rfl, (Violation.sort_perm _).length_eq, Rule.evaluate, List.flatMap_singleton,
      List.length_map]
    simp only [true_and]
    exact RuleCheck.length_findings_fatModel (MethodIndex.ofModel model)
      (Survey.ofModel model settings) decl settings.minResponsibilityCategories

/-- An invoice that is found, exported and signed by a callback, and whose total reaches the
same class as finding it; and an order that is only found. -/
def Model.mixed : Model :=
  let bank : CallSite := { origin := .external, root := "Bank", chain := ["all"], line := 4 }
  let place : Location := ⟨.ofText "app/invoice.rb", 1, 0⟩
  { classes :=
      [{ qualifiedName := "Invoice", associations := []
         methods :=
           [{ name := "find_open", owner := some "Invoice", callSites := [bank] },
            { name := "sign", owner := some "Invoice", isCallback := true },
            { name := "to_csv", owner := some "Invoice" },
            { name := "total", owner := some "Invoice", callSites := [bank] }]
         layer := .model, location := place },
       { qualifiedName := "Order", associations := []
         methods :=
           [{ name := "find_open", owner := some "Order" },
            { name := "search", owner := some "Order" },
            { name := "total", owner := some "Order" }]
         layer := .model, location := place }] }

namespace Auditor

/-- A class that an audit analyses is reported as mixing responsibilities, once, exactly if the
rule is enabled and the components with a category are as many as the threshold.  The clusters
of a class have different categories, so each with a category counts; and where all methods
with a category have the same one, the class is not reported. -/
theorem auditInOrder_fatModel {given settings : Settings}
    {severities : List (Text × Settings.GivenSeverity)}
    (hsettings : given.complete severities = .ok settings) {auditor : Auditor}
    (hauditor : ofSettings settings = .ok auditor) {model : Model} (hmodel : model.Admissible)
    {order : List Nat} (horder : order.Perm (List.range (AuditUnit.schedule model).length)) :
    ∃ audit, auditor.auditInOrder model .never order = .ok audit ∧
      ∀ decl repeated, .classUnit decl repeated ∈ AuditUnit.schedule model →
        (AuditUnit.classUnit decl repeated).isSound = true →
        let clustering := (Survey.ofModel model settings).clustering
        let reported := audit.report.about "fat-model" decl.qualifiedName
        (clustering.categorizedComponents decl).Finite ∧
        (reported.length = 1 ↔ settings.isEnabled "fat-model" = true ∧
          settings.minResponsibilityCategories ≤ (clustering.categorizedComponents decl).ncard) ∧
        (reported = [] ↔ ¬ (settings.isEnabled "fat-model" = true ∧
          settings.minResponsibilityCategories ≤ (clustering.categorizedComponents decl).ncard)) ∧
        ((clustering.clusters decl).filterMap Cluster.category).Nodup ∧
        Cluster.nonTrivial (clustering.clusters decl) =
          (clustering.clusters decl).filter (fun cluster => cluster.category.isSome) ∧
        ∀ category, (∀ name found, clustering.categoryNamed decl name = some found →
          found = category) → reported = [] := by
  obtain ⟨-, rfl⟩ := ofSettings_eq_ok_iff.1 hauditor
  refine ⟨_, auditInOrder_eq_ofModel _ hmodel horder, ?_⟩
  intro decl repeated hunit hsound clustering reported
  have hlength : reported.length = if settings.isEnabled "fat-model" = true ∧
      settings.minResponsibilityCategories ≤ (clustering.categorizedComponents decl).ncard
      then 1 else 0 :=
    Audit.length_about_fatModel settings hunit hsound
  refine ⟨clustering.finite_categorizedComponents decl, ?_, ?_, clustering.nodup_categories decl,
    clustering.nonTrivial_clusters decl, ?_⟩
  · rw [hlength]
    simp
  · rw [← List.length_eq_zero_iff, hlength]
    simp
  · intro category hcategory
    -- at most one component, and a threshold below two is refused
    have hone := Clustering.ncard_categorizedComponents_le_one hcategory
    obtain ⟨hthreshold, hoptions⟩ := Settings.Draft.of_complete_eq_ok hsettings
    have htwo : 2 ≤ settings.minResponsibilityCategories := by
      rw [hoptions]
      exact (Settings.Draft.thresholdFault?_eq_none_iff.1 hthreshold).2.1
    rw [← List.length_eq_zero_iff, hlength, if_neg]
    rintro ⟨-, hmin⟩
    omega

theorem auditInOrder_fatModel_mixed :
    ∃ auditor audit, Settings.standard.complete [] = .ok .standard ∧
      ofSettings .standard = .ok auditor ∧
      auditor.auditInOrder .mixed .never [1, 0] = .ok audit ∧
      (audit.report.about "fat-model" "Invoice").length = 1 ∧
      audit.report.about "fat-model" "Order" = [] := by
  have hsettings : Settings.standard.complete [] = .ok .standard := by decide
  have hauditor : ofSettings .standard = .ok ⟨.standard, Rule.select .standard⟩ :=
    ofSettings_eq_ok_iff.2 ⟨by decide, rfl⟩
  have hmodel : Model.mixed.Admissible := by decide
  have horder : [1, 0].Perm (List.range (AuditUnit.schedule .mixed).length) := by decide
  obtain ⟨audit, hreturns, hclass⟩ := auditInOrder_fatModel hsettings hauditor hmodel horder
  refine ⟨_, audit, hsettings, hauditor, hreturns, ?_, ?_⟩
  · obtain ⟨-, hone, -⟩ := hclass Model.mixed.classes[0] false (by decide) (by decide)
    refine hone.2 ⟨by decide, ?_⟩
    rw [Clustering.ncard_categorizedComponents]
    decide +kernel
  · obtain ⟨-, -, -, -, -, hnone⟩ := hclass Model.mixed.classes[1] false (by decide) (by decide)
    refine hnone "finder" ?_
    intro name found hnamed
    have hfinders : ∀ name ∈ Model.mixed.classes[1].methodNames, ∀ found,
        (Survey.ofModel .mixed .standard).clustering.categoryNamed Model.mixed.classes[1] name =
          some found → found = "finder" := by
      decide +kernel
    exact hfinders name (Clustering.mem_methodNames_of_categoryNamed hnamed) found hnamed

end Auditor

end ObjectAudit
