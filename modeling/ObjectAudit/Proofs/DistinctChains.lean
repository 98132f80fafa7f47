/-
ObjectAudit/Proofs/DistinctChains.lean

Chains with the same expression in methods of the same name.

Of these a unit keeps one.  It is the one at the smallest line, and at that line the one that is
declared first (`AccessChain.Leads`).  The lines decide alone: chains are sorted by line and then
by method, but those with the same expression in the same method differ only in their lines
(`AuditUnit.mem_chains_iff`).

The depth of a chain is not asked before.  So a chain is reported for its depth exactly if the
chain that leads it is deep enough (`Auditor.auditInOrder_lawOfDemeter`).  A deep chain behind one
with the same expression and another class of receiver may be lost.
-/
import ObjectAudit.Proofs.RuleIndependence
import ObjectAudit.Proofs.Shortcuts

namespace ObjectAudit

/-! ### Order and key -/

namespace AccessChain

instance : Std.TransCmp order :=
  inferInstanceAs (Std.TransCmp (compareLex _ _))

theorem order_swap (a b : AccessChain) : order b a = (order a b).swap :=
  Std.OrientedCmp.eq_swap

theorem sortsBy_order : SortsBy fun a b => (order a b).isLE where
  trans _ _ _ hab hbc := Std.TransCmp.isLE_trans hab hbc
  total a b := by
    rw [order_swap a b]
    cases order a b <;> rfl

/-- Chains stand by line, and at the same line by method. -/
theorem order_isLE_iff {a b : AccessChain} :
    (order a b).isLE = true ↔ a.callSite.line < b.callSite.line ∨
      a.callSite.line = b.callSite.line ∧ a.methodText ≤ b.methodText := by
  rw [order, compareLex, Ordering.isLE_then_iff_or, compareOn, compareOn, Std.compare_eq_lt,
    Std.LawfulEqOrd.compare_eq_iff_eq, Text.isLE_compare]

/-- The same expression, in methods of the same name or both in no method. -/
def Repeats (a b : AccessChain) : Prop :=
  a.method = b.method ∧ a.callSite.expression = b.callSite.expression

instance instDecidableRepeats (a b : AccessChain) : Decidable (a.Repeats b) :=
  inferInstanceAs (Decidable (_ ∧ _))

theorem Repeats.symm {a b : AccessChain} (h : a.Repeats b) : b.Repeats a :=
  ⟨h.1.symm, h.2.symm⟩

/-- Between chains that repeat each other the line decides. -/
theorem Repeats.order_isLE_iff {a b : AccessChain} (h : a.Repeats b) :
    (order a b).isLE = true ↔ a.callSite.line ≤ b.callSite.line := by
  have hmethod : a.methodText = b.methodText := congrArg (·.getD "") h.1
  rw [AccessChain.order_isLE_iff, hmethod, and_iff_left (String.le_refl _), ← le_iff_lt_or_eq]

/-- The chain that stands for all that repeat it: those before it are at later lines, and those
behind it are not at earlier ones. -/
def Leads (chain : AccessChain) (chains : List AccessChain) : Prop :=
  ∃ before after, chains = before ++ chain :: after ∧
    (∀ other ∈ before, other.Repeats chain → chain.callSite.line < other.callSite.line) ∧
    ∀ other ∈ after, other.Repeats chain → chain.callSite.line ≤ other.callSite.line

theorem Leads.mem {chain : AccessChain} {chains : List AccessChain} (h : chain.Leads chains) :
    chain ∈ chains := by
  obtain ⟨before, after, rfl, -, -⟩ := h
  simp

/-- Of two chains that repeat each other the first one leads, if it is not at a later line. -/
theorem Leads.eq_of_pair {first second chain : AccessChain} (h : chain.Leads [first, second])
    (hrepeats : first.Repeats second) (hline : first.callSite.line ≤ second.callSite.line) :
    chain = first := by
  obtain ⟨before, after, hsplit, hbefore, -⟩ := h
  cases before with
  | nil => exact (List.cons.inj hsplit).1.symm
  | cons other before =>
    obtain ⟨hother, hsplit⟩ := List.cons.inj hsplit
    cases before with
    | nil =>
      -- it would be the second one, with the first one before it
      obtain ⟨rfl, -⟩ := List.cons.inj hsplit
      have hlt := hbefore first (by simp [hother]) hrepeats
      omega
    | cons _ before => simp at hsplit

/-- Among chains whose keys tell no more than what they repeat, those that lead are kept. -/
theorem mem_distinct_iff {chains : List AccessChain}
    (hkey : ∀ a ∈ chains, ∀ b ∈ chains, a.key = b.key ↔ a.Repeats b) {chain : AccessChain} :
    chain ∈ distinct chains ↔ chain.Leads chains := by
  rw [distinct, sortsBy_order.mem_eraseDupsBy_mergeSort key]
  refine exists_congr fun before => exists_congr fun after => and_congr_right ?_
  rintro rfl
  have hbefore : ∀ other ∈ before, (other.key = chain.key → (order other chain).isLE = false) ↔
      (other.Repeats chain → chain.callSite.line < other.callSite.line) := by
    intro other hother
    rw [hkey other (by simp [hother]) chain (by simp)]
    refine forall_congr' fun hrepeats => ?_
    rw [← Bool.not_eq_true, hrepeats.order_isLE_iff, not_le]
  have hafter : ∀ other ∈ after, (other.key = chain.key → (order chain other).isLE = true) ↔
      (other.Repeats chain → chain.callSite.line ≤ other.callSite.line) := by
    intro other hother
    rw [hkey other (by simp [hother]) chain (by simp)]
    exact forall_congr' fun hrepeats => hrepeats.symm.order_isLE_iff
  exact and_congr (forall₂_congr hbefore) (forall₂_congr hafter)

/-- Every key is kept. -/
theorem exists_mem_distinct {chains : List AccessChain} {chain : AccessChain}
    (h : chain ∈ chains) : ∃ first ∈ distinct chains, first.key = chain.key :=
  exists_mem_eraseDupsBy key (List.mem_mergeSort.2 h)

theorem nodup_key_distinct (chains : List AccessChain) : ((distinct chains).map key).Nodup :=
  nodup_map_eraseDupsBy key _

theorem pairwise_distinct (chains : List AccessChain) :
    (distinct chains).Pairwise fun a b => (order a b).isLE = true :=
  (List.pairwise_mergeSort sortsBy_order.trans sortsBy_order.total chains).sublist
    (eraseDupsBy_sublist _ _)

/-- What is kept is kept again. -/
theorem distinct_distinct (chains : List AccessChain) :
    distinct (distinct chains) = distinct chains := by
  rw [distinct, List.mergeSort_of_pairwise (pairwise_distinct chains)]
  exact eraseDupsBy_eq_self key (nodup_key_distinct chains)

end AccessChain

/-! ### The chains of a unit -/

namespace AuditUnit

open AccessChain

variable {survey : Survey} {unit : AuditUnit}

/-- In a class all chains stand in methods, and in a template none does. -/
theorem isSome_method {chain : AccessChain} (h : chain ∈ unit.measuredChains survey) :
    chain.method.isSome = !(unit.analysisOf survey).isTemplate := by
  obtain ⟨site, method, owner, hmeasure, hisSome⟩ := exists_measure?_of_mem h
  obtain ⟨-, rfl, -⟩ := measure?_eq_some hmeasure
  exact hisSome

/-- Within a unit, chains with the same key repeat each other. -/
theorem key_eq_iff {a b : AccessChain} (ha : a ∈ unit.measuredChains survey)
    (hb : b ∈ unit.measuredChains survey) : a.key = b.key ↔ a.Repeats b := by
  have hsubject : a.subject = b.subject :=
    (of_mem_measuredChains ha).1.trans (of_mem_measuredChains hb).1.symm
  have hsome : a.method.isSome = b.method.isSome :=
    (isSome_method ha).trans (isSome_method hb).symm
  have hmethod : a.methodText = b.methodText ↔ a.method = b.method := by
    unfold methodText
    cases hm : a.method <;> cases hm' : b.method <;> simp_all
  simp [key, Repeats, hsubject, hmethod]

/-- A unit keeps the chains that lead. -/
theorem mem_chains_iff {chain : AccessChain} :
    chain ∈ (unit.analysisOf survey).chains ↔ chain.Leads (unit.measuredChains survey) := by
  rw [chains_analysisOf]
  exact mem_distinct_iff fun a ha b hb => key_eq_iff ha hb

/-- Every chain repeats one that leads, and of those that repeat it this one is kept. -/
theorem exists_filter_chains_eq {chain : AccessChain} (h : chain ∈ unit.measuredChains survey) :
    ∃ first, first.Leads (unit.measuredChains survey) ∧ first.Repeats chain ∧
      (unit.analysisOf survey).chains.filter (fun other => other.Repeats chain) = [first] := by
  obtain ⟨first, hfirst, hkey⟩ := exists_mem_distinct h
  have hkept : first ∈ (unit.analysisOf survey).chains := by
    rw [chains_analysisOf]
    exact hfirst
  have hleads := mem_chains_iff.1 hkept
  refine ⟨first, hleads, (key_eq_iff hleads.mem h).1 hkey, ?_⟩
  rw [chains_analysisOf, ← filter_key_eq_singleton key (nodup_key_distinct _) hfirst]
  refine List.filter_congr ?_
  intro other hother
  rw [hkey, ← decide_eq_decide.2 (key_eq_iff (mem_of_mem_distinct hother) h), beq_eq_decide]

/-- The depth of a chain depends on its names and the class of its receiver only. -/
theorem depth_eq {a b : AccessChain} (ha : a ∈ unit.measuredChains survey)
    (hb : b ∈ unit.measuredChains survey) (hstart : a.startClass = b.startClass)
    (hnames : a.callSite.chain = b.callSite.chain) : a.depth = b.depth := by
  have hhops : ∀ chain ∈ unit.measuredChains survey, chain.hops =
      (walkFrom survey.graph survey.methods chain.startClass chain.callSite.chain).hops := by
    intro chain hchain
    obtain ⟨site, method, owner, hmeasure, -⟩ := exists_measure?_of_mem hchain
    obtain ⟨-, start, -, -, rfl⟩ := measure?_eq_some_iff.1 hmeasure
    rfl
  rw [depth, depth, hhops a ha, hhops b hb, hstart, hnames]

end AuditUnit

/-! ### A name for two classes -/

/-- The address of the customer of an item, whose class is given. -/
def CallSite.item (rootClass : String) (line : Int) : CallSite :=
  { origin := .parameter, root := "item", chain := ["customer", "address"], line
    rootClass := some rootClass }

/-- A mailer that is given orders and refunds, both as `item`.  From a refund the expression leads
to an account and on to its address, from an order only to the customer. -/
def Model.rebound : Model :=
  let place : Location := ⟨.ofText "app/mailer.rb", 1, 0⟩
  let entry (name : String) (associations : List Association) (methods : List Method) : ClassDecl :=
    { qualifiedName := name, associations, methods, layer := .model, location := place }
  { classes :=
      [entry "Order" [.link "Order" "customer" "Customer"] [],
       entry "Customer" [] [],
       entry "Refund" [.link "Refund" "customer" "Account"] [],
       entry "Account" [.link "Account" "address" "Address"] [],
       entry "Address" [] [],
       entry "Mailer" []
         [{ name := "deliver", owner := some "Mailer"
            callSites := [.item "Order" 3, .item "Refund" 5] }]] }

theorem Model.rebound_classNames {name : String} :
    name ∈ Model.rebound.classNames ↔
      name ∈ ["Order", "Customer", "Refund", "Account", "Address", "Mailer"] := by
  rw [Graph.mem_classNames]
  simp [rebound, eq_comm]

theorem Model.rebound_admissible : rebound.Admissible := by decide

theorem Model.rebound_order :
    [0, 1, 2, 3, 4, 5].Perm (List.range (AuditUnit.schedule .rebound).length) := by decide

/-- The mailer among the units of the model. -/
def AuditUnit.mailer : AuditUnit := .classUnit Model.rebound.classes[5] false

/-- The chains of the mailer: one from an order that leads, and a deeper one from a refund. -/
theorem AuditUnit.measuredChains_mailer (settings : Settings) :
    ∃ first second, mailer.measuredChains (Survey.ofModel .rebound settings) = [first, second] ∧
      first.Repeats second ∧ first.callSite.line = 3 ∧ second.callSite.line = 5 ∧
      first.depth = 1 ∧ second.depth = 2 := by
  have hexternal : externalNode ∉ Model.rebound.classNames := by
    rw [Model.rebound_classNames]
    decide
  have hcustomer : Strides .rebound "Order" (.hop (.link "Order" "customer" "Customer"))
      (some "Customer") :=
    .cross (Model.edge?_eq_link rfl (Model.rebound_classNames.2 (by decide))) rfl
  have haccount : Strides .rebound "Refund" (.hop (.link "Refund" "customer" "Account"))
      (some "Account") :=
    .cross (Model.edge?_eq_link rfl (Model.rebound_classNames.2 (by decide))) rfl
  have haddress : Strides .rebound "Account" (.hop (.link "Account" "address" "Address"))
      (some "Address") :=
    .cross (Model.edge?_eq_link rfl (Model.rebound_classNames.2 (by decide))) rfl
  have hmeasure : ∀ name ∈ Model.rebound.classNames, ∀ line walk,
      walkFrom (.ofModel .rebound) (.ofModel .rebound) name ["customer", "address"] = walk →
      walk.hops ≠ [] → measure? (.ofModel .rebound) (.ofModel .rebound) (.item name line) "Mailer"
        (some "deliver") (some "Mailer") =
          some (.ofWalk (.item name line) "Mailer" (some "deliver") name walk) := by
    rintro name hname line walk rfl hhops
    have hstart : startClass? (.ofModel .rebound) (.item name line) (some "Mailer") = some name :=
      (startClass?_ofModel hexternal).2 ⟨.inr ⟨rfl, rfl⟩, hname⟩
    exact measure?_eq_some_iff.2 ⟨Nat.le_refl 2, name, hstart, hhops, rfl⟩
  -- the customer of an order has no address
  have horder := hmeasure "Order" (Model.rebound_classNames.2 (by decide)) 3 _
    ((hcustomer.walkFrom_eq (hcustomer.inside hexternal) ["address"]).trans
      (congrArg _ (walkFrom_of_untaken rfl rfl []))) (List.cons_ne_nil _ _)
  have hrefund := hmeasure "Refund" (Model.rebound_classNames.2 (by decide)) 5 _
    ((Walks.step haccount (.step haddress (.stay _))).walk_eq hexternal [])
    (List.cons_ne_nil _ _)
  have hmeasured := calc mailer.measuredChains (Survey.ofModel .rebound settings)
    _ = [CallSite.item "Order" 3, .item "Refund" 5].filterMap fun site =>
        measure? (.ofModel .rebound) (.ofModel .rebound) site "Mailer" (some "deliver")
          (some "Mailer") := List.append_nil _
    _ = _ := List.filterMap_cons_some horder
    _ = _ := congrArg (_ :: ·) (List.filterMap_cons_some hrefund)
  exact ⟨_, _, hmeasured, ⟨rfl, rfl⟩, rfl, rfl, rfl, rfl⟩

/-! ### Kept chains -/

namespace AuditUnit

open AccessChain

/-- A unit keeps each distinct chain once.  Of the chains that are measured in it, it keeps those
that lead, and no others; so of the chains with the same expression in methods of the same name
it keeps the one at the smallest line that is declared first.  They are kept by line and then by
method, and to keep the distinct ones of these changes nothing. -/
theorem chains_distinct (survey : Survey) (unit : AuditUnit) :
    let measured := unit.measuredChains survey
    let kept := (unit.analysisOf survey).chains
    (∀ chain, chain ∈ kept ↔ chain.Leads measured) ∧
    (∀ chain ∈ measured, ∃ first, first.Leads measured ∧
      kept.filter (fun other => other.Repeats chain) = [first]) ∧
    kept.Pairwise (fun a b => a.callSite.line < b.callSite.line ∨
      a.callSite.line = b.callSite.line ∧ a.methodText ≤ b.methodText) ∧
    distinct kept = kept := by
  intro measured kept
  have hkept : kept = distinct measured := chains_analysisOf survey unit
  refine ⟨fun chain => mem_chains_iff, ?_, ?_, ?_⟩
  · intro chain hchain
    obtain ⟨first, hleads, -, hfilter⟩ := exists_filter_chains_eq hchain
    exact ⟨first, hleads, hfilter⟩
  · rw [hkept]
    exact (pairwise_distinct measured).imp order_isLE_iff.1
  · rw [hkept, distinct_distinct]

theorem chains_distinct_mailer :
    let survey := Survey.ofModel .rebound .standard
    let kept := (mailer.analysisOf survey).chains
    ∃ first second, mailer.measuredChains survey = [first, second] ∧ first.Repeats second ∧
      first ∈ kept ∧ second ∉ kept ∧
      kept.filter (fun other => other.Repeats second) = [first] ∧ distinct kept = kept := by
  intro survey kept
  obtain ⟨hkept, honce, -, hagain⟩ := chains_distinct survey mailer
  obtain ⟨first, second, hmeasured, hrepeats, hthree, hfive, hone, htwo⟩ :=
    measuredChains_mailer .standard
  rw [hmeasured] at hkept honce
  obtain ⟨leading, hleads, hfilter⟩ := honce second (by simp)
  obtain rfl := hleads.eq_of_pair hrepeats (by omega)
  refine ⟨leading, second, hmeasured, hrepeats, (hkept _).2 hleads, ?_, hfilter, hagain⟩
  intro hsecond
  -- the second one is not the first one, as it is deeper
  have heq : second = leading := ((hkept _).1 hsecond).eq_of_pair hrepeats (by omega)
  rw [heq] at htwo
  omega

end AuditUnit

/-! ### Reports of deep chains -/

/-- The rule on deep chains, as settings that enable it select it. -/
def Settings.depthRule (settings : Settings) : Rule :=
  ⟨.lawOfDemeter settings.minDemeterDepth, settings.severityFor "law-of-demeter" .warning⟩

/-- The kept chains of a unit that are deep enough to be reported. -/
def AuditUnit.deepChains (survey : Survey) (unit : AuditUnit) : List AccessChain :=
  (unit.analysisOf survey).chains.filter fun chain =>
    survey.settings.minDemeterDepth ≤ chain.depth

/-- Of the chains that repeat each other, the one that leads is asked for its depth. -/
theorem AuditUnit.exists_filter_deepChains_eq {survey : Survey} {unit : AuditUnit}
    {chain : AccessChain} (h : chain ∈ unit.measuredChains survey) :
    ∃ first, first.Leads (unit.measuredChains survey) ∧ first.Repeats chain ∧
      (unit.deepChains survey).filter (fun other => other.Repeats chain) =
        if survey.settings.minDemeterDepth ≤ first.depth then [first] else [] := by
  obtain ⟨first, hleads, hrepeats, hfilter⟩ := exists_filter_chains_eq h
  refine ⟨first, hleads, hrepeats, ?_⟩
  rw [deepChains, List.filter_comm, hfilter, List.filter_singleton, Bool.cond_decide]

/-- What is listed about a unit without flaws are its deep chains. -/
theorem Audit.about_lawOfDemeter {settings : Settings}
    (henabled : settings.isEnabled "law-of-demeter" = true) {model : Model} {unit : AuditUnit}
    (hunit : unit ∈ AuditUnit.schedule model) (hsound : unit.isSound = true) :
    (ofModel ⟨settings, Rule.select settings⟩ model).report.about "law-of-demeter" unit.name =
      Violation.sort ((unit.deepChains (Survey.ofModel model settings)).map fun chain =>
        chain.finding.toViolation settings.depthRule
          (unit.analysisOf (Survey.ofModel model settings))) := by
  have hcheck : .lawOfDemeter settings.minDemeterDepth ∈ RuleCheck.registry settings := by
    simp [RuleCheck.registry]
  have hid : (RuleCheck.lawOfDemeter settings.minDemeterDepth).id = "law-of-demeter" := rfl
  rw [about_select hcheck hid hunit hsound, if_pos henabled, Rule.evaluate, List.flatMap_singleton]
  exact congrArg Violation.sort List.map_map

namespace Auditor

/-- The chain from a refund is deep enough to be reported, and nothing is reported. -/
theorem auditInOrder_drops_deep_chain :
    ∃ auditor audit chain, ofSettings .standard = .ok auditor ∧
      auditor.auditInOrder .rebound .never [0, 1, 2, 3, 4, 5] = .ok audit ∧
      AuditUnit.mailer ∈ AuditUnit.schedule .rebound ∧ AuditUnit.mailer.isSound = true ∧
      Settings.standard.isEnabled "law-of-demeter" = true ∧
      chain ∈ AuditUnit.mailer.measuredChains (Survey.ofModel .rebound .standard) ∧
      Settings.standard.minDemeterDepth ≤ chain.depth ∧
      audit.report.about "law-of-demeter" "Mailer" = [] := by
  have hauditor : ofSettings .standard = .ok ⟨.standard, Rule.select .standard⟩ :=
    ofSettings_eq_ok_iff.2 ⟨by decide, rfl⟩
  have henabled : Settings.standard.isEnabled "law-of-demeter" = true := by decide
  have hunit : AuditUnit.mailer ∈ AuditUnit.schedule .rebound := by decide
  have hsound : AuditUnit.mailer.isSound = true := by decide
  have hreturns := auditInOrder_eq_ofModel ⟨.standard, Rule.select .standard⟩
    Model.rebound_admissible Model.rebound_order
  obtain ⟨first, second, hmeasured, hrepeats, hthree, hfive, hone, htwo⟩ :=
    AuditUnit.measuredChains_mailer .standard
  refine ⟨_, _, second, hauditor, hreturns, hunit, hsound, henabled, ?_, ?_, ?_⟩
  · rw [hmeasured]
    simp
  · rw [htwo]
    decide
  · have hnone : AuditUnit.mailer.deepChains (Survey.ofModel .rebound .standard) = [] := by
      refine List.filter_eq_nil_iff.2 ?_
      intro chain hchain
      rw [AuditUnit.mem_chains_iff, hmeasured] at hchain
      rw [hchain.eq_of_pair hrepeats (by omega), hone]
      decide
    have habout := Audit.about_lawOfDemeter henabled hunit hsound
    rw [hnone] at habout
    exact habout.trans List.mergeSort_nil

/-- A deep chain is reported exactly if the chain that leads it is deep.  What an audit lists
under the rule about a unit without flaws are the violations of some chains, one for each.  Of
the chains with the same expression in methods of the same name, the one that leads is among
them if it is deep enough, and else none is.  It is as deep as the others that are walked over
the same names from the same class. -/
theorem auditInOrder_lawOfDemeter {settings : Settings}
    (henabled : settings.isEnabled "law-of-demeter" = true) {auditor : Auditor}
    (hauditor : ofSettings settings = .ok auditor) {model : Model} (hmodel : model.Admissible)
    {order : List Nat} (horder : order.Perm (List.range (AuditUnit.schedule model).length)) :
    ∃ audit, auditor.auditInOrder model .never order = .ok audit ∧
      ∀ unit ∈ AuditUnit.schedule model, unit.isSound = true →
        let analysis := unit.analysisOf (Survey.ofModel model settings)
        let measured := unit.measuredChains (Survey.ofModel model settings)
        ∃ reported : List AccessChain,
          (audit.report.about "law-of-demeter" unit.name).Perm
            (reported.map fun chain => chain.finding.toViolation settings.depthRule analysis) ∧
          (∀ chain ∈ reported, chain ∈ measured) ∧
          ∀ chain ∈ measured, ∃ first, first.Leads measured ∧ first.Repeats chain ∧
            reported.filter (fun other => other.Repeats chain) =
              (if settings.minDemeterDepth ≤ first.depth then [first] else []) ∧
            (first.startClass = chain.startClass → first.callSite.chain = chain.callSite.chain →
              first.depth = chain.depth) := by
  obtain ⟨-, rfl⟩ := ofSettings_eq_ok_iff.1 hauditor
  refine ⟨_, auditInOrder_eq_ofModel _ hmodel horder, ?_⟩
  intro unit hunit hsound analysis measured
  refine ⟨unit.deepChains (Survey.ofModel model settings), ?_, ?_, ?_⟩
  · rw [Audit.about_lawOfDemeter henabled hunit hsound]
    exact Violation.sort_perm _
  · intro chain hchain
    exact (AuditUnit.mem_chains_iff.1 (List.mem_filter.1 hchain).1).mem
  · intro chain hchain
    obtain ⟨first, hleads, hrepeats, hfilter⟩ := AuditUnit.exists_filter_deepChains_eq hchain
    exact ⟨first, hleads, hrepeats, hfilter, AuditUnit.depth_eq hleads.mem hchain⟩

theorem auditInOrder_lawOfDemeter_rebound :
    ∃ auditor audit, ∃ reported : List AccessChain, ∃ first second,
      ofSettings .standard = .ok auditor ∧
      auditor.auditInOrder .rebound .never [0, 1, 2, 3, 4, 5] = .ok audit ∧
      AuditUnit.mailer.measuredChains (Survey.ofModel .rebound .standard) = [first, second] ∧
      (audit.report.about "law-of-demeter" "Mailer").length = reported.length ∧
      first.Repeats second ∧ first.depth = 1 ∧ second.depth = 2 ∧
      reported.filter (fun other => other.Repeats second) = [] := by
  have hauditor : ofSettings .standard = .ok ⟨.standard, Rule.select .standard⟩ :=
    ofSettings_eq_ok_iff.2 ⟨by decide, rfl⟩
  obtain ⟨audit, hreturns, hunits⟩ := auditInOrder_lawOfDemeter (by decide) hauditor
    Model.rebound_admissible Model.rebound_order
  obtain ⟨first, second, hmeasured, hrepeats, hthree, hfive, hone, htwo⟩ :=
    AuditUnit.measuredChains_mailer .standard
  obtain ⟨reported, hperm, -, hreported⟩ := hunits .mailer (by decide) (by decide)
  rw [hmeasured] at hreported
  obtain ⟨leading, hleads, -, hfilter, -⟩ := hreported second (by simp)
  -- the first one leads, and it is not deep
  obtain rfl := hleads.eq_of_pair hrepeats (by omega)
  have hlength := hperm.length_eq
  rw [List.length_map] at hlength
  refine ⟨_, audit, reported, leading, second, hauditor, hreturns, hmeasured, hlength, hrepeats,
    hone, htwo, ?_⟩
  rw [hfilter, hone]
  rfl

end Auditor

end ObjectAudit
