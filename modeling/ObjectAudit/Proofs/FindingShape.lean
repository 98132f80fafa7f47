/-
ObjectAudit/Proofs/FindingShape.lean

What the rules find and what is reported of it.  Lines come from the call sites and methods of
a unit, so they count from one in every analysis (`UnitAnalysis.LinesPositive`); messages and
reasons are put together from texts of which one is never empty.  Hence every finding says
something at a proper line (`RuleCheck.sound_of_mem_findings`), and the violation that reports
it meets its requirements, as does the one that keeps a skipped unit visible.
-/
import ObjectAudit.Proofs.AnalysisShape

namespace ObjectAudit

/-! ### Lines -/

/-- All lines that an analysis may report count from one. -/
structure UnitAnalysis.LinesPositive (analysis : UnitAnalysis) : Prop where
  chains : ∀ chain ∈ analysis.chains, 1 ≤ chain.callSite.line
  calls : ∀ call ∈ analysis.calls, 1 ≤ call.callSite.line
  mutations : ∀ mutation ∈ analysis.mutations, 1 ≤ mutation.callSite.line
  transactions : ∀ transaction ∈ analysis.transactions, 1 ≤ transaction.line

theorem CallSite.one_le_line {site : CallSite} (h : WellFormed site) : 1 ≤ site.line :=
  (CallSite.wellFormed_iff.1 h).2.2.2.1

namespace Survey

variable {survey : Survey}

theorem linesPositive_classAnalysis {decl : ClassDecl} (h : decl.Admissible) :
    (survey.classAnalysis decl).LinesPositive where
  chains := by
    intro chain hchain
    obtain ⟨method, hmethod, site, hsite, hmeasure⟩ := AccessChain.exists_of_mem_ofClass hchain
    rw [(measure?_eq_some hmeasure).2.2.1]
    exact CallSite.one_le_line ((h.methods method hmethod).callSites site hsite)
  calls := by
    intro call hcall
    obtain ⟨method, hmethod, site, hsite, rfl⟩ := LayeredCall.exists_of_mem_ofClass hcall
    exact CallSite.one_le_line ((h.methods method hmethod).callSites site hsite)
  mutations := by
    intro mutation hmutation
    obtain ⟨method, hmethod, -, hsite⟩ := exists_of_mem_mutationsOf hmutation
    exact CallSite.one_le_line ((h.methods method hmethod).callSites _ hsite)
  transactions := by
    intro transaction htransaction
    obtain ⟨method, hmethod, -, hline, -⟩ := exists_of_mem_transactionsOf htransaction
    rw [hline]
    exact (Method.wellFormed_iff.1 (h.methods method hmethod).self).2

theorem linesPositive_templateAnalysis {template : Template} (h : template.Admissible) :
    (survey.templateAnalysis template).LinesPositive where
  chains := by
    intro chain hchain
    obtain ⟨site, hsite, hmeasure⟩ := AccessChain.exists_of_mem_ofTemplate hchain
    rw [(measure?_eq_some hmeasure).2.2.1]
    exact CallSite.one_le_line (h.callSites site hsite)
  calls := by
    intro call hcall
    obtain ⟨site, hsite, rfl⟩ := List.mem_map.1 hcall
    exact CallSite.one_le_line (h.callSites site hsite)
  mutations := by
    intro mutation hmutation
    cases hmutation
  transactions := by
    intro transaction htransaction
    cases htransaction

end Survey

/-! ### Texts -/

theorem append_ne_of_left {s t : String} (h : s ≠ "") : s ++ t ≠ "" := by
  intro heq
  exact h (String.append_eq_empty_iff.1 heq).1

theorem append_ne_of_right {s t : String} (h : t ≠ "") : s ++ t ≠ "" := by
  intro heq
  exact h (String.append_eq_empty_iff.1 heq).2

/-- Every flaw says something. -/
theorem Flaw.message_ne (flaw : Flaw) : flaw.message ≠ "" := by
  cases flaw with
  | repeatedClass name => exact append_ne_of_right (by decide)
  | foreignSource accessor source name => exact append_ne_of_left (append_ne_of_right (by decide))
  | repeatedAccessor accessor => exact append_ne_of_right (by decide)
  | noOwner method => exact append_ne_of_right (by decide)
  | foreignOwner method owner name => exact append_ne_of_left (append_ne_of_right (by decide))
  | danglingDelegation method association =>
    exact append_ne_of_left (append_ne_of_right (by decide))
  | repeatedTemplate name => exact append_ne_of_right (by decide)

/-- What has a flaw has a reason to be skipped. -/
theorem Malformed.reason_ne {malformed : Malformed} (h : malformed.flaws ≠ []) :
    malformed.reason ≠ "" := by
  unfold reason
  cases hflaws : malformed.flaws with
  | nil => exact absurd hflaws h
  | cons flaw rest =>
    cases rest with
    | nil => simpa using flaw.message_ne
    | cons next rest =>
      rw [List.map_cons, List.map_cons, String.intercalate_cons_cons]
      exact append_ne_of_left (append_ne_of_right (by decide))

/-! ### Findings -/

/-- A finding that says something, at a line that counts from one. -/
structure Finding.Sound (finding : Finding) : Prop where
  message : finding.message ≠ ""
  line : ∀ line, finding.line = some line → 1 ≤ line

/-- A finding at a given line is sound if the line is. -/
theorem Finding.sound_of_line {finding : Finding} {line : Int} (hmessage : finding.message ≠ "")
    (hfinding : finding.line = some line) (hline : 1 ≤ line) : finding.Sound where
  message := hmessage
  line := by
    intro line' hline'
    obtain rfl := Option.some.inj (hfinding.symm.trans hline')
    exact hline

theorem AccessChain.sound_finding {chain : AccessChain} (h : 1 ≤ chain.callSite.line) :
    chain.finding.Sound :=
  Finding.sound_of_line (append_ne_of_right (append_ne_of_right (by decide))) rfl h

theorem LayeredCall.sound_outsideFinding {call : LayeredCall} (h : 1 ≤ call.callSite.line) :
    call.outsideFinding.Sound :=
  Finding.sound_of_line
    (append_ne_of_right (append_ne_of_left (append_ne_of_right (by decide)))) rfl h

theorem LayeredCall.sound_neighborFinding {call : LayeredCall} (h : 1 ≤ call.callSite.line)
    (target : String) : (call.neighborFinding target).Sound :=
  Finding.sound_of_line (append_ne_of_right (append_ne_of_right (by decide))) rfl h

theorem sound_fatModelFinding (methods : MethodIndex) (subject : String)
    (clusters : List Cluster) : (fatModelFinding methods subject clusters).Sound where
  message := append_ne_of_left (append_ne_of_left (append_ne_of_right (by decide)))
  line := by
    intro line hline
    cases hline

theorem Transaction.sound_finding {transaction : Transaction} (h : 1 ≤ transaction.line) :
    transaction.finding.Sound :=
  Finding.sound_of_line (append_ne_of_right (by decide)) rfl h

theorem Mutation.sound_callbackFinding {mutation : Mutation}
    (h : 1 ≤ mutation.callSite.line) : mutation.callbackFinding.Sound :=
  Finding.sound_of_line (append_ne_of_right (append_ne_of_right (by decide))) rfl h

/-- Whatever a rule finds says something, at a line that counts from one. -/
theorem RuleCheck.sound_of_mem_findings {methods : MethodIndex} {analysis : UnitAnalysis}
    (h : analysis.LinesPositive) {check : RuleCheck} {finding : Finding}
    (hfinding : finding ∈ check.findings methods analysis) : finding.Sound := by
  cases check with
  | lawOfDemeter minDepth =>
    obtain ⟨chain, hchain, rfl⟩ := List.mem_map.1 hfinding
    exact AccessChain.sound_finding (h.chains chain (List.mem_filter.1 hchain).1)
  | queryOutsideModel =>
    obtain ⟨call, hcall, rfl⟩ := List.mem_map.1 hfinding
    exact LayeredCall.sound_outsideFinding (h.calls call (List.mem_filter.1 hcall).1)
  | neighborQuery =>
    obtain ⟨call, hcall, hsome⟩ := List.mem_filterMap.1 hfinding
    -- a query without target, or on the class itself, is no finding
    split at hsome
    · obtain ⟨target, -, rfl⟩ := Option.map_eq_some_iff.1 hsome
      exact LayeredCall.sound_neighborFinding (h.calls call hcall) target
    · cases hsome
  | fatModel minCategories =>
    simp only [findings] at hfinding
    split at hfinding
    · cases hfinding
    · obtain rfl := List.mem_singleton.1 hfinding
      exact sound_fatModelFinding _ _ _
  | transactionOrchestration minClasses =>
    obtain ⟨transaction, htransaction, rfl⟩ := List.mem_map.1 hfinding
    exact Transaction.sound_finding
      (h.transactions transaction (List.mem_filter.1 htransaction).1)
  | callbackSideEffects =>
    obtain ⟨mutation, hmutation, rfl⟩ := List.mem_map.1 hfinding
    -- one finding for each method and class, but each from a change of the unit
    have hmem := (eraseDupsBy_sublist _ _).subset hmutation
    exact Mutation.sound_callbackFinding (h.mutations mutation (List.mem_filter.1 hmem).1)

/-! ### Violations -/

theorem RuleCheck.id_ne (check : RuleCheck) : check.id ≠ "" := by
  cases check <;> simp [id]

section Violations

variable {finding : Finding} {analysis : UnitAnalysis}

theorem Finding.wellFormed_toViolation (h : finding.Sound) (rule : Rule)
    (hsubject : analysis.subject ≠ "") : WellFormed (finding.toViolation rule analysis) :=
  Violation.wellFormed_iff.2 ⟨rule.check.id_ne, hsubject, h.message, h.line⟩

theorem Finding.wellFormed_location (h : finding.Sound) (rule : Rule)
    (hlocation : WellFormed analysis.location) :
    WellFormed (finding.toViolation rule analysis).location := by
  unfold toViolation
  cases hline : finding.line with
  | none => exact hlocation
  | some line => exact Location.wellFormed_iff.2 ⟨h.line line hline, Int.le_refl 0⟩

end Violations

theorem Skipped.wellFormed_toViolation {skipped : Skipped} (h : WellFormed skipped) :
    WellFormed skipped.toViolation := by
  refine Violation.wellFormed_iff.2 ⟨?_, (Skipped.wellFormed_iff.1 h).1, ?_, ?_⟩
  · show malformedInput ≠ ""
    decide
  · exact append_ne_of_left (by decide)
  · intro line hline
    cases hline

end ObjectAudit
