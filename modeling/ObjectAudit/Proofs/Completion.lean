/-
ObjectAudit/Proofs/Completion.lean

Runs that nobody cancels.  Each outcome is kept under the position of its unit, so after a
run over some positions the outcome of each of them is known, and nothing else has changed
(`completeUnits_never`).  Once every position was completed the outcomes are those of the
units one after the other, whatever the order was (`outcomesInOrder_never`), and the audit
is the one made of them (`auditInOrder_never`).
-/
import Mathlib.Data.List.Basic
import ObjectAudit.Proofs.Tables
import ObjectAudit.Audit

namespace ObjectAudit

/-- After a run that nobody cancels, the outcome of every completed position is known. -/
theorem completeUnits_never (outcomeAt : Nat → Option Outcome) (total : Nat) (order : List Nat)
    (done : Table Nat Outcome) :
    ∃ done', completeUnits outcomeAt total .never done order = .ok done' ∧
      ∀ position, done'.get? position =
        if position ∈ order then (outcomeAt position).or (done.get? position)
        else done.get? position := by
  induction order generalizing done with
  | nil => exact ⟨done, rfl, fun position => by simp⟩
  | cons first rest ih =>
    -- one step: only the completed position has changed
    obtain ⟨next, hnext, hget⟩ : ∃ next,
        completeUnits outcomeAt total .never done (first :: rest) =
          completeUnits outcomeAt total .never next rest ∧
        ∀ position, next.get? position =
          if position = first then (outcomeAt first).or (done.get? first)
          else done.get? position := by
      cases houtcome : outcomeAt first with
      | none =>
        refine ⟨done, by simp [completeUnits, houtcome, Cancellation.never], ?_⟩
        intro position
        split
        · next heq => rw [heq, Option.none_or]
        · rfl
      | some outcome =>
        refine ⟨done.insert first outcome,
          by simp [completeUnits, houtcome, Cancellation.never], ?_⟩
        intro position
        rw [Table.get?_insert, Option.some_or]
        simp only [beq_iff_eq]
    -- the rest of the run starts from there
    obtain ⟨done', hrun, hdone'⟩ := ih next
    refine ⟨done', hnext.trans hrun, ?_⟩
    intro position
    rw [hdone', hget]
    by_cases hfirst : position = first
    · subst hfirst
      cases outcomeAt position <;> simp
    · simp [hfirst]

theorem filterMap_range_getElem? {α β : Type} (f : α → β) (l : List α) :
    (List.range l.length).filterMap (fun position => (l[position]?).map f) = l.map f := by
  induction l with
  | nil => rfl
  | cons a rest ih =>
    rw [List.length_cons, List.range_succ_eq_map, List.filterMap_cons, List.filterMap_map,
      List.map_cons, ← ih]
    rfl

/-- Once every position was completed, the outcomes are those of the units in turn. -/
theorem outcomesInOrder_never (survey : Survey) (units : List AuditUnit) {order : List Nat}
    (horder : ∀ position < units.length, position ∈ order) :
    outcomesInOrder survey units .never order = .ok (units.map (AuditUnit.outcome survey)) := by
  obtain ⟨done, hrun, hdone⟩ := completeUnits_never
    (fun position => (units[position]?).map (AuditUnit.outcome survey)) units.length order
    Table.empty
  have houtcomes : (List.range units.length).filterMap done.get? =
      units.map (AuditUnit.outcome survey) := by
    rw [← filterMap_range_getElem?]
    refine List.filterMap_congr ?_
    intro position hposition
    rw [hdone, if_pos (horder position (List.mem_range.1 hposition)), Table.get?_empty,
      Option.or_none]
  rw [outcomesInOrder, hrun, ← houtcomes]
  rfl

namespace Auditor

/-- An audit that nobody cancels does not depend on the order of completion. -/
theorem auditInOrder_never (auditor : Auditor) (model : Model) {order : List Nat}
    (horder : ∀ position < (AuditUnit.schedule model).length, position ∈ order)
    (hwf : WellFormed (Audit.ofModel auditor model)) :
    auditor.auditInOrder model .never order = .ok (Audit.ofModel auditor model) := by
  have hchecked := checked_eq_ok_iff.2 ⟨hwf, rfl⟩
  have hofModel : Audit.ofOutcomes auditor model ((AuditUnit.schedule model).map
      (AuditUnit.outcome (Survey.ofModel model auditor.settings))) =
      Audit.ofModel auditor model := rfl
  simp only [auditInOrder, outcomesInOrder_never _ _ horder, hofModel, hchecked]

end Auditor

end ObjectAudit
