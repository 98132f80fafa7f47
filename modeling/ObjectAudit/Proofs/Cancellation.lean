/-
ObjectAudit/Proofs/Cancellation.lean

Runs that may be cancelled.  The table of outcomes and the positions completed so far go
together: the table has exactly these keys, in the order of completion, and under each the
outcome of its unit (`Records`).  Completing one more unit keeps this and makes the table one
entry longer (`Records.insert`), so the look after the `j`-th completion sees the number `j`,
whichever units these were.

Hence the order of completion shows nowhere.  If no look sees a cancellation the run is one that
nobody cancels (`completeUnits_of_unseen`); if the `j`-th look is the first that does, the run
ends there with nothing but the two numbers (`completeUnits_of_seen`).
-/
import ObjectAudit.Proofs.Totality
import ObjectAudit.Session

namespace ObjectAudit

/-! ### Looks -/

namespace Cancellation

/-- None of the looks behind the first `seen` ones, up to look `last`, sees a cancellation. -/
def Unseen (cancel : Cancellation) (seen last : Nat) : Prop :=
  ∀ look, seen < look → look ≤ last → cancel look = false

theorem Unseen.mono {cancel : Cancellation} {seen seen' last last' : Nat}
    (h : cancel.Unseen seen last) (hseen : seen ≤ seen') (hlast : last' ≤ last) :
    cancel.Unseen seen' last' := by
  intro look hlook hle
  exact h look (by omega) (by omega)

end Cancellation

/-! ### Completed units -/

/-- A table holds the outcome of each of some positions, in the order of their completion, and
nothing else. -/
structure Records (outcomeAt : Nat → Option Outcome) (done : Table Nat Outcome)
    (completed : List Nat) : Prop where
  keys : done.keys = completed
  outcome : ∀ position ∈ completed, done.get? position = outcomeAt position

namespace Records

variable {outcomeAt : Nat → Option Outcome} {done : Table Nat Outcome} {completed : List Nat}

theorem empty (outcomeAt : Nat → Option Outcome) : Records outcomeAt Table.empty [] where
  keys := rfl
  outcome position hposition := by cases hposition

/-- There are as many outcomes as completed units. -/
theorem length_entries (h : Records outcomeAt done completed) :
    done.entries.length = completed.length := by
  rw [← h.keys, Table.keys, List.length_map]

/-- One more completed unit. -/
theorem insert (h : Records outcomeAt done completed) {position : Nat} {outcome : Outcome}
    (hnew : position ∉ completed) (houtcome : outcomeAt position = some outcome) :
    Records outcomeAt (done.insert position outcome) (completed ++ [position]) where
  keys := by
    have hkeys : position ∉ done.entries.map Prod.fst := by
      show position ∉ done.keys
      rw [h.keys]
      exact hnew
    rw [Table.keys, Table.entries_insert_of_not_mem done outcome hkeys, List.map_append, ← h.keys]
    rfl
  outcome other hother := by
    rw [Table.get?_insert]
    rcases List.mem_append.1 hother with hold | hlast
    · have hne : other ≠ position := fun heq => hnew (heq ▸ hold)
      simp [hne, h.outcome other hold]
    · obtain rfl := List.mem_singleton.1 hlast
      simp [houtcome]

end Records

section Runs

variable {outcomeAt : Nat → Option Outcome} {cancel : Cancellation} {done : Table Nat Outcome}
variable {completed : List Nat} (total : Nat)

/-- One step of a run: the next unit is completed, and the look that follows sees how many there
are by then. -/
theorem exists_completeUnits_cons (h : Records outcomeAt done completed) {position : Nat}
    {rest : List Nat} (hnodup : (completed ++ position :: rest).Nodup)
    (houtcome : (outcomeAt position).isSome) :
    ∃ next, Records outcomeAt next (completed ++ [position]) ∧
      ∀ cancel : Cancellation, completeUnits outcomeAt total cancel done (position :: rest) =
        if cancel (completed.length + 1) then .error ⟨(completed.length + 1 : Nat), total⟩
        else completeUnits outcomeAt total cancel next rest := by
  obtain ⟨outcome, houtcome⟩ := Option.isSome_iff_exists.1 houtcome
  have hnew : position ∉ completed := by
    intro hmem
    exact (List.nodup_append.1 hnodup).2.2 _ hmem _ List.mem_cons_self rfl
  refine ⟨done.insert position outcome, h.insert hnew houtcome, ?_⟩
  intro cancel
  have hlength := (h.insert hnew houtcome).length_entries
  rw [List.length_append, List.length_singleton] at hlength
  simp only [completeUnits, houtcome, hlength]

/-- The rest of a run whose looks see no cancellation is that of a run nobody cancels. -/
theorem completeUnits_of_unseen {order : List Nat} (h : Records outcomeAt done completed)
    (hnodup : (completed ++ order).Nodup)
    (houtcomes : ∀ position ∈ order, (outcomeAt position).isSome)
    (hunseen : cancel.Unseen completed.length (completed.length + order.length)) :
    completeUnits outcomeAt total cancel done order =
      completeUnits outcomeAt total .never done order := by
  induction order generalizing done completed with
  | nil => rfl
  | cons position rest ih =>
    obtain ⟨houtcome, houtcomes⟩ := List.forall_mem_cons.1 houtcomes
    obtain ⟨next, hnext, hstep⟩ := exists_completeUnits_cons total h hnodup houtcome
    have hlook : cancel (completed.length + 1) = false := by
      apply hunseen <;> simp
    rw [hstep, hstep, hlook]
    show completeUnits _ _ _ _ _ = completeUnits _ _ _ _ _
    apply ih hnext
    · simpa using hnodup
    · exact houtcomes
    · apply hunseen.mono
      · simp
      · rw [List.length_append, List.length_singleton, List.length_cons]
        omega

/-- A run ends at the first look that sees a cancellation. -/
theorem completeUnits_of_seen {order : List Nat} (h : Records outcomeAt done completed)
    (hnodup : (completed ++ order).Nodup)
    (houtcomes : ∀ position ∈ order, (outcomeAt position).isSome) {look : Nat}
    (hlook : completed.length < look) (hle : look ≤ completed.length + order.length)
    (hseen : cancel look = true) (hunseen : cancel.Unseen completed.length (look - 1)) :
    completeUnits outcomeAt total cancel done order = .error ⟨look, total⟩ := by
  induction order generalizing done completed with
  | nil =>
    rw [List.length_nil] at hle
    omega
  | cons position rest ih =>
    obtain ⟨houtcome, houtcomes⟩ := List.forall_mem_cons.1 houtcomes
    obtain ⟨next, hnext, hstep⟩ := exists_completeUnits_cons total h hnodup houtcome
    rw [hstep]
    -- either this is the look that sees the cancellation, or it comes later
    rcases Nat.lt_or_ge (completed.length + 1) look with hlater | hhere
    · have hfalse : cancel (completed.length + 1) = false := by
        apply hunseen <;> omega
      rw [hfalse]
      show completeUnits _ _ _ _ _ = _
      apply ih hnext
      · simpa using hnodup
      · exact houtcomes
      · simpa using hlater
      · rw [List.length_cons] at hle
        rw [List.length_append, List.length_singleton]
        omega
      · apply hunseen.mono <;> simp
    · obtain rfl : look = completed.length + 1 := by omega
      rw [hseen, if_pos rfl]

end Runs

/-! ### Outcomes in any order -/

section Orders

variable {units : List AuditUnit} {order : List Nat} {cancel : Cancellation} (survey : Survey)
variable (horder : order.Perm (List.range units.length))

include horder

theorem isSome_outcomeAt {position : Nat} (h : position ∈ order) :
    ((units[position]?).map (AuditUnit.outcome survey)).isSome := by
  have hlt := List.mem_range.1 (horder.mem_iff.1 h)
  simp [hlt]

theorem outcomesInOrder_of_unseen (h : cancel.Unseen 0 units.length) :
    outcomesInOrder survey units cancel order = outcomesInOrder survey units .never order := by
  have hunseen : cancel.Unseen 0 (0 + order.length) := by
    simpa [horder.length_eq] using h
  have hrun := completeUnits_of_unseen units.length
    (Records.empty fun position => (units[position]?).map (AuditUnit.outcome survey))
    (horder.nodup_iff.2 List.nodup_range) (fun _ => isSome_outcomeAt survey horder) hunseen
  simp only [outcomesInOrder, hrun]

theorem outcomesInOrder_of_seen {look : Nat} (hpos : 0 < look) (hle : look ≤ units.length)
    (hseen : cancel look = true) (hunseen : cancel.Unseen 0 (look - 1)) :
    outcomesInOrder survey units cancel order = .error ⟨look, units.length⟩ := by
  have hle' : look ≤ 0 + order.length := by
    simpa [horder.length_eq] using hle
  have hrun := completeUnits_of_seen units.length
    (Records.empty fun position => (units[position]?).map (AuditUnit.outcome survey))
    (horder.nodup_iff.2 List.nodup_range) (fun _ => isSome_outcomeAt survey horder) hpos hle' hseen
    hunseen
  simp only [outcomesInOrder, hrun]
  rfl

end Orders

/-! ### Audits in any order -/

/-- A session whose audit is cancelled answers with the fault, writes nothing and goes on as it
was. -/
theorem Session.run_audit_of_cancelled (session : Session) {cancel : Cancellation}
    {cancelled : Cancelled}
    (h : session.auditor.audit session.model cancel = .error (.cancelled cancelled))
    (style : SessionStyle) (steps : List SessionStep) :
    session.run style (.audit cancel :: steps) =
      (session.run style steps).map ((.error (.audit (.cancelled cancelled)), "") :: ·) := by
  simp only [run, take, h, SessionFault.endsSession]
  rfl

namespace Auditor

/-- The order in which units are completed shows nowhere, and a cancelled audit leaves nothing.
If no look after a completed unit sees a cancellation, the audit is that of one unit after the
other which nobody cancels.  If the look after the `j`-th completed unit is the first that sees
one, also after the last unit, the audit ends with the two numbers, there is no report, and a
session writes nothing.  Without units nothing is cancelled. -/
theorem auditInOrder_cancellation (auditor : Auditor) {model : Model} (hmodel : model.Admissible)
    {order : List Nat} (horder : order.Perm (List.range (AuditUnit.schedule model).length))
    (cancel : Cancellation) :
    ((∀ look, 1 ≤ look → look ≤ (AuditUnit.schedule model).length → cancel look = false) →
      ∃ audit, auditor.audit model .never = .ok audit ∧
        auditor.auditInOrder model cancel order = .ok audit) ∧
    (∀ j, 1 ≤ j → j ≤ (AuditUnit.schedule model).length → cancel j = true →
      (∀ look, 1 ≤ look → look < j → cancel look = false) →
        auditor.auditInOrder model cancel order =
          .error (.cancelled ⟨j, (AuditUnit.schedule model).length⟩) ∧
        ∀ style steps, Session.run style ⟨model, auditor⟩ (.audit cancel :: steps) =
          (Session.run style ⟨model, auditor⟩ steps).map
            ((.error (.audit (.cancelled ⟨j, (AuditUnit.schedule model).length⟩)), "") :: ·)) ∧
    (AuditUnit.schedule model = [] →
      ∃ audit, auditor.auditInOrder model cancel order = .ok audit) := by
  have hreturns : cancel.Unseen 0 (AuditUnit.schedule model).length →
      auditor.auditInOrder model cancel order = .ok (Audit.ofModel auditor model) := by
    intro hunseen
    rw [← auditor.auditInOrder_eq_ofModel hmodel horder]
    simp only [auditInOrder, outcomesInOrder_of_unseen _ horder hunseen]
  refine ⟨?_, ?_, ?_⟩
  · intro hunseen
    exact ⟨_, auditor.auditInOrder_eq_ofModel hmodel (List.Perm.refl _), hreturns hunseen⟩
  · intro j hpos hle hseen hbefore
    -- the same holds of every order, and a session completes units one after the other
    have hcancelled : ∀ {order : List Nat},
        order.Perm (List.range (AuditUnit.schedule model).length) →
        auditor.auditInOrder model cancel order =
          .error (.cancelled ⟨j, (AuditUnit.schedule model).length⟩) := by
      intro order horder
      have hunseen : cancel.Unseen 0 (j - 1) := by
        intro look hlook hle
        exact hbefore look hlook (by omega)
      simp only [auditInOrder, outcomesInOrder_of_seen _ horder hpos hle hseen hunseen]
    exact ⟨hcancelled horder,
      Session.run_audit_of_cancelled ⟨model, auditor⟩ (hcancelled (List.Perm.refl _))⟩
  · intro hnone
    refine ⟨_, hreturns ?_⟩
    intro look hlook hle
    rw [hnone, List.length_nil] at hle
    omega

theorem auditInOrder_cancellation_tangled :
    [4, 2, 0, 5, 1, 3].Perm (List.range (AuditUnit.schedule .tangled).length) ∧
    standard.auditInOrder .tangled (.fromLook 6) [4, 2, 0, 5, 1, 3] =
      .error (.cancelled ⟨6, 6⟩) ∧
    ∃ audit, standard.audit .tangled .never = .ok audit ∧
      standard.auditInOrder .tangled (.fromLook 7) [4, 2, 0, 5, 1, 3] = .ok audit := by
  have horder : [4, 2, 0, 5, 1, 3].Perm (List.range (AuditUnit.schedule .tangled).length) := by
    decide
  have hlast := (auditInOrder_cancellation standard Model.tangled_admissible horder
    (.fromLook 6)).2.1 6 (by decide) (by decide) (by decide) (by decide)
  have hnever := (auditInOrder_cancellation standard Model.tangled_admissible horder
    (.fromLook 7)).1 (by decide)
  exact ⟨horder, hlast.1, hnever⟩

end Auditor

end ObjectAudit
