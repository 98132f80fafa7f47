/-
ObjectAudit/Proofs/ClassFlaws.lean

How many flaws a class has.

The flaws of a class are found in two passes, one over its associations, which remembers the
accessors that it has seen, and one over its methods.  Here they are counted without passes: foreign
associations, positions at which an accessor stands that stands before already (`RepeatsAt`),
methods that are not owned by the class, and delegations through an accessor that the class does not
have.  What the first pass has seen are the accessors before a position, in reverse, so the
induction counts positions of the whole list (`length_associationFlaws`).

A class is malformed if one of the counts is not zero (`flaws_ne_nil_iff`).  Otherwise its accessors
are distinct and its delegations go through them, so the graph finds the one association that each
of them means.

Main result: `ClassDecl.flaws_exact`.
-/
import Mathlib.Data.List.Nodup
import ObjectAudit.Proofs.PlainLookups
import ObjectAudit.Proofs.Shortcuts

namespace ObjectAudit

/-! ### What is counted -/

/-- Does the name at a position stand before it already? -/
def RepeatsAt (names : List String) (i : Nat) : Prop := ∃ j < i, names[j]? = names[i]?

instance (names : List String) (i : Nat) : Decidable (RepeatsAt names i) :=
  inferInstanceAs (Decidable (∃ j < i, names[j]? = names[i]?))

namespace ClassDecl

variable (decl : ClassDecl)

/-- The accessors of a class, in order. -/
def accessors : List String := decl.associations.map Association.accessor

/-- Does an association name another source? -/
def IsForeign (edge : Association) : Prop := edge.source ≠ decl.qualifiedName

/-- Has a method no owner, or another one? -/
def IsUnowned (method : Method) : Prop := method.owner ≠ some decl.qualifiedName

/-- Does a method forward through an accessor that the class does not have? -/
def IsDangling (method : Method) : Prop :=
  ∃ delegation ∈ method.delegatesTo, delegation.association ∉ decl.accessors

instance (edge : Association) : Decidable (decl.IsForeign edge) :=
  inferInstanceAs (Decidable (_ ≠ _))

instance (method : Method) : Decidable (decl.IsUnowned method) :=
  inferInstanceAs (Decidable (_ ≠ _))

instance (method : Method) : Decidable (decl.IsDangling method) :=
  inferInstanceAs (Decidable (∃ delegation ∈ method.delegatesTo, _ ∉ decl.accessors))

end ClassDecl

theorem length_ite_singleton {α : Type} {b : Bool} {p : Prop} [Decidable p] (h : b = true ↔ p)
    {a : α} : (if b then [a] else []).length = if p then 1 else 0 := by
  by_cases hp : p
  · rw [if_pos hp, if_pos (h.2 hp)]
    rfl
  · rw [if_neg hp, if_neg (mt h.1 hp)]
    rfl

/-! ### Associations -/

/-- Before the position behind some names stand these names. -/
theorem repeatsAt_length_iff (seen : List String) (name : String) (rest : List String) :
    RepeatsAt (seen.reverse ++ name :: rest) seen.length ↔ name ∈ seen := by
  -- the name stands right behind those already seen
  have hhere : (seen.reverse ++ name :: rest)[seen.length]? = some name := by
    rw [List.getElem?_append_right (by simp)]
    simp
  rw [RepeatsAt, hhere, ← List.mem_reverse, List.mem_iff_getElem?]
  constructor
  · rintro ⟨j, hj, hname⟩
    rw [List.getElem?_append_left (by simpa using hj)] at hname
    exact ⟨j, hname⟩
  · rintro ⟨j, hname⟩
    have hj : j < seen.reverse.length := (List.getElem?_eq_some_iff.1 hname).1
    refine ⟨j, by simpa using hj, ?_⟩
    rw [List.getElem?_append_left hj]
    exact hname

theorem exists_repeatsAt_iff {names : List String} :
    (∃ i ∈ List.range names.length, RepeatsAt names i) ↔ ¬ names.Nodup := by
  simp only [List.nodup_iff_getElem?_ne_getElem?, RepeatsAt, List.mem_range, not_forall,
    Decidable.not_not, exists_prop]
  constructor
  · rintro ⟨i, hi, j, hj, heq⟩
    exact ⟨j, i, hj, hi, heq⟩
  · rintro ⟨j, i, hj, hi, heq⟩
    exact ⟨i, hi, j, hj, heq⟩

/-- The flaws of associations, behind those whose accessors were seen. -/
theorem length_associationFlaws (decl : ClassDecl) (seen : List String) (edges : List Association) :
    (associationFlaws decl.qualifiedName seen edges).length =
      edges.countP (fun edge => decl.IsForeign edge) +
        (List.range' seen.length edges.length).countP
          fun i => RepeatsAt (seen.reverse ++ edges.map Association.accessor) i := by
  induction edges generalizing seen with
  | nil => rfl
  | cons edge rest ih =>
    -- the accessor of the edge passes from what is ahead to what was seen, and no position changes
    have hall : seen.reverse ++ (edge :: rest).map Association.accessor =
        (edge.accessor :: seen).reverse ++ rest.map Association.accessor := by simp
    have hseen : seen.contains edge.accessor = true ↔
        RepeatsAt ((edge.accessor :: seen).reverse ++ rest.map Association.accessor)
          seen.length := by
      rw [← hall, List.contains_iff_mem]
      exact (repeatsAt_length_iff _ _ _).symm
    have hsource : (edge.source != decl.qualifiedName) = true ↔ decl.IsForeign edge := bne_iff_ne
    rw [associationFlaws, List.length_append, List.length_append, ih, List.countP_cons,
      List.length_cons, List.length_cons, List.range'_succ, List.countP_cons, hall,
      length_ite_singleton hsource, length_ite_singleton hseen]
    simp only [decide_eq_true_eq]
    omega

/-! ### Methods -/

theorem length_ownerFlaws (decl : ClassDecl) (method : Method) :
    (ownerFlaws decl.qualifiedName method).length = if decl.IsUnowned method then 1 else 0 := by
  cases howner : method.owner with
  | none => simp [ownerFlaws, ClassDecl.IsUnowned, howner]
  | some owner =>
    have hother : (owner != decl.qualifiedName) = true ↔ decl.IsUnowned method := by
      simp [ClassDecl.IsUnowned, howner]
    rw [ownerFlaws, howner]
    exact length_ite_singleton hother

theorem length_delegationFlaws (decl : ClassDecl) (method : Method) :
    (delegationFlaws decl.accessors method).length = if decl.IsDangling method then 1 else 0 := by
  cases hdelegates : method.delegatesTo with
  | none => simp [delegationFlaws, ClassDecl.IsDangling, hdelegates]
  | some delegation =>
    by_cases hmem : delegation.association ∈ decl.accessors <;>
      simp [delegationFlaws, ClassDecl.IsDangling, hdelegates, hmem]

theorem length_methodFlaws (decl : ClassDecl) (methods : List Method) :
    (methods.flatMap fun method => ownerFlaws decl.qualifiedName method ++
        delegationFlaws decl.accessors method).length =
      methods.countP (fun method => decl.IsUnowned method) +
        methods.countP fun method => decl.IsDangling method := by
  induction methods with
  | nil => rfl
  | cons method rest ih =>
    rw [List.flatMap_cons, List.length_append, List.length_append, ih, length_ownerFlaws,
      length_delegationFlaws, List.countP_cons, List.countP_cons]
    simp only [decide_eq_true_eq]
    omega

/-! ### Classes -/

/-- A unit is malformed if it has a flaw, and then all its flaws are told. -/
theorem AuditUnit.analyse_eq_error_iff {survey : Survey} {unit : AuditUnit}
    {malformed : Malformed} :
    unit.analyse survey = .error malformed ↔
      unit.flaws ≠ [] ∧ malformed = ⟨unit.name, unit.flaws⟩ := by
  unfold analyse
  cases unit.flaws with
  | nil => simp
  | cons flaw rest => simp [eq_comm]

theorem AuditUnit.flaws_eq_nil_of_analyse {survey : Survey} {unit : AuditUnit}
    {analysis : UnitAnalysis} (h : unit.analyse survey = .ok analysis) : unit.flaws = [] := by
  by_contra hflaws
  rw [analyse_eq_error_iff.2 ⟨hflaws, rfl⟩] at h
  cases h

namespace ClassDecl

variable {decl : ClassDecl} {repeated : Bool}

theorem flaws_eq (decl : ClassDecl) (repeated : Bool) :
    decl.flaws repeated =
      (if repeated then [.repeatedClass decl.qualifiedName] else []) ++
        associationFlaws decl.qualifiedName [] decl.associations ++
        decl.methods.flatMap fun method =>
          ownerFlaws decl.qualifiedName method ++ delegationFlaws decl.accessors method :=
  rfl

theorem length_flaws (decl : ClassDecl) (repeated : Bool) :
    (decl.flaws repeated).length =
      (if repeated then 1 else 0) + decl.associations.countP (fun edge => decl.IsForeign edge) +
        (List.range decl.associations.length).countP (fun i => RepeatsAt decl.accessors i) +
        decl.methods.countP (fun method => decl.IsUnowned method) +
        decl.methods.countP fun method => decl.IsDangling method := by
  have hedges : (associationFlaws decl.qualifiedName [] decl.associations).length =
      decl.associations.countP (fun edge => decl.IsForeign edge) +
        (List.range' 0 decl.associations.length).countP fun i => RepeatsAt decl.accessors i :=
    length_associationFlaws decl [] decl.associations
  rw [flaws_eq, List.length_append, List.length_append, hedges, ← List.range_eq_range',
    length_methodFlaws, length_ite_singleton Iff.rfl]
  omega

/-- A class has flaws if it has a flaw of one of the five kinds. -/
theorem flaws_ne_nil_iff :
    decl.flaws repeated ≠ [] ↔
      repeated = true ∨ (∃ edge ∈ decl.associations, decl.IsForeign edge) ∨
        ¬ decl.accessors.Nodup ∨ (∃ method ∈ decl.methods, decl.IsUnowned method) ∨
        ∃ method ∈ decl.methods, decl.IsDangling method := by
  have hlength : decl.accessors.length = decl.associations.length := List.length_map _
  have hrepeated : 0 < (if repeated then 1 else 0) ↔ repeated = true := by
    cases repeated <;> decide
  rw [← exists_repeatsAt_iff, hlength, ← List.length_pos_iff, length_flaws]
  simp only [Nat.add_pos_iff_pos_or_pos, List.countP_pos_iff, decide_eq_true_eq, hrepeated,
    or_assoc]

/-- In a class without flaws a delegation goes through the one association of its accessor. -/
theorem exists_delegated (h : decl.flaws repeated = []) {method : Method}
    (hmethod : method ∈ decl.methods) {delegation : Delegation}
    (hdelegates : method.delegatesTo = some delegation) :
    ∃ edge,
      decl.associations.filter (fun edge => edge.accessor == delegation.association) = [edge] ∧
      decl.association? delegation.association = some edge := by
  have hnone := mt flaws_ne_nil_iff.2 (not_not.2 h)
  simp only [not_or, Decidable.not_not] at hnone
  obtain ⟨-, -, hnodup, -, hdangling⟩ := hnone
  have hmem : delegation.association ∈ decl.accessors := by
    by_contra hnot
    exact hdangling ⟨method, hmethod, delegation, hdelegates, hnot⟩
  obtain ⟨edge, hedge, haccessor⟩ := List.mem_map.1 hmem
  refine ⟨edge, ?_, (find?_eq_some_iff_mem _ hnodup).2 ⟨hedge, haccessor⟩⟩
  rw [← haccessor]
  exact filter_key_eq_singleton _ hnodup hedge

/-- The flaws of a class are told exactly.  There is one for a name that was declared before, one
for each association with another source, for each association whose accessor stands before it
already, for each method without the class as its owner, and for each delegation through an accessor
that the class does not have.  The class is malformed, with all these flaws, if there is one of
them.  If it is not malformed, then whatever model it belongs to, each of its delegations goes
through an accessor of exactly one of its associations, and the graph finds this one. -/
theorem flaws_exact (decl : ClassDecl) (repeated : Bool) :
    (decl.flaws repeated).length =
        (if repeated then 1 else 0) + decl.associations.countP (fun edge => decl.IsForeign edge) +
          (List.range decl.associations.length).countP (fun i => RepeatsAt decl.accessors i) +
          decl.methods.countP (fun method => decl.IsUnowned method) +
          decl.methods.countP (fun method => decl.IsDangling method) ∧
    (∀ survey,
      (∃ malformed, (AuditUnit.classUnit decl repeated).analyse survey = .error malformed) ↔
        repeated = true ∨ (∃ edge ∈ decl.associations, decl.IsForeign edge) ∨
          ¬ decl.accessors.Nodup ∨ (∃ method ∈ decl.methods, decl.IsUnowned method) ∨
          ∃ method ∈ decl.methods, decl.IsDangling method) ∧
    (∀ survey malformed,
      (AuditUnit.classUnit decl repeated).analyse survey = .error malformed →
        malformed = ⟨decl.qualifiedName, decl.flaws repeated⟩) ∧
    ∀ (model : Model) settings analysis, .classUnit decl repeated ∈ AuditUnit.schedule model →
      (AuditUnit.classUnit decl repeated).analyse (.ofModel model settings) = .ok analysis →
      ∀ method ∈ decl.methods, ∀ delegation, method.delegatesTo = some delegation →
        ∃ edge,
          decl.associations.filter (fun edge => edge.accessor == delegation.association) = [edge] ∧
          (Survey.ofModel model settings).graph.edge? decl.qualifiedName delegation.association =
            some (model.resolved edge) := by
  refine ⟨length_flaws decl repeated, ?_, ?_, ?_⟩
  · intro survey
    rw [← flaws_ne_nil_iff]
    constructor
    · rintro ⟨malformed, hmalformed⟩
      exact (AuditUnit.analyse_eq_error_iff.1 hmalformed).1
    · intro hflaws
      exact ⟨_, AuditUnit.analyse_eq_error_iff.2 ⟨hflaws, rfl⟩⟩
  · intro survey malformed hmalformed
    exact (AuditUnit.analyse_eq_error_iff.1 hmalformed).2
  · intro model settings analysis hunit hanalysis method hmethod delegation hdelegates
    -- a class that is analysed has no flaw, so what it forwards to is declared, and once
    have hflaws : decl.flaws repeated = [] := AuditUnit.flaws_eq_nil_of_analyse hanalysis
    obtain ⟨edge, hfilter, hfirst⟩ := exists_delegated hflaws hmethod hdelegates
    have hedge :=
      Graph.edge?_of_isSound hunit (List.isEmpty_iff.2 hflaws) delegation.association
    rw [hfirst] at hedge
    exact ⟨edge, hfilter, hedge⟩

/-- An invoice that is declared again has six flaws, with all kinds among them.  An order without
flaws forwards through its one association. -/
theorem flaws_exact_forwarded :
    (∃ invoice, .classUnit invoice true ∈ AuditUnit.schedule .tangled ∧
      (invoice.flaws true).length = 6) ∧
    ∃ order method, .classUnit order false ∈ AuditUnit.schedule .relayed ∧
      method ∈ order.methods ∧ method.delegatesTo = some ⟨"customer", "city"⟩ ∧
      ∃ edge, order.associations.filter (fun edge => edge.accessor == "customer") = [edge] ∧
        (Survey.ofModel .relayed {}).graph.edge? order.qualifiedName "customer" =
          some (Model.relayed.resolved edge) := by
  refine ⟨⟨_, .tail _ (.head _), (flaws_exact _ true).1.trans ?_⟩, ?_⟩
  · decide
  · refine ⟨_, _, .head _, .head _, rfl, ?_⟩
    exact (flaws_exact _ false).2.2.2 .relayed {} _ (.head _) rfl _ (.head _) _ rfl

end ClassDecl

end ObjectAudit
