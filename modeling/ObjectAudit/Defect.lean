/-
ObjectAudit/Defect.lean

What can be wrong with a value.  Every type whose values have requirements names the
first one that a value breaks (`Checked`); `checked` lets exactly the values pass that
break none.
-/
import ObjectAudit.Number.Quantity
import ObjectAudit.Text.Quoted

namespace ObjectAudit

open Text

/-- A broken requirement. -/
inductive Defect where
  /-- Something that must be there is not. -/
  | missing (what : String)
  /-- A text is empty. -/
  | empty (what : String)
  /-- A number is below the least one allowed. -/
  | belowLeast (what : String) (least : Int) (got : Quantity)
  /-- A number is not above zero. -/
  | notPositive (what : String) (got : Int)
  /-- A call site applies no name at all. -/
  | noNames
  /-- A call site applies an empty name. -/
  | emptyName (names : List String)
  /-- A call on the object itself starts at something else. -/
  | selfRoot (root : String)
  /-- A resolved association carries a note. -/
  | noteOnResolved
  /-- A cluster has no methods. -/
  | noMembers
  /-- The category of a cluster is none of its members'. -/
  | foreignCategory (category : String) (known : List String)
  /-- A cluster with categorized members has no category. -/
  | noDominant
  /-- A call that is no query has a query target. -/
  | targetWithoutQuery
  /-- The classes counted in a transaction are not a sorted set. -/
  | unsortedClasses
  /-- A template lies in another layer than the view. -/
  | templateLayer (layer : String)
  /-- More associations are unresolved than there are. -/
  | excessUnresolved
  /-- Violations are out of order. -/
  | unorderedViolations
  /-- The node for everything outside is not a node. -/
  | noExternalNode (node : String)
  /-- An association starts at no node. -/
  | unknownSource (source : String)
  /-- A resolved association ends at no node. -/
  | unknownTarget (target : String)
  /-- Under a node stands an association that is not declared there. -/
  | foreignEdge (node edge : String)
  /-- Under an accessor stands an association that it does not name. -/
  | inconsistentAccessor (source accessor : String)
deriving DecidableEq, Repr

def Defect.selfRootMessage (shownRoot : String) : String :=
  s!"SELF origin requires root 'self', got {shownRoot}"

def Defect.emptyNameMessage (shownNames : List String) : String :=
  s!"chain contains an empty name: {roundList shownNames}"

/-- What a broken requirement says. -/
def Defect.message : Defect → String
  | missing what => s!"{what} must not be None"
  | empty what => s!"{what} must not be empty"
  | belowLeast what least got => s!"{what} must be >= {least}, got {got.text}"
  | notPositive what got => s!"{what} must be > 0, got {got}"
  | noNames => "chain must contain at least one name"
  | emptyName names => emptyNameMessage (names.map quoted)
  | selfRoot root => selfRootMessage (quoted root)
  | noteOnResolved => "note is reserved for unresolved edges"
  | noMembers => "cluster must contain at least one method"
  | foreignCategory category known => s!"category {quoted category} not among {quotedList known}"
  | noDominant => "categorized members require a dominant category"
  | targetWithoutQuery => "query_target requires at least one query operation"
  | unsortedClasses => "counted_classes must be sorted and unique"
  | templateLayer layer => s!"templates are VIEW code, got {layer}"
  | excessUnresolved => "unresolved_edges cannot exceed association_edges"
  | unorderedViolations => "violations must be in deterministic output order"
  | noExternalNode node => s!"nodes must contain {quoted node}"
  | unknownSource source => s!"edge source {quoted source} not in nodes"
  | unknownTarget target => s!"resolved edge target {quoted target} not in nodes"
  | foreignEdge node edge => s!"outgoing[{quoted node}] contains foreign edge {edge}"
  | inconsistentAccessor source accessor =>
    s!"by_accessor[{quoted source}, {quoted accessor}] inconsistent"

/-- A type whose values have requirements, in a fixed order. -/
class Checked (α : Type) where
  /-- The first requirement that a value breaks. -/
  defect? : α → Option Defect

def firstDefect (requirements : List (Bool × Defect)) : Option Defect :=
  (requirements.find? Prod.fst).map Prod.snd

/-- The requirement that a number be at least so large, broken or not. -/
def atLeast (what : String) (least got : Int) : Bool × Defect :=
  (got < least, .belowLeast what least (.whole got))

def nonempty (what text : String) : Bool × Defect := (text == "", .empty what)

/-- Let a value pass that breaks no requirement. -/
def checked {α : Type} [Checked α] (value : α) : Except Defect α :=
  match Checked.defect? value with
  | none => .ok value
  | some defect => .error defect

/-- Does a value break no requirement? -/
def WellFormed {α : Type} [Checked α] (value : α) : Prop := Checked.defect? value = none

/-- A value passes exactly if it breaks no requirement, and passes unchanged. -/
theorem checked_eq_ok_iff {α : Type} [Checked α] {value value' : α} :
    checked value = .ok value' ↔ WellFormed value ∧ value' = value := by
  unfold checked WellFormed
  split <;> rename_i h
  · simp [h, eq_comm]
  · simp [h]

end ObjectAudit
