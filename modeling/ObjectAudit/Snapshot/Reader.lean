/-
ObjectAudit/Snapshot/Reader.lean

Reading a snapshot, the description of a code base.  Only shape is checked here.  A class
or template that cannot be read is rejected on its own, under the best name and place that
can be made out for it; the others are read.
-/
import ObjectAudit.Model
import ObjectAudit.Snapshot.Field
import ObjectAudit.Text.UpperCase

namespace ObjectAudit.Snapshot

/-! ### Parts of entries -/

def originOf? (name : Text) : Option Origin :=
  Origin.all.find? fun origin => Text.spells name origin.capitalName

def readOrigin (place : Place) : Reading Origin := do
  let got ← place.required "origin"
  let name ← place.asText "origin" got
  match originOf? name with
  | some origin => return origin
  | none => throw ⟨place.pathTo "origin", .unknownOrigin got (Origin.all.map Origin.name)⟩

/-- The cause that a defect of a call site is, which quotes root and names as given. -/
def siteCause (place : Place) : Defect → ShapeCause
  | .selfRoot root => .selfRoot ((place.field? "root").getD (.str root))
  | .emptyName names =>
    match place.field? "chain" with
    | some (.arr items) => .emptyName items
    | _ => .emptyName (names.map (Json.str ∘ Text.whole))
  | defect => .broken defect

def readCallSite (path : Path) (value : Json) : Reading CallSite := do
  let place ← readObject path value
  let origin ← readOrigin place
  let root ← place.textOr "root" "self"
  let chain ← place.texts "chain"
  let line ← place.integer "line"
  let rootClass ← place.optionalText "root_class" none
  let targetClass ← place.optionalText "target_class" none
  -- the message shows the values as they are written
  match checked { origin, root, chain, line, rootClass, targetClass : CallSite } with
  | .ok site => return site
  | .error defect => throw ⟨path, siteCause place defect⟩

def readLocation (place : Place) : Reading Location := do
  let file ← place.text "file"
  let line ← place.integerOr "line" 1
  let column ← place.integerOr "column" 0
  build place.path { file := .ofText file, line, column : Location }

def readAssociation (owner : String) (path : Path) (value : Json) : Reading Association := do
  let place ← readObject path value
  let source ← place.textOr "source" owner
  let target ← place.text "target"
  let kind ← place.choice "kind" AssociationKind.all AssociationKind.name
  let accessor ← place.text "accessor"
  build path { source, target, kind, accessor : Association }

def readDelegation (path : Path) (value : Json) : Reading Delegation := do
  let place ← readObject path value
  let association ← place.text "association"
  let member ← place.text "member"
  build path { association, member : Delegation }

def readForwarding (place : Place) : Reading (Option Delegation) :=
  match place.field? "delegates_to" with
  | none | some .null => .ok none
  | some value => (readDelegation (place.pathTo "delegates_to") value).map some

def readMethod (owner : String) (path : Path) (value : Json) : Reading Method := do
  let place ← readObject path value
  -- before the name, so its faults are told first
  let delegatesTo ← readForwarding place
  let name ← place.text "name"
  let owner ← place.optionalText "owner" (some owner)
  let callSites ← place.listOf "call_sites" readCallSite
  let line ← place.integerOr "line" 1
  let isClassLevel ← place.flag "class_level"
  let isCallback ← place.flag "callback"
  let wrapsTransaction ← place.flag "transaction"
  let includedFrom ← place.optionalText "included_from" none
  let invokedMethods ← place.texts "invokes"
  build path
    { name, owner, callSites, line, isClassLevel, isCallback, wrapsTransaction, delegatesTo,
      includedFrom, invokedMethods : Method }

/-! ### Entries -/

def readClass (path : Path) (value : Json) : Reading ClassDecl := do
  let place ← readObject path value
  let qualifiedName ← place.text "name"
  let associations ← place.listOf "associations" (readAssociation qualifiedName)
  let methods ← place.listOf "methods" (readMethod qualifiedName)
  let layer ← place.choice "layer" Layer.all Layer.name
  let location ← readLocation place
  let includedModules ← place.texts "included_modules"
  build path { qualifiedName, associations, methods, layer, location, includedModules : ClassDecl }

def readTemplate (path : Path) (value : Json) : Reading Template := do
  let place ← readObject path value
  let name ← place.text "name"
  let location ← readLocation place
  let callSites ← place.listOf "call_sites" readCallSite
  build path { name, location, callSites : Template }

/-! ### Snapshots -/

/-- The file of an entry that names none. -/
def unknownFile : String := "<snapshot>"

/-- An entry that cannot be read: the way to it, why, and what is reported for it. -/
structure Rejection where
  path : Path
  fault : ShapeFault
  skipped : Skipped
deriving DecidableEq, Repr

/-- A text under a key that is there and not empty. -/
def presentText? (value : Json) (key : String) : Option String :=
  ((value.field? key).bind Json.word?).map Text.shown

def positive? (value : Json) (key : String) : Option Int :=
  match value.field? key with
  | some (.int n) => if 0 < n then some n else none
  | _ => none

/-- Reject an entry, under its own name and place as far as it has them. -/
def reject (path : Path) (value : Json) (fault : ShapeFault) : Rejection :=
  { path
    fault
    skipped :=
      -- the path stands in for a name that cannot be read
      { className := (presentText? value "name").getD (pathText path)
        reason := fault.message
        location :=
          { file := .ofText ((presentText? value "file").getD unknownFile)
            line := (positive? value "line").getD 1 } } }

/-- Read the entries of a list one by one, from a position on. -/
def readEntries {α : Type} (key : String) (read : Path → Json → Reading α) (position : Nat) :
    List Json → List (Except Rejection α)
  | [] => []
  | value :: rest =>
    let path := [.key key, .item position]
    let entry := match read path value with
      | .ok entry => .ok entry
      | .error fault => .error (reject path value fault)
    entry :: readEntries key read (position + 1) rest

def accepted {α : Type} (entries : List (Except Rejection α)) : List α :=
  entries.filterMap Except.toOption

def rejections {α : Type} (entries : List (Except Rejection α)) : List Rejection :=
  entries.filterMap fun
    | .error rejection => some rejection
    | .ok _ => none

/-- A snapshot as it was read. -/
structure Contents where
  classes : List (Except Rejection ClassDecl)
  templates : List (Except Rejection Template)

namespace Contents

/-- The rejected entries: classes, then templates. -/
def rejected (contents : Contents) : List Rejection :=
  rejections contents.classes ++ rejections contents.templates

def model (contents : Contents) : Model :=
  { classes := accepted contents.classes
    templates := accepted contents.templates
    rejected := contents.rejected.map Rejection.skipped }

end Contents

/-- Why there is no snapshot at all. -/
inductive Fault where
  /-- The value is no object. -/
  | notObject
  | shape (fault : ShapeFault)
deriving DecidableEq, Repr

namespace Fault

def subject : Fault → String
  | notObject => "snapshot"
  | shape fault => pathText fault.path

def reason : Fault → String
  | notObject => "expected an object"
  | shape fault => fault.cause.reason

end Fault

/-- The list of entries under a key of a snapshot. -/
def entryList (fields : List (Text × Json)) (key : String) : Except Fault (List Json) :=
  match Place.list ⟨[.key "snapshot"], fields⟩ key with
  | .ok items => .ok items
  | .error fault => .error (.shape fault)

/-- Read a snapshot. -/
def read : Json → Except Fault Contents
  | .obj fields => do
    let classes ← entryList fields "classes"
    let templates ← entryList fields "templates"
    return { classes := readEntries "classes" readClass 0 classes
             templates := readEntries "templates" readTemplate 0 templates }
  | _ => .error .notObject

end ObjectAudit.Snapshot
