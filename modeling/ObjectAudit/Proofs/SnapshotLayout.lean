/-
ObjectAudit/Proofs/SnapshotLayout.lean

The layout of a snapshot, and reading what is laid out so.

For each type of part, `WrittenAs` says under which key each of its fields stands and in what
form: origins, kinds and layers by name, files by the text of their path, and null for what is
absent.  The order of the fields and other fields beside them do not matter.  `written` lists
the fields in one order.

Each reader has one lemma: from a value that a part is written as, it reads that part, if the
part meets its requirements.  Readers of parts are put together from readers of fields in the
same way (`Place.text_eq` and those after it).

Main result: a model whose entries meet their requirements is read back from every value that
it is written as, with nothing rejected (`read_eq_of_writtenAs`).
-/
import Mathlib.Data.List.Forall2
import ObjectAudit.Proofs.Requirements
import ObjectAudit.Proofs.ViolationOrder
import ObjectAudit.Snapshot.Reader

namespace ObjectAudit

/-! ### The layout -/

/-- A list of parts stands under a key, each in its own form. -/
def Json.Lists {α : Type} (value : Json) (key : String) (form : α → Json → Prop)
    (parts : List α) : Prop :=
  ∃ items, value.field? key = some (.arr items) ∧ List.Forall₂ form parts items

structure CallSite.WrittenAs (site : CallSite) (value : Json) : Prop where
  origin : value.field? "origin" = some (.str site.origin.name)
  root : value.field? "root" = some (.str site.root)
  chain : value.field? "chain" = some (.ofTexts site.chain)
  line : value.field? "line" = some (.int site.line)
  rootClass : value.field? "root_class" = some (.ofOption site.rootClass)
  targetClass : value.field? "target_class" = some (.ofOption site.targetClass)

structure Association.WrittenAs (edge : Association) (value : Json) : Prop where
  source : value.field? "source" = some (.str edge.source)
  target : value.field? "target" = some (.str edge.target)
  kind : value.field? "kind" = some (.str edge.kind.name)
  accessor : value.field? "accessor" = some (.str edge.accessor)

structure Delegation.WrittenAs (delegation : Delegation) (value : Json) : Prop where
  association : value.field? "association" = some (.str delegation.association)
  member : value.field? "member" = some (.str delegation.member)

/-- Where a method forwards to, or null. -/
def Delegation.OptionWrittenAs : Option Delegation → Json → Prop
  | none, value => value = .null
  | some delegation, value => delegation.WrittenAs value

structure Method.WrittenAs (method : Method) (value : Json) : Prop where
  name : value.field? "name" = some (.str method.name)
  owner : value.field? "owner" = some (.ofOption method.owner)
  callSites : value.Lists "call_sites" CallSite.WrittenAs method.callSites
  line : value.field? "line" = some (.int method.line)
  isClassLevel : value.field? "class_level" = some (.bool method.isClassLevel)
  isCallback : value.field? "callback" = some (.bool method.isCallback)
  wrapsTransaction : value.field? "transaction" = some (.bool method.wrapsTransaction)
  delegatesTo : ∃ found, value.field? "delegates_to" = some found ∧
    Delegation.OptionWrittenAs method.delegatesTo found
  includedFrom : value.field? "included_from" = some (.ofOption method.includedFrom)
  invokedMethods : value.field? "invokes" = some (.ofTexts method.invokedMethods)

/-- The place of an entry stands among the fields of the entry. -/
structure Location.WrittenAs (location : Location) (value : Json) : Prop where
  file : value.field? "file" = some (.str location.file.text)
  line : value.field? "line" = some (.int location.line)
  column : value.field? "column" = some (.int location.column)

structure ClassDecl.WrittenAs (decl : ClassDecl) (value : Json) : Prop where
  name : value.field? "name" = some (.str decl.qualifiedName)
  associations : value.Lists "associations" Association.WrittenAs decl.associations
  methods : value.Lists "methods" Method.WrittenAs decl.methods
  layer : value.field? "layer" = some (.str decl.layer.name)
  location : decl.location.WrittenAs value
  includedModules : value.field? "included_modules" = some (.ofTexts decl.includedModules)

structure Template.WrittenAs (template : Template) (value : Json) : Prop where
  name : value.field? "name" = some (.str template.name)
  location : template.location.WrittenAs value
  callSites : value.Lists "call_sites" CallSite.WrittenAs template.callSites

/-- A model is written as its classes and its templates. -/
structure Model.WrittenAs (model : Model) (value : Json) : Prop where
  classes : value.Lists "classes" ClassDecl.WrittenAs model.classes
  templates : value.Lists "templates" Template.WrittenAs model.templates

/-! ### Writing -/

def CallSite.written (site : CallSite) : Json := .obj
  [("origin", .str site.origin.name), ("root", .str site.root), ("chain", .ofTexts site.chain),
   ("line", .int site.line), ("root_class", .ofOption site.rootClass),
   ("target_class", .ofOption site.targetClass)]

def Association.written (edge : Association) : Json := .obj
  [("accessor", .str edge.accessor), ("source", .str edge.source), ("target", .str edge.target),
   ("kind", .str edge.kind.name)]

def Delegation.written (delegation : Delegation) : Json := .obj
  [("association", .str delegation.association), ("member", .str delegation.member)]

def Method.written (method : Method) : Json := .obj
  [("name", .str method.name), ("owner", .ofOption method.owner), ("line", .int method.line),
   ("class_level", .bool method.isClassLevel), ("callback", .bool method.isCallback),
   ("transaction", .bool method.wrapsTransaction),
   ("delegates_to", method.delegatesTo.elim .null Delegation.written),
   ("included_from", .ofOption method.includedFrom), ("invokes", .ofTexts method.invokedMethods),
   ("call_sites", .arr (method.callSites.map CallSite.written))]

def ClassDecl.written (decl : ClassDecl) : Json := .obj
  [("name", .str decl.qualifiedName), ("layer", .str decl.layer.name),
   ("file", .str decl.location.file.text), ("line", .int decl.location.line),
   ("column", .int decl.location.column), ("included_modules", .ofTexts decl.includedModules),
   ("associations", .arr (decl.associations.map Association.written)),
   ("methods", .arr (decl.methods.map Method.written))]

def Template.written (template : Template) : Json := .obj
  [("name", .str template.name), ("file", .str template.location.file.text),
   ("line", .int template.location.line), ("column", .int template.location.column),
   ("call_sites", .arr (template.callSites.map CallSite.written))]

/-- The snapshot of a model. -/
def Model.written (model : Model) : Json := .obj
  [("classes", .arr (model.classes.map ClassDecl.written)),
   ("templates", .arr (model.templates.map Template.written))]

theorem Json.lists_map {α : Type} {value : Json} {key : String} {form : α → Json → Prop}
    {write : α → Json} {parts : List α} (hform : ∀ part, form part (write part))
    (h : value.field? key = some (.arr (parts.map write))) : value.Lists key form parts := by
  refine ⟨_, h, ?_⟩
  rw [List.forall₂_map_right_iff, List.forall₂_same]
  exact fun part _ => hform part

theorem CallSite.writtenAs_written (site : CallSite) : site.WrittenAs site.written :=
  ⟨rfl, rfl, rfl, rfl, rfl, rfl⟩

theorem Association.writtenAs_written (edge : Association) : edge.WrittenAs edge.written :=
  ⟨rfl, rfl, rfl, rfl⟩

theorem Method.writtenAs_written (method : Method) : method.WrittenAs method.written where
  name := rfl
  owner := rfl
  callSites := Json.lists_map CallSite.writtenAs_written rfl
  line := rfl
  isClassLevel := rfl
  isCallback := rfl
  wrapsTransaction := rfl
  delegatesTo := by
    refine ⟨_, rfl, ?_⟩
    cases method.delegatesTo with
    | none => rfl
    | some delegation => exact ⟨rfl, rfl⟩
  includedFrom := rfl
  invokedMethods := rfl

theorem ClassDecl.writtenAs_written (decl : ClassDecl) : decl.WrittenAs decl.written where
  name := rfl
  associations := Json.lists_map Association.writtenAs_written rfl
  methods := Json.lists_map Method.writtenAs_written rfl
  layer := rfl
  location := ⟨rfl, rfl, rfl⟩
  includedModules := rfl

theorem Template.writtenAs_written (template : Template) :
    template.WrittenAs template.written where
  name := rfl
  location := ⟨rfl, rfl, rfl⟩
  callSites := Json.lists_map CallSite.writtenAs_written rfl

theorem Model.writtenAs_written (model : Model) : model.WrittenAs model.written where
  classes := Json.lists_map ClassDecl.writtenAs_written rfl
  templates := Json.lists_map Template.writtenAs_written rfl

namespace Snapshot

/-! ### Reading fields -/

theorem ok_bind {α β : Type} (a : α) (f : α → Reading β) : (.ok a : Reading α) >>= f = f a := rfl

theorem build_eq {α : Type} [Checked α] (path : Path) {value : α} (h : WellFormed value) :
    build path value = .ok value := by
  rw [build, checked_eq_ok_iff.2 ⟨h, rfl⟩]

/-- What has a field is an object. -/
theorem exists_fields {value found : Json} {key : String} (h : value.field? key = some found) :
    ∃ fields, value = .obj fields := by
  cases value with
  | obj fields => exact ⟨fields, rfl⟩
  | _ => cases h

/-- A part is read from a value, wherever it stands. -/
def Reads {α : Type} (read : Path → Json → Reading α) (part : α) (value : Json) : Prop :=
  ∀ path, read path value = .ok part

theorem forall₂_reads {α : Type} {form : α → Json → Prop} {read : Path → Json → Reading α}
    {parts : List α} {items : List Json} (h : List.Forall₂ form parts items)
    (hread : ∀ part ∈ parts, ∀ item, form part item → Reads read part item) :
    List.Forall₂ (Reads read) parts items := by
  have hboth := (List.forall₂_and_left _ _).2 ⟨hread, h⟩
  exact hboth.imp fun _ item ⟨hpart, hform⟩ => hpart item hform

theorem readItems_eq {α : Type} {read : Path → Json → Reading α} {parts : List α}
    {items : List Json} (h : List.Forall₂ (Reads read) parts items) (path : Path)
    (position : Nat) : readItems path read position items = .ok parts := by
  induction h generalizing position with
  | nil => rfl
  | cons hpart _ ih => rw [readItems, hpart, ok_bind, ih, ok_bind]; rfl

namespace Place

variable {place : Place} {key : String}

theorem required_eq {value : Json} (h : place.field? key = some value) :
    place.required key = .ok value := by
  rw [required, h]

theorem asText_str (place : Place) (key s : String) : place.asText key (.str s) = .ok s := rfl

theorem text_eq {s : String} (h : place.field? key = some (.str s)) : place.text key = .ok s := by
  rw [text, required_eq h, ok_bind, asText_str]
  rfl

theorem textOr_eq {s own : String} (h : place.field? key = some (.str s)) :
    place.textOr key own = .ok s := by
  simp only [textOr, h, asText_str]
  rfl

theorem optionalText_eq {text own : Option String}
    (h : place.field? key = some (.ofOption text)) : place.optionalText key own = .ok text := by
  cases text <;> rw [optionalText, h] <;> rfl

theorem integer_eq {n : Int} (h : place.field? key = some (.int n)) :
    place.integer key = .ok n := by
  rw [integer, required_eq h, ok_bind]
  rfl

theorem integerOr_eq {n own : Int} (h : place.field? key = some (.int n)) :
    place.integerOr key own = .ok n := by
  rw [integerOr, h]
  rfl

theorem flag_eq {b : Bool} (h : place.field? key = some (.bool b)) : place.flag key = .ok b := by
  rw [flag, h]

theorem listOf_eq {α : Type} {read : Path → Json → Reading α} {parts : List α}
    {items : List Json} (h : place.field? key = some (.arr items))
    (hitems : List.Forall₂ (Reads read) parts items) : place.listOf key read = .ok parts := by
  rw [listOf, list, h]
  exact readItems_eq hitems _ 0

/-- A list is read if each part of it is read from what it is written as. -/
theorem listOf_eq_of_lists {α : Type} {form : α → Json → Prop} {read : Path → Json → Reading α}
    {path : Path} {fields : List (Text × Json)} {parts : List α}
    (h : (Json.obj fields).Lists key form parts)
    (hread : ∀ part ∈ parts, ∀ item, form part item → Reads read part item) :
    listOf ⟨path, fields⟩ key read = .ok parts := by
  obtain ⟨items, hitems, hform⟩ := h
  exact listOf_eq hitems (forall₂_reads hform hread)

theorem texts_eq {ss : List String} (h : place.field? key = some (.ofTexts ss)) :
    place.texts key = .ok ss := by
  refine listOf_eq h ?_
  rw [List.forall₂_map_right_iff, List.forall₂_same]
  exact fun _ _ _ => rfl

theorem choice_eq {α : Type} {all : List α} {name : α → String} {a : α}
    (h : place.field? key = some (.str (name a)))
    (hfind : all.find? (fun b => Text.whole (name b) == name a) = some a) :
    place.choice key all name = .ok a := by
  simp only [choice, required_eq h, asText_str, ok_bind, hfind]
  rfl

end Place

/-! ### Reading parts -/

theorem readOrigin_eq {place : Place} {origin : Origin}
    (h : place.field? "origin" = some (.str origin.name)) : readOrigin place = .ok origin := by
  have hspells : originOf? origin.name = some origin := by
    cases origin <;> decide
  simp only [readOrigin, Place.required_eq h, Place.asText_str, ok_bind, hspells]
  rfl

theorem reads_callSite {site : CallSite} {value : Json} (hsite : WellFormed site)
    (h : site.WrittenAs value) : Reads readCallSite site value := by
  intro path
  obtain ⟨fields, rfl⟩ := exists_fields h.origin
  have horigin : readOrigin ⟨path, fields⟩ = .ok site.origin := readOrigin_eq h.origin
  have hroot : Place.textOr ⟨path, fields⟩ "root" "self" = .ok site.root := Place.textOr_eq h.root
  have hchain : Place.texts ⟨path, fields⟩ "chain" = .ok site.chain := Place.texts_eq h.chain
  have hline : Place.integer ⟨path, fields⟩ "line" = .ok site.line := Place.integer_eq h.line
  have hrootClass : Place.optionalText ⟨path, fields⟩ "root_class" none = .ok site.rootClass :=
    Place.optionalText_eq h.rootClass
  have htarget : Place.optionalText ⟨path, fields⟩ "target_class" none = .ok site.targetClass :=
    Place.optionalText_eq h.targetClass
  simp only [readCallSite, readObject, ok_bind, horigin, hroot, hchain, hline, hrootClass, htarget,
    checked_eq_ok_iff.2 ⟨hsite, rfl⟩]
  rfl

theorem readLocation_eq {location : Location} (hlocation : WellFormed location) {path : Path}
    {fields : List (Text × Json)} (h : location.WrittenAs (.obj fields)) :
    readLocation ⟨path, fields⟩ = .ok location := by
  have hfile : Place.text ⟨path, fields⟩ "file" = .ok location.file.text := Place.text_eq h.file
  have hline : Place.integerOr ⟨path, fields⟩ "line" 1 = .ok location.line :=
    Place.integerOr_eq h.line
  have hcolumn : Place.integerOr ⟨path, fields⟩ "column" 0 = .ok location.column :=
    Place.integerOr_eq h.column
  simp only [readLocation, hfile, hline, hcolumn, ok_bind, SourcePath.ofText_text]
  exact build_eq path hlocation

/-- A resolved association has no note, so what is written says all about it. -/
theorem reads_association {edge : Association} {value : Json} (hedge : WellFormed edge)
    (hresolved : edge.resolved = true) (h : edge.WrittenAs value) (owner : String) :
    Reads (readAssociation owner) edge value := by
  intro path
  obtain ⟨fields, rfl⟩ := exists_fields h.source
  have hsource : Place.textOr ⟨path, fields⟩ "source" owner = .ok edge.source :=
    Place.textOr_eq h.source
  have htarget : Place.text ⟨path, fields⟩ "target" = .ok edge.target := Place.text_eq h.target
  have hkind : Place.choice ⟨path, fields⟩ "kind" AssociationKind.all AssociationKind.name =
      .ok edge.kind :=
    Place.choice_eq h.kind (by cases edge.kind <;> rfl)
  have haccessor : Place.text ⟨path, fields⟩ "accessor" = .ok edge.accessor :=
    Place.text_eq h.accessor
  -- a snapshot gives no notes, and a resolved association has none
  have hnote := (Association.wellFormed_iff.1 hedge).2.2.2 hresolved
  have hread : { source := edge.source, target := edge.target, kind := edge.kind
                 accessor := edge.accessor : Association } = edge := by
    cases edge
    simp_all
  simp only [readAssociation, readObject, ok_bind, hsource, htarget, hkind, haccessor, hread]
  exact build_eq path hedge

theorem reads_delegation {delegation : Delegation} {value : Json}
    (hdelegation : WellFormed delegation) (h : delegation.WrittenAs value) :
    Reads readDelegation delegation value := by
  intro path
  obtain ⟨fields, rfl⟩ := exists_fields h.member
  have hassociation : Place.text ⟨path, fields⟩ "association" = .ok delegation.association :=
    Place.text_eq h.association
  have hmember : Place.text ⟨path, fields⟩ "member" = .ok delegation.member :=
    Place.text_eq h.member
  simp only [readDelegation, readObject, ok_bind, hassociation, hmember]
  exact build_eq path hdelegation

theorem readForwarding_eq {place : Place} {forwarding : Option Delegation} {found : Json}
    (hwf : ∀ delegation, forwarding = some delegation → WellFormed delegation)
    (hfound : place.field? "delegates_to" = some found)
    (h : Delegation.OptionWrittenAs forwarding found) :
    readForwarding place = .ok forwarding := by
  cases forwarding with
  | none =>
    obtain rfl : found = .null := h
    rw [readForwarding, hfound]
  | some delegation =>
    have hwritten : delegation.WrittenAs found := h
    have hread := reads_delegation (hwf delegation rfl) hwritten (place.pathTo "delegates_to")
    -- a delegation is written as an object, so it is not taken for null
    obtain ⟨fields, rfl⟩ := exists_fields hwritten.member
    rw [readForwarding, hfound]
    show (readDelegation _ _).map some = _
    rw [hread]
    rfl

theorem reads_method {method : Method} {value : Json} (hmethod : method.Admissible)
    (h : method.WrittenAs value) (owner : String) :
    Reads (readMethod owner) method value := by
  intro path
  obtain ⟨fields, rfl⟩ := exists_fields h.name
  obtain ⟨found, hfound, hforwarding⟩ := h.delegatesTo
  have hdelegatesTo : readForwarding ⟨path, fields⟩ = .ok method.delegatesTo :=
    readForwarding_eq hmethod.delegation hfound hforwarding
  have hname : Place.text ⟨path, fields⟩ "name" = .ok method.name := Place.text_eq h.name
  have howner : Place.optionalText ⟨path, fields⟩ "owner" (some owner) = .ok method.owner :=
    Place.optionalText_eq h.owner
  have hcallSites : Place.listOf ⟨path, fields⟩ "call_sites" readCallSite =
      .ok method.callSites := by
    refine Place.listOf_eq_of_lists h.callSites ?_
    intro site hsite _ hwritten
    exact reads_callSite (hmethod.callSites site hsite) hwritten
  have hline : Place.integerOr ⟨path, fields⟩ "line" 1 = .ok method.line :=
    Place.integerOr_eq h.line
  have hclassLevel : Place.flag ⟨path, fields⟩ "class_level" = .ok method.isClassLevel :=
    Place.flag_eq h.isClassLevel
  have hcallback : Place.flag ⟨path, fields⟩ "callback" = .ok method.isCallback :=
    Place.flag_eq h.isCallback
  have htransaction : Place.flag ⟨path, fields⟩ "transaction" = .ok method.wrapsTransaction :=
    Place.flag_eq h.wrapsTransaction
  have hincludedFrom : Place.optionalText ⟨path, fields⟩ "included_from" none =
      .ok method.includedFrom :=
    Place.optionalText_eq h.includedFrom
  have hinvokes : Place.texts ⟨path, fields⟩ "invokes" = .ok method.invokedMethods :=
    Place.texts_eq h.invokedMethods
  simp only [readMethod, readObject, ok_bind, hdelegatesTo, hname, howner, hcallSites, hline,
    hclassLevel, hcallback, htransaction, hincludedFrom, hinvokes]
  exact build_eq path hmethod.self

/-! ### Reading entries -/

theorem reads_class {decl : ClassDecl} {value : Json} (hdecl : decl.Admissible)
    (hresolved : ∀ edge ∈ decl.associations, edge.resolved = true) (h : decl.WrittenAs value) :
    Reads readClass decl value := by
  intro path
  obtain ⟨fields, rfl⟩ := exists_fields h.name
  have hname : Place.text ⟨path, fields⟩ "name" = .ok decl.qualifiedName := Place.text_eq h.name
  have hassociations : Place.listOf ⟨path, fields⟩ "associations"
      (readAssociation decl.qualifiedName) = .ok decl.associations := by
    refine Place.listOf_eq_of_lists h.associations ?_
    intro edge hedge _ hwritten
    exact reads_association (hdecl.associations edge hedge) (hresolved edge hedge) hwritten _
  have hmethods : Place.listOf ⟨path, fields⟩ "methods" (readMethod decl.qualifiedName) =
      .ok decl.methods := by
    refine Place.listOf_eq_of_lists h.methods ?_
    intro method hmethod _ hwritten
    exact reads_method (hdecl.methods method hmethod) hwritten _
  have hlayer : Place.choice ⟨path, fields⟩ "layer" Layer.all Layer.name = .ok decl.layer :=
    Place.choice_eq h.layer (by cases decl.layer <;> rfl)
  have hlocation : readLocation ⟨path, fields⟩ = .ok decl.location :=
    readLocation_eq hdecl.location h.location
  have hmodules : Place.texts ⟨path, fields⟩ "included_modules" = .ok decl.includedModules :=
    Place.texts_eq h.includedModules
  simp only [readClass, readObject, ok_bind, hname, hassociations, hmethods, hlayer, hlocation,
    hmodules]
  exact build_eq path hdecl.self

theorem reads_template {template : Template} {value : Json} (htemplate : template.Admissible)
    (h : template.WrittenAs value) : Reads readTemplate template value := by
  intro path
  obtain ⟨fields, rfl⟩ := exists_fields h.name
  have hname : Place.text ⟨path, fields⟩ "name" = .ok template.name := Place.text_eq h.name
  have hlocation : readLocation ⟨path, fields⟩ = .ok template.location :=
    readLocation_eq htemplate.location h.location
  have hcallSites : Place.listOf ⟨path, fields⟩ "call_sites" readCallSite =
      .ok template.callSites := by
    refine Place.listOf_eq_of_lists h.callSites ?_
    intro site hsite _ hwritten
    exact reads_callSite (htemplate.callSites site hsite) hwritten
  simp only [readTemplate, readObject, ok_bind, hname, hlocation, hcallSites]
  exact build_eq path htemplate.self

/-- Entries that can all be read are accepted, in order. -/
theorem readEntries_eq {α : Type} {read : Path → Json → Reading α} {parts : List α}
    {items : List Json} (h : List.Forall₂ (Reads read) parts items) (key : String)
    (position : Nat) : readEntries key read position items = parts.map .ok := by
  induction h generalizing position with
  | nil => rfl
  | cons hpart _ ih =>
    simp only [readEntries, hpart _, ih, List.map_cons]

theorem accepted_map_ok {α : Type} (parts : List α) : accepted (parts.map .ok) = parts := by
  rw [accepted, List.filterMap_map]
  exact List.filterMap_some

theorem rejections_map_ok {α : Type} (parts : List α) : rejections (parts.map .ok) = [] := by
  rw [rejections, List.filterMap_map]
  exact List.filterMap_eq_nil_iff.2 fun _ _ => rfl

theorem entryList_eq {fields : List (Text × Json)} {key : String} {items : List Json}
    (h : (Json.obj fields).field? key = some (.arr items)) :
    entryList fields key = .ok items := by
  have hfield : Place.field? ⟨[.key "snapshot"], fields⟩ key = some (.arr items) := h
  rw [entryList, Place.list, hfield]

/-- Reading undoes writing.  A model without rejected entries whose parts meet their
requirements, and none of whose associations is marked as unresolved, can be written in the
layout, and from every value that it is written as it is read back, with nothing rejected. -/
theorem read_eq_of_writtenAs {model : Model} (hmodel : model.Admissible)
    (hrejected : model.rejected = [])
    (hresolved : ∀ decl ∈ model.classes, ∀ edge ∈ decl.associations, edge.resolved = true) :
    model.WrittenAs model.written ∧
    ∀ value, model.WrittenAs value →
      ∃ contents, read value = .ok contents ∧ contents.model = model ∧
        contents.rejected = [] := by
  refine ⟨model.writtenAs_written, ?_⟩
  intro value h
  obtain ⟨classItems, hclassItems, hclasses⟩ := h.classes
  obtain ⟨templateItems, htemplateItems, htemplates⟩ := h.templates
  obtain ⟨fields, rfl⟩ := exists_fields hclassItems
  have hreadClasses : List.Forall₂ (Reads readClass) model.classes classItems := by
    refine forall₂_reads hclasses ?_
    intro decl hdecl _ hwritten
    exact reads_class (hmodel.classes decl hdecl) (hresolved decl hdecl) hwritten
  have hreadTemplates : List.Forall₂ (Reads readTemplate) model.templates templateItems := by
    refine forall₂_reads htemplates ?_
    intro template htemplate _ hwritten
    exact reads_template (hmodel.templates template htemplate) hwritten
  -- every entry is read, so that nothing is rejected
  refine ⟨⟨model.classes.map .ok, model.templates.map .ok⟩, ?_, ?_, ?_⟩
  · rw [read, entryList_eq hclassItems, entryList_eq htemplateItems,
      ← readEntries_eq hreadClasses "classes" 0, ← readEntries_eq hreadTemplates "templates" 0]
    rfl
  · simp only [Contents.model, Contents.rejected, accepted_map_ok, rejections_map_ok,
      List.append_nil, List.map_nil, ← hrejected]
  · simp only [Contents.rejected, rejections_map_ok, List.append_nil]

/-- An invoice with a method that forwards, and one from a module that has no owner and calls on
a parameter and on a class; and a template. -/
def invoicing : Model :=
  let street : CallSite :=
    { origin := .self, root := "self", chain := ["customer", "address", "street"], line := 13 }
  let total : CallSite :=
    { origin := .parameter, root := "order", chain := ["total"], line := 21
      rootClass := some "billing.Order", targetClass := some "Money" }
  let all : CallSite := { origin := .external, root := "Bank", chain := ["all"], line := 22 }
  { classes :=
      [{ qualifiedName := "billing.Invoice"
         associations :=
           [{ source := "billing.Invoice", target := "billing.Customer", kind := .belongsTo
              accessor := "customer" }]
         methods :=
           [{ name := "shipping_street", owner := some "billing.Invoice", callSites := [street]
              line := 12, delegatesTo := some ⟨"customer", "street"⟩ },
            { name := "export", owner := none, callSites := [total, all], line := 20
              isClassLevel := true, isCallback := true, wrapsTransaction := true
              includedFrom := some "Exportable", invokedMethods := ["shipping_street"] }]
         layer := .other
         location := ⟨.ofText "//app/../invoice.rb", 1, 4⟩
         includedModules := ["Exportable"] }]
    templates := [⟨"invoices/show", ⟨.ofText ".", 3, 0⟩, [total, all]⟩] }

theorem read_eq_of_writtenAs_invoicing :
    invoicing.Admissible ∧ invoicing.rejected = [] ∧
    ∃ contents, read (.obj
        [("templates", .arr (invoicing.templates.map Template.written)), ("version", .int 2),
         ("classes", .arr (invoicing.classes.map ClassDecl.written))]) = .ok contents ∧
      contents.model = invoicing ∧ contents.rejected = [] := by
  have hmodel : invoicing.Admissible := by decide
  refine ⟨hmodel, rfl, ?_⟩
  refine (read_eq_of_writtenAs hmodel rfl (by decide)).2 _ ⟨?_, ?_⟩
  · exact Json.lists_map ClassDecl.writtenAs_written rfl
  · exact Json.lists_map Template.writtenAs_written rfl

end Snapshot

end ObjectAudit
