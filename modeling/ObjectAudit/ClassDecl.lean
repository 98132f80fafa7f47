/-
ObjectAudit/ClassDecl.lean

Classes and templates, the units of an audit.  Requirements that several parts of a class
have to meet together are not made here: one malformed class must not spoil the others.
-/
import ObjectAudit.Association
import ObjectAudit.Location
import ObjectAudit.Method

namespace ObjectAudit

/-- The layer that code belongs to. -/
inductive Layer where
  | model
  | controller
  | view
  | other
deriving DecidableEq, Repr

namespace Layer

def all : List Layer := [model, controller, view, other]

def name : Layer → String
  | model => "model"
  | controller => "controller"
  | view => "view"
  | other => "other"

def capitalName : Layer → String
  | model => "MODEL"
  | controller => "CONTROLLER"
  | view => "VIEW"
  | other => "OTHER"

end Layer

/-- A class with its associations and methods. -/
structure ClassDecl where
  qualifiedName : String
  associations : List Association
  methods : List Method
  layer : Layer
  location : Location
  includedModules : List String := []
deriving DecidableEq, Repr

/-- What stands behind the last occurrence of a separator, if there is one. -/
def afterLast? (separator text : List Char) : Option (List Char) :=
  match text with
  | [] => none
  | c :: rest =>
    match afterLast? separator rest with
    | some found => some found
    | none => if separator.isPrefixOf (c :: rest) then some ((c :: rest).drop separator.length)
      else none

namespace ClassDecl

instance : Checked ClassDecl where
  defect? decl := firstDefect [nonempty "qualified_name" decl.qualifiedName]

/-- The last segment of the qualified name, behind a double colon or else a point. -/
def shortName (decl : ClassDecl) : String :=
  let name := decl.qualifiedName.toList
  match (afterLast? [':', ':'] name).or (afterLast? ['.'] name) with
  | some short => String.ofList short
  | none => decl.qualifiedName

def methodNames (decl : ClassDecl) : List String := decl.methods.map Method.name

/-- The first method of a name. -/
def method? (decl : ClassDecl) (name : String) : Option Method :=
  decl.methods.find? fun method => method.name == name

def association? (decl : ClassDecl) (accessor : String) : Option Association :=
  decl.associations.find? fun edge => edge.accessor == accessor

end ClassDecl

/-- View code outside any class. -/
structure Template where
  name : String
  location : Location
  callSites : List CallSite := []
deriving DecidableEq, Repr

instance : Checked Template where
  defect? template := firstDefect [nonempty "template name" template.name]

end ObjectAudit
