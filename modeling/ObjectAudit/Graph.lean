/-
ObjectAudit/Graph.lean

The association graph.  Its nodes are the classes and one node for everything outside;
every association is an edge, those declared on both ends are two.  An unresolved edge
points at the outside node.  Of a class declared more than once only the first declaration
contributes, and of its associations only those that name it as their source.
-/
import ObjectAudit.Model
import ObjectAudit.Table

namespace ObjectAudit

open Text

/-- The node that stands for every class outside the audited code. -/
def externalNode : String := "<external>"

/-- The association graph. -/
structure Graph where
  /-- The nodes, as a set. -/
  nodes : List String
  /-- All edges, in order of declaration. -/
  edges : List Association
  /-- The edges declared on a class. -/
  outgoing : Table String (List Association)
  /-- The edges that point at a node. -/
  incoming : Table String (List Association)
  /-- The first edge that a class declares under an accessor. -/
  byAccessor : Table (String × String) Association
deriving DecidableEq, Repr

namespace Graph

/-! ### Requirements -/

/-- The requirements on the edges: both ends are nodes. -/
def edgeRequirements (graph : Graph) : List (Bool × Defect) :=
  graph.edges.flatMap fun edge =>
    [(!graph.nodes.contains edge.source, .unknownSource edge.source),
     (edge.resolved && !graph.nodes.contains edge.target, .unknownTarget edge.target)]

/-- The requirements on the edges listed under a class: they are declared there. -/
def outgoingRequirements (graph : Graph) : List (Bool × Defect) :=
  graph.outgoing.entries.flatMap fun (node, declared) => declared.map fun edge =>
    (!graph.edges.contains edge || edge.source != node, .foreignEdge node edge.text)

/-- The requirements on the edges listed under an accessor: it names them. -/
def accessorRequirements (graph : Graph) : List (Bool × Defect) :=
  graph.byAccessor.entries.map fun ((source, accessor), edge) =>
    (!graph.edges.contains edge || edge.source != source || edge.accessor != accessor,
      .inconsistentAccessor source accessor)

instance : Checked Graph where
  defect? graph := firstDefect <|
    (!graph.nodes.contains externalNode, .noExternalNode externalNode)
      :: graph.edgeRequirements ++ graph.outgoingRequirements ++ graph.accessorRequirements

/-! ### Look-ups -/

/-- The node that an edge points at. -/
def targetNode (edge : Association) : String :=
  if edge.resolved then edge.target else externalNode

/-- The edge that a class declares under an accessor. -/
def edge? (graph : Graph) (source accessor : String) : Option Association :=
  graph.byAccessor.get? (source, accessor)

def edgesFrom (graph : Graph) (source : String) : List Association :=
  (graph.outgoing.get? source).getD []

def edgesTo (graph : Graph) (node : String) : List Association :=
  (graph.incoming.get? node).getD []

def hasClass (graph : Graph) (name : String) : Bool :=
  name != externalNode && graph.nodes.contains name

def unresolved (graph : Graph) : List Association :=
  graph.edges.filter fun edge => !edge.resolved

/-! ### Construction -/

/-- The table of the edges that are given for accessors, the last one for each. -/
def accessorTable (entries : List ((String × String) × Association)) :
    Table (String × String) Association := .ofList entries

/-- The graph of some edges over some classes. -/
def ofEdges (edges : List Association) (classNames : List String) : Graph :=
  -- an edge may start at a class that is not declared
  { nodes := textSet (externalNode :: classNames ++ edges.map Association.source)
    edges
    outgoing := Table.group (edges.map fun edge => (edge.source, edge))
    incoming := Table.group (edges.map fun edge => (targetNode edge, edge))
    byAccessor := Table.ofListNew (edges.map fun edge => ((edge.source, edge.accessor), edge)) }

def empty : Graph := ofEdges [] []

def outsideNote (target : String) : String :=
  s!"target {quoted target} is not part of the analyzed model"

/-- Decide anew whether an edge is resolved: it is if its target is audited. -/
def resolve (classNames : List String) (edge : Association) : Association :=
  if classNames.contains edge.target then edge.asResolved
  else edge.asUnresolved (some (outsideNote edge.target))

def firstDeclarations (classes : List ClassDecl) : List ClassDecl :=
  classes.eraseDupsBy fun a b => a.qualifiedName == b.qualifiedName

/-- The associations that enter the graph of a model, as they are declared. -/
def declaredEdges (model : Model) : List Association :=
  (firstDeclarations model.classes).flatMap fun decl =>
    decl.associations.filter fun edge => edge.source == decl.qualifiedName

/-- The association graph of a model. -/
def ofModel (model : Model) : Graph :=
  ofEdges ((declaredEdges model).map (resolve model.classNames)) model.classNames

end Graph

end ObjectAudit
