/-
ObjectAudit/Cluster.lean

The responsibilities of a class.  Two methods belong together if they reach a common class
other than their own, if they have the same category, or if a third method calls both.
A cluster is a set of methods connected in this way; its category is the most frequent one
of its members, of equally frequent ones the first in the taxonomy.
-/
import ObjectAudit.DisjointSet
import ObjectAudit.Receiver
import ObjectAudit.Taxonomy

namespace ObjectAudit

/-- Methods of a class that belong together. -/
structure Cluster where
  subject : String
  /-- The methods, in order of declaration. -/
  methods : List String
  category : Option String
  /-- The categories of the methods, as a set. -/
  categories : List String := []
deriving DecidableEq, Repr

namespace Cluster

instance : Checked Cluster where
  defect? cluster := firstDefect
    [(cluster.methods.isEmpty, .noMembers),
     (cluster.category.any fun category => !cluster.categories.contains category,
       .foreignCategory (cluster.category.getD "") cluster.categories),
     (cluster.category.isNone && !cluster.categories.isEmpty, .noDominant)]

/-- The clusters that count as responsibilities: those with a category that have several
methods or are the only one of their category. -/
def nonTrivial (clusters : List Cluster) : List Cluster :=
  clusters.filter fun cluster =>
    cluster.category.isSome &&
      (2 ≤ cluster.methods.length ||
        clusters.countP (fun other => other.category == cluster.category) ≤ 1)

end Cluster

/-- What clustering needs to know: the graph, the taxonomy, and the category of all
callbacks, if they have one. -/
structure Clustering where
  graph : Graph
  taxonomy : Taxonomy
  callbackCategory : Option String := none

namespace Clustering

variable (clustering : Clustering)

/-- The category of a method: that of callbacks if it is one, else by its name. -/
def categoryOf (method : Method) : Option String :=
  match method.isCallback, clustering.callbackCategory with
  | true, some category => some category
  | _, _ => clustering.taxonomy.categoryOf method.name

/-- The classes that a call site reaches. -/
def siteTargets (owner : String) (site : CallSite) : List String :=
  -- what the receiver is, apart from what the site says of its target
  let root := match site.origin with
    | .self => (site.chain.head?.bind fun accessor =>
        (clustering.graph.edge? owner accessor).map Association.target).toList
    | .parameter => site.rootClass.toList
    | .external => (site.receiverClass none).toList
  site.targetClass.toList ++ root

/-- The classes other than its own that a method reaches, as a set. -/
def methodTargets (owner : String) (method : Method) : List String :=
  Text.textSet ((method.callSites.flatMap (clustering.siteTargets owner)).filter (· != owner))

/-- The methods among some that a method calls, other than itself. -/
def invoked (siblings : List String) (method : Method) : List String :=
  -- a chain on the object itself may start with one of its methods
  let own := method.callSites.filterMap fun site =>
    if site.origin = .self then site.chain.head? else none
  ((method.invokedMethods ++ own).filter siblings.contains).eraseDups.filter (· != method.name)

def sharing (pairs : List (String × String)) : List (List String) := (Table.group pairs).values

/-- Groups of methods that belong together at once: by a common target, by category, by a
common caller. -/
def linkedGroups (owner : String) (methods : List Method) : List (List String) :=
  let names := methods.map Method.name
  sharing (methods.flatMap fun method =>
      (clustering.methodTargets owner method).map fun target => (target, method.name)) ++
    sharing (methods.filterMap fun method =>
      (clustering.categoryOf method).map fun category => (category, method.name)) ++
    methods.map (invoked names)

/-- Which of two categories leads a cluster: the more frequent one, then the earlier one of
the taxonomy, then the smaller text.  A category outside the taxonomy comes last. -/
def leads (found : List String) : String → String → Ordering :=
  compareLex (fun a b => compare (found.count b) (found.count a))
    (compareLex (compareOn fun category => clustering.taxonomy.names.idxOf category)
      (compareOn id))

/-- The leading category of a cluster whose members have these. -/
def dominant? (found : List String) : Option String :=
  (found.eraseDups.mergeSort fun a b => (clustering.leads found a b).isLE).head?

/-- The cluster of some members. -/
def clusterOf (subject : String) (methods : List Method) (members : List String) : Cluster :=
  let found := members.filterMap fun name =>
    (methods.find? fun method => method.name == name).bind clustering.categoryOf
  { subject, methods := members, category := clustering.dominant? found
    categories := Text.textSet found }

/-- The methods of a class, the first of each name. -/
def firstMethods (decl : ClassDecl) : List Method :=
  decl.methods.eraseDupsBy fun a b => a.name == b.name

/-- The clusters of a class, in order of their first methods. -/
def clusters (decl : ClassDecl) : List Cluster :=
  let methods := firstMethods decl
  let names := methods.map Method.name
  let sets := (clustering.linkedGroups decl.qualifiedName methods).foldl DisjointSet.unionAll
    (DisjointSet.ofItems names)
  (sets.components names).map (clustering.clusterOf decl.qualifiedName methods)

end Clustering

end ObjectAudit
