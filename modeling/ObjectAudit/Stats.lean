/-
ObjectAudit/Stats.lean

What an audit counted.
-/
import ObjectAudit.Defect

namespace ObjectAudit

/-- What an audit counted. -/
structure Stats where
  classesAnalyzed : Int
  classesSkipped : Int
  templatesAnalyzed : Int
  methodsAnalyzed : Int
  callSitesAnalyzed : Int
  associationEdges : Int
  unresolvedEdges : Int
  rulesRun : Int
  /-- The time it took, in milliseconds. -/
  timeMs : Quantity
deriving DecidableEq, Repr

namespace Stats

/-- The counters under the names that reports give them. -/
def counters (stats : Stats) : List (String × Int) :=
  [("classes_analyzed", stats.classesAnalyzed),
   ("classes_skipped", stats.classesSkipped),
   ("templates_analyzed", stats.templatesAnalyzed),
   ("methods_analyzed", stats.methodsAnalyzed),
   ("call_sites_analyzed", stats.callSitesAnalyzed),
   ("association_edges", stats.associationEdges),
   ("unresolved_edges", stats.unresolvedEdges),
   ("rules_run", stats.rulesRun)]

instance : Checked Stats where
  defect? stats :=
    (firstDefect (stats.counters.map fun (name, count) => atLeast name 0 count)).or <|
      firstDefect
        [(stats.associationEdges < stats.unresolvedEdges, .excessUnresolved),
         (stats.timeMs.isNegative, .belowLeast "analysis_time_ms" 0 stats.timeMs)]

def empty : Stats := ⟨0, 0, 0, 0, 0, 0, 0, 0, .zero⟩

end Stats

end ObjectAudit
