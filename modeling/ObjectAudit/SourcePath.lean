/-
ObjectAudit/SourcePath.lean

Paths of source files.  A path is an anchor and its segments: empty segments and those
that are a single point are dropped, two points are kept.  Exactly two slashes at the
front are an anchor of their own; three or more are one.
-/

namespace ObjectAudit

/-- Where a path starts. -/
inductive Anchor where
  | relative
  | root
  | doubleRoot
deriving DecidableEq, Repr

def Anchor.text : Anchor → String
  | relative => ""
  | root => "/"
  | doubleRoot => "//"

/-- May a text be a segment of a path?  It is not empty, not a single point, and has no
slash. -/
def isSegment (s : String) : Bool := s != "" && s != "." && !s.toList.contains '/'

/-- A path: its anchor and its segments. -/
structure SourcePath where
  anchor : Anchor
  segments : List String
  valid : ∀ segment ∈ segments, isSegment segment
deriving DecidableEq, Repr

namespace SourcePath

def anchorOf : List Char → Anchor
  | '/' :: '/' :: '/' :: _ => .root
  | '/' :: '/' :: _ => .doubleRoot
  | '/' :: _ => .root
  | _ => .relative

/-- Read a path: what stands between its slashes, as far as that is a segment. -/
def ofText (s : String) : SourcePath :=
  { anchor := anchorOf s.toList
    segments := ((s.toList.splitOn '/').map String.ofList).filter isSegment
    valid := fun _ h => (List.mem_filter.1 h).2 }

/-- The text of a path; the path without anchor and segments is a point. -/
def text (path : SourcePath) : String :=
  match path.anchor, path.segments with
  | .relative, [] => "."
  | anchor, segments => anchor.text ++ "/".intercalate segments

/-- The parts by which paths compare: the anchor, if there is one, and the segments. -/
def parts (path : SourcePath) : List String :=
  match path.anchor with
  | .relative => path.segments
  | anchor => anchor.text :: path.segments

end SourcePath

end ObjectAudit
