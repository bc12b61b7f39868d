import RouteTemplates.Template.Basic

/-!
# Splitting literals at a separator

Where a text such as a slash only divides a route, its bytes should not make one
alternative more specific than another.  Splitting cuts each plain literal at
the separator's occurrences, found from left to right without overlap, and
leaves all other segments alone.
-/

namespace RouteTemplates

theorem Text.length_lt_of_cutAt? {mark t before after : Text} (hm : mark ≠ [])
    (h : cutAt? mark t = some (before, after)) : after.length < t.length := by
  have := List.length_pos_iff.mpr hm
  simp [append_of_cutAt? h]
  omega

namespace Template

def splitLiteral (separator : Text) (h : separator ≠ []) (text : Text) : List Segment :=
  match _ : Text.cutAt? separator text with
  | none => Segment.plainOf text
  | some (before, after) =>
    Segment.plainOf before ++ .literal .separator separator :: splitLiteral separator h after
termination_by text.length
decreasing_by exact Text.length_lt_of_cutAt? h ‹_›

def splitSegment (separator : Text) (h : separator ≠ []) : Segment → List Segment
  | .literal .plain text => splitLiteral separator h text
  | s => [s]

/-- An empty separator splits nothing. -/
def splitOn (t : Template) (separator : Text) : Template :=
  if h : separator ≠ [] then { t with segments := t.segments.flatMap (splitSegment separator h) }
  else t

end Template
end RouteTemplates
