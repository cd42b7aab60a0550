/-!
# Segments

A sequence cut at every occurrence of a separator. There is always one segment more than separators.
-/

namespace BusScript.Text

variable {α : Type} [BEq α]

/-- Puts an element in front of the first segment, or opens a segment in front of the first if the
element is the separator. -/
def consSegment (separator a : α) (segments : List (List α)) : List (List α) :=
  if a == separator then [] :: segments
  else
    match segments with
    | [] => [[a]]
    | segment :: later => (a :: segment) :: later

/-- The segments of a sequence. -/
def segments (separator : α) (l : List α) : List (List α) :=
  l.foldr (consSegment separator) [[]]

@[simp] theorem segments_nil (separator : α) : segments separator [] = [[]] := rfl

theorem segments_cons (separator a : α) (l : List α) :
    segments separator (a :: l) = consSegment separator a (segments separator l) := rfl

end BusScript.Text
