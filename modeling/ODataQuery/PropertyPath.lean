import ODataQuery.Text.Blank

namespace ODataQuery

structure PropertyPath where
  segments : List String
  deriving DecidableEq, Repr

namespace PropertyPath

/-- Split at every point and trim the segments. -/
def parse (s : String) : PropertyPath :=
  ⟨(s.toList.splitOn '.').map fun segment => String.ofList (Text.strip Text.isBlank segment)⟩

def dotted (p : PropertyPath) : String := ".".intercalate p.segments

end PropertyPath

end ODataQuery
