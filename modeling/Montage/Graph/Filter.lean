/-!
# Filters

A filter of the rendering program is written as its name, an equals sign, its plain argument and its
named arguments, which are separated by colons.
-/

set_option autoImplicit false
set_option relaxedAutoImplicit false

namespace Montage.Graph

/-- The two kinds of streams of a recording. -/
inductive StreamKind where
  /-- The picture. -/
  | video
  /-- The sound. -/
  | audio
deriving DecidableEq, Repr

namespace StreamKind

/-- The letter that selects the stream of an input. -/
def tag : StreamKind → String
  | video => "v"
  | audio => "a"

/-- The name of a filter for streams of this kind: an `a` stands in front for sound. -/
def filterName (kind : StreamKind) (name : String) : String :=
  match kind with
  | video => name
  | audio => "a" ++ name

end StreamKind

/-- A filter with its arguments. -/
structure Filter where
  /-- The name of the filter. -/
  name : String
  /-- Its plain argument. -/
  argument : Option String := none
  /-- Its named arguments, in order. -/
  named : List (String × String) := []
deriving DecidableEq, Repr

/-- The text of a filter. -/
def Filter.toText (filter : Filter) : String :=
  filter.name ++ "=" ++ filter.argument.getD "" ++
    ":".intercalate (filter.named.map fun (key, value) ↦ key ++ "=" ++ value)

end Montage.Graph
