import FlatSheet.Typing.Types

/-!
# Properties

The properties that a declaration may set, and the types of value that each takes.
-/

namespace FlatSheet

/-- A property, the types it takes, and the words for them in a message. -/
structure Property where
  name : String
  allowed : List Ty
  description : String
deriving DecidableEq

namespace Property

/-- The properties there are. -/
def table : List Property :=
  [⟨"background-color", [.color], "color"⟩,
    ⟨"color", [.color], "color"⟩,
    ⟨"width", [.pixels, .percentage], "pixel and percentage"⟩,
    ⟨"height", [.pixels], "pixel"⟩]

/-- The property of a name, if there is one. -/
def find? (name : String) : Option Property := table.find? (·.name = name)

end Property

end FlatSheet
