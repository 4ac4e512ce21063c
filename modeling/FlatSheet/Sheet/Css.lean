import FlatSheet.Sheet

/-!
# The output

The output has the rules of a sheet with a blank line between two of them. A rule is its selectors,
joined as they stand, and the declarations of its block; what else is in the block is left out.
-/

namespace FlatSheet

/-- A declaration on a line of its own. -/
def Declaration.css (d : Declaration) : String := "  " ++ d.property ++ ": " ++ d.value.text ++ ";\n"

/-- A rule with its declarations. -/
def Rule.css (r : Rule) : String :=
  String.join (r.selectors.map Selector.text) ++ "\x7b\n" ++
    String.join (r.body.declarations.map Declaration.css) ++ "\x7d\n"

/-- Some rules with a blank line between two of them. -/
def cssOfRules : List Rule → String
  | [] => ""
  | [r] => r.css
  | r :: rules => r.css ++ "\n" ++ cssOfRules rules

/-- The output for a sheet. -/
def Sheet.css (s : Sheet) : String := cssOfRules s.rules

end FlatSheet
