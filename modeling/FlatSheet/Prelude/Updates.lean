import FlatSheet.Prelude.Document

/-!
# Updates of a prelude

A prelude is changed in its place: a variable is defined, or the whole is replaced with what a document
writes. The variables of a document are put into a new prelude one after the other, and it takes the place
of the old one once all of them are there.
-/

namespace FlatSheet

namespace Prelude

/-- A change that is asked of a prelude. -/
inductive Update where
  | define (name : String) (value : Literal)
  | load (document : String)
deriving DecidableEq

/-- Whether a change was made, and otherwise why not. -/
abbrev Outcome := Except PreludeError Unit

/-- Give a variable a value in place. -/
def put (p : Prelude) (name : String) (value : Literal) : Outcome × Prelude :=
  if isVariableName name then (.ok (), { p with bindings := p.bindings.insert name value })
  else (.error (.invalidName name), p)

/-- Give variables values in place, by the texts of the values. What was given before one that is refused
stays. -/
def putTexts (p : Prelude) : Entries → Outcome × Prelude
  | [] => (.ok (), p)
  | (name, text) :: entries =>
    match Literal.ofSource text with
    | .error e => (.error (.invalidValue name e), p)
    | .ok value =>
      let after := p.put name value
      match after.1 with
      | .error e => (.error e, after.2)
      | .ok () => after.2.putTexts entries

/-- Replace the variables with those that a document writes. -/
def replace (p : Prelude) (document : String) : Outcome × Prelude :=
  match entriesOf document with
  | .error fault => (.error (.json inline fault), p)
  | .ok entries =>
    let filled := empty.putTexts (Std.ExtTreeMap.ofList entries compare).toList
    match filled.1 with
    | .error e => (.error e, p)
    | .ok () => (.ok (), filled.2)

/-- Make a change. -/
def step (p : Prelude) : Update → Outcome × Prelude
  | .define name value => p.put name value
  | .load document => p.replace document

/-- The prelude after changes in order, some of which may be refused. -/
def run (p : Prelude) : List Update → Prelude
  | [] => p
  | u :: updates => (p.step u).2.run updates

end Prelude

end FlatSheet
