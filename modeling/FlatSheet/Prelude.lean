import Std.Data.ExtTreeMap
import FlatSheet.Expr.Reading
import FlatSheet.Json.Reading

/-!
# Preludes

A prelude holds the variables that are defined before a sheet's own. Their names begin with a capital
letter and are kept in the order of their characters, which is that of their bytes in UTF-8.
-/

namespace FlatSheet

/-- Why a prelude cannot be had. -/
inductive PreludeError where
  | unreadable (path reason : String)
  | json (path : String) (fault : Json.Fault)
  | invalidName (name : String)
  | invalidValue (name : String) (cause : ParseError)
deriving DecidableEq

/-- The message of an error. For a text that is not JSON it stops after the path. The colon and the JSON
reader's own description of the fault, which would follow, are left out; the error keeps the kind of the
fault. -/
def PreludeError.message : PreludeError → String
  | unreadable path reason => "Failed to read " ++ path ++ ": " ++ reason
  | json path _ => "Invalid JSON in " ++ path
  | invalidName name => "Prelude variable '" ++ name ++ "' must start with an uppercase letter"
  | invalidValue name cause =>
    "Prelude variable '" ++ name ++ "' has an invalid value: " ++ cause.message

/-- Whether a name begins with a capital letter. -/
def isVariableName (name : String) : Bool := name.toList.head?.any isCapital

/-- Variables with their values. -/
structure Prelude where
  bindings : Std.ExtTreeMap String Literal

namespace Prelude

/-- No variables. -/
def empty : Prelude := ⟨∅⟩

/-- The value of a variable. -/
def get? (p : Prelude) (name : String) : Option Literal := p.bindings[name]?

/-- The number of variables. -/
def size (p : Prelude) : Nat := p.bindings.size

/-- Whether there are no variables. -/
def isEmpty (p : Prelude) : Bool := p.bindings.isEmpty

/-- The variables with their values, in the order of their names. -/
def toList (p : Prelude) : List (String × Literal) := p.bindings.toList

/-- Give a variable a value, in place of one that it has. -/
def define (p : Prelude) (name : String) (value : Literal) : Except PreludeError Prelude :=
  if isVariableName name then .ok ⟨p.bindings.insert name value⟩ else .error (.invalidName name)

/-- Define variables by the texts of their values. A text is read before its name is looked at. -/
def defineTexts (p : Prelude) : List (String × String) → Except PreludeError Prelude
  | [] => .ok p
  | (name, text) :: entries =>
    match Literal.ofSource text with
    | .error e => .error (.invalidValue name e)
    | .ok value =>
      match p.define name value with
      | .error e => .error e
      | .ok next => next.defineTexts entries

/-- The prelude with some entries, of which the last of a name counts. They are taken in the order of
their names, and the first that is wrong is reported. -/
def ofEntries (entries : List (String × String)) : Except PreludeError Prelude :=
  empty.defineTexts (Std.ExtTreeMap.ofList entries compare).toList

end Prelude

end FlatSheet
