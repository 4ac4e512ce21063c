import FlatSheet.CommandLine.Files
import FlatSheet.CommandLine.Request
import FlatSheet.Compile
import FlatSheet.Json.Layout
import FlatSheet.Prelude.Document

/-!
# Running a request

The sheet is read first and then the prelude, if one is named; what fails first is reported. Problems
are written on the error output as lines of text, or on the standard output as a JSON array.
-/

namespace FlatSheet

/-- The name of a kind of problem. -/
def Problem.kind : Problem → String
  | undefinedVariable _ => "undefined-variable"
  | unknownProperty _ => "unknown-property"
  | propertyType _ _ => "property-type"
  | conditionNotBoolean => "condition-not-boolean"
  | colorOperand => "color-operand"
  | boolOperand => "bool-operand"
  | operandMismatch => "operand-mismatch"
  | multiplyWithoutScalar => "multiply-without-scalar"

/-- What a problem is about, under the names of these parts. -/
def Problem.parts : Problem → List (String × String)
  | undefinedVariable name => [("name", name)]
  | unknownProperty property => [("property", property)]
  | propertyType property allowed => [("property", property), ("allowed", allowed)]
  | _ => []

namespace CommandLine

open Json

/-- A diagnostic as JSON. -/
def diagnosticLayout (d : Diagnostic) : Layout :=
  .object
    [("span", .object [("line", .number d.position.line), ("column", .number d.position.column)]),
      ("message", .text d.message),
      ("error", .object
        (("kind", .text d.problem.kind) :: d.problem.parts.map fun part ↦ (part.1, .text part.2)))]

/-- What a run writes on its two outputs, and whether it succeeds. -/
structure Report where
  succeeded : Bool
  stdout : String
  stderr : String
deriving DecidableEq

namespace Report

/-- The exit code: zero for success. -/
def code (r : Report) : UInt32 := if r.succeeded then 0 else 1

/-- A run that succeeds. -/
def success (stdout : String) : Report := ⟨true, stdout, ""⟩

/-- A run that fails with a message. -/
def failure (message : String) : Report := ⟨false, "", message ++ "\n"⟩

/-- A run that fails because the sheet does not compile. -/
def ofError (input : String) (format : Format) : CompileError → Report
  | .problems diagnostics =>
    match format with
    | .json => ⟨false, (Layout.array (diagnostics.map diagnosticLayout)).toText ++ "\n", ""⟩
    | .text =>
      ⟨false, "", String.join (diagnostics.map fun d ↦ input ++ ":" ++ d.text ++ "\n") ++
        diagnostics.length.repr ++ " error(s) found\n"⟩
  | .unreadable e => failure (input ++ ":" ++ e.message)
  | .unfoldable e => failure e.message
  | .badPrelude e => failure e.message

end Report

namespace Request

variable {m : Type → Type} [Monad m]

/-- The prelude that a request names; none is an empty one. -/
def loadPrelude (r : Request) (files : FileAccess m) : m (Except PreludeError Prelude) :=
  match r.preludeFile with
  | none => return .ok .empty
  | some path => return Prelude.ofFile path (← files.readText path)

/-- Read the sheet and the prelude; a failure is its message. -/
def prepare (r : Request) (files : FileAccess m) : m (Except String (String × Prelude)) := do
  match ← files.readText r.input with
  | .error reason => return .error ("Failed to read " ++ r.input ++ ": " ++ reason)
  | .ok source =>
    match ← r.loadPrelude files with
    | .error e => return .error e.message
    | .ok p => return .ok (source, p)

/-- Write the result to a file. -/
def deliver (files : FileAccess m) (path css : String) : m Report := do
  match ← files.write path css with
  | .ok () => return .success ""
  | .error reason => return .failure ("Failed to write " ++ path ++ ": " ++ reason)

/-- Do what a request asks for. -/
def run (r : Request) (files : FileAccess m) : m Report := do
  match ← r.prepare files with
  | .error message => return .failure message
  | .ok (source, p) =>
    match r.command with
    | .check =>
      match FlatSheet.check p source with
      | .error e => return .ofError r.input r.format e
      | .ok _ => return .success ""
    | .build output =>
      match compile p source with
      | .error e => return .ofError r.input r.format e
      | .ok css =>
        match output with
        | none => return .success css
        | some path => deliver files path css

end Request

end CommandLine

end FlatSheet
