import FlatSheet.Folding.Flatten
import FlatSheet.Prelude
import FlatSheet.Sheet.Css
import FlatSheet.Sheet.Node
import FlatSheet.Sheet.Reading
import FlatSheet.Typing.Check

/-!
# Compiling

A sheet is read and typed with the variables of a prelude in scope. If no problem is found it is
flattened, with the values of the same variables, and written out.
-/

namespace FlatSheet

/-- Why a sheet is not compiled. -/
inductive CompileError where
  | unreadable (e : ParseError)
  | problems (diagnostics : List Diagnostic)
  | unfoldable (e : FoldError)
  | badPrelude (e : PreludeError)
deriving DecidableEq

/-- The message of an error. -/
def CompileError.message : CompileError → String
  | unreadable e => "parse error at " ++ e.message
  | problems diagnostics => diagnostics.length.repr ++ " semantic error(s) found"
  | unfoldable e => e.message
  | badPrelude e => e.message

/-- Read and type a sheet. Succeeds only without problems. -/
def check (p : Prelude) (source : String) : Except CompileError Sheet :=
  match Sheet.ofSource source with
  | .error e => .error (.unreadable e)
  | .ok sheet =>
    let typed := (sheet.check (.ofGlobals p.toList)).1
    match typed.diagnostics with
    | [] => .ok typed
    | d :: diagnostics => .error (.problems (d :: diagnostics))

/-- Read, type, flatten and write out a sheet. -/
def compile (p : Prelude) (source : String) : Except CompileError String :=
  match check p source with
  | .error e => .error e
  | .ok typed =>
    match (typed.flatten (Scopes.ofGlobals p.toList)).1 with
    | .error e => .error (.unfoldable e)
    | .ok flat => .ok flat.css

end FlatSheet
