/-!
# Requests on the command line

The arguments name a command and a file, and options that may stand before or after the file. The value
of an option follows as the next argument or after an equals sign. No option may be given twice.
-/

namespace FlatSheet.CommandLine

/-- How problems are written. -/
inductive Format where
  | text
  | json
deriving DecidableEq

/-- What is to be done with a sheet. -/
inductive Command where
  /-- Compile it, and write the result to a file or to the standard output. -/
  | build (output : Option String)
  /-- Look for problems only. -/
  | check
deriving DecidableEq

/-- What the command line asks for. -/
structure Request where
  command : Command
  input : String
  preludeFile : Option String
  format : Format
deriving DecidableEq

/-- One argument. -/
inductive Argument where
  | operand (text : String)
  /-- An option, with its value if that is in the same argument. -/
  | option (name : String) (value : Option String)
deriving DecidableEq

/-- The options that there are. -/
inductive OptionName where
  | output
  | preludeFile
  | format
deriving DecidableEq

namespace Argument

/-- The value in an argument from after the name of its option. -/
def valueOf : List Char → Option String
  | [] => none
  | '=' :: value => some (String.ofList value)
  | value => some (String.ofList value)

/-- What an argument is. A lone dash is an operand. -/
def ofString (s : String) : Argument :=
  match s.toList with
  | '-' :: '-' :: long =>
    option (String.ofList (long.takeWhile (· ≠ '='))) (valueOf (long.dropWhile (· ≠ '=')))
  | '-' :: short :: value => option (String.ofList [short]) (valueOf value)
  | _ => operand s

end Argument

/-- The option of a name. -/
def OptionName.ofString? : String → Option OptionName
  | "output" => some output
  | "o" => some output
  | "prelude" => some preludeFile
  | "format" => some format
  | _ => none

/-- What has been read of a request. -/
structure Draft where
  input : Option String
  output : Option String
  preludeFile : Option String
  format : Option Format
deriving DecidableEq

namespace Draft

/-- Nothing read yet. -/
def empty : Draft := ⟨none, none, none, none⟩

/-- Take the file. -/
def withInput (p : Draft) (file : String) : Option Draft :=
  if p.input.isSome then none else some ⟨some file, p.output, p.preludeFile, p.format⟩

/-- Take the value of an option. -/
def withOption (p : Draft) (name : OptionName) (value : String) : Option Draft :=
  match name with
  | .output => if p.output.isSome then none else some ⟨p.input, some value, p.preludeFile, p.format⟩
  | .preludeFile =>
    if p.preludeFile.isSome then none else some ⟨p.input, p.output, some value, p.format⟩
  | .format =>
    if p.format.isSome then none
    else
      match value with
      | "text" => some ⟨p.input, p.output, p.preludeFile, some .text⟩
      | "json" => some ⟨p.input, p.output, p.preludeFile, some .json⟩
      | _ => none

/-- Take arguments in order, the first as the value of an option that waits for one. After two dashes
alone all are operands. -/
def withArguments (p : Draft) (waiting : Option OptionName) : List String → Option Draft
  | [] => if waiting.isSome then none else some p
  | argument :: arguments =>
    match waiting with
    | some name => (p.withOption name argument).bind (·.withArguments none arguments)
    | none =>
      if argument = "--" then arguments.foldlM withInput p
      else
        match Argument.ofString argument with
        | .operand file => (p.withInput file).bind (·.withArguments none arguments)
        | .option name value =>
          match OptionName.ofString? name, value with
          | none, _ => none
          | some name, none => p.withArguments (some name) arguments
          | some name, some value => (p.withOption name value).bind (·.withArguments none arguments)

end Draft

/-- The request that some arguments make. -/
def Request.ofArguments : List String → Option Request
  | "build" :: arguments => do
    let p ← Draft.empty.withArguments none arguments
    return ⟨.build p.output, ← p.input, p.preludeFile, p.format.getD .text⟩
  | "check" :: arguments => do
    let p ← Draft.empty.withArguments none arguments
    if p.output.isSome then none
    else return ⟨.check, ← p.input, p.preludeFile, p.format.getD .text⟩
  | _ => none

end FlatSheet.CommandLine
