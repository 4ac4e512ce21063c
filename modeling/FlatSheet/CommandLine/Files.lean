/-!
# Files

What the command line does with files is reading one and writing one. `FileAccess` holds the two
operations in some monad; `Disk.access` is that of a disk that is a plain value.
-/

namespace FlatSheet.CommandLine

/-- Reading and writing files by name; an operation that fails tells the reason. -/
structure FileAccess (m : Type → Type) where
  read : String → m (Except String ByteArray)
  write : String → String → m (Except String Unit)

/-- The contents of files by name, and where no file can be written. In both cases a reason is told
for what cannot be done. -/
structure Disk where
  contents : String → Except String ByteArray
  refusal : String → Option String

namespace Disk

/-- The disk after a file is written. -/
def store (d : Disk) (path text : String) : Disk :=
  ⟨fun name ↦ if name = path then .ok text.toUTF8 else d.contents name, d.refusal⟩

/-- Access to the files of a disk. A write that fails leaves the disk as it was. -/
def access : FileAccess (StateM Disk) where
  read path := fun d ↦ (d.contents path, d)
  write path text := fun d ↦
    match d.refusal path with
    | some reason => (.error reason, d)
    | none => (.ok (), d.store path text)

end Disk

/-- The text of a file with some bytes. -/
def decode (bytes : ByteArray) : Except String String :=
  match String.fromUTF8? bytes with
  | some text => .ok text
  | none => .error "stream did not contain valid UTF-8"

/-- Read a file as text. -/
def FileAccess.readText {m : Type → Type} [Monad m] (files : FileAccess m) (path : String) :
    m (Except String String) := do
  return match ← files.read path with
    | .ok bytes => decode bytes
    | .error reason => .error reason

end FlatSheet.CommandLine
