/-
ObjectAudit/Snapshot/File.lean

Reading a snapshot from a file.  What makes a path or a number impossible to handle at all
is refused; every other fault is told of the file or of the snapshot in it.
-/
import ObjectAudit.Json.Reader
import ObjectAudit.Snapshot.Reader
import ObjectAudit.Text.Utf8

namespace ObjectAudit.Snapshot

open Text

/-- What stands under a path. -/
inductive FileContent where
  | missing
  | directory
  | bytes (bytes : List UInt8)
deriving DecidableEq, Repr

inductive FileCause where
  | notFound
  | isDirectory
  | nameTooLong
  | notUtf8 (fault : Utf8Fault)
  | notJson (fault : Json.FaultAt)
deriving DecidableEq, Repr

/-- Why a file holds no snapshot. -/
inductive FileFault where
  /-- The path holds the character that ends a path. -/
  | nulInPath
  /-- An integer has more digits than may be. -/
  | longInteger (most digits : Nat)
  | file (path : SourcePath) (cause : FileCause)
  | snapshot (fault : Fault)
deriving DecidableEq, Repr

namespace FileFault

/-- What a fault is about, and what is wrong with it; nothing is told apart about what is
refused. -/
def parts? : FileFault → Option (String × String)
  | nulInPath | longInteger _ _ => none
  | file path cause =>
    let unreadable (why : String) := s!"cannot read file: {why}: {quoted path.text}"
    some (path.text, match cause with
      | .notFound => "file not found"
      | .isDirectory => unreadable "[Errno 21] Is a directory"
      | .nameTooLong => unreadable "[Errno 36] File name too long"
      | .notUtf8 fault => s!"not UTF-8 text: {fault.message}"
      | .notJson fault => s!"invalid JSON: {fault.message}")
  | snapshot fault => some (fault.subject, fault.reason)

def message (fault : FileFault) : String :=
  match fault, fault.parts? with
  | _, some (subject, reason) => malformedMessage subject reason
  | longInteger most digits, none => (Json.Cause.tooManyDigits most digits).message
  | _, none => "embedded null byte"

end FileFault

def mostPathBytes : Nat := 4095

def mostNameBytes : Nat := 255

/-- What stands in the way of a file that is not there: a path may be too long, or the
first name in it, and a path that only goes upwards leads to a directory. -/
def absence (path : SourcePath) : FileCause :=
  if mostPathBytes < path.text.utf8ByteSize then .nameTooLong
  else
    match path.segments.find? (· != "..") with
    | none => .isDirectory
    | some name => if mostNameBytes < name.utf8ByteSize then .nameTooLong else .notFound

/-- The value in some bytes: read as UTF-8, with one line end for all, as JSON. -/
def valueOf (path : SourcePath) (bytes : List UInt8) : Except FileFault Json :=
  match decodeUtf8 bytes with
  | .error fault => .error (.file path (.notUtf8 fault))
  | .ok text =>
    match Json.readWithin Json.mostDigits (unifyLineEnds text) with
    | .ok value => .ok value
    | .error fault =>
      match fault.cause with
      -- not a fault of the notation, so the path is not named
      | .tooManyDigits most digits => .error (.longInteger most digits)
      | _ => .error (.file path (.notJson fault))

def fileValue (path : SourcePath) (content : FileContent) : Except FileFault Json :=
  if path.text.contains '\x00' then .error .nulInPath
  else
    match content with
    | .missing => .error (.file path (absence path))
    | .directory => .error (.file path .isDirectory)
    | .bytes bytes => valueOf path bytes

/-- Read the snapshot in a file. -/
def ofFile (path : SourcePath) (content : FileContent) : Except FileFault Contents :=
  match fileValue path content with
  | .error fault => .error fault
  | .ok value =>
    match read value with
    | .error fault => .error (.snapshot fault)
    | .ok contents => .ok contents

end ObjectAudit.Snapshot
