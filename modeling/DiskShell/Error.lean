import DiskShell.Json.Fields

/-! What can go wrong on a disk and in the store behind it, with the words for it. -/

namespace DiskShell

inductive DiskError where
  | notFound
  | alreadyExists
  | notADirectory
  | isADirectory
  | notEmpty
  | notPermitted
  | invalidPath (message : String)
  | storage (message : String)
  deriving DecidableEq, Repr

inductive StoreError where
  | unavailable (message : String)
  | serialization (message : String)
  | write (key reason : String)
  deriving DecidableEq, Repr

namespace DiskError

/-- The phrase that the shell prints. -/
def reason : DiskError → String
  | notFound => "No such file or directory"
  | alreadyExists => "File exists"
  | notADirectory => "Not a directory"
  | isADirectory => "Is a directory"
  | notEmpty => "Directory not empty"
  | notPermitted => "Operation not permitted"
  | invalidPath _ => "Invalid argument"
  | storage _ => "Input/output error"

def message : DiskError → String
  | invalidPath m => "invalid path: " ++ m
  | storage m => "storage error: " ++ m
  | e => e.reason

def tag : DiskError → String
  | notFound => "NotFound"
  | alreadyExists => "AlreadyExists"
  | notADirectory => "NotADirectory"
  | isADirectory => "NotAFile"
  | notEmpty => "DirectoryNotEmpty"
  | notPermitted => "PermissionDenied"
  | invalidPath _ => "InvalidPath"
  | storage _ => "Storage"

def toJson : DiskError → Json
  | invalidPath m => .record [("InvalidPath", .ofString m)]
  | storage m => .record [("Storage", .ofString m)]
  | e => .ofString e.tag

/-- The errors whose tag stands alone. -/
def bare : List DiskError :=
  [notFound, alreadyExists, notADirectory, isADirectory, notEmpty, notPermitted]

def ofJson? (j : Json) : Option DiskError := do
  let (tag, content) ← j.tagged?
  match tag, content with
  | "InvalidPath", some content => content.text?.map invalidPath
  | "Storage", some content => content.text?.map storage
  | tag, content => if Json.isBare content then bare.find? fun e => e.tag == tag else none

end DiskError

namespace StoreError

def message : StoreError → String
  | unavailable m => "storage unavailable: " ++ m
  | serialization m => "serialization error: " ++ m
  | write key reason => "failed to write '" ++ key ++ "': " ++ reason

def tag : StoreError → String
  | unavailable _ => "Unavailable"
  | serialization _ => "Serialization"
  | write _ _ => "Write"

/-- Seen from the disk, an error of the store is a message. -/
def toDiskError (e : StoreError) : DiskError := .storage e.message

def toJson : StoreError → Json
  | unavailable m => .record [("Unavailable", .ofString m)]
  | serialization m => .record [("Serialization", .ofString m)]
  | write key reason =>
    .record [("Write", .record [("key", .ofString key), ("reason", .ofString reason)])]

def ofJson? (j : Json) : Option StoreError := do
  let (tag, content) ← j.tagged?
  let content ← content
  match tag with
  | "Unavailable" => content.text?.map unavailable
  | "Serialization" => content.text?.map serialization
  | "Write" =>
    let fs ← content.fields? ["key", "reason"]
    return write (← fs.required? "key" Json.text?) (← fs.required? "reason" Json.text?)
  | _ => none

end StoreError

end DiskShell
