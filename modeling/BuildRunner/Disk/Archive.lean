import BuildRunner.Command.Split
import BuildRunner.Disk.Entry
import BuildRunner.Text.Blank

/-!
# Archives

An archive is a text that lists the entries below a directory: the kind of each entry, its path, and
what it holds, as the words of a command line.  The bytes of a file are written as hexadecimal
digits.
-/

namespace BuildRunner.Archive

open BuildRunner.Text (Bytes)

/-- The hexadecimal form of some bytes. -/
def hexText (bytes : Bytes) : String := String.ofList (bytes.flatMap fun b => Text.hex 2 b.toNat)

/-- The value of a hexadecimal digit. -/
def digit? (c : Char) : Option Nat :=
  if '0' ≤ c ∧ c ≤ '9' then some (c.toNat - '0'.toNat)
  else if 'a' ≤ c ∧ c ≤ 'f' then some (c.toNat - 'a'.toNat + 10)
  else none

def hexBytes? : List Char → Option Bytes
  | [] => some []
  | [_] => none
  | a :: b :: rest => do
    let high ← digit? a
    let low ← digit? b
    let bytes ← hexBytes? rest
    some (UInt8.ofNat (high * 16 + low) :: bytes)

/-- The words of an entry; the modification time is not kept. -/
def words (entry : Entry) : List String :=
  match entry.node with
  | .dir .. => ["dir", entry.path]
  | .file data executable _ =>
    [if executable then "program" else "file", entry.path, hexText data]
  | .link target => ["link", entry.path, target]
  | _ => ["pipe", entry.path]

/-- The line of an entry. -/
def line (entry : Entry) : String := Command.join (words entry) ++ "\n"

/-- The archive of some entries. -/
def write (entries : List Entry) : String := String.join (entries.map line)

/-- The entries that a list of words describes. -/
def readWords? : List String → Option (List Entry)
  | [] => some []
  | "dir" :: path :: rest => (readWords? rest).map (⟨path, .empty⟩ :: ·)
  | "pipe" :: path :: rest => (readWords? rest).map (⟨path, .pipe⟩ :: ·)
  | "link" :: path :: target :: rest => (readWords? rest).map (⟨path, .link target⟩ :: ·)
  | "file" :: path :: data :: rest => do
    let bytes ← hexBytes? data.toList
    let entries ← readWords? rest
    some (⟨path, .file bytes false none⟩ :: entries)
  | "program" :: path :: data :: rest => do
    let bytes ← hexBytes? data.toList
    let entries ← readWords? rest
    some (⟨path, .file bytes true none⟩ :: entries)
  | _ => none

/-- The entries of an archive; a blank archive has none. -/
def read? (archive : String) : Option (List Entry) :=
  if archive.toList.all Text.isBlank then some []
  else do readWords? (← Command.parse archive)

end BuildRunner.Archive
