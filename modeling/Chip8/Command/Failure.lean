import Chip8.Fault

/-!
# Failures of the command line

A run of the command line fails because its file cannot be read or because of a fault. The report of a
failure names its kind and lists its data by name.
-/
namespace Chip8.Command

/-- Why a file cannot be read, as the system tells it. -/
structure FileError where
  code : Nat
  kind : String
  message : String
deriving DecidableEq, Repr

namespace FileError

def notFound : FileError := ⟨2, "NotFound", "No such file or directory"⟩

def permissionDenied : FileError := ⟨13, "PermissionDenied", "Permission denied"⟩

def notADirectory : FileError := ⟨20, "NotADirectory", "Not a directory"⟩

def isADirectory : FileError := ⟨21, "IsADirectory", "Is a directory"⟩

def nameTooLong : FileError := ⟨36, "InvalidFilename", "File name too long"⟩

def loop : FileError := ⟨40, "FilesystemLoop", "Too many levels of symbolic links"⟩

/-- The error of a code of the system. -/
def ofCode (code : Nat) (message : String) : FileError :=
  match [notFound, permissionDenied, notADirectory, isADirectory, nameTooLong, loop].find?
      (·.code == code) with
  | some e => e
  | none => ⟨code, "Uncategorized", message⟩

end FileError

inductive Failure where
  | file (e : FileError)
  | fault (f : Fault)
deriving DecidableEq, Repr

/-- A kind and its data. -/
def fields (kind : String) (data : List (String × String)) : String :=
  kind ++ " \x7b " ++ String.intercalate ", " (data.map fun (name, value) => name ++ ": " ++ value)
    ++ " \x7d"

/-- A text in double quotes. -/
def quoted (text : String) : String := "\"" ++ text ++ "\""

/-- The kind of a fault and its data, numbers in decimal. -/
def describe : Fault → String
  | .invalidInstruction opcode pc =>
    fields "InvalidInstruction" [("opcode", toString opcode.toNat), ("pc", toString pc.toNat)]
  | .stackUnderflow pc => fields "StackUnderflow" [("pc", toString pc.toNat)]
  | .addressOutOfBounds address pc =>
    fields "AddressOutOfBounds" [("address", toString address), ("pc", toString pc.toNat)]
  | .programTooLarge length capacity =>
    fields "ProgramTooLarge" [("len", toString length), ("capacity", toString capacity)]
  | .unreadable reason => "Io(" ++ reason ++ ")"

/-- The line that reports a failure. -/
def Failure.report : Failure → String
  | file e =>
    "Error: " ++ fields "Os" [("code", toString e.code), ("kind", e.kind), ("message", quoted e.message)]
      ++ "\n"
  | fault f => "Error: " ++ describe f ++ "\n"

end Chip8.Command
