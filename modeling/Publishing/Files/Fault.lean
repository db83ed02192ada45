/-
What can go wrong with a file.
-/

namespace Publishing

inductive FileFault where
  | missing
  | denied
  | busy
  | alreadyExists
  | notDirectory
  | isDirectory
  | nameTooLong
  | nulInName
  | nulInArgument
  | notText
  /-- The store was opened for reading only. -/
  | readOnlyStore
  /-- Found while a directory was walked. -/
  | walking (root : String) (cause : FileFault)
  deriving DecidableEq, Repr

namespace FileFault

/-- The fault in words. -/
def reason : FileFault → String
  | missing => "No such file or directory"
  | denied => "Permission denied"
  | busy => "Device or resource busy"
  | alreadyExists => "File exists"
  | notDirectory => "Not a directory"
  | isDirectory => "Is a directory"
  | nameTooLong => "File name too long"
  | nulInName => "file name contained an unexpected NUL byte"
  | nulInArgument => "nul byte found in provided data"
  | notText => "stream did not contain valid UTF-8"
  | readOnlyStore => "state store is opened in read-only mode"
  | walking root cause => "IO error for operation on " ++ root ++ ": " ++ cause.reason

/-- The number that the operating system gives the fault, if it found it. -/
def code? : FileFault → Option Nat
  | missing => some 2
  | denied => some 13
  | busy => some 16
  | alreadyExists => some 17
  | notDirectory => some 20
  | isDirectory => some 21
  | nameTooLong => some 36
  | nulInName | nulInArgument | notText | readOnlyStore => none
  | walking _ cause => cause.code?

/-- The words and the number of a fault. -/
def message (f : FileFault) : String :=
  f.reason ++ match f.code? with
    | some n => " (os error " ++ toString n ++ ")"
    | none => ""

end FileFault
end Publishing
