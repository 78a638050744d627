/-
How access to files can fail.

Each failure has one text, which every message about it ends in.
-/

set_option autoImplicit false

namespace PatternAudit.Files

/-- A failure to reach, read or change something. -/
inductive Fault where
  | missing
  | occupied
  | notDirectory
  | isDirectory
  | nameTooLong
  | tooManyLinks
  /-- the bytes are no UTF-8 text -/
  | notText
  /-- a path with a character that no name can have -/
  | badName
  /-- a failure of the storage, with its text -/
  | storage (text : String)
  deriving DecidableEq, Inhabited

/-- The text of a failure. -/
def Fault.message : Fault → String
  | missing => "No such file or directory (os error 2)"
  | occupied => "File exists (os error 17)"
  | notDirectory => "Not a directory (os error 20)"
  | isDirectory => "Is a directory (os error 21)"
  | nameTooLong => "File name too long (os error 36)"
  | tooManyLinks => "Too many levels of symbolic links (os error 40)"
  | notText => "stream did not contain valid UTF-8"
  | badName => "file name contained an unexpected NUL byte"
  | storage text => text

end PatternAudit.Files
