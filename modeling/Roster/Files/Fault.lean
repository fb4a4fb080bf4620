/-!
# File faults

Why a path could not be opened, read, written or created.
-/

set_option autoImplicit false

namespace Roster

/-- The causes of a failing file operation. -/
inductive FileFault where
  | notFound
  | alreadyExists
  | notADirectory
  | isADirectory
  | nameTooLong
  /-- A name with a NUL character cannot be handed to the system. -/
  | nulInName
  /-- The file is not well-formed UTF-8. -/
  | invalidText
deriving DecidableEq

/-- The text shown for a fault. -/
def FileFault.message : FileFault → String
  | notFound => "No such file or directory (os error 2)"
  | alreadyExists => "File exists (os error 17)"
  | notADirectory => "Not a directory (os error 20)"
  | isADirectory => "Is a directory (os error 21)"
  | nameTooLong => "File name too long (os error 36)"
  | nulInName => "file name contained an unexpected NUL byte"
  | invalidText => "stream did not contain valid UTF-8"

end Roster
