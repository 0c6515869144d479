/-! What the system answers when a file or a terminal cannot be used. -/
namespace Unalias

inductive Fault
  | noEntry
  | notFolder
  | isFolder
  | nameTooLong
  | denied
  | notText
  | absent
  | forbidden
  | badData
  | brokenPipe
  | timedOut
deriving DecidableEq

def Fault.message : Fault → String
  | .noEntry => "No such file or directory (os error 2)"
  | .notFolder => "Not a directory (os error 20)"
  | .isFolder => "Is a directory (os error 21)"
  | .nameTooLong => "File name too long (os error 36)"
  | .denied => "Permission denied (os error 13)"
  | .notText => "stream did not contain valid UTF-8"
  | .absent => "entity not found"
  | .forbidden => "permission denied"
  | .badData => "invalid data"
  | .brokenPipe => "broken pipe"
  | .timedOut => "timed out"

end Unalias
