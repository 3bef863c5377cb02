/-! # Input and output errors -/

namespace CaptureExport

inductive IoError where
  | missing
  | occupied
  | notDirectory
  | isDirectory
  | invalidArgument
  | busy
  | nameTooLong
  | notEmpty
  | tooManyLinks
  | nulOctet
  | illFormedText
  | timedOut
  | other (message : String)
  deriving DecidableEq, Repr, Inhabited

namespace IoError

def message : IoError → String
  | missing => "No such file or directory (os error 2)"
  | occupied => "File exists (os error 17)"
  | notDirectory => "Not a directory (os error 20)"
  | isDirectory => "Is a directory (os error 21)"
  | invalidArgument => "Invalid argument (os error 22)"
  | busy => "Device or resource busy (os error 16)"
  | nameTooLong => "File name too long (os error 36)"
  | notEmpty => "Directory not empty (os error 39)"
  | tooManyLinks => "Too many levels of symbolic links (os error 40)"
  | nulOctet => "file name contained an unexpected NUL byte"
  | illFormedText => "stream did not contain valid UTF-8"
  | timedOut => "timed out"
  | other m => m

end IoError
end CaptureExport
