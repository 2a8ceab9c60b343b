/-!
# What can be wrong with a compressed file

A `Frame.Fault` is why unpacking stops, and `Fault.message` its wording.
-/

namespace CodeView.Frame

/-- Why a compressed file cannot be unpacked, or not any further. -/
inductive Fault where
  | unknownFrame
  | oldVersion
  | unsupportedParameter
  | windowTooLarge
  | dictionaryMismatch
  | dictionaryCorrupt
  | literalsHeader
  | corrupt
  | sizeWrong
  | roomExceeded
  | checksumWrong
  | incomplete
  deriving DecidableEq, Repr

/-- The wording of a fault. -/
def Fault.message : Fault → String
  | .unknownFrame => "Unknown frame descriptor"
  | .oldVersion => "Version not supported"
  | .unsupportedParameter => "Unsupported frame parameter"
  | .windowTooLarge => "Frame requires too much memory for decoding"
  | .dictionaryMismatch => "Dictionary mismatch"
  | .dictionaryCorrupt => "Dictionary is corrupted"
  | .literalsHeader => "Header of Literals' block doesn't respect format specification"
  | .corrupt => "Data corruption detected"
  | .sizeWrong => "Src size is incorrect"
  | .roomExceeded => "Destination buffer is too small"
  | .checksumWrong => "Restored data doesn't match checksum"
  | .incomplete => "incomplete frame"

end CodeView.Frame
