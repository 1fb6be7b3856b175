/-!
# Faults

Every way in which a computation or a check can be refused, as causes. `Fault.message` holds the
wording, `Fault.isRefusal`, `Fault.isArithmetic` and `Fault.isSystem` the families that callers
handle.
-/

namespace Dichromat

/-- Why something is refused or cannot be done. -/
inductive Fault
  -- arithmetic
  | divisionByZero
  | overflow
  | nanToInteger
  | outsideDomain
  -- shapes of values
  | wrongKind
  | noSuchOperation
  | outOfBounds
  | noSuchKey
  | notInteger (shown : String)
  | notReal (shown : String)
  | tooManyDigits (count : Nat)
  | unwritableInteger
  | notFixed
  | notUtf8
  | notAscii
  -- colours and palettes
  | notRgbSpace (space : String)
  | notEyeSpace (space : String)
  | unknownSpace (space : String)
  | unknownDeficiency (name : String)
  | notDeficiency (shown : String)
  | channelCount (color count : Nat)
  | channelNotNumber (color : Nat) (shown : String)
  | channelOutOfRange (color : Nat) (shown : String)
  | invalidHex (text : String)
  -- settings and search
  | budgetNotPositive (field shown : String)
  | stepOutOfRange (shown : String)
  | penaltyNotPositive (shown : String)
  | notStrategy (shown : String)
  | notPrepared (phase : String)
  | endless
  | noWorkers
  -- previews
  | paletteLengths (original optimized : Nat)
  | emptyPreview
  | negativeSize
  | emptyBox
  | unknownImageFormat (extension : String)
  | imageModeRefused (format : String)
  -- documents
  | malformed
  | nestedTooDeeply
  -- files
  | fileExists
  | notADirectory
  | isADirectory
  | fileNotFound
  | accessDenied
  | nulInPath
  | fileRefused
  deriving DecidableEq, Repr

namespace Fault

/-- The text of a fault. -/
def message : Fault → String
  | divisionByZero => "division by zero"
  | overflow => "number out of range"
  | nanToInteger => "cannot convert float NaN to integer"
  | outsideDomain => "math domain error"
  | wrongKind => "value of the wrong kind"
  | noSuchOperation => "value without this operation"
  | outOfBounds => "index out of range"
  | noSuchKey => "no such key"
  | notInteger shown => s!"invalid literal for int() with base 10: {shown}"
  | notReal shown => s!"could not convert string to float: {shown}"
  | tooManyDigits count =>
    "Exceeds the limit (4300 digits) for integer string conversion: " ++
      s!"value has {count} digits; use sys.set_int_max_str_digits() to increase the limit"
  | unwritableInteger =>
    "Exceeds the limit (4300 digits) for integer string conversion; " ++
      "use sys.set_int_max_str_digits() to increase the limit"
  | notFixed => "Unknown format code 'f' for object of type 'str'"
  | notUtf8 => "text is not UTF-8"
  | notAscii => "text is not ASCII"
  | notRgbSpace space => s!"An RGB object can carry RGB information only, got {space}"
  | notEyeSpace space => s!"An Eye object can carry RPI/RPJ information only, got {space}"
  | unknownSpace space => s!"Unknown color space: {space}"
  | unknownDeficiency name =>
    s!"Unknown color blindness '{name}'. Expected one of: " ++
      "deuteranopia, green, none, protanopia, red"
  | notDeficiency shown => s!"{shown} is not a valid ColorBlindness"
  | channelCount color count => s!"Color {color} must have 3 channels, got {count}"
  | channelNotNumber color shown => s!"Color {color} has a non-numeric channel: {shown}"
  | channelOutOfRange color shown => s!"Color {color} has a channel out of 0-255: {shown}"
  | invalidHex text => s!"Invalid hex color: '{text}'"
  | budgetNotPositive field shown => s!"{field} must be positive, got {shown}"
  | stepOutOfRange shown => s!"step must be in (0, 1], got {shown}"
  | penaltyNotPositive shown => s!"collapse_penalty must be positive, got {shown}"
  | notStrategy shown => s!"{shown} is not a valid SearchStrategy"
  | notPrepared phase => s!"Cannot explore a search in phase {phase}"
  | endless => "the search has no end"
  | noWorkers => "max_workers must be greater than 0"
  | paletteLengths original optimized =>
    s!"Palettes differ in length: {original} and {optimized}"
  | emptyPreview => "Cannot preview an empty palette"
  | negativeSize => "Width and height must be >= 0"
  | emptyBox => "x1 must be greater than or equal to x0"
  | unknownImageFormat extension => s!"unknown file extension: {extension}"
  | imageModeRefused format => s!"Unsupported {format} image mode"
  | malformed => "malformed document"
  | nestedTooDeeply => "values nested too deeply"
  | fileExists => "file exists"
  | notADirectory => "not a directory"
  | isADirectory => "is a directory"
  | fileNotFound => "no such file or directory"
  | accessDenied => "permission denied"
  | nulInPath => "embedded null byte"
  | fileRefused => "file operation refused"

/-- Faults of a single operation on numbers. -/
def isArithmetic : Fault → Bool
  | divisionByZero | overflow => true
  | _ => false

/-- Faults which say that a value of the right kind is not an acceptable one. -/
def isRefusal : Fault → Bool
  | nanToInteger | outsideDomain | notInteger _ | notReal _ | tooManyDigits _
  | unwritableInteger | notFixed | notUtf8 | notAscii
  | notRgbSpace _ | notEyeSpace _ | unknownSpace _ | unknownDeficiency _ | notDeficiency _
  | channelCount _ _ | channelNotNumber _ _ | channelOutOfRange _ _ | invalidHex _
  | budgetNotPositive _ _ | stepOutOfRange _ | penaltyNotPositive _ | notStrategy _ | noWorkers
  | paletteLengths _ _ | emptyPreview | negativeSize | emptyBox | unknownImageFormat _
  | imageModeRefused _ | malformed | nulInPath => true
  | _ => false

/-- Faults by which the file system refuses an operation. -/
def isSystem : Fault → Bool
  | fileExists | notADirectory | isADirectory | fileNotFound | accessDenied | fileRefused => true
  | _ => false

end Fault

end Dichromat
