import Dichromat.Value.Number
import Dichromat.Text.Character

/-!
# Hexadecimal colour codes

Codes like `#ff0000`, `ff0000` or `#f00`, between white space: `Hex.decode` reads them,
`Hex.encode` writes the six-digit form with every channel brought into 0 to 255.
-/

namespace Dichromat.Hex

/-! ### Reading -/

/-- The value of a hexadecimal digit of either case. -/
def digit? (c : Char) : Option Nat :=
  if '0' ≤ c ∧ c ≤ '9' then some (c.toNat - '0'.toNat)
  else if 'a' ≤ c ∧ c ≤ 'f' then some (c.toNat - 'a'.toNat + 10)
  else if 'A' ≤ c ∧ c ≤ 'F' then some (c.toNat - 'A'.toNat + 10)
  else none

/-- Text without a leading number sign. -/
def dropSign : List Char → List Char
  | '#' :: rest => rest
  | cs => cs

/-- The channels of six digits, or of three that stand for two each. -/
def channels? (digits : List Nat) : Option (Triple Nat) :=
  match digits with
  | [r, g, b] => some ⟨r * 16 + r, g * 16 + g, b * 16 + b⟩
  | [r, r', g, g', b, b'] => some ⟨r * 16 + r', g * 16 + g', b * 16 + b'⟩
  | _ => none

/-- The channels of a code, if it is one. -/
def decode? (code : String) : Option (Triple Nat) :=
  ((dropSign (Text.strip code.toList)).mapM digit?).bind channels?

/-- The channels of a code; any other text is refused. -/
def decode (code : String) : Except Fault (Triple Nat) :=
  match decode? code with
  | some rgb => .ok rgb
  | none => .error (.invalidHex code)

/-- The channels of a code, which must be text. -/
def decodeValue : Value → Except Fault (Triple Nat)
  | .text code => decode code
  | _ => .error .noSuchOperation

/-! ### Writing -/

/-- The nearest of the integers from 0 to 255. -/
def clamp (n : Int) : Nat := (min 255 n).toNat

/-- The code of channels, each brought into its range. -/
def encode (rgb : Triple Int) : String :=
  String.ofList ('#' :: rgb.toList.flatMap fun n => Text.hexadecimal 2 (clamp n))

/-- The code of three values, each read as an integer. -/
def encodeValues : List Value → Except Fault String
  | [r, g, b] => do
    let rgb ← (⟨r, g, b⟩ : Triple Value).mapM Value.truncate
    return encode rgb
  | _ => .error .wrongKind

/-! ### Comparison -/

/-- How far two channels are apart. -/
def channelGap (m n : Nat) : Nat := (m : Int) - n |>.natAbs

/-- Whether the channels of two codes differ by no more than a tolerance. -/
def equivalent (a b : Value) (tolerance : Value) : Except Fault Bool := do
  let x ← decodeValue a
  let y ← decodeValue b
  let close := fun (m n : Nat) => Value.le (.int (channelGap m n)) tolerance
  if ← close x.red y.red then
    if ← close x.green y.green then close x.blue y.blue else return false
  else return false

end Dichromat.Hex
