import Dichromat.Image

/-!
# PNG files

`Png.encode` writes an image as a PNG file: eight bits for each channel, rows without a filter, and
data that are stored as they are, in blocks that need no compression.
-/

namespace Dichromat.Png

/-- The bytes of a file. -/
abbrev Bytes := List UInt8

/-- The lowest bytes of a number, the lowest first. -/
def lowBytes : Nat → Nat → Bytes
  | 0, _ => []
  | count + 1, n => n.toUInt8 :: lowBytes count (n / 256)

/-- A number as four bytes, the highest first. -/
def word (n : Nat) : Bytes := (lowBytes 4 n).reverse

/-! ### Checksums -/

/-- A remainder moved down by one bit, modulo the polynomial of the format. -/
def shift (c : UInt32) : UInt32 :=
  if c &&& 1 = 1 then (c >>> 1) ^^^ 0xEDB88320 else c >>> 1

/-- The cyclic redundancy check of a chunk. -/
def checksum (bytes : Bytes) : UInt32 :=
  ~~~ bytes.foldl (fun c byte => Nat.repeat shift 8 (c ^^^ byte.toUInt32)) 0xFFFFFFFF

/-- The two sums of the data, of the bytes and of the sums on the way. -/
def dataSums (bytes : Bytes) : Nat × Nat :=
  bytes.foldl
    (fun (a, b) byte =>
      let a := (a + byte.toNat) % 65521
      (a, (b + a) % 65521))
    (1, 0)

/-! ### Chunks -/

/-- A part of a file with its kind, its length and its checksum. -/
def chunk (kind : String) (content : Bytes) : Bytes :=
  let body := kind.toUTF8.toList ++ content
  word content.length ++ body ++ word (checksum body).toNat

/-- Data in blocks of at most 65535 bytes; the last one is marked. -/
def storedBlocks (data : Bytes) : Bytes :=
  let block := data.take 65535
  let rest := data.drop 65535
  let header := lowBytes 2 block.length ++ lowBytes 2 (65535 - block.length)
  if rest = [] then 1 :: header ++ block
  else 0 :: header ++ block ++ storedBlocks rest
termination_by data.length
decreasing_by
  have : rest.length ≠ 0 := mt List.eq_nil_of_length_eq_zero ‹_›
  simp only [rest, List.length_drop] at this ⊢
  omega

/-- A stream of stored data. -/
def stream (data : Bytes) : Bytes :=
  let (a, b) := dataSums data
  0x78 :: 0x01 :: storedBlocks data ++ word (b * 65536 + a)

/-- The size of an image, with eight bits for each of three channels. -/
def header (image : Image) : Bytes :=
  word image.width ++ word image.height ++ [8, 2, 0, 0, 0]

/-- A row of points behind the mark that it has no filter. -/
def scanline (image : Image) (y : Nat) : Bytes :=
  0 :: (image.row y).flatMap fun color => color.toList.map Nat.toUInt8

/-- The file of an image. -/
def encode (image : Image) : Bytes :=
  let data := (List.range image.height).flatMap (scanline image)
  [0x89, 0x50, 0x4E, 0x47, 0x0D, 0x0A, 0x1A, 0x0A] ++ chunk "IHDR" (header image) ++
    chunk "IDAT" (stream data) ++ chunk "IEND" []

end Dichromat.Png
