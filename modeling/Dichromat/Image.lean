import Dichromat.Preview
import Dichromat.Text.Lower

/-!
# Images

The library of images that the program draws with (`Image.imaging`). An image is the list of the
boxes that were filled in it; `Image.pixel` is the colour of the last box over a point.
`Image.place` tells where an image is saved, if its format can be written.
-/

namespace Dichromat

/-- An image by what was filled in it. -/
structure Image where
  width : Nat
  height : Nat
  /-- The boxes in the order in which they were filled, with their colours. -/
  boxes : List (Box Int × Triple Nat)

namespace Image

/-! ### Drawing -/

/-- A side of an image, a whole number of 32 bits. -/
def sideOf : Value → Except Fault Nat
  | .int n => if n < twoTo 31 then .ok n.toNat else .error .overflow
  | _ => .error .wrongKind

/-- An image with nothing in it. -/
def ofSides (width height : Value) : Except Fault Image := do
  if ← Value.lt width (.int 0) then throw .negativeSize
  if ← Value.lt height (.int 0) then throw .negativeSize
  return { width := ← sideOf width, height := ← sideOf height, boxes := [] }

/-- Whether a number has `bits` bits with its sign. -/
def fits (bits : Nat) (n : Int) : Bool := -(twoTo (bits - 1) : Int) ≤ n && n < twoTo (bits - 1)

/-- The channels of a colour to fill with: three, or four of which the last does not count. The
first may have 64 bits, the others 32. -/
def colorOf (channels : List Int) : Except Fault (Triple Int) :=
  match channels with
  | red :: green :: blue :: rest => do
    unless rest.length ≤ 1 do throw .wrongKind
    unless fits 64 red && (green :: blue :: rest).all (fits 32) do throw .overflow
    return ⟨red, green, blue⟩
  | _ => .error .wrongKind

/-- A box whose sides are whole numbers. -/
def boxOf : Box Value → Except Fault (Box Int)
  | ⟨.int left, .int top, .int right, .int bottom⟩ => .ok ⟨left, top, right, bottom⟩
  | _ => .error .wrongKind

/-- Fills a box with each channel brought into 0 to 255. -/
def fill (image : Image) (box : Box Value) (channels : List Int) : Except Fault Image := do
  let color ← colorOf channels
  let box ← boxOf box
  if box.right < box.left ∨ box.bottom < box.top then throw .emptyBox
  let color := color.map fun n => (min 255 n).toNat
  return { image with boxes := image.boxes ++ [(box, color)] }

/-- The colour of the topmost box over a point, the last filled first; black where there is
none. -/
def colorAt (topmost : List (Box Int × Triple Nat)) (x y : Int) : Triple Nat :=
  match topmost.find? fun entry => entry.1.contains x y with
  | some entry => entry.2
  | none => ⟨0, 0, 0⟩

/-- The colour of a point. -/
def pixel (image : Image) (x y : Nat) : Triple Nat := colorAt image.boxes.reverse x y

/-- The colours of a row of points. -/
def row (image : Image) (y : Nat) : List (Triple Nat) :=
  let topmost := image.boxes.reverse.filter fun entry =>
    entry.1.top ≤ (y : Int) && (y : Int) ≤ entry.1.bottom
  (List.range image.width).map fun (x : Nat) => colorAt topmost x y

/-! ### Files -/

/-- The end of a file name from its last point on in lower case, if something else than points
stands before it. -/
def extension (path : String) : String :=
  let name := (FileTree.split path).2.toList
  let behind := name.reverse.takeWhile (· ≠ '.')
  let before := name.take (name.length - behind.length - 1)
  if behind.length = name.length ∨ before.all (· = '.') then ""
  else Text.lower (String.ofList ('.' :: behind.reverse))

/-- What becomes of an image that is saved in a format. -/
inductive Encoding
  | written
  /-- Written with the name of the file, which must be ASCII. -/
  | titled
  /-- Refused once the file is open. -/
  | refused (fault : Fault)
  /-- The format can only be read. -/
  | readOnly
  deriving DecidableEq

/-- The extensions of all image formats. -/
def formats : List (List String × Encoding) :=
  [([".png", ".apng", ".bmp", ".dib", ".gif", ".jpg", ".jpeg", ".jpe", ".jfif", ".pbm", ".pgm",
      ".ppm", ".pnm", ".pfm", ".jp2", ".j2k", ".jpc", ".jpf", ".jpx", ".j2c", ".mpo", ".qoi",
      ".tif", ".tiff", ".webp", ".avif", ".avifs", ".dds", ".eps", ".ps", ".icns", ".ico", ".pcx",
      ".pdf", ".sgi", ".rgb", ".rgba", ".bw", ".tga", ".icb", ".vda", ".vst"], .written),
    ([".im"], .titled),
    ([".blp"], .refused (.imageModeRefused "BLP")),
    ([".bufr", ".grib", ".h5", ".hdf", ".wmf", ".emf", ".msp", ".palm", ".xbm"],
      .refused .fileRefused),
    ([".psd", ".cur", ".dcx", ".fit", ".fits", ".fli", ".flc", ".ftc", ".ftu", ".gbr", ".iim",
      ".mpg", ".mpeg", ".pcd", ".pxr", ".ras", ".xpm"], .readOnly)]

/-- What becomes of an image in the format of an extension, if there is one. -/
def encodingOf? (extension : String) : Option Encoding :=
  (formats.find? fun entry => entry.1.contains extension).map Prod.snd

/-- The file that is opened to save an image at a path. -/
private def opened (t : FileTree) (path : String) : Except Fault (List String) :=
  match t.lookup path with
  | .found place (.file _) | .absent place => .ok place
  | .found _ .directory => .error .isADirectory
  | .refused e => .error e

/-- The part of a file name that is written into a titled image. -/
private def title (path : String) : List Char := (FileTree.split path).2.toList.take 89

/-- Where an image is saved that is written to a path. -/
def place (t : FileTree) (path : String) : Except Fault (List String) := do
  let some encoding := encodingOf? (extension path)
    | .error (.unknownImageFormat (extension path))
  if encoding = .readOnly then throw .noSuchKey
  let place ← opened t path
  match encoding with
  | .refused e => throw e
  | .titled => if (title path).all fun c => c.toNat < 128 then return place else throw .notAscii
  | _ => return place

/-! ### The library -/

/-- The library of images that the program draws with. -/
def imaging : Imaging Image where
  new := ofSides
  fill := fill
  size image := (image.width, image.height)
  pixel image x y := (image.pixel x y).map Int.ofNat
  save _ t path := place t path

end Image

/-- The preview that the program draws. -/
def Preview.render (original optimized : List Value) (d : Deficiency) (size : Value) :
    Except Fault Image :=
  renderValues Image.imaging original optimized d size

end Dichromat
