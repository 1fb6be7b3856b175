import Dichromat.FileTree
import Dichromat.Palette

/-!
# Previews

A preview shows four rows of square swatches: the original palette, what a dichromat sees of it,
the optimized palette, and what a dichromat sees of that. It is drawn with a library of images, of
which only the operations are given here (`Imaging`): the swatches are filled one after the other.
-/

namespace Dichromat

/-! ### Libraries of images -/

/-- A rectangle given by its sides, which belong to it. -/
structure Box (α : Type) where
  left : α
  top : α
  right : α
  bottom : α
  deriving DecidableEq, Repr

namespace Box

variable {α β : Type}

/-- The box with other names for its sides. -/
def map (f : α → β) (b : Box α) : Box β := ⟨f b.left, f b.top, f b.right, f b.bottom⟩

/-- Whether a point lies in a box. -/
def contains (b : Box Int) (x y : Int) : Bool :=
  b.left ≤ x && x ≤ b.right && b.top ≤ y && y ≤ b.bottom

end Box

/-- The operations of a library of images. -/
structure Imaging (ι : Type) where
  /-- A new image of a width and a height. -/
  new : Value → Value → Except Fault ι
  /-- Fills a box with a colour that is given by its channels. -/
  fill : ι → Box Value → List Int → Except Fault ι
  /-- The width and the height of an image. -/
  size : ι → Nat × Nat
  /-- The colour of a point in a column and a row. -/
  pixel : ι → Nat → Nat → Triple Int
  /-- Saves an image to a path among some files, with the place where it is then. -/
  save : ι → FileTree → String → Except Fault (List String)

namespace Preview

/-! ### Swatches -/

variable {ι : Type}

/-- The box of the swatch in a column and a row. -/
def swatch (size : Value) (column row : Nat) : Except Fault (Box Value) := do
  let left ← Value.mul (.int column) size
  let top ← Value.mul (.int row) size
  let right ← Value.sub (← Value.mul (.int (column + 1)) size) (.int 1)
  let bottom ← Value.sub (← Value.mul (.int (row + 1)) size) (.int 1)
  return { left, top, right, bottom }

/-- Fills the swatches of a row, each once its channels are found. -/
def paintRow (lib : Imaging ι) (size : Value) (image : ι) (row : Nat)
    (colors : List (Except Fault (List Int))) : Except Fault ι :=
  colors.zipIdx.foldlM
    (fun image (channels, column) => do
      let box ← swatch size column row
      lib.fill image box (← channels))
    image

/-- Fills rows of swatches one below the other. -/
def paintRows (lib : Imaging ι) (size : Value) (image : ι)
    (rows : List (List (Except Fault (List Int)))) : Except Fault ι :=
  rows.zipIdx.foldlM (fun image (colors, row) => paintRow lib size image row colors) image

/-! ### Palettes -/

/-- The preview of two palettes whose colours have these `channels` and are `seen` like this, with
swatches of a size in points. -/
def renderBy {β : Type} (lib : Imaging ι) (seen : List β → Except Fault (List (Triple Int)))
    (channels : β → Except Fault (List Int)) (original optimized : List β) (size : Value) :
    Except Fault ι := do
  unless original.length = optimized.length do
    throw (.paletteLengths original.length optimized.length)
  if original.isEmpty then throw .emptyPreview
  let originalSeen ← seen original
  let optimizedSeen ← seen optimized
  let width ← Value.mul size (.int original.length)
  let height ← Value.mul size (.int 4)
  let image ← lib.new width height
  let plain (colors : List (Triple Int)) := colors.map fun c => .ok c.toList
  paintRows lib size image
    [original.map channels, plain originalSeen, optimized.map channels, plain optimizedSeen]

/-- The preview of two palettes whose colours are lists of channels. -/
def renderPalettes {α : Type} [ColorArith α] (lib : Imaging ι) (original optimized : Palette α)
    (d : Deficiency) (size : Value) : Except Fault ι :=
  renderBy lib (simulate d) (fun color => color.mapM Arith.truncate) original optimized size

/-- The preview of two palettes of any shape. -/
def renderValues (lib : Imaging ι) (original optimized : List Value) (d : Deficiency)
    (size : Value) : Except Fault ι :=
  renderBy lib (Palette.simulate d) (fun color => do (← color.elements).mapM Value.truncate)
    original optimized size

end Preview

end Dichromat
