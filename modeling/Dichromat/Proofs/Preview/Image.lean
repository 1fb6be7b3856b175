import Dichromat.Image
import Dichromat.Proofs.Counting
import Dichromat.Proofs.Preview.Tiles

/-!
# The images of the program

A point of an image has the colour of the last box over it. So the library of images that the
program draws with keeps what `Imaging.Lawful` promises (`Image.lawful_imaging`), and a row of an
image is what its points are (`Image.row_eq`).
-/

namespace Dichromat

namespace Image

/-! ### Sides -/

theorem sideOf_eq_ok {n side : ℕ} (h : sideOf (.int n) = .ok side) : side = n := by
  rw [sideOf] at h
  split_ifs at h
  exact (Except.ok.inj h).symm

theorem ofSides_natCast (width height : ℕ) : ofSides (.int width) (.int height) = (do
    return { width := ← sideOf (.int width), height := ← sideOf (.int height), boxes := [] }) := by
  have hlt (n : ℕ) : Value.lt (.int n) (.int 0) = .ok false :=
    (Value.lt_int n 0).trans (congrArg Except.ok (decide_eq_false n.cast_nonneg.not_gt))
  rw [ofSides, hlt, hlt, ok_bind, if_neg Bool.false_ne_true, ok_bind, if_neg Bool.false_ne_true]

theorem size_ofSides {width height : ℕ} {image : Image}
    (h : ofSides (.int width) (.int height) = .ok image) :
    (image.width, image.height) = (width, height) := by
  rw [ofSides_natCast] at h
  obtain ⟨width', hwidth, h⟩ := bind_eq_ok.1 h
  obtain ⟨height', hheight, h⟩ := bind_eq_ok.1 h
  obtain rfl := pure_eq_ok.1 h
  rw [sideOf_eq_ok hwidth, sideOf_eq_ok hheight]

/-! ### Points -/

theorem colorAt_cons (box : Box ℤ) (color : Triple ℕ) (topmost : List (Box ℤ × Triple ℕ))
    (x y : ℤ) : colorAt ((box, color) :: topmost) x y =
      if box.contains x y then color else colorAt topmost x y := by
  rw [colorAt, List.find?_cons]
  cases box.contains x y <;> rfl

/-- Boxes that are not over a row do not matter for its points. -/
theorem row_eq (image : Image) (y : ℕ) :
    image.row y = (List.range image.width).map fun x => image.pixel x y := by
  refine List.map_congr_left fun x _ => ?_
  have hacross (entry : Box ℤ × Triple ℕ) (h : entry.1.contains x y = true) :
      (entry.1.top ≤ (y : ℤ) && (y : ℤ) ≤ entry.1.bottom) = true := by
    have hdown := (Box.contains_iff.1 h).2
    simpa using hdown
  have hfind : (image.boxes.reverse.filter fun entry =>
      entry.1.top ≤ (y : ℤ) && (y : ℤ) ≤ entry.1.bottom).find? (fun entry => entry.1.contains x y) =
        image.boxes.reverse.find? fun entry => entry.1.contains x y := by
    rw [List.find?_filter]
    exact congrArg (List.find? · image.boxes.reverse) <| funext fun entry =>
      Bool.eq_iff_iff.2 (decide_eq_true_iff.trans (and_iff_right_of_imp (hacross entry)))
  rw [pixel, colorAt, hfind, colorAt]

/-! ### Filling -/

theorem fits_iff {bits : ℕ} {n : ℤ} :
    fits bits n = true ↔ -(twoTo (bits - 1) : ℤ) ≤ n ∧ n < twoTo (bits - 1) := by
  simp [fits]

theorem colorOf_toList {c : Triple ℤ} (h : c.EightBit) : colorOf c.toList = .ok c := by
  have hlow : (twoTo (32 - 1) : ℤ) = 2147483648 := rfl
  have hhigh : (twoTo (64 - 1) : ℤ) = 9223372036854775808 := rfl
  have hfits (k : Channel) : fits 64 (c.get k) = true ∧ fits 32 (c.get k) = true := by
    obtain ⟨hmin, hmax⟩ := h k
    rw [fits_iff, fits_iff]
    omega
  have hred : fits 64 c.red = true := (hfits .red).1
  have hgreen : fits 32 c.green = true := (hfits .green).2
  have hblue : fits 32 c.blue = true := (hfits .blue).2
  simp [colorOf, Triple.toList, hred, hgreen, hblue, pure, Except.pure]

/-- Channels of eight bits are kept as they are. -/
theorem cast_clamp {c : Triple ℤ} (h : c.EightBit) :
    (c.map fun n => (min 255 n).toNat).map Int.ofNat = c := by
  have hkept (k : Channel) : Int.ofNat (min 255 (c.get k)).toNat = c.get k := by
    obtain ⟨hmin, hmax⟩ := h k
    rw [min_eq_right hmax]
    exact Int.toNat_of_nonneg hmin
  exact Triple.ext_get (Channel.rec (hkept .red) (hkept .green) (hkept .blue))

theorem fill_eq (image : Image) {box : Box ℤ} (hacross : box.left ≤ box.right)
    (hdown : box.top ≤ box.bottom) {c : Triple ℤ} (hc : c.EightBit) :
    image.fill (box.map .int) c.toList =
      .ok { image with
        boxes := image.boxes ++ [(box, c.map fun n => (min 255 n).toNat)] } := by
  have hsome : ¬ (box.right < box.left ∨ box.bottom < box.top) := by omega
  rw [fill, colorOf_toList hc, ok_bind]
  show (if box.right < box.left ∨ box.bottom < box.top then _ else _) = _
  rw [if_neg hsome]
  rfl

/-- The program's images keep what a library promises. -/
theorem lawful_imaging : imaging.Lawful where
  size_new := size_ofSides
  fill image box color hbox hcolor := by
    refine ⟨_, image.fill_eq hbox.across hbox.down hcolor, rfl, fun x _ y _ => ?_⟩
    simp only [imaging, pixel, List.reverse_append, List.reverse_singleton, List.singleton_append,
      colorAt_cons]
    split_ifs
    · exact cast_clamp hcolor
    · rfl

end Image

end Dichromat
