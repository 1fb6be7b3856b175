import Mathlib.Tactic.Linarith
import Mathlib.Tactic.Positivity
import Mathlib.Tactic.Ring
import Dichromat.Preview
import Dichromat.Proofs.Outcome

/-!
# Swatches that tile an image

What is known of a library of images is that a box that is filled has its colour up to both corners,
and that nothing else changes (`Imaging.Lawful`). So a point has the colour of the last box over it
(`Imaging.Lawful.fillAll`). A swatch holds the points whose quotients by its size are its column and
its row (`Box.contains_swatch_iff`); of all swatches of some rows only one holds a point
(`Preview.boxesAt_swatches`), and filled one after the other they tile the image
(`Imaging.Lawful.exists_tiles`).
-/

namespace Dichromat

/-! ### Boxes -/

namespace Box

theorem contains_iff {b : Box ℤ} {x y : ℤ} : b.contains x y = true ↔
    (b.left ≤ x ∧ x ≤ b.right) ∧ b.top ≤ y ∧ y ≤ b.bottom := by
  simp only [contains, Bool.and_eq_true, decide_eq_true_eq, and_assoc]

/-- A box with points, all of them in an image of some width and height. -/
structure Inside (b : Box ℤ) (size : ℕ × ℕ) : Prop where
  left : 0 ≤ b.left
  across : b.left ≤ b.right
  right : b.right < size.1
  top : 0 ≤ b.top
  down : b.top ≤ b.bottom
  bottom : b.bottom < size.2

/-- The swatch in a column and a row. -/
def swatch (size column row : ℕ) : Box ℤ where
  left := column * size
  top := row * size
  right := (column + 1) * size - 1
  bottom := (row + 1) * size - 1

variable {size : ℕ} (hsize : 0 < size)
include hsize

/-- A swatch holds the points of its column and its row. -/
theorem contains_swatch_iff {column row x y : ℕ} :
    (swatch size column row).contains x y = true ↔ x / size = column ∧ y / size = row := by
  have hside (n place : ℕ) : ((place * size : ℤ) ≤ n ∧ (n : ℤ) ≤ (place + 1) * size - 1) ↔
      n / size = place := by
    rw [Nat.div_eq_iff hsize]
    have hnext : ((place : ℤ) + 1) * size = place * size + size := by ring
    have hcast : ((place * size : ℕ) : ℤ) = place * size := Nat.cast_mul ..
    omega
  rw [← hside, ← hside]
  exact contains_iff

theorem inside_swatch {column columns row rows : ℕ} (hcolumn : column < columns)
    (hrow : row < rows) : (swatch size column row).Inside (size * columns, size * rows) := by
  have hend {place places : ℕ} (hplace : place < places) :
      ((place : ℤ) + 1) * size ≤ (size * places : ℕ) := by
    rw [Nat.mul_comm]
    exact_mod_cast Nat.mul_le_mul_right size hplace
  have hstart (place : ℕ) : (0 : ℤ) ≤ place * size := by positivity
  have hnext (place : ℕ) : (place : ℤ) * size ≤ (place + 1) * size - 1 := by nlinarith
  have hbefore (n : ℤ) : n - 1 < n := Int.sub_lt_self n Int.one_pos
  exact ⟨hstart column, hnext column, (hbefore _).trans_le (hend hcolumn), hstart row, hnext row,
    (hbefore _).trans_le (hend hrow)⟩

end Box

/-! ### Colours -/

namespace Triple

/-- Whole channels of eight bits, from 0 to 255. -/
def EightBit (c : Triple ℤ) : Prop := ∀ k, 0 ≤ c.get k ∧ c.get k ≤ 255

theorem eightBit_iff {c : Triple ℤ} : c.EightBit ↔ ∀ n ∈ c.toList, 0 ≤ n ∧ n ≤ 255 := by
  simp only [toList, List.forall_mem_cons, List.not_mem_nil, false_imp_iff, implies_true, and_true]
  constructor
  · intro h
    exact ⟨h .red, h .green, h .blue⟩
  · rintro ⟨hr, hg, hb⟩
    exact Channel.rec hr hg hb

instance (c : Triple ℤ) : Decidable c.EightBit := decidable_of_iff _ eightBit_iff.symm

end Triple

/-! ### Swatches -/

namespace Preview

/-- The boxes over a point, with their colours. -/
def boxesAt (fills : List (Box ℤ × Triple ℤ)) (x y : ℕ) : List (Box ℤ × Triple ℤ) :=
  fills.filter fun entry => entry.1.contains x y

/-- The swatches of some colours side by side, in a row. -/
def rowOfSwatches (size row : ℕ) (colors : List (Triple ℤ)) : List (Box ℤ × Triple ℤ) :=
  colors.zipIdx.map fun (color, column) => (Box.swatch size column row, color)

/-- The swatches of rows of colours one below the other. -/
def swatches (size : ℕ) (rows : List (List (Triple ℤ))) : List (Box ℤ × Triple ℤ) :=
  rows.zipIdx.flatMap fun (colors, row) => rowOfSwatches size row colors

/-- What the elements of a list at their places contribute, where only one place contributes any. -/
theorem filter_flatMap_zipIdx {β γ : Type} {xs : List β} {g : β × ℕ → List γ} {p : γ → Bool}
    {place : ℕ} {x : β} (hx : xs[place]? = some x)
    (h : ∀ y i, i ≠ place → (g (y, i)).filter p = []) :
    (xs.zipIdx.flatMap g).filter p = (g (x, place)).filter p := by
  have hnil {entries : List (β × ℕ)} (hentries : ∀ entry ∈ entries, entry.2 ≠ place) :
      (entries.flatMap g).filter p = [] := by
    rw [List.filter_flatMap, List.flatMap_eq_nil_iff]
    exact fun (y, i) hmem => h y i (hentries _ hmem)
  obtain ⟨hplace, rfl⟩ := List.getElem?_eq_some_iff.1 hx
  -- neither the places before nor those behind contribute any
  have hsplit : xs = xs.take place ++ xs[place] :: xs.drop (place + 1) := by simp
  have hlength : (xs.take place).length = place := List.length_take_of_le hplace.le
  have hbefore : ∀ entry ∈ (xs.take place).zipIdx, entry.2 ≠ place := by
    rintro ⟨y, i⟩ hmem
    have hlt := (List.mem_zipIdx hmem).2.1
    omega
  have hafter : ∀ entry ∈ (xs.drop (place + 1)).zipIdx (0 + place + 1), entry.2 ≠ place := by
    rintro ⟨y, i⟩ hmem
    have hle := (List.mem_zipIdx hmem).1
    omega
  conv_lhs => rw [hsplit, List.zipIdx_append, List.zipIdx_cons, hlength]
  rw [List.flatMap_append, List.filter_append, hnil hbefore, List.flatMap_cons, List.filter_append,
    hnil hafter, List.nil_append, List.append_nil, Nat.zero_add]

variable {size : ℕ} {rows : List (List (Triple ℤ))}

theorem mem_swatches {entry : Box ℤ × Triple ℤ} (h : entry ∈ swatches size rows) :
    ∃ colors ∈ rows, ∃ column < colors.length, ∃ row < rows.length,
      entry.1 = Box.swatch size column row ∧ entry.2 ∈ colors := by
  obtain ⟨⟨colors, row⟩, hrow, hentry⟩ := List.mem_flatMap.1 h
  obtain ⟨⟨c, column⟩, hcolumn, rfl⟩ := List.mem_map.1 hentry
  exact ⟨colors, List.fst_mem_of_mem_zipIdx hrow, column,
    (List.getElem?_eq_some_iff.1 (List.mem_zipIdx_iff_getElem?.1 hcolumn)).1, row,
    (List.getElem?_eq_some_iff.1 (List.mem_zipIdx_iff_getElem?.1 hrow)).1, rfl,
    List.fst_mem_of_mem_zipIdx hcolumn⟩

variable (hsize : 0 < size)
include hsize

theorem boxesAt_rowOfSwatches {x y : ℕ} {colors : List (Triple ℤ)} {color : Triple ℤ}
    (hcolor : colors[x / size]? = some color) :
    boxesAt (rowOfSwatches size (y / size) colors) x y =
      [(Box.swatch size (x / size) (y / size), color)] := by
  rw [boxesAt, rowOfSwatches, List.map_eq_flatMap, filter_flatMap_zipIdx hcolor]
  · exact List.filter_cons_of_pos ((Box.contains_swatch_iff hsize).2 ⟨rfl, rfl⟩)
  · intro c column hcolumn
    exact List.filter_cons_of_neg fun h => hcolumn ((Box.contains_swatch_iff hsize).1 h).1.symm

/-- Of all swatches only the one in its column and row holds a point. -/
theorem boxesAt_swatches {x y : ℕ} {colors : List (Triple ℤ)} {color : Triple ℤ}
    (hcolors : rows[y / size]? = some colors) (hcolor : colors[x / size]? = some color) :
    boxesAt (swatches size rows) x y = [(Box.swatch size (x / size) (y / size), color)] := by
  rw [boxesAt, swatches, filter_flatMap_zipIdx hcolors]
  · exact boxesAt_rowOfSwatches hsize hcolor
  · intro colors row hrow
    refine List.filter_eq_nil_iff.2 fun entry hentry h => ?_
    obtain ⟨⟨c, column⟩, -, rfl⟩ := List.mem_map.1 hentry
    exact hrow ((Box.contains_swatch_iff hsize).1 h).2.symm

end Preview

/-! ### Filling -/

namespace Imaging

open Preview (boxesAt swatches)

variable {ι : Type}

/-- What a library of images promises of the images that it makes. -/
structure Lawful (lib : Imaging ι) : Prop where
  /-- A new image is as wide and as high as was asked for. -/
  size_new : ∀ {width height : ℕ} {image : ι},
    lib.new (.int width) (.int height) = .ok image → lib.size image = (width, height)
  /-- A box of an image can be filled. The image keeps its size; the points of the box, both corners
  included, have the colour, and all others the one that they had. -/
  fill : ∀ (image : ι) (box : Box ℤ) (color : Triple ℤ), box.Inside (lib.size image) →
    color.EightBit → ∃ filled, lib.fill image (box.map .int) color.toList = .ok filled ∧
      lib.size filled = lib.size image ∧
      ∀ x < (lib.size image).1, ∀ y < (lib.size image).2,
        lib.pixel filled x y = if box.contains x y then color else lib.pixel image x y

/-- Fills boxes one after the other. -/
def fillAll (lib : Imaging ι) (image : ι) (fills : List (Box ℤ × Triple ℤ)) : Except Fault ι :=
  fills.foldlM (fun image entry => lib.fill image (entry.1.map .int) entry.2.toList) image

/-- Boxes of an image can be filled one after the other; then a point has the colour of the last
one over it. -/
theorem Lawful.fillAll {lib : Imaging ι} (hlib : lib.Lawful) {fills : List (Box ℤ × Triple ℤ)}
    {image : ι} (h : ∀ entry ∈ fills, entry.1.Inside (lib.size image) ∧ entry.2.EightBit) :
    ∃ filled, lib.fillAll image fills = .ok filled ∧ lib.size filled = lib.size image ∧
      ∀ x < (lib.size image).1, ∀ y < (lib.size image).2, lib.pixel filled x y =
        ((boxesAt fills x y).getLast?.map Prod.snd).getD (lib.pixel image x y) := by
  induction fills generalizing image with
  | nil => exact ⟨image, rfl, rfl, fun x _ y _ => rfl⟩
  | cons entry fills ih =>
    obtain ⟨⟨hinside, hcolor⟩, hfills⟩ := List.forall_mem_cons.1 h
    obtain ⟨next, hnext, hsize, hpixel⟩ := hlib.fill image entry.1 entry.2 hinside hcolor
    obtain ⟨filled, hfilled, hsize', hpixel'⟩ := ih fun other hother => hsize ▸ hfills other hother
    refine ⟨filled, ?_, hsize'.trans hsize, fun x hx y hy => ?_⟩
    · rw [Imaging.fillAll, List.foldlM_cons, hnext]
      exact hfilled
    · rw [hpixel' x (hsize ▸ hx) y (hsize ▸ hy), hpixel x hx y hy, boxesAt, boxesAt,
        List.filter_cons]
      by_cases hcontains : entry.1.contains x y = true
      · rw [if_pos hcontains, if_pos hcontains, List.getLast?_cons]
        cases (fills.filter fun entry => entry.1.contains x y).getLast? <;> rfl
      · rw [if_neg hcontains, if_neg hcontains]

/-- An image that is made of a blank one and has the swatches of rows of colours: each of its points
lies in the swatch of its column and row and in no other one, and has its colour; and no swatch
reaches beyond the image. -/
structure Tiles (lib : Imaging ι) (blank image : ι) (size : ℕ) (rows : List (List (Triple ℤ))) :
    Prop where
  width : ∀ colors ∈ rows, (lib.size image).1 = size * colors.length
  height : (lib.size image).2 = size * rows.length
  filled : lib.fillAll blank (swatches size rows) = .ok image
  inside : ∀ entry ∈ swatches size rows, entry.1.Inside (lib.size image)
  point : ∀ x < (lib.size image).1, ∀ y < (lib.size image).2, ∃ colors color,
    rows[y / size]? = some colors ∧ colors[x / size]? = some color ∧
      boxesAt (swatches size rows) x y = [(Box.swatch size (x / size) (y / size), color)] ∧
      lib.pixel image x y = color

theorem Tiles.pixel_eq {lib : Imaging ι} {blank image : ι} {size : ℕ}
    {rows : List (List (Triple ℤ))} (h : lib.Tiles blank image size rows) {x y : ℕ}
    (hx : x < (lib.size image).1) (hy : y < (lib.size image).2) {colors : List (Triple ℤ)}
    {color : Triple ℤ} (hcolors : rows[y / size]? = some colors)
    (hcolor : colors[x / size]? = some color) : lib.pixel image x y = color := by
  obtain ⟨colors', color', hcolors', hcolor', -, hpixel⟩ := h.point x hx y hy
  obtain rfl := Option.some.inj (hcolors.symm.trans hcolors')
  obtain rfl := Option.some.inj (hcolor.symm.trans hcolor')
  exact hpixel

/-- The swatches of rows of the same length tile an image as wide and as high as they are. -/
theorem Lawful.exists_tiles {lib : Imaging ι} (hlib : lib.Lawful) {blank : ι} {size : ℕ}
    (hsize : 0 < size) {rows : List (List (Triple ℤ))} {columns : ℕ}
    (hblank : lib.size blank = (size * columns, size * rows.length))
    (hcolumns : ∀ colors ∈ rows, colors.length = columns)
    (hrange : ∀ colors ∈ rows, ∀ c ∈ colors, c.EightBit) :
    ∃ image, lib.Tiles blank image size rows := by
  have hinside : ∀ entry ∈ swatches size rows,
      entry.1.Inside (lib.size blank) ∧ entry.2.EightBit := by
    intro entry hentry
    obtain ⟨colors, hcolors, column, hcolumn, row, hrow, hbox, hcolor⟩ :=
      Preview.mem_swatches hentry
    rw [hbox, hblank]
    exact ⟨Box.inside_swatch hsize (hcolumns colors hcolors ▸ hcolumn) hrow,
      hrange colors hcolors _ hcolor⟩
  obtain ⟨image, himage, hsame, hpixel⟩ := hlib.fillAll hinside
  refine ⟨image, fun colors hcolors => ?_, ?_, himage, fun entry hentry => ?_,
    fun x hx y hy => ?_⟩
  · rw [hsame, hblank, hcolumns colors hcolors]
  · rw [hsame, hblank]
  · rw [hsame]
    exact (hinside entry hentry).1
  · rw [hsame] at hx hy
    have hpoint := hpixel x hx y hy
    rw [hblank] at hx hy
    have hrow : y / size < rows.length := Nat.div_lt_of_lt_mul hy
    have hcolumn : x / size < rows[y / size].length :=
      hcolumns _ (List.getElem_mem hrow) ▸ Nat.div_lt_of_lt_mul hx
    have hcolors := List.getElem?_eq_getElem hrow
    have hcolor := List.getElem?_eq_getElem hcolumn
    have hboxes := Preview.boxesAt_swatches hsize hcolors hcolor
    exact ⟨_, _, hcolors, hcolor, hboxes, by rw [hpoint, hboxes]; rfl⟩

end Imaging

end Dichromat
