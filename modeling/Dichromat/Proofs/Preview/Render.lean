import Dichromat.Proofs.Color.Simulation
import Dichromat.Proofs.Preview.Image

/-!
# What a preview shows

A preview of two palettes paints the swatches of four rows: the palettes, and as which colours they
are seen. Whichever lawful library of images it is drawn with, they tile its image if the library
makes one that large, and otherwise what the library says is the outcome (`Preview.renderBy_shows`).
In exact arithmetic palettes of whole numbers are always seen as such colours:
`Preview.render_tiles`.
-/

noncomputable section

namespace Dichromat

namespace Preview

variable {ι : Type} {lib : Imaging ι}

/-! ### Rows of swatches -/

theorem paintRow_eq (size : ℕ) (image : ι) (row : ℕ) (colors : List (Triple ℤ)) :
    paintRow lib (.int size) image row (colors.map fun c => .ok c.toList) =
      lib.fillAll image (rowOfSwatches size row colors) := by
  rw [paintRow, List.zipIdx_map, List.foldlM_map, rowOfSwatches, Imaging.fillAll, List.foldlM_map]
  rfl

theorem foldlM_flatMap {α β γ : Type} (f : γ → β → Except Fault γ) (g : α → List β) (xs : List α)
    (init : γ) :
    (xs.flatMap g).foldlM f init = xs.foldlM (fun acc x => (g x).foldlM f acc) init := by
  induction xs generalizing init with
  | nil => rfl
  | cons x xs ih =>
    rw [List.flatMap_cons, List.foldlM_append, List.foldlM_cons]
    exact bind_congr fun acc => ih acc

/-- Rows are painted by filling their swatches one after the other. -/
theorem paintRows_eq (size : ℕ) (image : ι) (rows : List (List (Triple ℤ))) :
    paintRows lib (.int size) image (rows.map fun colors => colors.map fun c => .ok c.toList) =
      lib.fillAll image (swatches size rows) := by
  rw [paintRows, List.zipIdx_map, List.foldlM_map, swatches, Imaging.fillAll, foldlM_flatMap]
  congr
  funext image row
  exact paintRow_eq size image row.2 row.1

/-! ### Previews -/

/-- What is shown of rows of colours, with one colour for each column: an image that they tile, if
the library makes one for them, and otherwise its fault. -/
structure Shows (lib : Imaging ι) (outcome : Except Fault ι) (size columns : ℕ)
    (rows : List (List (Triple ℤ))) : Prop where
  tiles : ∀ blank, lib.new (.int (size * columns : ℕ)) (.int (size * 4 : ℕ)) = .ok blank →
    ∃ image, outcome = .ok image ∧ lib.Tiles blank image size rows
  refused : ∀ e, lib.new (.int (size * columns : ℕ)) (.int (size * 4 : ℕ)) = .error e →
    outcome = .error e

/-- A palette with these whole channels, and as which colours it is seen. -/
structure SeenAs {β : Type} (seen : List β → Except Fault (List (Triple ℤ)))
    (channels : β → Except Fault (List ℤ)) (palette : List β) (colors shown : List (Triple ℤ)) :
    Prop where
  channels : palette.map channels = colors.map fun c => .ok c.toList
  seen : seen palette = .ok shown
  length : shown.length = colors.length
  colors : ∀ c ∈ colors, c.EightBit
  shown : ∀ c ∈ shown, c.EightBit

section RenderBy

variable {β : Type} {seen : List β → Except Fault (List (Triple ℤ))}
  {channels : β → Except Fault (List ℤ)} {original optimized : List β}

theorem renderBy_eq (hlength : original.length = optimized.length) (hne : original ≠ [])
    (size : ℕ) : renderBy lib seen channels original optimized (.int size) = (do
      let shown ← seen original
      let shown' ← seen optimized
      let image ← lib.new (.int (size * original.length : ℕ)) (.int (size * 4 : ℕ))
      paintRows lib (.int size) image
        [original.map channels, shown.map fun c => .ok c.toList, optimized.map channels,
          shown'.map fun c => .ok c.toList]) := by
  rw [renderBy, if_pos hlength, if_neg (mt List.isEmpty_iff.1 hne)]
  rfl

theorem renderBy_shows (hlib : lib.Lawful) {colors colors' shown shown' : List (Triple ℤ)}
    (h : SeenAs seen channels original colors shown)
    (h' : SeenAs seen channels optimized colors' shown') (hne : colors ≠ [])
    (hlength : colors.length = colors'.length) {size : ℕ} (hsize : 0 < size) :
    Shows lib (renderBy lib seen channels original optimized (.int size)) size colors.length
      [colors, shown, colors', shown'] := by
  have horiginal : original.length = colors.length := by
    simpa using congrArg List.length h.channels
  have hoptimized : optimized.length = colors'.length := by
    simpa using congrArg List.length h'.channels
  have hsome : original ≠ [] := by
    rw [← List.length_pos_iff, horiginal, List.length_pos_iff]
    exact hne
  have hrows : ∀ row ∈ [colors, shown, colors', shown'], row.length = colors.length := by
    simp [h.length, h'.length, hlength]
  have hrange : ∀ row ∈ [colors, shown, colors', shown'], ∀ c ∈ row, c.EightBit := by
    simpa using ⟨h.colors, h.shown, h'.colors, h'.shown⟩
  rw [renderBy_eq (horiginal.trans (hlength.trans hoptimized.symm)) hsome, h.seen, h'.seen,
    h.channels, h'.channels, horiginal, ok_bind, ok_bind]
  constructor
  · intro blank hblank
    obtain ⟨image, himage⟩ := hlib.exists_tiles hsize (hlib.size_new hblank) hrows hrange
    rw [hblank, ok_bind]
    exact ⟨image, (paintRows_eq size blank _).trans himage.filled, himage⟩
  · intro e he
    rw [he, error_bind]

end RenderBy

/-! ### Palettes of whole numbers -/

/-- A palette of whole numbers. -/
def wholePalette (α : Type) [Arith α] (colors : List (Triple ℤ)) : Palette α :=
  colors.map fun c => c.toList.map Arith.whole

/-- The same palette as values. -/
def valuePalette (colors : List (Triple ℤ)) : List Value := (wholePalette Value colors).map .list

theorem inRange_wholePalette {colors : List (Triple ℤ)} (h : ∀ c ∈ colors, c.EightBit) :
    (wholePalette ℝ colors).InRange := by
  intro color hcolor
  obtain ⟨c, hc, rfl⟩ := List.mem_map.1 hcolor
  refine ⟨rfl, fun x hx => ?_⟩
  obtain ⟨n, hn, rfl⟩ := List.mem_map.1 hx
  obtain ⟨k, rfl⟩ := Triple.exists_get_of_mem hn
  obtain ⟨hmin, hmax⟩ := h c hc k
  show (0 : ℝ) ≤ (c.get k : ℝ) ∧ (c.get k : ℝ) ≤ 255
  exact ⟨by exact_mod_cast hmin, by exact_mod_cast hmax⟩

theorem mapM_truncate_whole (α : Type) [ColorArith α]
    (htruncate : ∀ n : ℤ, Arith.truncate (Arith.whole n : α) = .ok n) (channels : List ℤ) :
    (channels.map (Arith.whole : ℤ → α)).mapM Arith.truncate = .ok channels :=
  mapM_eq_ok_iff.2 (List.forall₂_map_left_iff.2 (List.forall₂_same.2 fun n _ => htruncate n))

theorem truncate_whole_real (n : ℤ) : Arith.truncate (Arith.whole n : ℝ) = .ok n := by
  show Except.ok (integerPart n) = _
  simp [integerPart]

/-- Palettes of whole numbers from 0 to 255 are seen as such, in exact arithmetic. -/
theorem exists_seenAs (d : Deficiency) {colors : List (Triple ℤ)} (h : ∀ c ∈ colors, c.EightBit) :
    ∃ shown, SeenAs (simulate d) (fun color : List ℝ => color.mapM Arith.truncate)
      (wholePalette ℝ colors) colors shown := by
  obtain ⟨shown, hshown⟩ :=
    exists_forall₂ fun color hcolor => d.exists_shows (inRange_wholePalette h color hcolor)
  refine ⟨shown, ⟨?_, ?_, ?_, h, ?_⟩⟩
  · rw [wholePalette, List.map_map]
    exact List.map_congr_left fun c _ => mapM_truncate_whole ℝ truncate_whole_real c.toList
  · rw [simulate_eq, mapM_eq_ok_iff]
    exact hshown.imp fun _ _ hcolor => hcolor.1
  · rw [← hshown.length_eq, wholePalette, List.length_map]
  · intro c hc
    obtain ⟨_, -, -, hshows⟩ := exists_left_of_mem hshown hc
    exact hshows.range

/-- So are they with floating-point numbers, if these keep to the range. -/
theorem seenAs_values {d : Deficiency} {colors shown : List (Triple ℤ)}
    (h : ∀ c ∈ colors, c.EightBit) (hseen : Palette.simulate d (valuePalette colors) = .ok shown)
    (hshown : ∀ c ∈ shown, c.EightBit) :
    SeenAs (Palette.simulate d) (fun color => do (← color.elements).mapM Value.truncate)
      (valuePalette colors) colors shown := by
  refine ⟨?_, hseen, ?_, h, hshown⟩
  · rw [valuePalette, wholePalette, List.map_map, List.map_map]
    exact List.map_congr_left fun c _ => mapM_truncate_whole Value (fun _ => rfl) c.toList
  · rw [Palette.simulate, outcome_simulateBy, mapM_eq_ok_iff] at hseen
    rw [← hseen.length_eq, valuePalette, wholePalette, List.length_map, List.length_map]

/-- A preview of two palettes of the same length, of whole channels from 0 to 255, has four rows of
swatches that tile its image: the palettes and as which colours they are seen. In exact arithmetic
there always are such colours, with floating-point numbers wherever these keep to the range. Nothing
but an image that the library refuses to make is in the way. -/
theorem render_tiles (hlib : lib.Lawful) {colors colors' : List (Triple ℤ)} (hne : colors ≠ [])
    (hlength : colors.length = colors'.length) (h : ∀ c ∈ colors, c.EightBit)
    (h' : ∀ c ∈ colors', c.EightBit) (d : Deficiency) {size : ℕ} (hsize : 1 ≤ size) :
    (∃ shown shown', simulate d (wholePalette ℝ colors) = .ok shown ∧
      simulate d (wholePalette ℝ colors') = .ok shown' ∧
      Shows lib
        (renderPalettes lib (wholePalette ℝ colors) (wholePalette ℝ colors') d (.int size)) size
        colors.length [colors, shown, colors', shown']) ∧
    ∀ shown shown', Palette.simulate d (valuePalette colors) = .ok shown →
      Palette.simulate d (valuePalette colors') = .ok shown' →
      (∀ c ∈ shown, c.EightBit) → (∀ c ∈ shown', c.EightBit) →
      Shows lib (renderValues lib (valuePalette colors) (valuePalette colors') d (.int size)) size
        colors.length [colors, shown, colors', shown'] := by
  constructor
  · obtain ⟨shown, hseen⟩ := exists_seenAs d h
    obtain ⟨shown', hseen'⟩ := exists_seenAs d h'
    exact ⟨shown, shown', hseen.seen, hseen'.seen,
      renderBy_shows hlib hseen hseen' hne hlength hsize⟩
  · intro shown shown' hseen hseen' hshown hshown'
    exact renderBy_shows hlib (seenAs_values h hseen hshown) (seenAs_values h' hseen' hshown') hne
      hlength hsize

/-- Two swatches of ten points in four rows, drawn with the images of the program; the second one
begins at the eleventh point. -/
theorem render_tiles_ten :
    ∃ blank image shown shown',
      renderPalettes Image.imaging (wholePalette ℝ [⟨255, 0, 0⟩, ⟨0, 255, 0⟩])
        (wholePalette ℝ [⟨250, 0, 0⟩, ⟨0, 120, 255⟩]) .red (.int 10) = .ok image ∧
      Image.imaging.Tiles blank image 10
        [[⟨255, 0, 0⟩, ⟨0, 255, 0⟩], shown, [⟨250, 0, 0⟩, ⟨0, 120, 255⟩], shown'] ∧
      image.width = 20 ∧ image.height = 40 ∧
      (image.pixel 9 0).map Nat.cast = (⟨255, 0, 0⟩ : Triple ℤ) ∧
      (image.pixel 10 0).map Nat.cast = (⟨0, 255, 0⟩ : Triple ℤ) := by
  obtain ⟨⟨shown, shown', -, -, hshows⟩, -⟩ :=
    @render_tiles _ _ Image.lawful_imaging [⟨255, 0, 0⟩, ⟨0, 255, 0⟩]
      [⟨250, 0, 0⟩, ⟨0, 120, 255⟩] (List.cons_ne_nil _ _) rfl (by decide) (by decide) .red 10
      (by decide)
  have hblank : Image.imaging.new (.int (10 * 2 : ℕ)) (.int (10 * 4 : ℕ)) = .ok ⟨20, 40, []⟩ := rfl
  obtain ⟨image, himage, htiles⟩ := hshows.tiles _ hblank
  have hwidth : image.width = 20 := htiles.width _ List.mem_cons_self
  have hheight : image.height = 40 := htiles.height
  have hrow : 0 < image.height := by omega
  exact ⟨_, image, shown, shown', himage, htiles, hwidth, hheight,
    htiles.pixel_eq (by show 9 < image.width; omega) hrow rfl rfl,
    htiles.pixel_eq (by show 10 < image.width; omega) hrow rfl rfl⟩

end Preview

end Dichromat

end
