import Dichromat.Proofs.Color.Dichromacy
import Dichromat.Proofs.Color.Gamma
import Dichromat.Proofs.Exact.Input

/-!
# Simulated palettes

All colours of a simulated palette go through one scratch buffer. Writing the light of a colour
overwrites the whole buffer and reads nothing that an earlier colour left there
(`apply_writeLight`), so a colour is simulated as if it were alone (`outcome_simulateColor`). The
light is brought into the range of RGB before it is encoded, and is then the light that a projector
keeps: `simulate_agrees_with_projector`.
-/

noncomputable section

namespace Dichromat

open Update

/-! ### The scratch buffer -/

section Scratch

variable {α : Type}

theorem apply_writeChannel (k : Channel) (formula : Triple α → Calc α) (out : Triple α) :
    (writeChannel k formula).apply out = formula out >>= fun x => .ok (out.set k x) := by
  simp only [apply, writeChannel, runOn_bind, runOn_get, runOn_liftM]
  rcases formula out with _ | x <;> rfl

/-- Channels that are each written from themselves alone. -/
theorem apply_writeChannels (f : Channel → α → Calc α) (out : Triple α) :
    Update.apply (Channel.all.forM fun k => writeChannel k fun out => f k (out.get k)) out =
      Triple.ofTerms fun k => f k (out.get k) := by
  have hcons (k : Channel) (ks : List Channel) (out : Triple α) :
      Update.apply ((k :: ks).forM fun k => writeChannel k fun out => f k (out.get k)) out =
        f k (out.get k) >>= fun x =>
          Update.apply (ks.forM fun k => writeChannel k fun out => f k (out.get k))
            (out.set k x) := by
    show Update.apply (writeChannel k _ >>= fun _ => List.forM ks _) out = _
    rw [apply_bind, apply_writeChannel]
    rcases f k (out.get k) with _ | x <;> rfl
  simp only [Channel.all, hcons]
  rfl

variable [ColorArith α]

/-- The buffer ends with the light perceived, whatever it held. The red-blind eye reads its yellow
back from the buffer, the green-blind one its softened channels; both have just been written. -/
theorem apply_writeLight (d : Deficiency) (c out : Triple α) :
    (d.writeLight c).apply out = d.light c := by
  cases d with
  | none => exact apply_writeChannels (fun k _ => c.term k) out
  | red =>
    simp only [Deficiency.writeLight, apply_bind, apply_writeChannel, Deficiency.light,
      Deficiency.lightOf]
    rcases Deficiency.redBlindYellow (c.term .red) (c.term .green) with e | y
    · rfl
    · rcases Deficiency.redBlindBlue (c.term .red) (c.term .green) (c.term .blue) with e | b <;> rfl
  | green =>
    have hread := apply_writeChannels (fun k (_ : α) => Deficiency.soften (c.get k)) out
    have hsoften := apply_writeChannels fun (_ : Channel) (x : α) => Deficiency.soften x
    rw [Deficiency.writeLight, apply_bind, hread]
    show _ = (Triple.ofTerms fun k => Deficiency.soften (c.get k)) >>= _
    rcases Triple.ofTerms fun k => Deficiency.soften (c.get k) with e | t
    · rfl
    simp only [ok_bind, apply_bind, apply_writeChannel]
    rcases Deficiency.greenBlindBlue (t.term .red) (t.term .green) (t.term .blue) with e | b
    · rfl
    simp only [ok_bind, apply_bind, apply_writeChannel]
    show (Deficiency.greenBlindYellow (t.term .red) (t.term .green) >>= _) >>= _ =
      Deficiency.greenBlindYellow (t.term .red) (t.term .green) >>= _
    rcases Deficiency.greenBlindYellow (t.term .red) (t.term .green) with e | y
    · rfl
    simp only [ok_bind, apply_bind, apply_writeChannel]
    exact hsoften _

/-- What is simulated of a colour where no buffer is in between. -/
def Deficiency.simulated (d : Deficiency) (color : List α) : Except Fault (Triple Int) := do
  let linear ← linearOfGammaColor color
  let light ← d.light linear
  let light ← Triple.ofReals light.toList
  let light ← light.mapM (confined 1.0)
  gammaOfLinearColor light

/-- What the buffer holds before a colour does not show. -/
theorem outcome_simulateColor (d : Deficiency) (color : List α) (scratch : Triple α) :
    ((simulateColor d color).runOn scratch).1 = d.simulated color := by
  simp only [simulateColor, outcome_liftM_bind, outcome_bind, apply_writeLight,
    Deficiency.simulated]
  congr
  funext linear
  congr
  funext light
  rw [runOn_bind, runOn_get]
  simp only [outcome_liftM_bind]
  rfl

/-- So a palette is simulated colour by colour. -/
theorem outcome_simulateBy {β : Type} (channels : β → Except Fault (List α)) (d : Deficiency)
    (palette : List β) (scratch : Triple α) :
    ((simulateBy channels d palette).runOn scratch).1 =
      palette.mapM fun color => channels color >>= d.simulated := by
  refine outcome_mapM (fun color scratch => ?_) palette scratch
  rw [outcome_liftM_bind]
  simp only [outcome_simulateColor]

theorem simulate_eq (d : Deficiency) (palette : Palette α) :
    simulate d palette = palette.mapM d.simulated :=
  outcome_simulateBy .ok d palette _

end Scratch

open Exact

/-! ### The light of a projector -/

/-- What is simulated of a colour is the encoded light that is seen of it. -/
theorem Deficiency.simulated_eq {d : Deficiency} {color : List ℝ} {c light : Triple ℝ}
    (hcolor : linearOfGammaColor color = .ok c) (hseen : d.seen c = .ok light) :
    d.simulated color = .ok (encoded light) := by
  obtain ⟨l, hl⟩ := light_ok d c
  have hlist : Triple.ofReals l.toList = .ok l := rfl
  rw [Deficiency.seen, hl, ok_bind] at hseen
  rw [Deficiency.simulated, hcolor, ok_bind, hl, ok_bind, hlist, ok_bind, hseen, ok_bind,
    gammaOfLinearColor_eq]

/-- The light that a projector sees is what writing over the light in its buffer leaves there,
brought into the range of RGB. -/
theorem Projector.Serves.project_writeLight {p : Projector ℝ} {d : Deficiency} (hp : p.Serves d)
    {c light : Triple ℝ} (hseen : d.seen c = .ok light) (hnonneg : ∀ k, 0 ≤ light.get k) :
    ∃ written q, (d.writeLight c).apply p.light = .ok written ∧
      written.mapM (confined 1.0) = .ok light ∧ p.project c = .ok q ∧ q.light = light := by
  obtain ⟨written, hwritten, hlight⟩ := bind_eq_ok.1 hseen
  exact ⟨written, _, (apply_writeLight d c p.light).trans hwritten, hlight,
    hp.project_eq hseen hnonneg, rfl⟩

/-- How a dichromat is shown a colour: encoded from the light that a projector keeps of it. -/
structure Deficiency.Shows (d : Deficiency) (color : List ℝ) (shown : Triple ℤ) : Prop where
  range : ∀ k, shown.get k ∈ Set.Icc (0 : ℤ) 255
  /-- Whatever the buffers of the projector hold. -/
  projected : ∀ p : Projector ℝ, p.Serves d → ∃ c written q, linearOfGammaColor color = .ok c ∧
    (d.writeLight c).apply p.light = .ok written ∧ written.mapM (confined 1.0) = .ok q.light ∧
    p.project c = .ok q ∧ gammaOfLinearColor q.light = .ok shown
  yellow : d = .red ∨ d = .green → shown.red = shown.green
  rounded : d = .none → List.Forall₂ RoundsTo color shown.toList
  /-- Whatever the scratch buffer holds. -/
  alone : ∀ scratch, ((simulateColor d color).runOn scratch).1 = .ok shown

theorem Deficiency.exists_shows (d : Deficiency) {color : List ℝ}
    (h : color.length = 3 ∧ ∀ x ∈ color, 0 ≤ x ∧ x ≤ 255) :
    ∃ shown, d.simulated color = .ok shown ∧ d.Shows color shown := by
  obtain ⟨c, hcolor, hgamut⟩ := exists_linearOfGammaColor h
  obtain ⟨light, hseen, hrange⟩ := seen_ok d c
  have hsimulated := Deficiency.simulated_eq hcolor hseen
  refine ⟨encoded light, hsimulated, fun k => ?range, fun p hp => ?projected, fun hd => ?yellow,
    fun hd => ?rounded, fun scratch => ?alone⟩
  case range =>
    rw [encoded, Triple.get_map]
    exact encodedChannel_mem (hrange k)
  case projected =>
    obtain ⟨written, q, hwritten, hconfined, hproject, rfl⟩ :=
      hp.project_writeLight hseen fun k => (hrange k).1
    exact ⟨c, written, q, hcolor, hwritten, hconfined, hproject, gammaOfLinearColor_eq q.light⟩
  case yellow =>
    obtain ⟨y, -, b, -, hyellow⟩ := exists_seen_yellow_blue hd c
    obtain rfl := Except.ok.inj (hseen.symm.trans hyellow)
    rfl
  case rounded =>
    subst hd
    obtain rfl := Except.ok.inj (hseen.symm.trans (seen_none hgamut))
    rw [toList_encoded h hcolor, List.forall₂_map_right_iff]
    exact List.forall₂_same.2 fun x _ => roundsTo_nearestEven x
  case alone => rw [outcome_simulateColor, hsimulated]

/-- Whole numbers are shown as they are where nothing is missing. -/
theorem Deficiency.Shows.eq_of_intCast {row : List ℤ} {shown : Triple ℤ}
    (h : Deficiency.none.Shows (row.map Int.cast) shown) : row = shown.toList := by
  have hrounded : List.Forall₂ (fun (n m : ℤ) => RoundsTo n m) row shown.toList :=
    List.forall₂_map_left_iff.1 (h.rounded rfl)
  have heq : List.Forall₂ Eq row shown.toList := hrounded.imp fun n m hm => by
    rw [← nearestEven_eq_iff.2 hm, nearestEven_intCast]
  rwa [List.forall₂_eq_eq_eq] at heq

/-- A palette in range is simulated colour by colour, in order. Each colour is encoded from the
light that a projector keeps of it, from 0 to 255; with equal red and green for the colour-blind,
and rounded for the others. Neither what the scratch buffer holds nor the colours before have a part
in it, and without a deficiency a palette of whole numbers stays as it is. -/
theorem simulate_agrees_with_projector {palette : Palette ℝ} (h : palette.InRange)
    (d : Deficiency) :
    ∃ colors, simulate d palette = .ok colors ∧ List.Forall₂ d.Shows palette colors ∧
      (∀ scratch, ((simulateBy .ok d palette).runOn scratch).1 = .ok colors) ∧
      (∀ earlier later, palette = earlier ++ later →
        simulate d later = .ok (colors.drop earlier.length)) ∧
      (d = .none → ∀ rows : List (List ℤ), palette = rows.map (fun row => row.map Int.cast) →
        colors.map Triple.toList = rows) := by
  obtain ⟨colors, hboth⟩ := exists_forall₂ fun color hc => d.exists_shows (h color hc)
  have hsimulated :
      List.Forall₂ (fun color shown => d.simulated color = .ok shown) palette colors :=
    hboth.imp fun _ _ h => h.1
  have hshows : List.Forall₂ d.Shows palette colors := hboth.imp fun _ _ h => h.2
  refine ⟨colors, ?_, hshows, fun scratch => ?_, ?later, ?whole⟩
  · rw [simulate_eq, mapM_eq_ok_iff]
    exact hsimulated
  · rw [outcome_simulateBy]
    exact mapM_eq_ok_iff.2 hsimulated
  case later =>
    rintro earlier later rfl
    rw [simulate_eq, mapM_eq_ok_iff]
    have hlater := List.forall₂_drop earlier.length hsimulated
    rwa [List.drop_left] at hlater
  case whole =>
    rintro rfl rows rfl
    have hrows : List.Forall₂ (fun row shown => row = Triple.toList shown) rows colors :=
      (List.forall₂_map_left_iff.1 hshows).imp fun row shown hrow => hrow.eq_of_intCast
    have heq := List.forall₂_map_right_iff.2 hrows
    rw [List.forall₂_eq_eq_eq] at heq
    exact heq.symm

/-- Two greens, to an eye without a deficiency and to a green-blind one. -/
theorem simulate_agrees_with_projector_greens :
    (∃ colors, simulate .none ([[0, 255, 0], [0, 255, 1]] : Palette ℝ) = .ok colors ∧
      colors.map Triple.toList = [[0, 255, 0], [0, 255, 1]]) ∧
    ∃ a b, simulate .green ([[0, 255, 0], [0, 255, 1]] : Palette ℝ) = .ok [a, b] ∧
      simulate .green ([[0, 255, 1]] : Palette ℝ) = .ok [b] ∧
      Deficiency.green.Shows [0, 255, 0] a ∧ Deficiency.green.Shows [0, 255, 1] b := by
  constructor
  · obtain ⟨colors, hcolors, -, -, -, hwhole⟩ :=
      simulate_agrees_with_projector Palette.inRange_greens .none
    exact ⟨colors, hcolors, hwhole rfl _ (by simp)⟩
  · obtain ⟨colors, hcolors, hshows, -, hlater, -⟩ :=
      simulate_agrees_with_projector Palette.inRange_greens .green
    obtain ⟨a, _, ha, htail, rfl⟩ := List.forall₂_cons_left_iff.1 hshows
    obtain ⟨b, _, hb, hnil, rfl⟩ := List.forall₂_cons_left_iff.1 htail
    obtain rfl := List.forall₂_nil_left_iff.1 hnil
    exact ⟨a, b, hcolors, hlater [[0, 255, 0]] [[0, 255, 1]] rfl, ha, hb⟩

end Dichromat

end
