import Dichromat.Proofs.Color.Recovery
import Dichromat.Proofs.Exact.Alike
import Dichromat.Proofs.Exact.Shake
import Dichromat.Proofs.Run.Course

/-!
# What a shake does to what is seen

The squeeze keeps purities and intensities away from the guards of the conversions, so a shaken
colour that is taken as a perceptual colour again has exactly the purity, the intensity and, up to
whole turns, the hue that the shake gave it (`squeezed_read_shakenColor`). A shake of a prepared
state does this to every colour of its palette, each with the draw of its place, and measures what
results (`exploreShake_squeezes_and_turns`).
-/

noncomputable section

namespace Dichromat

open Exact

/-- What a shake does to a normalized colour: the purity and the intensity go to the middle of their
ranges, and the hue turns as far as a draw says. -/
structure Eye.Squeezed (hueRange u : ℝ) (e seen : Eye ℝ) : Prop where
  purity : seen.purity = 1 / 10 + 4 / 5 * e.purity
  normalized : seen.normalized = 1 / 10 + 4 / 5 * e.normalized
  hue : ∃ turns : ℤ, seen.hue = e.hue + hueRange * (1 - 2 * u) + turns
  purity_mem : seen.purity ∈ Set.Icc (1 / 10 : ℝ) (9 / 10)
  normalized_mem : seen.normalized ∈ Set.Icc (1 / 10 : ℝ) (9 / 10)

namespace Exact

/-! ### A colour -/

/-- A squeezed colour is far from counting as grey. -/
theorem smallest_le_squeezed {j p : ℝ} (hj : 1 / 10 ≤ j) (hp : 1 / 10 ≤ p) :
    model.smallest ≤ j ^ model.gamma * p := by
  have hlight : (1 / 10 : ℝ) ^ 3 ≤ j ^ model.gamma := by
    calc (1 / 10 : ℝ) ^ 3 = (1 / 10) ^ (3 : ℝ) := (Real.rpow_natCast _ 3).symm
      _ ≤ (1 / 10) ^ model.gamma :=
          Real.rpow_le_rpow_of_exponent_ge (by norm_num) (by norm_num) gamma_le_three
      _ ≤ j ^ model.gamma := Real.rpow_le_rpow (by norm_num) hj gamma_pos.le
  calc model.smallest ≤ (1 / 255) ^ 2 := smallest_le_sq
    _ ≤ (1 / 10) ^ 3 * (1 / 10) := by norm_num
    _ ≤ j ^ model.gamma * p := mul_le_mul hlight hp (by norm_num) (by positivity)

/-- A hue that is turned onto the wheel is read back up to whole turns. -/
theorem exists_wound_turned_eq_add (r : ℝ) : ∃ turns : ℤ, wound (turned r) = r + turns := by
  obtain ⟨n, hn⟩ := exists_turned_eq_add r
  obtain ⟨m, hm⟩ := exists_wound_eq_add (turned r)
  exact ⟨n + m, by rw [hm, hn, Int.cast_add, add_assoc]⟩

theorem squeezed_mem {x : ℝ} (hx : x ∈ Set.Icc (0 : ℝ) 1) :
    1 / 10 + 4 / 5 * x ∈ Set.Icc (1 / 10 : ℝ) (9 / 10) := by
  obtain ⟨h₀, h₁⟩ := hx
  constructor <;> linarith

theorem mem_of_squeezed {x : ℝ} (hx : x ∈ Set.Icc (1 / 10 : ℝ) (9 / 10)) :
    x ∈ Set.Icc (0 : ℝ) 1 :=
  ⟨le_trans (by norm_num) hx.1, hx.2.trans (by norm_num)⟩

section InGamut

variable {c : Triple ℝ} (hc : InGamut c)

include hc

theorem InGamut.purityOf_mem : purityOf c ∈ Set.Icc (0 : ℝ) 1 :=
  ⟨purityOf_nonneg fun k => (hc k).1, purityOf_le_one fun k => (hc k).1⟩

theorem InGamut.highest_rpow_mem : highest c ^ model.gammaInverse ∈ Set.Icc (0 : ℝ) 1 := by
  have hnonneg := highest_nonneg fun k => (hc k).1
  exact ⟨Real.rpow_nonneg hnonneg _,
    Real.rpow_le_one hnonneg (highest_le_iff.2 fun k => (hc k).2) gammaInverse_pos.le⟩

end InGamut

section Squeezed

variable {settings : Settings ℝ} (hfloor : settings.shakeFloor = 1 / 10)
  (hspan : settings.shakeSpan = 4 / 5)

include hfloor hspan

/-- A squeezed colour does not have to be cut off, only turned. -/
theorem stirred_eq {e : Eye ℝ} (hspace : e.space = .normalized)
    (hp : e.purity ∈ Set.Icc (0 : ℝ) 1) (hj : e.normalized ∈ Set.Icc (0 : ℝ) 1) (u : ℝ) :
    stirred settings u e = { e with
      hue := turned (e.hue + settings.shakeHueRange * (1 - 2 * u))
      purity := 1 / 10 + 4 / 5 * e.purity
      normalized := 1 / 10 + 4 / 5 * e.normalized } := by
  rw [stirred, Eye.confined, hspace]
  simp only [Eye.placed, hfloor, hspan, clamp_of_mem (mem_of_squeezed (squeezed_mem hp)),
    clamp_of_mem (mem_of_squeezed (squeezed_mem hj))]

variable {c : Triple ℝ} (hc : InGamut c)

include hc

theorem shakenColor_eq (u : ℝ) : shakenColor settings u c =
    linear (turned (hueOf c + settings.shakeHueRange * (1 - 2 * u)))
      (1 / 10 + 4 / 5 * purityOf c)
      (.relative (1 / 10 + 4 / 5 * highest c ^ model.gammaInverse)) := by
  rw [shakenColor, shakenEye,
    stirred_eq hfloor hspan rfl hc.purityOf_mem hc.highest_rpow_mem]
  rfl

/-- A shaken colour is seen with the purity, the intensity and the hue that the shake gave it. -/
theorem squeezed_read_shakenColor (u : ℝ) :
    Eye.Squeezed settings.shakeHueRange u (read (Eye.blank .normalized) c)
      (read (Eye.blank .normalized) (shakenColor settings u c)) := by
  have hp := squeezed_mem hc.purityOf_mem
  have hj := squeezed_mem hc.highest_rpow_mem
  -- neither the guard for pure light nor that for noise fires between 0.1 and 0.9
  have hpure : 1 / 10 + 4 / 5 * purityOf c ≤ 1 - model.smallest := by
    have := smallest_le
    linarith [hp.2]
  have hnoise : model.smallest ≤ 1 / 10 + 4 / 5 * highest c ^ model.gammaInverse :=
    (smallest_le.trans (by norm_num)).trans hj.1
  have hturned := turned_mem (hueOf c + settings.shakeHueRange * (1 - 2 * u))
  obtain ⟨hhue, hpurity, hlight⟩ := read_linear hturned (lt_of_lt_of_le (by norm_num) hp.1)
    hpure hnoise (smallest_le_squeezed hj.1 hp.1)
  obtain ⟨turns, hturns⟩ :=
    exists_wound_turned_eq_add (hueOf c + settings.shakeHueRange * (1 - 2 * u))
  rw [← shakenColor_eq hfloor hspan hc] at hhue hpurity hlight
  rw [← hpurity] at hp
  rw [← hlight] at hj
  exact ⟨hpurity, hlight, ⟨turns, hhue.trans hturns⟩, hp, hj⟩

end Squeezed

end Exact

namespace State

/-! ### A palette -/

variable {ctx : Context ℝ} {s₀ s : State ℝ}

/-- With the usual squeeze, a shake of a prepared state uses a draw for each of its colours in turn,
brings purity and intensity between 0.1 and 0.9, and turns the hue as far as the draw says; the
palette that it ends with is its result, with the error of the worst colour. -/
theorem exploreShake_squeezes_and_turns (hfloor : ctx.settings.shakeFloor = 1 / 10)
    (hspan : ctx.settings.shakeSpan = 4 / 5) (hserved : Served ctx s₀)
    (hstrategy : s₀.strategy = .shake) {source : List (Triple ℝ)} {spent : ℝ}
    (hs : (prepare ctx source spent).apply s₀ = .ok s) (hgamut : ∀ c ∈ s.palette, InGamut c)
    (draws : Draws ℝ) :
    ∃ t error, (exploreShake ctx).apply (s, draws) = .ok (t, draws.drop s.palette.length) ∧
      (explore ctx).apply (s, draws) = .ok (t, draws.drop s.palette.length) ∧
      t.palette.length = s.palette.length ∧
      (∀ (k : ℕ) (c : Triple ℝ), s.palette[k]? = some c → ∃ c' e seen,
        t.palette[k]? = some c' ∧ InGamut c' ∧ Eye.ofLinear .normalized c = .ok e ∧
          Eye.ofLinear .normalized c' = .ok seen ∧
          e.Squeezed ctx.settings.shakeHueRange (draws.drop k).draw.1 seen) ∧
      t.iterated = 0 ∧ t.bestPalette = t.palette ∧ t.bestError = some error ∧
      paletteError ctx t.palette .max = .ok error := by
  have hcoherent := coherent_of_prepare hserved hs
  have hshake : s.strategy = .shake := (strategy_of_prepare hs).trans hstrategy
  have hmeasures := measures_of_colorErrors hcoherent.perceived hcoherent.errors
  rw [hcoherent.length_projected] at hmeasures
  obtain ⟨t, error, ht, hpalette, hbest, hbestError, herror, -, -, -, hiterated⟩ :=
    exists_exploreShake_of_measures hcoherent.projector hmeasures hgamut draws
  refine ⟨t, error, ht, explore_eq_ok.2 ⟨(phase_of_prepare hs).1, Or.inl ⟨hshake, ht⟩⟩,
    hpalette ▸ length_shakenAll draws s.palette, fun k c hc => ?_,
    hiterated.trans (iterated_of_prepare hs), hbest, hbestError, ?_⟩
  · have hin := hgamut c (List.mem_of_getElem? hc)
    have hin' := inGamut_shakenColor ctx.settings (draws.drop k).draw.1 c
    exact ⟨_, _, _, hpalette ▸ getElem?_shakenAll draws hc, hin',
      ofLinear_eq (fun i => (hin i).1) .normalized, ofLinear_eq (fun i => (hin' i).1) .normalized,
      squeezed_read_shakenColor hfloor hspan hin _⟩
  · rwa [hshake] at herror

/-- A half red beside black, with draws that tend to 0. -/
theorem exploreShake_squeezes_and_turns_half_red : ∃ (ctx : Context ℝ) (s t : State ℝ),
    ctx.settings = Settings.standard ∧
      (prepare ctx [⟨1 / 2, 1, 0⟩, Triple.replicate 0] 0).apply
        (State.idle ctx.deficiency .shake) = .ok s ∧
      (exploreShake ctx).apply (s, .sequence (fun n => 1 / (n + 2)) 0) =
        .ok (t, .sequence (fun n => 1 / (n + 2)) 2) ∧
      ∃ c e seen, t.palette[0]? = some c ∧ Eye.ofLinear .normalized ⟨1 / 2, 1, 0⟩ = .ok e ∧
        Eye.ofLinear .normalized c = .ok seen ∧
        e.Squeezed ctx.settings.shakeHueRange (1 / 2) seen := by
  have hin : ∀ c ∈ [(⟨1 / 2, 1, 0⟩ : Triple ℝ), Triple.replicate 0], InGamut c := by
    intro c hc
    rcases List.mem_pair.1 hc with rfl | rfl
    · intro k
      cases k <;> constructor <;> norm_num [Triple.get]
    · exact inGamut_grey (Set.left_mem_Icc.2 zero_le_one)
  obtain ⟨ctx, -, hregular, ho, -, hset⟩ := exists_regular hin .red standard_threshold_nonneg
  obtain ⟨s, hs⟩ := exists_prepare hregular (served_idle .shake)
    (⟨(congrArg List.length ho).symm, hin⟩ : Fits ctx _) 0
  have hpalette := (phase_of_prepare hs).2
  obtain ⟨t, error, ht, -, -, hcolors, -⟩ := exploreShake_squeezes_and_turns (hset ▸ standard_floor)
    (hset ▸ standard_span) (served_idle .shake) rfl hs (hpalette ▸ hin)
    (.sequence (fun n => 1 / (n + 2)) 0)
  obtain ⟨c, e, seen, hc, -, he, hseen, hsqueezed⟩ := hcolors 0 ⟨1 / 2, 1, 0⟩ (hpalette ▸ rfl)
  rw [hpalette, Draws.drop_sequence] at ht
  refine ⟨ctx, s, t, hset, hs, ht, c, e, seen, hc, he, hseen, ?_⟩
  have hdraw : (1 : ℝ) / ((0 : ℕ) + 2) = 1 / 2 := by norm_num
  exact hdraw ▸ hsqueezed

end State

end Dichromat

end
