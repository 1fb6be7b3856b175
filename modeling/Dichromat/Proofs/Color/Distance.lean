import Dichromat.Proofs.Color.Sector
import Dichromat.Proofs.Color.Spaces
import Dichromat.Proofs.Exact.Distance

/-!
# The distance of two colours

The distance hangs on hues, purities and absolute intensities alone (`Eye.distance_congr_of_alike`),
and a copy into the other perceptual space keeps all three (`Eye.exists_copyTo_alike`). So it is
symmetric between colours of either space, vanishes between equal ones and outlives conversions
(`Eye.distance_symmetric`). The hues enter only through the gap between them on the wheel
(`across`): the distance grows with the gap up to a sixth of a turn and no further
(`Eye.exists_distance_of_gap`).
-/

noncomputable section

namespace Dichromat

open Exact

namespace Eye

/-! ### Colours that look alike -/

section Alike

variable {α : Type} [ColorArith α]

/-- Colours of any space with one hue, one purity and one absolute intensity. -/
structure Alike (a b : Eye α) : Prop where
  hue : a.hue = b.hue
  purity : a.purity = b.purity
  intensity : a.intensity = b.intensity

theorem Alike.refl (e : Eye α) : e.Alike e := ⟨rfl, rfl, rfl⟩

theorem distance_congr_of_alike {a a' b b' : Eye α} (ha : a.Alike a') (hb : b.Alike b') :
    a.distance b = a'.distance b' := by
  simp only [distance, ha.hue, hb.hue, ha.purity, hb.purity, ha.intensity, hb.intensity]

/-- What the colours remember after their distance has been read makes no difference to it. -/
theorem outcome_readDistance (a b : Eye α) : (readDistance.runOn (a, b)).1 = a.distance b := by
  simp only [readDistance, distance, intensity, Update.runOn_bind, Update.runOn_get,
    Update.runOn_liftM, Update.runOn_set]
  rcases sliceCosine a.hue b.hue with _ | cosine
  · rfl
  simp only [ok_bind]
  rcases (readIntensity.runOn a).1 with _ | i
  · rfl
  simp only [ok_bind]
  rcases slicePoint i a.purity with _ | p
  · rfl
  simp only [ok_bind]
  rcases (readIntensity.runOn b).1 with _ | j
  · rfl
  simp only [ok_bind]
  rcases slicePoint j b.purity with _ | q <;> rfl

end Alike

/-! ### Intensities and copies -/

variable {e t : Eye ℝ}

theorem OnWheel.exists_intensity (he : e.OnWheel) : ∃ i, e.intensity = .ok i := by
  cases hspace : e.space with
  | perceived => exact ⟨_, intensity_of_perceived hspace⟩
  | normalized =>
    obtain ⟨limit, hlimit⟩ := exists_limit he.purity.1 he.purity.2
    exact ⟨_, intensity_of_limit hlimit hspace⟩

theorem copyTo_self (h : t.space = e.space) : (Color.eye e).copyTo (.eye t) =
    { source := .eye e, target := .eye e, fault := none } := by
  rcases e with ⟨space, _, _, _, _, _, _, _⟩
  rcases t with ⟨space', _, _, _, _, _, _, _⟩
  obtain rfl : space' = space := h
  cases space' <;> rfl

/-- A copy into either space has the hue, the purity and the absolute intensity of the colour. -/
theorem exists_copyTo_alike (he : e.OnWheel) (hzero : e.limit ≠ .ok 0) (t : Eye ℝ) :
    ∃ source copy, (Color.eye e).copyTo (.eye t) =
      { source := source, target := .eye copy, fault := none } ∧
      copy.space = t.space ∧ e.Alike copy := by
  obtain ⟨limit, hlimit⟩ := exists_limit he.purity.1 he.purity.2
  have hne : limit ≠ 0 := fun h => hzero (h ▸ hlimit)
  -- between the spaces the intensity is divided by the limit and multiplied by it again
  cases hspace : e.space <;> cases ht : t.space
  · exact ⟨_, _, copyTo_self (ht.trans hspace.symm), hspace, Alike.refl e⟩
  · have hcopy := intensity_of_limit
      ((limit_of_intensity e .normalized e.perceived (e.perceived / limit)).trans hlimit) rfl
    refine ⟨_, _, copyTo_normalized_of_limit hlimit hne hspace ht, rfl, rfl, rfl, ?_⟩
    rw [intensity_of_perceived hspace]
    exact (hcopy.trans (congrArg Except.ok (div_mul_cancel₀ _ hne))).symm
  · refine ⟨_, _, copyTo_perceived_of_limit hlimit hspace ht, rfl, rfl, rfl, ?_⟩
    rw [intensity_of_limit hlimit hspace, intensity_of_perceived]
    rfl
  · exact ⟨_, _, copyTo_self (ht.trans hspace.symm), hspace, Alike.refl e⟩

/-! ### Distances by absolute intensities -/

/-- The perceived colour with the hue and purity of a colour and an absolute intensity. -/
def lit (e : Eye ℝ) (i : ℝ) : Eye ℝ := { e with space := .perceived, perceived := i }

theorem alike_lit {i : ℝ} (h : e.intensity = .ok i) : e.Alike (e.lit i) :=
  ⟨rfl, rfl, h.trans (intensity_of_perceived (e := e.lit i) rfl).symm⟩

theorem distance_eq_apart {a b : Eye ℝ} {i j : ℝ} (ha : a.intensity = .ok i)
    (hb : b.intensity = .ok j) : a.distance b = .ok (apart (a.lit i) (b.lit j)) :=
  (distance_congr_of_alike (alike_lit ha) (alike_lit hb)).trans (distance_eq rfl rfl)

/-- Colours on the wheel have a distance, the same one both ways. A colour is not apart from itself,
and copies of the colours into either perceptual space are as far apart as the colours. The limit
that a colour remembers must not be 0 for that, and no limit that is computed is. -/
theorem distance_symmetric {a b : Eye ℝ} (ha : a.OnWheel) (hb : b.OnWheel) :
    ∃ d, 0 ≤ d ∧ a.distance b = .ok d ∧ b.distance a = .ok d ∧ a.distance a = .ok 0 ∧
      (readDistance.runOn (a, b)).1 = .ok d ∧
      (a.limit ≠ .ok 0 → b.limit ≠ .ok 0 → ∀ s t : Eye ℝ, ∃ source source' a' b',
        (Color.eye a).copyTo (.eye s) = { source := source, target := .eye a', fault := none } ∧
        (Color.eye b).copyTo (.eye t) = { source := source', target := .eye b', fault := none } ∧
        a'.space = s.space ∧ b'.space = t.space ∧
        ∀ x ∈ [a, a'], ∀ y ∈ [b, b'], x.distance y = .ok d ∧ y.distance x = .ok d) := by
  obtain ⟨i, hi⟩ := ha.exists_intensity
  obtain ⟨j, hj⟩ := hb.exists_intensity
  have hab := distance_eq_apart hi hj
  have hba : b.distance a = .ok (apart (a.lit i) (b.lit j)) := by
    rw [distance_eq_apart hj hi]
    exact congrArg Except.ok (apart_comm hb.hue ha.hue)
  refine ⟨apart (a.lit i) (b.lit j), apart_nonneg _ _, hab, hba, ?_,
    (outcome_readDistance a b).trans hab, fun hla hlb s t => ?_⟩
  · rw [distance_eq_apart hi hi, apart_self]
  · obtain ⟨source, a', hcopya, hspacea, haa⟩ := exists_copyTo_alike ha hla s
    obtain ⟨source', b', hcopyb, hspaceb, hbb⟩ := exists_copyTo_alike hb hlb t
    have hlike {e e' : Eye ℝ} (h : e.Alike e') : ∀ x ∈ [e, e'], e.Alike x :=
      List.forall_mem_cons.2 ⟨Alike.refl e, List.forall_mem_singleton.2 h⟩
    refine ⟨source, source', a', b', hcopya, hcopyb, hspacea, hspaceb, fun x hx y hy => ⟨?_, ?_⟩⟩
    · exact (distance_congr_of_alike (hlike haa x hx) (hlike hbb y hy)).symm.trans hab
    · exact (distance_congr_of_alike (hlike hbb y hy) (hlike haa x hx)).symm.trans hba

/-- A perceived yellow and a normalized red at the end of the wheel. -/
theorem distance_symmetric_yellow_red :
    ∃ (a b : Eye ℝ) (d : ℝ), a.space = .perceived ∧ a.hue = 1 / 6 ∧ a.purity = 1 / 2 ∧
      a.perceived = 1 ∧ b.space = .normalized ∧ b.hue = 1 ∧ b.purity = 1 ∧ b.normalized = 1 / 2 ∧
      a.OnWheel ∧ b.OnWheel ∧ a.limit ≠ .ok 0 ∧ b.limit ≠ .ok 0 ∧
      a.distance b = .ok d ∧ b.distance a = .ok d ∧ a.distance a = .ok 0 ∧
      ∃ source source' a' b',
        (Color.eye a).copyTo (.eye b) = { source := source, target := .eye a', fault := none } ∧
        (Color.eye b).copyTo (.eye a) = { source := source', target := .eye b', fault := none } ∧
        a'.space = .normalized ∧ b'.space = .perceived ∧ a'.distance b' = .ok d := by
  let a : Eye ℝ := { blank .perceived with hue := 1 / 6, purity := 1 / 2, perceived := 1 }
  let b : Eye ℝ := { blank .normalized with hue := 1, purity := 1, normalized := 1 / 2 }
  have ha : a.OnWheel := by
    constructor <;> norm_num [a]
  have hb : b.OnWheel := ⟨⟨zero_le_one, le_rfl⟩, ⟨zero_le_one, le_rfl⟩⟩
  have hla : a.limit ≠ .ok 0 :=
    limit_ne_zero (faithful_blank .perceived) ha.purity.1 ha.purity.2
  have hlb : b.limit ≠ .ok 0 :=
    limit_ne_zero (faithful_blank .normalized) hb.purity.1 hb.purity.2
  obtain ⟨d, -, hab, hba, haa, -, hcopies⟩ := distance_symmetric ha hb
  obtain ⟨source, source', a', b', hcopya, hcopyb, hspacea, hspaceb, h⟩ := hcopies hla hlb b a
  have hmem : a' ∈ [a, a'] := List.mem_cons_of_mem _ (List.mem_singleton_self _)
  have hmem' : b' ∈ [b, b'] := List.mem_cons_of_mem _ (List.mem_singleton_self _)
  exact ⟨a, b, d, rfl, rfl, rfl, rfl, rfl, rfl, rfl, rfl, ha, hb, hla, hlb, hab, hba, haa, source,
    source', a', b', hcopya, hcopyb, hspacea, hspaceb, (h a' hmem b' hmem').1⟩

end Eye

/-! ### The gap between two hues -/

namespace Exact

/-- The distance of places `x` and `y` off the axis that are `z` apart along it, across a gap `g` of
hues. -/
def across (x y z g : ℝ) : ℝ :=
  Real.sqrt ((x - y) ^ 2 + x * y * min (6 * g) 1 ^ 2 + z ^ 2)

theorem apart_eq_across {a b : Eye ℝ} (ha : a.hue ∈ Set.Icc (0 : ℝ) 1)
    (hb : b.hue ∈ Set.Icc (0 : ℝ) 1) : apart a b =
      across (offAxis a) (offAxis b) (alongAxis a - alongAxis b) (hueGap a.hue b.hue) := by
  rw [apart_eq_sqrt ha hb, cosine_eq, across]
  congr 1
  ring

section Across

variable {x y z : ℝ}

theorem monotoneOn_across (hxy : 0 ≤ x * y) : MonotoneOn (across x y z) (Set.Ici 0) := by
  intro g hg g' _ h
  have hg₀ : 0 ≤ min (6 * g) 1 := le_min (mul_nonneg (by norm_num) hg) zero_le_one
  have hle : min (6 * g) 1 ≤ min (6 * g') 1 := min_le_min_right 1 (by linarith)
  refine Real.sqrt_le_sqrt (add_le_add_left (add_le_add_right ?_ _) _)
  exact mul_le_mul_of_nonneg_left (pow_le_pow_left₀ hg₀ hle 2) hxy

theorem strictMonoOn_across (hxy : 0 < x * y) :
    StrictMonoOn (across x y z) (Set.Icc 0 (1 / 6)) := by
  intro g hg g' hg' h
  have hcap {g : ℝ} (hg : g ∈ Set.Icc (0 : ℝ) (1 / 6)) : min (6 * g) 1 = 6 * g :=
    min_eq_left (by linarith [hg.2])
  have hg₀ : 0 ≤ 6 * g := mul_nonneg (by norm_num) hg.1
  have hlt : (6 * g) ^ 2 < (6 * g') ^ 2 := pow_lt_pow_left₀ (by linarith) hg₀ two_ne_zero
  rw [across, across, hcap hg, hcap hg']
  refine Real.sqrt_lt_sqrt (by positivity) (add_lt_add_left (add_lt_add_right ?_ _) _)
  exact mul_lt_mul_of_pos_left hlt hxy

/-- A sixth of a turn is the largest gap that can be felt. -/
theorem across_of_le {g : ℝ} (h : 1 / 6 ≤ g) : across x y z g = across x y z (1 / 6) := by
  have hcap {g : ℝ} (h : 1 / 6 ≤ g) : min (6 * g) 1 = 1 := min_eq_right (by linarith)
  rw [across, across, hcap h, hcap le_rfl]

end Across

/-- Purities turn a colour off the axis by less than half a turn. -/
theorem angle_lt_pi {p : ℝ} (hp : p ≤ 1) : Real.pi / 3 * p < Real.pi := by
  have hpi := Real.pi_pos
  have hle : Real.pi / 3 * p ≤ Real.pi / 3 := mul_le_of_le_one_right (by positivity) hp
  linarith

theorem sin_angle_nonneg {p : ℝ} (hp : p ∈ Set.Icc (0 : ℝ) 1) : 0 ≤ Real.sin (Real.pi / 3 * p) :=
  Real.sin_nonneg_of_nonneg_of_le_pi
    (mul_nonneg (div_nonneg Real.pi_pos.le (by norm_num)) hp.1) (angle_lt_pi hp.2).le

theorem sin_angle_pos {p : ℝ} (h : 0 < p) (hp : p ≤ 1) : 0 < Real.sin (Real.pi / 3 * p) :=
  Real.sin_pos_of_pos_of_lt_pi (mul_pos (div_pos Real.pi_pos (by norm_num)) h) (angle_lt_pi hp)

end Exact

namespace Eye

/-- Colours of fixed purities and absolute intensities have a distance that only hangs on the gap
between their hues: it does not fall with the gap, and grows with it up to a sixth of a turn if both
colours have light and purity, but not beyond that. -/
theorem exists_distance_of_gap {i p j q : ℝ} (hi : 0 ≤ i) (hp : p ∈ Set.Icc (0 : ℝ) 1) (hj : 0 ≤ j)
    (hq : q ∈ Set.Icc (0 : ℝ) 1) :
    ∃ f : ℝ → ℝ,
      (∀ a b : Eye ℝ, a.hue ∈ Set.Icc (0 : ℝ) 1 → b.hue ∈ Set.Icc (0 : ℝ) 1 →
        a.purity = p → b.purity = q → a.intensity = .ok i → b.intensity = .ok j →
        hueGap a.hue b.hue ∈ Set.Icc (0 : ℝ) (1 / 2) ∧
          a.distance b = .ok (f (hueGap a.hue b.hue))) ∧
      MonotoneOn f (Set.Ici 0) ∧
      (0 < i → 0 < p → 0 < j → 0 < q → StrictMonoOn f (Set.Icc 0 (1 / 6))) ∧
      ∀ g, 1 / 6 ≤ g → f g = f (1 / 6) := by
  refine ⟨across (i * Real.sin (Real.pi / 3 * p)) (j * Real.sin (Real.pi / 3 * q))
    (i * Real.cos (Real.pi / 3 * p) - j * Real.cos (Real.pi / 3 * q)), ?_, ?_, ?_,
    fun g => across_of_le⟩
  · rintro a b ha hb rfl rfl hai hbj
    refine ⟨hueGap_mem ha hb, ?_⟩
    rw [distance_eq_apart hai hbj]
    exact congrArg Except.ok (apart_eq_across (a := a.lit i) (b := b.lit j) ha hb)
  · exact monotoneOn_across
      (mul_nonneg (mul_nonneg hi (sin_angle_nonneg hp)) (mul_nonneg hj (sin_angle_nonneg hq)))
  · intro hi hp' hj hq'
    exact strictMonoOn_across
      (mul_pos (mul_pos hi (sin_angle_pos hp' hp.2)) (mul_pos hj (sin_angle_pos hq' hq.2)))

/-- Pure red of intensity 1 is closer to a hue of 9/10, across the end of the wheel, than to one of
1/8. -/
theorem exists_distance_of_gap_red :
    ∃ (a b c : Eye ℝ) (d d' : ℝ), a.hue = 0 ∧ b.hue = 9 / 10 ∧ c.hue = 1 / 8 ∧
      (∀ e ∈ [a, b, c], e.purity = 1 ∧ e.intensity = .ok 1) ∧
      a.distance b = .ok d ∧ a.distance c = .ok d' ∧ d < d' := by
  let vivid (hue : ℝ) : Eye ℝ := { blank .perceived with hue := hue, purity := 1, perceived := 1 }
  have hlit (hue : ℝ) : (vivid hue).purity = 1 ∧ (vivid hue).intensity = .ok 1 :=
    ⟨rfl, intensity_of_perceived rfl⟩
  have hone : (1 : ℝ) ∈ Set.Icc (0 : ℝ) 1 := ⟨zero_le_one, le_rfl⟩
  obtain ⟨f, hf, -, hstrict, -⟩ := exists_distance_of_gap zero_le_one hone zero_le_one hone
  have hdistance {r : ℝ} (hr : r ∈ Set.Icc (0 : ℝ) 1) :
      (vivid 0).distance (vivid r) = .ok (f (hueGap 0 r)) :=
    (hf (vivid 0) (vivid r) ⟨le_rfl, zero_le_one⟩ hr rfl rfl (hlit 0).2 (hlit r).2).2
  have hb : hueGap 0 (9 / 10) = 1 / 10 := by norm_num [hueGap, abs_of_nonneg]
  have hc : hueGap 0 (1 / 8) = 1 / 8 := by norm_num [hueGap, abs_of_nonneg]
  have hlt : f (1 / 10) < f (1 / 8) := hstrict one_pos one_pos one_pos one_pos
    (by constructor <;> norm_num) (by constructor <;> norm_num) (by norm_num)
  refine ⟨vivid 0, vivid (9 / 10), vivid (1 / 8), f (hueGap 0 (9 / 10)), f (hueGap 0 (1 / 8)),
    rfl, rfl, rfl, ?_, hdistance (by constructor <;> norm_num),
    hdistance (by constructor <;> norm_num), ?_⟩
  · rw [List.forall_mem_cons, List.forall_mem_cons, List.forall_mem_singleton]
    exact ⟨hlit _, hlit _, hlit _⟩
  · rwa [hb, hc]

end Eye

end Dichromat

end
