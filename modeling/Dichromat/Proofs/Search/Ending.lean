import Dichromat.Proofs.Run.Optimum
import Dichromat.Proofs.Search.Clock
import Dichromat.Proofs.Search.Selection

/-!
# The last move of a search

An iteration measures the palette before its move, so nothing measures the palette that the last
move leads to. A search loses it just if it is better than every palette before it
(`State.exploreTabu_loses_iff`), and it does so (`State.exploreTabu_loses_green`).
-/

namespace Dichromat

namespace State

section Ending

variable {α : Type} [ColorArith α] {ctx : Context α} {s t r : State α} {m b : Nat} {e₀ e a : α}

/-! ### What is lost -/

/-- The next error is below the best one just if it is below all errors so far. -/
theorem IsFirstLeast.lt_iff {P : α → Prop} (hP : Ranked P)
    (hall : ∀ k ≤ m, ∀ a, errorAfter ctx s k = .ok a → P a) (h : IsFirstLeast ctx s e₀ m b e)
    (ha : errorAfter ctx s m = .ok a) : Comparable.lt a e = .ok true ↔
      0 < m ∧ ∀ k < m, ∃ c, errorAfter ctx s k = .ok c ∧ Comparable.lt a c = .ok true := by
  have hbound : b ≤ m := by
    rcases h.place with rfl | hlt
    · exact m.zero_le
    · exact hlt.le
  have hPa := hall m le_rfl a ha
  have hPe := hall b hbound e h.value
  constructor
  · intro hlt
    refine ⟨Nat.pos_of_ne_zero ?_, fun k hk => ?_⟩
    · rintro rfl
      obtain rfl := Nat.le_zero.1 hbound
      obtain rfl := Except.ok.inj (ha.symm.trans h.value)
      exact nomatch (hP.irrefl hPa).symm.trans hlt
    · obtain ⟨c, hc, hnot⟩ := h.least k hk
      exact ⟨c, hc, hP.lt_of_lt_of_not_lt hPa hPe (hall k hk.le c hc) hlt hnot⟩
  · rintro ⟨hm, hbelow⟩
    have hb : b < m := by
      rcases h.place with rfl | hlt
      · exact hm
      · exact hlt
    obtain ⟨c, hc, hlt⟩ := hbelow b hb
    obtain rfl := Except.ok.inj (hc.symm.trans h.value)
    exact hlt

/-- One more measurement at the end would lose nothing. -/
theorem not_lt_of_recorded {P : α → Prop} (hP : Ranked P) (ha : P a)
    (herror : t.strategy.mode.aggregate t.errors = .ok a) (hbest : t.bestError = some e)
    (h : Recorded ctx t r) : ∃ e', r.bestError = some e' ∧ Comparable.lt a e' = .ok false := by
  obtain ⟨error, he, hr⟩ := h
  obtain rfl := Except.ok.inj (herror.symm.trans he)
  rw [hbest] at hr
  rcases hr with ⟨-, _, -, rfl⟩ | ⟨hnot, rfl⟩
  · exact ⟨a, rfl, hP.irrefl ha⟩
  · exact ⟨e, hbest, hnot⟩

/-- A Tabu search from a prepared state ends with the palette that its last move leads to, and with
an error that no palette before one of its moves is below. The last palette is below it just if it
is below all of these; measured once more it would not be. As long as every move is one that has
been weighed, its error is the one that it has when it is measured on its own. -/
theorem exploreTabu_loses_iff {source : List (Triple α)} {spent : α} (hserved : Served ctx r)
    (hprepared : (prepare ctx source spent).apply r = .ok s)
    (hranked : Ranked (Meets ctx s.opened)) (h : (exploreTabu ctx).apply s = .ok t) :
    ∃ (m : Nat) (v : State α) (e : α), after ctx s m = .ok v ∧ t.iterated = m ∧
      t.palette = v.palette ∧ t.errors = v.errors ∧ t.bestError = some e ∧
      (∀ k < m, ∃ c, errorAfter ctx s k = .ok c ∧ Comparable.lt c e = .ok false) ∧
      (∀ a, errorAfter ctx s m = .ok a →
        (Comparable.lt a e = .ok true ↔
          0 < m ∧ ∀ k < m, ∃ c, errorAfter ctx s k = .ok c ∧ Comparable.lt a c = .ok true) ∧
        ∀ u, Recorded ctx t u → ∃ e', u.bestError = some e' ∧ Comparable.lt a e' = .ok false) ∧
      ((∀ k < m, ∀ w, after ctx s k = .ok w → w.HasMove ctx) →
        paletteError ctx t.palette s.strategy.mode = errorAfter ctx s m) := by
  obtain ⟨u, hu, hstop, rfl⟩ := iterated_of_exploreTabu h
  obtain ⟨m, hm⟩ := exists_rounds hu
  obtain ⟨e₀, -, h₀, hstart⟩ := exists_tracked_of_prepare hranked hprepared
  obtain ⟨b, e, hu⟩ := exists_tracked hranked h₀ hstart hm
  have hafter := after_of_rounds hm
  have hmeets := meets_of_rounds hm
  refine ⟨m, _, e, hafter, hu.iterated, rfl, rfl, hu.bestError, hu.firstLeast.least,
    fun a ha => ⟨hu.firstLeast.lt_iff hranked hmeets ha, fun w hw => ?_⟩, fun hmoves => ?_⟩
  · have herror := (errorAfter_of_rounds hm).symm.trans ha
    rw [← hu.strategy] at herror
    have hmet := hmeets m le_rfl a ha
    exact not_lt_of_recorded (t := { u with phase := .done }) hranked hmet herror hu.bestError hw
  · have hcoherent := coherent_of_after (coherent_of_prepare hserved hprepared) hmoves hafter
    have herror := hcoherent.paletteError_eq s.strategy.mode
    rw [errorAfter, hafter]
    exact herror

end Ending

/-- Black and white for a red-blind search. -/
theorem exploreTabu_loses_iff_black_white : ∃ (ctx : Context ℝ) (s t v : State ℝ) (m : Nat) (e : ℝ),
    Context.ofLinear [Triple.replicate 0, Triple.replicate 1] .red Settings.standard = .ok ctx ∧
      (prepare ctx ctx.original 0).apply (State.idle ctx.deficiency .tabuSum) = .ok s ∧
      Ranked (Meets ctx s.opened) ∧ (exploreTabu ctx).apply s = .ok t ∧ 0 < m ∧
      after ctx s m = .ok v ∧ t.palette = v.palette ∧ t.bestError = some e ∧
      ∀ a, errorAfter ctx s m = .ok a → (Comparable.lt a e = .ok true ↔
        0 < m ∧ ∀ k < m, ∃ c, errorAfter ctx s k = .ok c ∧ Comparable.lt a c = .ok true) := by
  obtain ⟨ctx, s, hctx, hs, hregular, hready, -, hgo⟩ := Exact.exists_black_white
  have hranked : Ranked (Meets ctx s.opened) := Exact.ranked _
  obtain ⟨t, ht, -, -, -, hmoves⟩ := Exact.exists_exploreTabu hready
  obtain ⟨m, v, e, hv, hiterated, hpalette, -, hbest, -, hlast, -⟩ :=
    exploreTabu_loses_iff (served_idle .tabuSum) hs hranked ht
  obtain ⟨-, -, -, hstart, -⟩ :=
    Exact.ready_of_prepare (served_idle .tabuSum) hregular.original hs
  have hmoved : 0 < m := by
    have hle := hmoves hgo
    rw [hstart, hiterated] at hle
    omega
  exact ⟨ctx, s, t, v, m, e, hctx, hs, hranked, ht, hmoved, hv, hpalette, hbest,
    fun a ha => (hlast a ha).1⟩

end State

noncomputable section

namespace Exact

open State

variable {ctx : Context ℝ} {s t : State ℝ} {b : ℝ}

/-! ### A last move that is worth it -/

/-- A step from a palette that some move improves lowers its error. -/
theorem aggregate_lt_of_gain (hd : distanceMatrix ctx.original = .ok ctx.distances)
    (hs : s.Coherent ctx) {c : Candidate ℝ} (hc : c.Tried ctx s) (hgain : c.gain < 0)
    (h : (tabuStep ctx).apply s = .ok t) : ∃ e a, Mode.sum.aggregate s.errors = .ok e ∧
      Mode.sum.aggregate t.errors = .ok a ∧ a < e := by
  rcases hs.tabuStep_cases (Or.inr ⟨c, hc, rfl⟩) h with
    ⟨hnil, -⟩ | ⟨tried, q, winner, hq, hmem, -, hbest, happly⟩
  · exact absurd hnil hc.palette_ne_nil
  have hwinner := (hmem winner).1 (Candidate.firstLeast_mem hbest)
  obtain ⟨least, -, hleast, hall⟩ := exists_firstLeast (List.ne_nil_of_mem ((hmem c).2 hc))
  obtain rfl := Option.some.inj (Except.ok.inj (hleast.symm.trans hbest))
  have hle := hall c ((hmem c).2 hc)
  obtain ⟨-, htotal⟩ := (hs.withProjector hq).applyChoice_total hd (hwinner.of_eq rfl) happly
  refine ⟨_, _, aggregate_sum_eq hs.perceived hs.errors, htotal, ?_⟩
  show totalOf ctx s.projected + 2 * least.gain < totalOf ctx s.projected
  linarith

/-- A pair that is seen at half the brightness of white or further apart does not cost much. -/
theorem pairCost_le_three {settings : Settings ℝ} {projected original : ℝ}
    (hthreshold : settings.zeroDistanceThreshold < original) (horiginal : 0 < original)
    (hle : original ≤ 2) (hprojected : 1 / 2 ≤ projected) :
    pairCost settings projected original ≤ 3 := by
  have hratio : 0 < projected / original := div_pos (by linarith) horiginal
  have hd : difference settings projected original = projected / original - 1 :=
    if_neg (not_le.2 hthreshold)
  rw [pairCost, hd]
  split_ifs with hpos hlow
  · norm_num
  · linarith
  · have hinverse : 1 / (1 + (projected / original - 1)) = original / projected := by
      rw [add_sub_cancel, one_div_div]
    have hfour : original / projected ≤ 4 := by
      rw [div_le_iff₀ (by linarith)]
      linarith
    rw [hinverse]
    linarith

/-- A red-blind eye sees black as it is. -/
theorem seen_black : Deficiency.red.seen ⟨0, 0, 0⟩ = .ok (⟨0, 0, 0⟩ : Triple ℝ) := by
  have hlight : Deficiency.red.light ⟨0, 0, 0⟩ = .ok (⟨0, 0, 0⟩ : Triple ℝ) := by
    simp only [Deficiency.light, Deficiency.lightOf, Deficiency.redBlindYellow,
      Deficiency.redBlindBlue, Triple.term, Triple.get, calc_scientific, calc_mul, calc_add,
      calc_sub, ok_bind, mul_zero, add_zero, sub_zero, pure_eq_ok]
  have hzero : min (max (0 : ℝ) 0) 1 = 0 := by norm_num
  simp only [Deficiency.seen, hlight, ok_bind, Triple.mapM, confined_eq, hzero]
  rfl

/-- The yellow that green is seen as is more than half as bright as white. -/
theorem half_le_perceived_yellow : 1 / 2 ≤ (read (Eye.blank .perceived)
    ⟨0.8876119706946073, 0.8876119706946073, 0⟩ : Eye ℝ).perceived := by
  have hnonneg : ∀ k, 0 ≤ (⟨0.8876119706946073, 0.8876119706946073, 0⟩ : Triple ℝ).get k := by
    intro k
    cases k <;> norm_num [Triple.get]
  have hfelt : felt ⟨0.8876119706946073, 0.8876119706946073, 0⟩ .green =
      20 / 23 * 0.8876119706946073 := by
    show (20.0 / (15.0 * 0.15 + 20.0 + 5.0 * 0.15) : ℝ) * _ = _
    norm_num [Triple.get]
  have hhalf : 1 / 2 ≤ brightness ⟨0.8876119706946073, 0.8876119706946073, 0⟩ := by
    refine le_trans ?_ (felt_le_brightness hnonneg .green)
    rw [hfelt]
    norm_num
  have hexponent : model.gammaInverse ≤ 1 := by
    show (1.0 / 2.2 : ℝ) ≤ 1
    norm_num
  calc (1 / 2 : ℝ) = (1 / 2) ^ (1 : ℝ) := (Real.rpow_one _).symm
    _ ≤ (1 / 2) ^ model.gammaInverse :=
        Real.rpow_le_rpow_of_exponent_ge (by norm_num) (by norm_num) hexponent
    _ ≤ _ := Real.rpow_le_rpow (by norm_num) hhalf gammaInverse_pos.le

/-- A search for green with and without a little blue, which a red-blind eye does not tell apart,
with steps of the full range. -/
structure Greens (ctx : Context ℝ) (b : ℝ) : Prop where
  regular : Regular ctx
  deficiency : ctx.deficiency = .red
  blue_pos : 0 < b
  blue_le : b ≤ 1 / 255
  original : ctx.original = [⟨0, 1, 0⟩, ⟨0, 1, b⟩]
  threshold : ctx.settings.zeroDistanceThreshold = 0
  penalty : 3 < ctx.settings.collapsePenalty
  step : ctx.settings.step = 1

namespace Greens

variable (h : Greens ctx b)

include h

theorem agrees_yellow (hs : s.Coherent ctx) (hpalette : s.palette = ctx.original) {l : ℕ}
    (hl : l < 2) : (seenAt s.projected l).Agrees
      (read (Eye.blank .perceived) ⟨0.8876119706946073, 0.8876119706946073, 0⟩) := by
  have hsees := hs.sees
  rw [hpalette, h.original, h.deficiency] at hsees
  have hyellow {x : ℝ} (hx : x ≤ 1 / 255) {eye : Eye ℝ} (heye : Deficiency.red.Sees ⟨0, 1, x⟩ eye) :
      eye.Agrees (read (Eye.blank .perceived) ⟨0.8876119706946073, 0.8876119706946073, 0⟩) := by
    refine Deficiency.Sees.agrees heye (sees_of_seen (seen_green hx) fun k => ?_)
    cases k <;> norm_num [Triple.get]
  interval_cases l
  · obtain ⟨eye, heye, hsees⟩ := exists_right_of_getElem? hsees (k := 0) rfl
    exact seenAt_of_getElem? heye ▸ hyellow (by norm_num) hsees
  · obtain ⟨eye, heye, hsees⟩ := exists_right_of_getElem? hsees (k := 1) rfl
    exact seenAt_of_getElem? heye ▸ hyellow h.blue_le hsees

/-- The step from the first green to black has a gain. -/
theorem exists_gain (hs : Sound ctx s) (hpalette : s.palette = ctx.original)
    (hmemory : s.memory[0]? = some Memory.free) :
    ∃ c : Candidate ℝ, c.Tried ctx s ∧ c.gain < 0 := by
  obtain ⟨c, hc, hplace, hk, hdir⟩ := exists_tried hs.coherent hs.remembers hmemory
    (show allows Memory.free .green .down = .ok true from rfl)
  have hblack : c.color = Triple.replicate 0 := by
    obtain ⟨color, x, hcolor, hx, hset⟩ := hc.color
    rw [hplace, hpalette, h.original] at hcolor
    obtain rfl := Option.some.inj hcolor
    rw [h.step, hk, hdir, moved_eq] at hx
    rw [hset, hk, ← Except.ok.inj hx]
    norm_num [Triple.set, Triple.get, Direction.sign, Triple.replicate]
  have hsees : ctx.deficiency.Sees c.color (read (Eye.blank .perceived) (Triple.replicate 0)) := by
    rw [h.deficiency, hblack]
    exact sees_of_seen seen_black fun k => (get_replicate 0 k).ge
  have hlength : s.projected.length = 2 := by
    rw [hs.coherent.length_projected, hpalette, h.original]
    rfl
  have hfirst := h.agrees_yellow hs.coherent hpalette two_pos
  have hsecond := h.agrees_yellow hs.coherent hpalette one_lt_two
  have hfar : ctx.settings.zeroDistanceThreshold < originalAt ctx 0 1 := by
    rw [h.threshold]
    exact originalAt_greens_pos h.regular.toSurveyed h.blue_pos h.blue_le h.original
  have hnear : originalAt ctx 0 1 ≤ 2 := by
    refine originalAt_le_two h.regular.toSurveyed (a := ⟨0, 1, 0⟩) (b := ⟨0, 1, b⟩) ?_ ?_ <;>
      rw [h.original] <;> rfl
  have hbefore :
      cost ctx s.projected 0 (seenAt s.projected 0) 1 = ctx.settings.collapsePenalty := by
    rw [cost, apart_of_agrees (hfirst.trans hsecond.symm), pairCost_zero hfar]
  have hafter :
      cost ctx s.projected 0 (read (Eye.blank .perceived) (Triple.replicate 0)) 1 ≤ 3 := by
    have hbright : 1 / 2 ≤ (seenAt s.projected 1).perceived :=
      half_le_perceived_yellow.trans_eq hsecond.perceived.symm
    refine pairCost_le_three hfar (h.threshold.symm.trans_lt hfar) hnear ?_
    rwa [apart_black (hueOf_mem _) (hs.coherent.hue_mem _ (List.mem_of_getElem?
      (getElem?_seenAt (hlength ▸ one_lt_two)))) perceived_black (by linarith)]
  obtain ⟨-, hgain⟩ := hs.coherent.gain_eq hc hsees
  refine ⟨c, hc, ?_⟩
  rw [hgain, hplace, errorAt_of_length_two hlength two_pos, errorAt_of_length_two hlength two_pos]
  show cost ctx s.projected 0 _ 1 - cost ctx s.projected 0 _ 1 < 0
  rw [hbefore]
  linarith [h.penalty]

end Greens

/-- The settings of a search with steps of the full range and one iteration for each colour. -/
def coarse : Settings ℝ :=
  { Settings.standard with depthPerColor := 1, step := 1, zeroDistanceThreshold := 0 }

theorem validate_coarse : coarse.validate = .ok () := by
  obtain ⟨-, hstalling, hduration, -, hpenalty⟩ := validate_eq_ok_iff.1 validate_standard
  exact validate_eq_ok_iff.2 ⟨one_pos, hstalling, hduration, ⟨one_pos, le_rfl⟩, hpenalty⟩

theorem exists_greens_coarse : ∃ (ctx : Context ℝ) (b : ℝ),
    Context.ofGamma [[0, 255, 0], [0, 255, 1]] .red coarse = .ok ctx ∧ ctx.settings = coarse ∧
      Greens ctx b := by
  obtain ⟨ctx, hctx, hregular, hlinear, hd, hset⟩ := exists_ofGamma Palette.inRange_greens .red
    (show 0 ≤ coarse.zeroDistanceThreshold from le_rfl)
  obtain ⟨b, hb₀, hb₁, hb⟩ := exists_faint_blue
  have horiginal : ctx.original = [⟨0, 1, 0⟩, ⟨0, 1, b⟩] := Except.ok.inj (hlinear.symm.trans hb)
  refine ⟨ctx, b, hctx, hset, hregular, hd, hb₀, hb₁, horiginal, ?_, ?_, ?_⟩ <;> rw [hset]
  · rfl
  · show (3 : ℝ) < OfScientific.ofScientific 65536 true 0
    norm_num
  · rfl

/-- Of the two iterations of their budget one is left. -/
theorem iterated_of_coarse (hset : ctx.settings = coarse) (hsize : ctx.size = 2)
    (hs : (prepare ctx ctx.original (Arith.whole 1)).apply (State.idle ctx.deficiency .tabuSum) =
      .ok s)
    (hstrategy : s.strategy = .tabuSum) (ht : (exploreTabu ctx).apply s = .ok t) :
    t.iterated = 1 := by
  have hne : ctx.original ≠ [] := fun hnil => by simp [Context.size, hnil] at hsize
  have hfund : Budgets.Fund ⟨1 * ctx.size, 8 * ctx.size, 4 * ctx.size⟩ ctx := by
    refine Budgets.fund_of_perColor hne ?_ ?_ ?_ one_pos (by norm_num) (by norm_num) <;> rw [hset]
    · exact Int.cast_one.symm
    · rfl
    · rfl
  obtain ⟨htimed, -⟩ := timed_of_prepare hfund.toAllot hs
  obtain ⟨htimed', -, hiterated⟩ := htimed.exploreTabu hfund.toAllot ht
  have hbest := htimed'.best_nonneg
  rw [hiterated, hstrategy]
  show max 0 (min (1 * (ctx.size : ℤ) - 1) (t.bestIteration + 8 * ctx.size)) = 1
  rw [hsize]
  omega

/-- A search of one iteration knows only the palette that it starts from. -/
theorem exists_tabuStep_of_iterated_one {r : State ℝ} {source : List (Triple ℝ)} {spent : ℝ}
    (hs : (prepare ctx source spent).apply r = .ok s) (ht : (exploreTabu ctx).apply s = .ok t)
    (hone : t.iterated = 1) : ∃ (u : State ℝ) (e : ℝ),
      (State.tabuStep ctx).apply s.opened = .ok u ∧ t.palette = u.palette ∧
      s.strategy.mode.aggregate s.opened.errors = .ok e ∧ t.bestError = some e := by
  obtain ⟨u, hu, -, rfl⟩ := iterated_of_exploreTabu ht
  obtain ⟨m, hm⟩ := exists_rounds hu
  obtain ⟨e₀, -, h₀, hstart⟩ := exists_tracked_of_prepare (ranked _) hs
  obtain ⟨k, e, htracked⟩ := exists_tracked (ranked _) h₀ hstart hm
  obtain rfl : m = 1 := by exact_mod_cast htracked.iterated.symm.trans hone
  -- so the best error is the one of the palette before the move
  obtain rfl : k = 0 := by
    rcases htracked.firstLeast.place with hk | hk
    · exact hk
    · omega
  obtain ⟨v, hv, hstep⟩ := bind_eq_ok.1 (after_of_rounds hm)
  obtain rfl := Except.ok.inj hv
  exact ⟨_, e, hstep, rfl, htracked.firstLeast.value, htracked.bestError⟩

end Exact

namespace State

open Exact

/-- A search from green with and without a little blue, for which the budget leaves one iteration,
ends with a better palette than its best one. -/
theorem exploreTabu_loses_green : ∃ (ctx : Context ℝ) (s t : State ℝ) (a e : ℝ),
    Context.ofGamma [[0, 255, 0], [0, 255, 1]] .red
        { Settings.standard with
          depthPerColor := (1 : ℝ), step := 1, zeroDistanceThreshold := 0 } = .ok ctx ∧
      ctx.settings.validate = .ok () ∧
      (prepare ctx ctx.original 1).apply (State.idle ctx.deficiency .tabuSum) = .ok s ∧
      (exploreTabu ctx).apply s = .ok t ∧ t.bestError = some e ∧
      paletteError ctx t.palette t.strategy.mode = .ok a ∧ a < e := by
  obtain ⟨ctx, b, hctx, hset, hgreens⟩ := exists_greens_coarse
  have hregular := hgreens.regular
  have hsize : ctx.size = 2 := congrArg List.length hgreens.original
  obtain ⟨s, hs⟩ :=
    exists_prepare hregular (served_idle .tabuSum) hregular.original (Arith.whole 1)
  obtain ⟨hready, hstrategy, -⟩ :=
    ready_of_prepare (served_idle .tabuSum) hregular.original hs
  have hpalette : s.palette = ctx.original := (phase_of_prepare hs).2
  obtain ⟨t, ht, -, hstrategy', -⟩ := exists_exploreTabu hready
  obtain ⟨u, e, hstep, hlast, he, hbest⟩ :=
    exists_tabuStep_of_iterated_one hs ht (iterated_of_coarse hset hsize hs hstrategy ht)
  have hmemory : s.opened.memory[0]? = some Memory.free := by
    refine opened_memory ?_
    rw [hpalette, hgreens.original]
    exact two_pos
  obtain ⟨c, hc, hgain⟩ := hgreens.exists_gain hready.opened hpalette hmemory
  have hcoherent := hready.opened.coherent
  obtain ⟨e', a, he', ha, hlt⟩ := aggregate_lt_of_gain hregular.distances hcoherent hc hgain hstep
  rw [hstrategy] at he
  obtain rfl := Except.ok.inj (he.symm.trans he')
  have hmeasured := (hcoherent.tabuStep hready.opened.hasMove hstep).paletteError_eq .sum
  refine ⟨ctx, s, t, a, e, hctx, hset ▸ validate_coarse, ?_, ht, hbest, ?_, hlt⟩
  · rwa [whole_eq, Int.cast_one] at hs
  · rw [hstrategy', hstrategy, hlast]
    exact hmeasured.trans ha

end State

end

end Dichromat
