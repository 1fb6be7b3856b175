import Dichromat.Proofs.Exact.Step
import Dichromat.Proofs.Search.Frame

/-!
# Phases in exact arithmetic

Where every pair of original colours has an error, as it has up to a threshold that is not negative
(`Surveyed.regular`), a phase is never refused: every palette in the gamut can be prepared
(`exists_prepare`), every state that a Tabu search goes through can take its next step
(`Steady.exists_iterate`) without leaving the gamut (`Sound.iterate`), and the search ends
(`exists_exploreTabu`).
-/

noncomputable section

namespace Dichromat

/-- A memory that forbids at most one move. -/
def Memory.Lenient (m : Memory) : Prop :=
  m = Memory.free ∨ ∃ (k : Channel) (sign : Int), m = Memory.free.set k.index sign

namespace Memory.Lenient

variable {m : Memory} (h : m.Lenient)

include h

theorem length : m.length = 3 := by
  rcases h with rfl | ⟨k, sign, rfl⟩
  · rfl
  · rw [List.length_set]
    rfl

/-- Another channel is free. -/
theorem exists_allows : ∃ k d, State.allows m k d = .ok true := by
  rcases h with rfl | ⟨k, sign, rfl⟩
  · exact ⟨.red, .up, rfl⟩
  · cases k with
    | red => exact ⟨.green, .up, rfl⟩
    | green => exact ⟨.blue, .up, rfl⟩
    | blue => exact ⟨.red, .up, rfl⟩

end Memory.Lenient

namespace Exact

open State

variable {ctx : Context ℝ} {s t : State ℝ}

/-! ### Palettes and contexts -/

/-- Channels from 0 to 1. -/
def InGamut (c : Triple ℝ) : Prop := ∀ k, c.get k ∈ Set.Icc (0 : ℝ) 1

/-- A palette of the size of the context, in the gamut. -/
structure Fits (ctx : Context ℝ) (palette : List (Triple ℝ)) : Prop where
  length : palette.length = ctx.size
  gamut : ∀ c ∈ palette, InGamut c

section Fits

variable {palette : List (Triple ℝ)} (h : Fits ctx palette)

include h

theorem Fits.nonneg : ∀ c ∈ palette, ∀ k, 0 ≤ c.get k := fun c hc k => (h.gamut c hc k).1

theorem Fits.set (place : ℕ) {c : Triple ℝ} (hc : InGamut c) :
    Fits ctx (palette.set place c) := by
  refine ⟨(List.length_set ..).trans h.length, fun x hx => ?_⟩
  rcases List.mem_or_eq_of_mem_set hx with hx | rfl
  · exact h.gamut x hx
  · exact hc

end Fits

/-- The original palette and its distances. -/
structure Surveyed (ctx : Context ℝ) : Prop where
  original : Fits ctx ctx.original
  distances : distanceMatrix ctx.original = .ok ctx.distances

/-- Every pair of original colours has an error. -/
structure Regular (ctx : Context ℝ) : Prop extends Surveyed ctx where
  measured : Measures ctx ctx.size

theorem exists_distanceMatrix {colors : List (Triple ℝ)} (h : ∀ c ∈ colors, ∀ k, 0 ≤ c.get k) :
    ∃ rows, distanceMatrix colors = .ok rows := by
  obtain ⟨eyes, heyes⟩ := mapM_ok fun c hc => ⟨_, ofLinear_eq (h c hc) .perceived⟩
  exact ⟨_, distanceMatrix_eq (mapM_eq_ok_iff.1 heyes)⟩

theorem standard_threshold : (Settings.standard : Settings ℝ).zeroDistanceThreshold = 1 / 1000 := by
  show (OfScientific.ofScientific 1 true 3 : ℝ) = 1 / 1000
  norm_num

theorem standard_threshold_nonneg : 0 ≤ (Settings.standard : Settings ℝ).zeroDistanceThreshold := by
  rw [standard_threshold]
  norm_num

theorem standard_penalty : (Settings.standard : Settings ℝ).collapsePenalty = 65536 := by
  show (OfScientific.ofScientific 65536 true 0 : ℝ) = 65536
  norm_num

theorem standard_penalty_pos : 0 < (Settings.standard : Settings ℝ).collapsePenalty := by
  rw [standard_penalty]
  norm_num

theorem standard_floor : (Settings.standard : Settings ℝ).shakeFloor = 1 / 10 := by
  show (OfScientific.ofScientific 1 true 1 : ℝ) = 1 / 10
  norm_num

theorem standard_span : (Settings.standard : Settings ℝ).shakeSpan = 4 / 5 := by
  show (OfScientific.ofScientific 8 true 1 : ℝ) = 4 / 5
  norm_num

theorem exists_surveyed {original : List (Triple ℝ)} (h : ∀ c ∈ original, InGamut c)
    (d : Deficiency) (settings : Settings ℝ) :
    ∃ ctx, Context.ofLinear original d settings = .ok ctx ∧ Surveyed ctx ∧
      ctx.original = original ∧ ctx.deficiency = d ∧ ctx.settings = settings := by
  obtain ⟨rows, hrows⟩ := exists_distanceMatrix fun c hc k => (h c hc k).1
  exact ⟨_, bind_eq_ok.2 ⟨rows, hrows, rfl⟩, ⟨⟨rfl, h⟩, hrows⟩, rfl, rfl, rfl⟩

theorem Surveyed.regular (hctx : Surveyed ctx) (h : ∀ k < ctx.size, ∀ l < ctx.size, l ≠ k →
    Measurable ctx (originalAt ctx k l)) : Regular ctx :=
  ⟨hctx, measures_of_square (square_of_distances hctx.distances) le_rfl h⟩

/-- Up to a threshold that is not negative no distance is divided by that is none. -/
theorem measurable_of_threshold (h : 0 ≤ ctx.settings.zeroDistanceThreshold) (original : ℝ) :
    Measurable ctx original :=
  near_or_ne_zero h original

theorem exists_regular {original : List (Triple ℝ)} (h : ∀ c ∈ original, InGamut c)
    (d : Deficiency) {settings : Settings ℝ} (hθ : 0 ≤ settings.zeroDistanceThreshold) :
    ∃ ctx, Context.ofLinear original d settings = .ok ctx ∧ Regular ctx ∧
      ctx.original = original ∧ ctx.deficiency = d ∧ ctx.settings = settings := by
  obtain ⟨ctx, hctx, hsurveyed, horiginal, hd, rfl⟩ := exists_surveyed h d settings
  exact ⟨ctx, hctx, hsurveyed.regular fun k _ l _ _ => measurable_of_threshold hθ _, horiginal,
    hd, rfl⟩

theorem Regular.measures (hctx : Regular ctx) {n : ℕ} (hn : n ≤ ctx.size) : Measures ctx n := by
  intro k hk
  obtain ⟨row, hrow, hpairs⟩ := hctx.measured k (hk.trans_le hn)
  exact ⟨row, hrow, fun l hl => hpairs l (hl.trans_le hn)⟩

/-! ### Preparing -/

/-- The iteration at which a phase ends if no better palette turns up. -/
def stallLimitOf (ctx : Context ℝ) (s : State ℝ) : ℝ :=
  if s.strategy.watchesStalling then s.iterated + ctx.settings.stallingPeriod * ctx.size
  else s.maxIterations

theorem nextStallLimit_eq (ctx : Context ℝ) (s : State ℝ) :
    nextStallLimit ctx s = .ok (stallLimitOf ctx s) := by
  unfold nextStallLimit stallLimitOf
  split_ifs <;> rfl

/-- The iterations that a phase may take. -/
def budgetOf (ctx : Context ℝ) (strategy : Strategy) (spent : ℝ) : ℝ :=
  match strategy.mode with
  | .sum => ctx.settings.depthPerColor * ctx.size - spent
  | .max => ctx.settings.maxModeDuration * ctx.size

theorem iterationLimit_eq (ctx : Context ℝ) (strategy : Strategy) (spent : ℝ) :
    iterationLimit ctx strategy spent = .ok (budgetOf ctx strategy spent) := by
  unfold iterationLimit budgetOf
  cases strategy.mode <;> rfl

/-- A palette of which every pair has an error has projections and errors. -/
theorem exists_errors {p : Projector ℝ} (hp : p.Serves ctx.deficiency)
    {palette : List (Triple ℝ)} (hm : Measures ctx palette.length) : ∃ eyes q es,
      p.projectAll palette = .ok (eyes, q) ∧ q.Serves ctx.deficiency ∧
        List.Forall₂ ctx.deficiency.Sees palette eyes ∧ colorErrors ctx eyes = .ok es := by
  obtain ⟨eyes, q, hall, hq, hsees⟩ := exists_projectAll hp palette
  rw [hsees.length_eq] at hm
  exact ⟨eyes, q, _, hall, hq, hsees, colorErrors_eq hm (Deficiency.perceived_of_sees hsees)⟩

/-- A palette that fits can be prepared. -/
theorem exists_prepare (hctx : Regular ctx) (hp : s.projector.Serves ctx.deficiency)
    {source : List (Triple ℝ)} (hsource : Fits ctx source) (spent : ℝ) :
    ∃ t, (prepare ctx source spent).apply s = .ok t := by
  obtain ⟨eyes, q, es, hall, -, -, hes⟩ := exists_errors hp (hctx.measures hsource.length.le)
  obtain ⟨error, he⟩ := exists_aggregate s.strategy.mode es
  exact ⟨_, prepare_eq_ok.2 ⟨_, eyes, q, es, error, _, iterationLimit_eq .., hall, hes, he,
    nextStallLimit_eq .., rfl⟩⟩

/-- Every pair has an error where a palette of the size of the context could be prepared. -/
theorem regular_of_prepare (hctx : Surveyed ctx) (hp : s.projector.Serves ctx.deficiency)
    {source : List (Triple ℝ)} (hsource : source.length = ctx.size) {spent : ℝ}
    (h : (prepare ctx source spent).apply s = .ok t) : Regular ctx := by
  obtain ⟨_, eyes, q, es, _, _, -, hall, hes, -⟩ := prepare_eq_ok.1 h
  have hsees := (Projector.serves_projectAll hp hall).2
  have hmeasures := measures_of_colorErrors (Deficiency.perceived_of_sees hsees) hes
  rw [← hsees.length_eq, hsource] at hmeasures
  exact ⟨hctx, hmeasures⟩

/-! ### Iterating -/

/-- What a search needs in order to go on: errors that are up to date, and memories that leave a
move to every colour. -/
structure Steady (ctx : Context ℝ) (s : State ℝ) : Prop where
  coherent : s.Coherent ctx
  length : s.memory.length = s.palette.length
  lenient : ∀ m ∈ s.memory, m.Lenient

namespace Steady

variable (hs : Steady ctx s)

include hs

theorem remembers : s.Remembers := ⟨hs.length, fun m hm => (hs.lenient m hm).length⟩

theorem hasMove : s.HasMove ctx := by
  rcases hfirst : s.palette with _ | ⟨first, rest⟩
  · exact Or.inl hfirst
  · have h : 0 < s.memory.length := by
      rw [hs.length, hfirst]
      exact Nat.succ_pos _
    have hplace : 0 < s.palette.length := hs.length ▸ h
    obtain ⟨k, d, hk⟩ := (hs.lenient _ (List.getElem_mem h)).exists_allows
    obtain ⟨c, q, hc, -⟩ := exists_candidate hs.coherent hs.coherent.projector hplace
      s.palette[0] k d
    exact Or.inr ⟨c, (tried_of_candidate hs.coherent.projector (List.getElem?_eq_getElem hplace)
      (List.getElem?_eq_getElem h) hk hc).2.1, rfl⟩

theorem exists_tabuStep : ∃ t, (tabuStep ctx).apply s = .ok t := by
  rcases hfirst : s.palette.head? with _ | first
  · exact ⟨s, Update.apply_eq_ok.2 (runOn_tabuStep_nil (List.head?_eq_none_iff.1 hfirst))⟩
  · rcases hs.hasMove with hnil | ⟨c, hc, -⟩
    · exact nomatch (List.head?_eq_none_iff.2 hnil).symm.trans hfirst
    · exact Exact.exists_tabuStep hs.coherent hs.remembers hc

/-- A step can be followed by another one, and changes at most one colour of the palette. -/
theorem tabuStep (h : (State.tabuStep ctx).apply s = .ok t) : Steady ctx t ∧
    t.bestPalette = s.bestPalette ∧ (t.palette = s.palette ∨
      ∃ c : Candidate ℝ, c.Tried ctx s ∧ t.palette = s.palette.set c.place c.color) := by
  rcases hs.coherent.tabuStep_cases hs.hasMove h with
    ⟨-, rfl⟩ | ⟨tried, q, c, hq, hmem, -, hc, h⟩
  · exact ⟨hs, rfl, Or.inl rfl⟩
  · have hc := (hmem c).1 (Candidate.firstLeast_mem hc)
    have hs' := hs.coherent.withProjector hq
    have hc' : c.Tried ctx { s with projector := q } := hc.of_eq rfl
    have ht := hs'.applyChoice hc' h
    obtain ⟨q', es, -, -, rfl⟩ := (hs'.applyChoice_eq_ok hc').1 h
    refine ⟨⟨ht, ?_, fun m hm => ?_⟩, rfl, Or.inr ⟨c, hc, rfl⟩⟩
    · rw [List.length_set, List.length_set]
      exact hs.length
    · rcases List.mem_or_eq_of_mem_set hm with hm | rfl
      · exact hs.lenient m hm
      · exact Or.inr ⟨c.channel, _, rfl⟩

theorem recorded {r : State ℝ} (h : Recorded ctx s r) : Steady ctx r := by
  have hr := hs.coherent.recorded h
  obtain ⟨_, -, ⟨-, _, -, rfl⟩ | ⟨-, rfl⟩⟩ := h
  · exact ⟨hr, hs.length, hs.lenient⟩
  · exact hs

omit hs in
theorem exists_recorded (s : State ℝ) : ∃ r, Recorded ctx s r := by
  obtain ⟨error, he⟩ := exists_aggregate s.strategy.mode s.errors
  have hbelow : ∃ below, isBelow error s.bestError = .ok below := by
    cases s.bestError with
    | none => exact ⟨_, isBelow_none error⟩
    | some b => exact ⟨_, isBelow_some error b⟩
  obtain ⟨below, hb⟩ := hbelow
  cases below with
  | true => exact ⟨_, error, he, Or.inl ⟨hb, _, nextStallLimit_eq .., rfl⟩⟩
  | false => exact ⟨s, error, he, Or.inr ⟨hb, rfl⟩⟩

theorem exists_iterate : ∃ t, (State.iterate ctx).apply s = .ok t := by
  obtain ⟨r, hr⟩ : ∃ r, Recorded ctx s r := exists_recorded s
  obtain ⟨u, hu⟩ := (hs.recorded hr).exists_tabuStep
  exact ⟨_, iterate_eq_ok.2 ⟨r, u, hr, hu, rfl⟩⟩

theorem iterate (h : (State.iterate ctx).apply s = .ok t) : Steady ctx t := by
  obtain ⟨r, u, hr, hu, rfl⟩ := iterate_eq_ok.1 h
  obtain ⟨hu, -⟩ := (hs.recorded hr).tabuStep hu
  exact ⟨hu.coherent.of_eq rfl, hu.length, hu.lenient⟩

end Steady

/-- What holds of a state before every iteration of a run. -/
structure Sound (ctx : Context ℝ) (s : State ℝ) : Prop extends Steady ctx s where
  palette : Fits ctx s.palette
  bestPalette : Fits ctx s.bestPalette

namespace Sound

variable (hs : Sound ctx s)

include hs

/-- A move brings its channel between 0 and 1 and changes nothing else. -/
theorem fits_of_tried {c : Candidate ℝ} (hc : c.Tried ctx s) :
    Fits ctx (s.palette.set c.place c.color) := by
  obtain ⟨color, x, hcolor, hx, hset⟩ := hc.color
  refine hs.palette.set c.place fun k => ?_
  rw [hset]
  by_cases hk : k = c.channel
  · rw [hk, Triple.get_set_self]
    exact moved_mem hx
  · rw [Triple.get_set_of_ne _ _ hk]
    exact hs.palette.gamut color (List.mem_of_getElem? hcolor) k

theorem tabuStep (h : (State.tabuStep ctx).apply s = .ok t) : Sound ctx t := by
  obtain ⟨ht, hbest, hpalette⟩ := hs.toSteady.tabuStep h
  refine ⟨ht, ?_, hbest ▸ hs.bestPalette⟩
  rcases hpalette with heq | ⟨c, hc, heq⟩
  · exact heq ▸ hs.palette
  · exact heq ▸ hs.fits_of_tried hc

theorem recorded {r : State ℝ} (h : Recorded ctx s r) : Sound ctx r := by
  have hr := hs.toSteady.recorded h
  obtain ⟨_, -, ⟨-, _, -, rfl⟩ | ⟨-, rfl⟩⟩ := h
  · exact ⟨hr, hs.palette, hs.palette⟩
  · exact hs

theorem iterate (h : (State.iterate ctx).apply s = .ok t) : Sound ctx t := by
  have ht := hs.toSteady.iterate h
  obtain ⟨r, u, hr, hu, rfl⟩ := iterate_eq_ok.1 h
  obtain ⟨-, hpalette, hbest⟩ := (hs.recorded hr).tabuStep hu
  exact ⟨ht, hpalette, hbest⟩

end Sound

theorem mayGoOn_eq (s : State ℝ) : mayGoOn s = .ok
    (decide ((s.iterated : ℝ) < s.maxIterations) && decide ((s.iterated : ℝ) < s.stallLimit)) := by
  simp only [mayGoOn, calc_whole, calc_lt, ok_bind]
  by_cases h : (s.iterated : ℝ) < s.maxIterations
  · simp [h]
  · simp [h, pure, Except.pure]

/-- The loop ends within the budget. -/
theorem exists_iterateWhile {fuel : ℕ} (hs : Steady ctx s)
    (hfuel : s.maxIterations ≤ s.iterated + fuel) :
    ∃ t, (iterateWhile ctx fuel).apply s = .ok t := by
  induction fuel generalizing s with
  | zero =>
    have hstop : mayGoOn s = .ok false := by
      rw [Nat.cast_zero, add_zero] at hfuel
      rw [mayGoOn_eq, decide_eq_false (not_lt.2 hfuel), Bool.false_and]
    exact ⟨s, iterateWhile_zero_eq_ok.2 ⟨hstop, rfl⟩⟩
  | succ fuel ih =>
    obtain ⟨go, hgo⟩ : ∃ go, mayGoOn s = .ok go := ⟨_, mayGoOn_eq s⟩
    cases go with
    | false => exact ⟨s, iterateWhile_succ_eq_ok.2 (Or.inl ⟨hgo, rfl⟩)⟩
    | true =>
      obtain ⟨r, hr⟩ := hs.exists_iterate
      obtain ⟨-, hiterated, hmax⟩ := progress_of_iterate hr
      have hfuel' : r.maxIterations ≤ r.iterated + fuel := by
        rw [hmax, hiterated]
        push_cast at hfuel ⊢
        linarith
      obtain ⟨t, ht⟩ := ih (hs.iterate hr) hfuel'
      exact ⟨t, iterateWhile_succ_eq_ok.2 (Or.inr ⟨hgo, r, hr, ht⟩)⟩

theorem le_iterationsLeft (s : State ℝ) :
    s.maxIterations ≤ s.iterated + (iterationsLeft s : ℕ) := by
  have h : (⌈s.maxIterations⌉₊ : ℤ) ≤ s.iterated + (iterationsLeft s : ℕ) := by
    rw [iterationsLeft, horizon_eq]
    omega
  calc s.maxIterations ≤ (⌈s.maxIterations⌉₊ : ℝ) := Nat.le_ceil _
    _ ≤ s.iterated + (iterationsLeft s : ℕ) := by exact_mod_cast h

theorem Sound.iterated (hs : Sound ctx s) (h : Iterated ctx s t) : Sound ctx t ∧
    t.strategy = s.strategy ∧ t.maxIterations = s.maxIterations ∧
      (t = s ∨ s.iterated + 1 ≤ t.iterated) := by
  induction h with
  | first => exact ⟨hs, rfl, rfl, Or.inl rfl⟩
  | next _ _ hu ih =>
    obtain ⟨ht, hstrategy, hmax, hle⟩ := ih
    obtain ⟨hstrategy', hiterated, hmax'⟩ := progress_of_iterate hu
    refine ⟨ht.iterate hu, hstrategy'.trans hstrategy, hmax'.trans hmax, Or.inr ?_⟩
    rcases hle with rfl | hle
    · omega
    · omega

/-! ### A phase -/

/-- What holds of a state between phases. -/
structure Ready (ctx : Context ℝ) (s : State ℝ) : Prop where
  coherent : s.Coherent ctx
  palette : Fits ctx s.palette
  bestPalette : Fits ctx s.bestPalette

/-- A search begins without a forbidden move. -/
theorem steady_opened (hs : s.Coherent ctx) : Steady ctx s.opened where
  coherent := hs.of_eq rfl
  length := List.length_map ..
  lenient m hm := by
    obtain ⟨_, -, rfl⟩ := List.mem_map.1 hm
    exact Or.inl rfl

theorem Ready.opened (hs : Ready ctx s) : Sound ctx s.opened :=
  ⟨steady_opened hs.coherent, hs.palette, hs.bestPalette⟩

theorem ready_of_prepare (hp : s.projector.Serves ctx.deficiency) {source : List (Triple ℝ)}
    (hsource : Fits ctx source) {spent : ℝ} (h : (prepare ctx source spent).apply s = .ok t) :
    Ready ctx t ∧ t.strategy = s.strategy ∧ t.phase = .prepared ∧ t.iterated = 0 ∧
      t.bestPalette = source ∧ t.maxIterations = budgetOf ctx s.strategy spent ∧
      t.stallLimit = stallLimitOf ctx { s with
        maxIterations := budgetOf ctx s.strategy spent, iterated := 0 } := by
  have ht := coherent_of_prepare hp h
  obtain ⟨budget, eyes, q, es, error, limit, hb, -, -, -, hl, rfl⟩ := prepare_eq_ok.1 h
  obtain rfl := Except.ok.inj ((iterationLimit_eq ..).symm.trans hb)
  exact ⟨⟨ht, hsource, hsource⟩, rfl, rfl, rfl, rfl, rfl,
    (Except.ok.inj ((nextStallLimit_eq ..).symm.trans hl)).symm⟩

/-- Budgets for at least one colour. -/
structure Funded (ctx : Context ℝ) : Prop where
  size : 0 < ctx.size
  depth : 0 < ctx.settings.depthPerColor
  stalling : 0 < ctx.settings.stallingPeriod

theorem Funded.budget_pos (hctx : Funded ctx) : 0 < budgetOf ctx .tabuSum 0 := by
  have h : 0 < ctx.settings.depthPerColor * ctx.size :=
    mul_pos hctx.depth (Nat.cast_pos.2 hctx.size)
  exact h.trans_eq (sub_zero _).symm

theorem mayGoOn_opened (hctx : Funded ctx) (hp : s.projector.Serves ctx.deficiency)
    {source : List (Triple ℝ)} (hsource : Fits ctx source) {spent : ℝ}
    (h : (prepare ctx source spent).apply s = .ok t) (hb : 0 < budgetOf ctx s.strategy spent) :
    mayGoOn t.opened = .ok true := by
  obtain ⟨-, -, -, hiterated, -, hmax, hstall⟩ := ready_of_prepare hp hsource h
  have hlimit : 0 < t.stallLimit := by
    rw [hstall]
    unfold stallLimitOf
    split_ifs
    · rw [Int.cast_zero, zero_add]
      exact mul_pos hctx.stalling (Nat.cast_pos.2 hctx.size)
    · exact hb
  have hiterated' : (t.opened.iterated : ℝ) = 0 := by
    show (t.iterated : ℝ) = 0
    rw [hiterated, Int.cast_zero]
  rw [mayGoOn_eq, hiterated', decide_eq_true (show 0 < t.opened.maxIterations from hmax ▸ hb),
    decide_eq_true (show 0 < t.opened.stallLimit from hlimit), Bool.and_self]

/-- Black and white can be prepared for a red-blind search with standard settings. -/
theorem exists_black_white : ∃ (ctx : Context ℝ) (s : State ℝ),
    Context.ofLinear [Triple.replicate 0, Triple.replicate 1] .red Settings.standard = .ok ctx ∧
      (prepare ctx ctx.original 0).apply (State.idle ctx.deficiency .tabuSum) = .ok s ∧
      Regular ctx ∧ Ready ctx s ∧ s.palette ≠ [] ∧ mayGoOn s.opened = .ok true := by
  have hgamut : ∀ c ∈ [Triple.replicate (0 : ℝ), Triple.replicate 1], InGamut c := by
    intro c hc k
    rcases List.mem_pair.1 hc with rfl | rfl <;> cases k <;> simp [Triple.replicate, Triple.get]
  obtain ⟨ctx, hctx, hregular, ho, hd, hset⟩ :=
    exists_regular hgamut .red standard_threshold_nonneg
  have h₀ : (State.idle ctx.deficiency .tabuSum : State ℝ).projector.Serves ctx.deficiency :=
    Projector.serves_ofDeficiency _
  obtain ⟨s, hs⟩ := exists_prepare hregular h₀ hregular.original 0
  obtain ⟨hready, -⟩ := ready_of_prepare h₀ hregular.original hs
  have hsize : ctx.size = 2 := congrArg List.length ho
  have hfunded : Funded ctx := by
    refine ⟨hsize ▸ two_pos, ?_, ?_⟩
    · rw [hset]
      exact Int.cast_pos.2 (by norm_num)
    · rw [hset]
      exact Int.cast_pos.2 (by norm_num)
  have hne : s.palette ≠ [] :=
    List.ne_nil_of_length_pos (hready.palette.length ▸ hfunded.size)
  exact ⟨ctx, s, hctx, hs, hregular, hready, hne,
    mayGoOn_opened hfunded h₀ hregular.original hs hfunded.budget_pos⟩

/-- A Tabu search from a coherent state ends. -/
theorem exists_exploreTabu_of_coherent (hs : s.Coherent ctx) :
    ∃ t, (exploreTabu ctx).apply s = .ok t := by
  obtain ⟨u, hu⟩ := exists_iterateWhile (steady_opened hs) (le_iterationsLeft s.opened)
  refine ⟨{ u with phase := .done }, ?_⟩
  rw [Update.apply_eq_ok] at hu ⊢
  unfold exploreTabu resetMemory
  simp only [Update.runOn_bind_eq_ok, Update.runOn_get, Update.runOn_modify, Prod.mk.injEq,
    Except.ok.injEq]
  exact ⟨(), _, ⟨trivial, rfl⟩, (), _, ⟨trivial, rfl⟩, _, _, ⟨rfl, rfl⟩, (), u, hu, trivial, rfl⟩

/-- A Tabu search ends, and goes at least one step if it may. -/
theorem exists_exploreTabu (hs : Ready ctx s) : ∃ t, (exploreTabu ctx).apply s = .ok t ∧
    Ready ctx t ∧ t.strategy = s.strategy ∧ s.iterated ≤ t.iterated ∧
      (mayGoOn s.opened = .ok true → s.iterated + 1 ≤ t.iterated) := by
  obtain ⟨t, ht⟩ := exists_exploreTabu_of_coherent hs.coherent
  obtain ⟨u, hi, hstop, rfl⟩ := iterated_of_exploreTabu ht
  obtain ⟨hu', hstrategy, -, hle⟩ := hs.opened.iterated hi
  have hiterated : s.opened.iterated = s.iterated := rfl
  refine ⟨_, ht, ⟨hu'.coherent.of_eq rfl, hu'.palette, hu'.bestPalette⟩, hstrategy, ?_,
    fun hgo => ?_⟩
  · rcases hle with rfl | hle
    · exact le_rfl
    · show s.iterated ≤ u.iterated
      omega
  · rcases hle with rfl | hle
    · exact nomatch hstop.symm.trans hgo
    · exact hle

end Exact

end Dichromat

end
