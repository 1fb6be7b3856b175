import Dichromat.Proofs.Color.Confined
import Dichromat.Proofs.Exact.Phase
import Dichromat.Proofs.Search.Frame

/-!
# Shakes in exact arithmetic

A shake of a colour squeezes its purity and its intensity, turns its hue and confines what results
(`shaken_eq`); whatever is drawn, the colour stays in the gamut (`inGamut_shakenColor`). The colours
of a palette are shaken in order, each with a draw of its own (`runOn_shakeColors`), and then
measured, so a shake is never refused where the palette could be measured before
(`exists_exploreShake_of_measures`).
-/

noncomputable section

namespace Dichromat

namespace Draws

variable {α : Type} [Arith α]

/-- The source that is left after some draws. -/
def drop (draws : Draws α) : ℕ → Draws α
  | 0 => draws
  | n + 1 => draws.draw.2.drop n

theorem drop_sequence (number : ℕ → α) (next n : ℕ) :
    (sequence number next).drop n = sequence number (next + n) := by
  induction n generalizing next with
  | zero => rfl
  | succ n ih => rw [drop, draw, ih, Nat.add_assoc, Nat.add_comm 1]

end Draws

namespace Exact

open State Update

variable {ctx : Context ℝ} {s : State ℝ} {settings : Settings ℝ} {c : Triple ℝ}

/-! ### A colour -/

/-- A perceptual colour as a shake leaves it. -/
def stirred (settings : Settings ℝ) (u : ℝ) (e : Eye ℝ) : Eye ℝ :=
  Eye.confined { e with
    hue := e.hue + settings.shakeHueRange * (1 - 2 * u)
    normalized := settings.shakeFloor + settings.shakeSpan * e.normalized
    purity := settings.shakeFloor + settings.shakeSpan * e.purity }

theorem shaken_eq (u : ℝ) {e : Eye ℝ} (he : e.space = .normalized) :
    shaken settings u e = .ok (stirred settings u e) := by
  simp only [shaken, shiftedHue, squeezed, calc_one, calc_ofNat, calc_mul, calc_sub, calc_add,
    ok_bind]
  exact Update.apply_eq_ok.2 (Eye.runOn_confine_of_normalized he)

/-- A shaken colour as the shake gets to see it. -/
def shakenEye (settings : Settings ℝ) (u : ℝ) (c : Triple ℝ) : Eye ℝ :=
  stirred settings u (read (Eye.blank .normalized) c)

theorem inRange_shakenEye (settings : Settings ℝ) (u : ℝ) (c : Triple ℝ) :
    (shakenEye settings u c).InRange := by
  rw [shakenEye, stirred]
  exact Eye.inRange_confined _

/-- The linear channels of a shaken colour. -/
def shakenColor (settings : Settings ℝ) (u : ℝ) (c : Triple ℝ) : Triple ℝ :=
  linear (shakenEye settings u c).hue (shakenEye settings u c).purity
    (shakenEye settings u c).level

/-- A shaken colour lies in the gamut. -/
theorem inGamut_shakenColor (settings : Settings ℝ) (u : ℝ) (c : Triple ℝ) :
    InGamut (shakenColor settings u c) :=
  (inRange_shakenEye settings u c).linear_mem

/-- The shake of a colour is a function of it and one draw. -/
theorem runOn_shakeColor {place : ℕ} (hcolor : s.palette[place]? = some c)
    (hc : ∀ k, 0 ≤ c.get k) (draws : Draws ℝ) : (shakeColor ctx place).runOn (s, draws) =
      (.ok (), { s with
        palette := s.palette.set place (shakenColor ctx.settings draws.draw.1 c) },
        draws.draw.2) :=
  runOn_shakeColor_eq_ok.2 (Or.inr ⟨c, _, _, _, hcolor, ofLinear_eq hc .normalized,
    shaken_eq draws.draw.1 (e := read (Eye.blank .normalized) c) rfl,
    (inRange_shakenEye ctx.settings draws.draw.1 c).toLinear_eq, rfl, rfl⟩)

/-! ### A palette -/

/-- The colours of a palette, shaken one after the other. -/
def shakenAll (settings : Settings ℝ) : Draws ℝ → List (Triple ℝ) → List (Triple ℝ)
  | _, [] => []
  | draws, c :: colors =>
    shakenColor settings draws.draw.1 c :: shakenAll settings draws.draw.2 colors

theorem length_shakenAll (draws : Draws ℝ) (colors : List (Triple ℝ)) :
    (shakenAll settings draws colors).length = colors.length := by
  induction colors generalizing draws with
  | nil => rfl
  | cons c colors ih => rw [shakenAll, List.length_cons, List.length_cons, ih]

theorem inGamut_shakenAll (draws : Draws ℝ) (colors : List (Triple ℝ)) :
    ∀ c ∈ shakenAll settings draws colors, InGamut c := by
  induction colors generalizing draws with
  | nil => exact nofun
  | cons c colors ih =>
    rw [shakenAll]
    exact List.forall_mem_cons.2 ⟨inGamut_shakenColor _ _ _, ih _⟩

/-- Each colour has the draw of its place. -/
theorem getElem?_shakenAll (draws : Draws ℝ) {colors : List (Triple ℝ)} {place : ℕ}
    (hc : colors[place]? = some c) : (shakenAll settings draws colors)[place]? =
      some (shakenColor settings (draws.drop place).draw.1 c) := by
  induction colors generalizing draws place with
  | nil => exact nomatch hc
  | cons first colors ih =>
    rw [shakenAll]
    cases place with
    | zero =>
      obtain rfl := Option.some.inj hc
      rfl
    | succ place => exact ih draws.draw.2 hc

/-- The shakes of the places after some colours use one draw for each. -/
theorem runOn_shakeColors {done colors later : List (Triple ℝ)}
    (hs : s.palette = done ++ (colors ++ later)) (hcolors : ∀ c ∈ colors, ∀ k, 0 ≤ c.get k)
    (draws : Draws ℝ) :
    ((List.range' done.length colors.length).forM (shakeColor ctx)).runOn (s, draws) =
      (.ok ⟨⟩, { s with palette := done ++ (shakenAll ctx.settings draws colors ++ later) },
        draws.drop colors.length) := by
  induction colors generalizing s done draws with
  | nil =>
    rw [shakenAll, ← hs]
    rfl
  | cons c colors ih =>
    obtain ⟨hc, hcolors⟩ := List.forall_mem_cons.1 hcolors
    have hcolor : s.palette[done.length]? = some c := by
      rw [hs, List.getElem?_append_right le_rfl, Nat.sub_self]
      rfl
    -- the shaken colour joins those that are done
    have hset (d : Triple ℝ) :
        s.palette.set done.length d = (done ++ [d]) ++ (colors ++ later) := by
      rw [hs, List.set_append_right _ _ le_rfl, Nat.sub_self, List.append_assoc]
      rfl
    have hrest := ih (s := { s with
        palette := s.palette.set done.length (shakenColor ctx.settings draws.draw.1 c) })
      (hset _) hcolors draws.draw.2
    rw [List.length_append, List.length_singleton, List.append_assoc] at hrest
    exact runOn_forM_cons_eq_ok.2 ⟨_, runOn_shakeColor hcolor hc draws, hrest⟩

/-- A palette of which some colours, from the first one on, are shaken. -/
def shakenUpTo (settings : Settings ℝ) (draws : Draws ℝ) (palette : List (Triple ℝ)) (n : ℕ) :
    List (Triple ℝ) :=
  shakenAll settings draws (palette.take n) ++ palette.drop n

theorem shakenUpTo_length (draws : Draws ℝ) (palette : List (Triple ℝ)) :
    shakenUpTo settings draws palette palette.length = shakenAll settings draws palette := by
  rw [shakenUpTo, List.take_length, List.drop_length, List.append_nil]

theorem Fits.shakenUpTo {palette : List (Triple ℝ)} (h : Fits ctx palette) (draws : Draws ℝ)
    (n : ℕ) : Fits ctx (shakenUpTo settings draws palette n) := by
  refine ⟨?_, List.forall_mem_append.2 ⟨inGamut_shakenAll _ _, fun c hc =>
    h.gamut c (List.mem_of_mem_drop hc)⟩⟩
  rw [Exact.shakenUpTo, List.length_append, length_shakenAll, ← List.length_append,
    List.take_append_drop, h.length]

theorem runOn_shakeColors_range {n : ℕ} (hn : n ≤ s.palette.length)
    (hs : ∀ c ∈ s.palette, InGamut c) (draws : Draws ℝ) :
    ((List.range n).forM (shakeColor ctx)).runOn (s, draws) =
      (.ok ⟨⟩, { s with palette := shakenUpTo ctx.settings draws s.palette n }, draws.drop n) := by
  have hsplit : s.palette = [] ++ (s.palette.take n ++ s.palette.drop n) := by
    rw [List.nil_append, List.take_append_drop]
  have h : ((List.range' 0 (s.palette.take n).length).forM (shakeColor ctx)).runOn (s, draws) = _ :=
    runOn_shakeColors hsplit (fun c hc k => (hs c (List.mem_of_mem_take hc) k).1) draws
  rwa [List.length_take_of_le hn, ← List.range_eq_range', List.nil_append] at h

/-! ### A phase -/

/-- A palette of which every pair has an error can be measured. -/
theorem exists_totalError_of_measures (hp : s.projector.Serves ctx.deficiency)
    (hm : Measures ctx s.palette.length) : ∃ projector projected errors error,
      (totalError ctx false).runOn s = (.ok error, { s with
        projector := projector, projected := projected, errors := errors }) ∧
      ({ s with projector := projector, projected := projected, errors := errors } :
        State ℝ).Coherent ctx ∧
      paletteError ctx s.palette s.strategy.mode = .ok error := by
  obtain ⟨eyes, q, es, hall, hq, hsees, hes⟩ := exists_errors hp hm
  obtain ⟨error, herror⟩ := exists_aggregate s.strategy.mode es
  have hcoherent : ({ s with projector := q, projected := eyes, errors := es } :
      State ℝ).Coherent ctx := coherent_iff.2 ⟨hq, hsees, hes⟩
  exact ⟨q, eyes, es, error,
    runOn_totalError_false_eq_ok.2 ⟨runOn_measure_eq_ok.2 ⟨eyes, q, es, hall, hes, rfl⟩, herror⟩,
    hcoherent, (hcoherent.paletteError_eq s.strategy.mode).trans herror⟩

/-- A palette of which every pair has an error can be shaken. The shaken palette is the best one,
and what is noted of it is what measuring it gives. -/
theorem exists_exploreShake_of_measures (hp : s.projector.Serves ctx.deficiency)
    (hm : Measures ctx s.palette.length) (hs : ∀ c ∈ s.palette, InGamut c) (draws : Draws ℝ) :
    ∃ t error, (exploreShake ctx).apply (s, draws) = .ok (t, draws.drop s.palette.length) ∧
      t.palette = shakenAll ctx.settings draws s.palette ∧ t.bestPalette = t.palette ∧
      t.bestError = some error ∧ paletteError ctx t.palette s.strategy.mode = .ok error ∧
      t.Coherent ctx ∧ t.phase = .done ∧ t.strategy = s.strategy ∧ t.iterated = s.iterated := by
  have hopen :
      (onState (modify fun s : State ℝ => { s with phase := .exploring })).runOn (s, draws) =
      (.ok (), { s with phase := .exploring }, draws) := rfl
  have hshake : ((List.range s.palette.length).forM (shakeColor ctx)).runOn
      ({ s with phase := .exploring }, draws) = _ :=
    runOn_shakeColors_range (s := { s with phase := .exploring }) le_rfl hs draws
  rw [shakenUpTo_length] at hshake
  let shaken : State ℝ := { s with
    phase := .exploring, palette := shakenAll ctx.settings draws s.palette
    bestPalette := shakenAll ctx.settings draws s.palette }
  have hmeasures : Measures ctx shaken.palette.length :=
    (length_shakenAll draws s.palette).symm ▸ hm
  obtain ⟨q, eyes, es, error, htotal, hcoherent, herror⟩ :=
    exists_totalError_of_measures (s := shaken) hp hmeasures
  refine ⟨{ shaken with
      projector := q, projected := eyes, errors := es, phase := .done, bestError := some error },
    error, ?_, rfl, rfl, rfl, herror, hcoherent.of_eq rfl, rfl, rfl, rfl⟩
  rw [Update.apply_eq_ok]
  unfold exploreShake
  refine (runOn_bind_of_ok hopen _).trans ((runOn_bind_of_ok (runOn_get _) _).trans
    ((runOn_bind_of_ok hshake _).trans ?_))
  rw [runOn_onState, runOn_bind_of_ok (runOn_modify _ _), runOn_bind_of_ok htotal, runOn_modify]

/-- A palette that fits can be shaken. -/
theorem exists_exploreShake (hctx : Regular ctx) (hp : s.projector.Serves ctx.deficiency)
    (hs : Fits ctx s.palette) (draws : Draws ℝ) :
    ∃ t rest, (exploreShake ctx).apply (s, draws) = .ok (t, rest) ∧
      t.projector.Serves ctx.deficiency ∧ Fits ctx t.bestPalette ∧ t.palette = t.bestPalette ∧
      t.strategy = s.strategy ∧ t.iterated = s.iterated := by
  obtain ⟨t, error, ht, hpalette, hbest, -, -, hcoherent, -, hstrategy, hiterated⟩ :=
    exists_exploreShake_of_measures hp (hctx.measures hs.length.le) hs.gamut draws
  have hfits : Fits ctx t.bestPalette := by
    rw [hbest, hpalette]
    exact ⟨(length_shakenAll draws s.palette).trans hs.length, inGamut_shakenAll draws s.palette⟩
  exact ⟨t, _, ht, hcoherent.projector, hfits, hbest.symm, hstrategy, hiterated⟩

end Exact

end Dichromat

end
