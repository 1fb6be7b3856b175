import Dichromat.Proofs.Batch.Scheduling

/-!
# Malformed palettes in a batch

The check of a palette refuses wrong lengths and wrong channels, but a value without elements, where
it looks for a list, is a fault of another kind (`Palette.settles_validate_iff`). A batch takes in
refusals and faults of arithmetic only: a palette whose nesting is wrong ends all of it
(`Batch.optimize_returns_iff`).
-/

namespace Dichromat

/-! ### What settles -/

section Settles

variable {β γ : Type} {x : Except Fault β} {f : β → Except Fault γ} {xs : List β} {e : Fault}

theorem settles_bind_iff :
    Settles (x >>= f) ↔ Settles x ∧ ∀ a, x = .ok a → Settles (f a) := by
  cases x with
  | ok a =>
    rw [ok_bind, and_iff_right (settles_ok a)]
    constructor
    · intro h b hb
      exact Except.ok.inj hb ▸ h
    · intro h
      exact h a rfl
  | error e =>
    rw [error_bind, settles_error, settles_error, and_iff_left]
    exact nofun

theorem settles_forM {f : β → Except Fault Unit} (h : ∀ a, Settles (f a)) (xs : List β) :
    Settles (xs.forM f) := by
  induction xs with
  | nil => exact settles_ok ()
  | cons a xs ih => exact settles_bind_iff.2 ⟨h a, fun _ _ => ih⟩

/-- A map over a list settles iff the first element at which it fails does. -/
theorem settles_mapM_iff : Settles (xs.mapM f) ↔
    ∀ (k : Nat) (a : β), xs[k]? = some a →
      (∀ j < k, ∀ b, xs[j]? = some b → ∃ c, f b = .ok c) → Settles (f a) := by
  induction xs with
  | nil => exact iff_of_true (settles_ok _) nofun
  | cons x xs ih =>
    simp only [List.mapM_cons, settles_bind_iff]
    constructor
    · rintro ⟨hx, hxs⟩ k a ha hbefore
      cases k with
      | zero =>
        obtain rfl : x = a := Option.some.inj ha
        exact hx
      | succ k =>
        obtain ⟨c, hc⟩ := hbefore 0 k.succ_pos x rfl
        refine ih.1 (hxs c hc).1 k a ha fun j hj b hb => ?_
        exact hbefore (j + 1) (Nat.succ_lt_succ hj) b hb
    · intro h
      refine ⟨h 0 x rfl nofun, fun c hc => ⟨ih.2 fun k a ha hbefore => ?_, fun _ _ => settles_ok _⟩⟩
      refine h (k + 1) a ha fun j hj b hb => ?_
      cases j with
      | zero => exact ⟨c, Option.some.inj hb ▸ hc⟩
      | succ j => exact hbefore j (Nat.lt_of_succ_lt_succ hj) b hb

end Settles

/-! ### The check of a palette -/

/-- A value that has elements. -/
def Value.HasElements (v : Value) : Prop := ∃ items, v.elements = .ok items

theorem Value.settles_elements_iff {v : Value} : Settles v.elements ↔ v.HasElements := by
  cases v with
  | text | list | table => exact iff_of_true (settles_ok _) ⟨_, rfl⟩
  | null | bool | int | float | complex | moment =>
    exact iff_of_false (fun h => Bool.false_ne_true (settles_error.1 h)) nofun

/-- A real number can be compared with both bounds of a channel. -/
theorem Value.exists_le_of_isReal {v : Value} (h : v.isReal = true) :
    (∃ low, Value.le (.int 0) v = .ok low) ∧ ∃ high, Value.le v (.int 255) = .ok high := by
  cases v with
  | int | float => exact ⟨⟨_, rfl⟩, ⟨_, rfl⟩⟩
  | null | bool | complex | text | list | table | moment => exact nomatch h

namespace Palette

variable {color : Nat} {value palette : Value}

theorem settles_validateChannel : Settles (validateChannel color value) := by
  unfold validateChannel
  cases hreal : value.isReal with
  | false => exact settles_error.2 rfl
  | true =>
    obtain ⟨⟨low, hlow⟩, ⟨high, hhigh⟩⟩ := Value.exists_le_of_isReal hreal
    simp only [hlow, hhigh, if_true, ok_bind]
    cases low with
    | false => exact settles_error.2 rfl
    | true =>
      cases high with
      | false => exact settles_error.2 rfl
      | true => exact settles_ok ()

theorem settles_validateColor_iff : Settles (validateColor color value) ↔ value.HasElements := by
  unfold validateColor
  rw [settles_bind_iff, Value.settles_elements_iff, and_iff_left_iff_imp]
  intro _ channels _
  by_cases hlength : channels.length = 3
  · rw [if_pos hlength]
    refine settles_bind_iff.2 ⟨settles_forM (fun _ => settles_validateChannel) _, fun _ _ => ?_⟩
    exact settles_ok channels
  · rw [if_neg hlength]
    exact settles_error.2 rfl

/-- All colours before a place are accepted. -/
def AcceptedBefore (colors : List Value) (place : Nat) : Prop :=
  ∀ k < place, ∀ value, colors[k]? = some value → ∃ channels, validateColor k value = .ok channels

/-- A value without elements stands in place of the palette, or of a colour after accepted ones. -/
def Misshapen (palette : Value) : Prop :=
  ¬ palette.HasElements ∨ ∃ (colors : List Value) (place : Nat) (value : Value),
    palette.elements = .ok colors ∧ AcceptedBefore colors place ∧ colors[place]? = some value ∧
      ¬ value.HasElements

theorem settles_validateColors_iff {colors : List Value} :
    Settles (colors.zipIdx.mapM fun (value, color) => validateColor color value) ↔
      ∀ (place : Nat) (value : Value), AcceptedBefore colors place → colors[place]? = some value →
        value.HasElements := by
  rw [settles_mapM_iff]
  simp only [List.getElem?_zipIdx, Option.map_eq_some_iff, Nat.zero_add]
  constructor
  · intro h place value hbefore hvalue
    refine settles_validateColor_iff.1 (h place (value, place) ⟨value, hvalue, rfl⟩ ?_)
    rintro k hk _ ⟨earlier, hearlier, rfl⟩
    exact hbefore k hk earlier hearlier
  · rintro h place _ ⟨value, hvalue, rfl⟩ hbefore
    refine settles_validateColor_iff.2 (h place value (fun k hk earlier hearlier => ?_) hvalue)
    exact hbefore k hk (earlier, k) ⟨earlier, hearlier, rfl⟩

/-- Nothing but the nesting of a palette keeps its check from settling. -/
theorem settles_validate_iff : Settles (validate palette) ↔ ¬ Misshapen palette := by
  unfold validate Misshapen
  rw [settles_bind_iff, Value.settles_elements_iff, not_or, not_not]
  simp only [settles_validateColors_iff, not_exists, not_and, not_not]
  refine and_congr_right fun _ => ?_
  constructor
  · intro h colors place value hcolors hbefore hvalue
    exact h colors hcolors place value hbefore hvalue
  · intro h colors hcolors place value hbefore hvalue
    exact h colors place value hcolors hbefore hvalue

/-- A palette that is not accepted settles iff its nesting is right. -/
theorem settles_optimizeBy_iff {α : Type} [ColorArith α] (read : Value → α)
    (h : ∀ colors, validate palette ≠ .ok colors) (name : Value) (settings : Settings Value)
    (draws? : Option (Draws α)) :
    Settles (optimizeBy read palette name settings draws?) ↔ ¬ Misshapen palette := by
  rw [← settles_validate_iff]
  cases hpalette : validate palette with
  | ok colors => exact absurd hpalette (h colors)
  | error e => rw [optimizeBy_of_refused hpalette, settles_error, settles_error]

end Palette

namespace Batch

variable {α : Type} [ColorArith α] {read : Value → α} {palettes : List Value} {name : Value}
  {d : Deficiency} {settings : Settings Value} {workers : Int} {order : List Nat} {p : Progress}
  {e : Fault}

theorem settles_of_optimize (hname : Deficiency.ofValue name = .ok d) (hworkers : 1 ≤ workers)
    (horder : order.Perm (List.range palettes.length))
    (h : optimizeBy read palettes name settings (.int workers) order = .ok p) :
    ∀ palette ∈ palettes, Settles (Dichromat.optimizeBy read palette name settings none) := by
  intro palette hpalette
  have hne := List.ne_nil_of_mem hpalette
  rw [optimize_eq_collect hne hname hworkers, collect_eq] at h
  obtain ⟨place, hplace⟩ := List.getElem?_of_mem hpalette
  have hmem : place ∈ order := by
    rw [horder.mem_iff, List.mem_range]
    exact (List.getElem?_eq_some_iff.1 hplace).1
  have houtcome : (palettes.map (alone read name settings))[place]? =
      some (alone read name settings palette) := by
    rw [List.getElem?_map, hplace, Option.map_some]
  exact settles_alone_iff.1 (settles_of_foldlM h place hmem _ houtcome)

/-- A batch that does not return ends with the fault of a palette that it cannot take in. -/
theorem exists_fault_of_optimize (hname : Deficiency.ofValue name = .ok d) (hworkers : 1 ≤ workers)
    (horder : order.Perm (List.range palettes.length))
    (h : optimizeBy read palettes name settings (.int workers) order = .error e) :
    ∃ palette ∈ palettes, Dichromat.optimizeBy read palette name settings none = .error e ∧
      ¬ Settles (Dichromat.optimizeBy read palette name settings none) := by
  have hne : palettes ≠ [] := by
    rintro rfl
    exact nomatch h
  rw [optimize_eq_collect hne hname hworkers, collect_eq] at h
  have hplaces : ∀ place ∈ order, place < (palettes.map (alone read name settings)).length := by
    intro place hplace
    rw [List.length_map, ← List.mem_range]
    exact horder.mem_iff.1 hplace
  obtain ⟨place, -, houtcome, hnot⟩ := exists_unsettled_of_foldlM hplaces h
  obtain ⟨palette, hpalette, heq⟩ := List.mem_map.1 (List.mem_of_getElem? houtcome)
  refine ⟨palette, hpalette, alone_eq_error_iff.1 heq, fun hsettles => ?_⟩
  exact hnot (heq ▸ settles_alone_iff.2 hsettles)

/-- A batch returns iff each of its palettes, on its own, gives a result, a refusal or a fault of
arithmetic. Then it has the result of every palette, and nothing where this is a fault; else it ends
with the fault of a palette. Of the palettes that are not accepted, those whose nesting is wrong are
the ones that it cannot take in. -/
theorem optimize_returns_iff (read : Value → α) {pool : Pool} (settings : Settings Value)
    (hname : Deficiency.ofValue name = .ok d) (hworkers : 1 ≤ workers)
    (hpool : pool.Ends workers.toNat palettes.length) :
    ((∃ p, optimizeBy read palettes name settings (.int workers) pool.taken = .ok p) ↔
      ∀ palette ∈ palettes, Settles (Dichromat.optimizeBy read palette name settings none)) ∧
    (∀ p, optimizeBy read palettes name settings (.int workers) pool.taken = .ok p →
      p.palettes = palettes.map fun palette =>
        (Dichromat.optimizeBy read palette name settings none).toOption.map Result.palette) ∧
    (∀ e, optimizeBy read palettes name settings (.int workers) pool.taken = .error e →
      ∃ palette ∈ palettes, Dichromat.optimizeBy read palette name settings none = .error e ∧
        ¬ Settles (Dichromat.optimizeBy read palette name settings none)) ∧
    ∀ palette ∈ palettes, (∀ colors, Palette.validate palette ≠ .ok colors) →
      (Settles (Dichromat.optimizeBy read palette name settings none) ↔
        ¬ Palette.Misshapen palette) := by
  have hpositive : 0 < workers.toNat := by omega
  have horder := Pool.perm_of_ends hpositive hpool
  have hreturns (hruns : ∀ palette ∈ palettes,
      Settles (Dichromat.optimizeBy read palette name settings none)) :=
    optimize_of_settles hname hworkers horder hruns
  refine ⟨⟨fun ⟨p, hp⟩ => ?_, fun hruns => ⟨_, hreturns hruns⟩⟩, fun p hp => ?_, fun e he => ?_, ?_⟩
  · exact settles_of_optimize hname hworkers horder hp
  · have hruns := settles_of_optimize hname hworkers horder hp
    obtain rfl := Except.ok.inj (hp.symm.trans (hreturns hruns))
    rfl
  · exact exists_fault_of_optimize hname hworkers horder he
  · intro palette _ hrefused
    exact Palette.settles_optimizeBy_iff read hrefused name settings none

/-- A palette whose colours are plain numbers is misshapen, one whose channels are too large is
not. -/
theorem optimize_returns_iff_flat : ∃ pool : Pool, pool.Ends 2 2 ∧
    Palette.Misshapen (.list [.int 10, .int 200, .int 30]) ∧
    ¬ Palette.Misshapen (.list [.list [.int 999, .int 0, .int 0]]) ∧
    Settles (optimizeValue (.list [.list [.int 999, .int 0, .int 0]]) (.text "red") Settings.seeded
      none) ∧
    ∀ p, optimize [.list [.list [.int 999, .int 0, .int 0]], .list [.int 10, .int 200, .int 30]]
      (.text "red") Settings.seeded (.int 2) pool.taken ≠ .ok p := by
  let far : Value := .list [.list [.int 999, .int 0, .int 0]]
  let flat : Value := .list [.int 10, .int 200, .int 30]
  have hworkers : (1 : Int) ≤ 2 := by decide
  have horder : [1, 0].Perm (List.range 2) := by decide
  obtain ⟨pool, hpool, -⟩ := (Pool.exists_ends_iff_perm (by decide : 0 < 2)).2 horder
  have hends : pool.Ends (2 : Int).toNat [far, flat].length := hpool
  obtain ⟨hreturns, -, -, hshapes⟩ :=
    optimize_returns_iff id Settings.seeded Deficiency.ofValue_red hworkers hends
  have hfar : ¬ Palette.Misshapen far := by
    rw [← Palette.settles_validate_iff]
    exact settles_error.2 rfl
  have hflat : Palette.Misshapen flat :=
    Or.inr ⟨_, 0, .int 10, rfl, fun k hk => absurd hk k.not_lt_zero, rfl, nofun⟩
  have hfarSettles := (hshapes far List.mem_cons_self nofun).2 hfar
  have hflatSettles := hshapes flat (List.mem_cons_of_mem _ List.mem_cons_self) nofun
  refine ⟨pool, hpool, hflat, hfar, hfarSettles, fun p hp => ?_⟩
  have hruns := hreturns.1 ⟨p, hp⟩ flat (List.mem_cons_of_mem _ List.mem_cons_self)
  exact hflatSettles.1 hruns hflat

/-- A palette whose colours are plain numbers ends a batch that has a palette with a result, however
it is scheduled. -/
theorem optimize_flat : Settings.seeded.validate = .ok () ∧ Settings.seeded.seed = .int 7 ∧
    Deficiency.ofValue (.text "red") = .ok .red ∧
    (∃ r, optimizeValue (.list []) (.text "red") Settings.seeded none = .ok r) ∧
    optimizeValue (.list [.int 10, .int 200, .int 30]) (.text "red") Settings.seeded none =
      .error .wrongKind ∧
    ∀ pool : Pool, pool.Ends 1 2 →
      optimize [.list [], .list [.int 10, .int 200, .int 30]] (.text "red") Settings.seeded (.int 1)
        pool.taken = .error .wrongKind := by
  have hworkers : (1 : Int) ≤ 1 := le_refl 1
  obtain ⟨r, hr, -⟩ := exists_optimizeValue_seeded
  have hrefused : Palette.validate (.list [.int 10, .int 200, .int 30]) = .error .wrongKind := rfl
  have hflat : Dichromat.optimizeBy id (.list [.int 10, .int 200, .int 30]) (.text "red")
      Settings.seeded none = .error .wrongKind := optimizeBy_of_refused hrefused _ _ _
  refine ⟨Settings.validate_seeded, rfl, Deficiency.ofValue_red, ⟨r, hr⟩, hflat,
    fun pool hpool => ?_⟩
  have horder := Pool.perm_of_ends Nat.one_pos hpool
  cases hbatch : optimize [.list [], .list [.int 10, .int 200, .int 30]] (.text "red")
      Settings.seeded (.int 1) pool.taken with
  | ok p =>
    have hruns := settles_of_optimize Deficiency.ofValue_red hworkers horder hbatch
    have hsettles := hruns _ (List.mem_cons_of_mem _ List.mem_cons_self)
    rw [hflat, settles_error] at hsettles
    exact absurd hsettles (by decide)
  | error e =>
    obtain ⟨palette, hpalette, hrun, -⟩ :=
      exists_fault_of_optimize Deficiency.ofValue_red hworkers horder hbatch
    rcases List.mem_pair.1 hpalette with rfl | rfl
    · exact nomatch hr.symm.trans hrun
    · exact congrArg Except.error (Except.error.inj (hrun.symm.trans hflat))

end Batch

end Dichromat
