import Dichromat.Proofs.Exact.Distance

/-!
# Errors as sums, in exact arithmetic

The error of a colour is a sum over the other places (`colorError_eq`), the error of a palette the
sum of these over all places (`aggregate_sum_eq`). Both exist where every pair has an error
(`Measures`), and then the errors of a pair are the same from either side (`cost_comm`).
-/

noncomputable section

namespace Dichromat

/-- Each colour has a row of the distances, with a distance to each colour. -/
def Context.Square (ctx : Context ℝ) : Prop :=
  ctx.distances.length = ctx.size ∧ ∀ row ∈ ctx.distances, row.length = ctx.size

namespace Exact

variable {ctx : Context ℝ} {xs : List (Eye ℝ)} {eye : Eye ℝ} {k l n : ℕ}

/-! ### Pairs of places -/

/-- The projected colour at a place. -/
def seenAt (xs : List (Eye ℝ)) (l : ℕ) : Eye ℝ := xs.getD l (Eye.blank .perceived)

/-- The original distance of two places. -/
def originalAt (ctx : Context ℝ) (k l : ℕ) : ℝ := (ctx.distances.getD k []).getD l 0

/-- The error of the pair of two places, the first being seen as a given colour. -/
def cost (ctx : Context ℝ) (xs : List (Eye ℝ)) (k : ℕ) (eye : Eye ℝ) (l : ℕ) : ℝ :=
  pairCost ctx.settings (apart eye (seenAt xs l)) (originalAt ctx k l)

/-- The error of the colour at a place if it is seen as a given colour. -/
def errorAt (ctx : Context ℝ) (xs : List (Eye ℝ)) (k : ℕ) (eye : Eye ℝ) : ℝ :=
  ∑ l ∈ (Finset.range xs.length).erase k, cost ctx xs k eye l

/-- Whether a pair of an original distance has an error. -/
def Measurable (ctx : Context ℝ) (original : ℝ) : Prop :=
  original ≤ ctx.settings.zeroDistanceThreshold ∨ original ≠ 0

/-- Every pair of the first places has an error. -/
def Measures (ctx : Context ℝ) (n : ℕ) : Prop :=
  ∀ k < n, ∃ row, ctx.distances[k]? = some row ∧
    ∀ l < n, l ≠ k → ∃ original, row[l]? = some original ∧ Measurable ctx original

theorem seenAt_of_getElem? (h : xs[l]? = some eye) : seenAt xs l = eye := by
  rw [seenAt, List.getD_eq_getElem?_getD, h, Option.getD_some]

theorem getElem?_seenAt (h : l < xs.length) : xs[l]? = some (seenAt xs l) := by
  rw [seenAt, List.getD_eq_getElem _ _ h, List.getElem?_eq_getElem h]

theorem originalAt_of_getElem? {row : List ℝ} {original : ℝ} (hrow : ctx.distances[k]? = some row)
    (h : row[l]? = some original) : originalAt ctx k l = original := by
  rw [originalAt, List.getD_eq_getElem?_getD, List.getD_eq_getElem?_getD, hrow, Option.getD_some, h,
    Option.getD_some]

theorem row_of_nat {row : List ℝ} (h : ctx.distances[k]? = some row) : ctx.row k = .ok row := by
  have hk : ¬ (k : ℤ) < 0 := by omega
  simp only [Context.row, if_neg hk, Int.toNat_natCast, h]

theorem row_eq_ok {row : List ℝ} (h : ctx.row k = .ok row) : ctx.distances[k]? = some row := by
  have hk : ¬ (k : ℤ) < 0 := by omega
  simp only [Context.row, if_neg hk, Int.toNat_natCast] at h
  rcases hr : ctx.distances[k]? with _ | row'
  · rw [hr] at h
    exact nomatch h
  · rw [hr] at h
    exact congrArg some (Except.ok.inj h)

/-- Of two places each has the error of the pair. -/
theorem errorAt_of_length_two (h : xs.length = 2) (hk : k < 2) :
    errorAt ctx xs k eye = cost ctx xs k eye (1 - k) := by
  rw [errorAt, h]
  interval_cases k
  · exact Finset.sum_singleton ..
  · exact Finset.sum_singleton ..

/-! ### The error of a colour -/

theorem addPairErrors_cons {settings : Settings ℝ} {row : List ℝ} {place : ℤ} {x : Eye ℝ}
    {projected original sum : ℝ} (hne : (l : ℤ) ≠ place) (hp : eye.distance x = .ok projected)
    (ho : row[l]? = some original)
    (hm : original ≤ settings.zeroDistanceThreshold ∨ original ≠ 0) :
    addPairErrors settings row place eye l (x :: xs) sum =
      addPairErrors settings row place eye (l + 1) xs
        (sum + pairCost settings projected original) := by
  simp only [addPairErrors, if_neg hne, hp, ok_bind, ho, pairError_eq hm, add_eq]

theorem addPairErrors_eq {row : List ℝ} {a : ℝ} (he : eye.space = .perceived)
    (hs : ∀ e ∈ xs, e.space = .perceived)
    (hrow : ∀ j < xs.length, l + j ≠ k →
      ∃ original, row[l + j]? = some original ∧ Measurable ctx original) :
    addPairErrors ctx.settings row k eye l xs a =
      .ok (a + ∑ j ∈ Finset.range xs.length, if l + j = k then 0
        else pairCost ctx.settings (apart eye (seenAt xs j)) (row.getD (l + j) 0)) := by
  induction xs generalizing l a with
  | nil => simp [addPairErrors]
  | cons x xs ih =>
    have hx : x.space = .perceived := hs x List.mem_cons_self
    have hrest (a' : ℝ) := ih (l := l + 1) (a := a')
      (fun e h => hs e (List.mem_cons_of_mem _ h)) fun j hj hne => by
        have := hrow (j + 1) (Nat.succ_lt_succ hj) (by omega)
        rwa [show l + (j + 1) = l + 1 + j by omega] at this
    have hshift (j : ℕ) : l + (j + 1) = l + 1 + j := by omega
    have htail : (∑ j ∈ Finset.range xs.length, if l + (j + 1) = k then 0
        else pairCost ctx.settings (apart eye (seenAt (x :: xs) (j + 1))) (row.getD (l + (j + 1)) 0)) =
        ∑ j ∈ Finset.range xs.length, if l + 1 + j = k then 0
          else pairCost ctx.settings (apart eye (seenAt xs j)) (row.getD (l + 1 + j) 0) :=
      Finset.sum_congr rfl fun j _ => by rw [hshift j]; rfl
    rw [List.length_cons, Finset.sum_range_succ', htail]
    simp only [Nat.add_zero]
    by_cases hl : l = k
    · have hl' : (l : ℤ) = k := by exact_mod_cast hl
      rw [addPairErrors, if_pos hl', hrest, if_pos hl, add_zero]
    · have hl' : ¬ (l : ℤ) = k := by exact_mod_cast hl
      obtain ⟨original, ho, hm⟩ := hrow 0 (Nat.succ_pos _) hl
      have ho' : row.getD l 0 = original := by
        rw [List.getD_eq_getElem?_getD, show row[l]? = some original from ho, Option.getD_some]
      have ho : row[l]? = some original := ho
      rw [addPairErrors_cons hl' (distance_eq he hx) ho hm, hrest, if_neg hl, ho',
        show seenAt (x :: xs) 0 = x from rfl]
      congr 1
      ring

theorem measurable_of_addPairErrors {row : List ℝ} {sum e : ℝ} (he : eye.space = .perceived)
    (hs : ∀ e ∈ xs, e.space = .perceived)
    (h : addPairErrors ctx.settings row k eye l xs sum = .ok e) :
    ∀ j < xs.length, l + j ≠ k →
      ∃ original, row[l + j]? = some original ∧ Measurable ctx original := by
  induction xs generalizing l sum with
  | nil => exact fun j hj => absurd hj (Nat.not_lt_zero j)
  | cons x xs ih =>
    have hx : x.space = .perceived := hs x List.mem_cons_self
    have hs' : ∀ e ∈ xs, e.space = .perceived := fun e h => hs e (List.mem_cons_of_mem _ h)
    unfold addPairErrors at h
    by_cases hl : (l : ℤ) = k
    · rw [if_pos hl] at h
      intro j hj hne
      rcases j with _ | j
      · exact absurd (by exact_mod_cast hl) hne
      · have := ih hs' h j (Nat.lt_of_succ_lt_succ hj) (by omega)
        rwa [show l + 1 + j = l + (j + 1) by omega] at this
    · simp only [if_neg hl, distance_eq he hx, ok_bind] at h
      rcases ho : row[l]? with _ | original
      · rw [ho] at h
        exact nomatch h
      · rw [ho] at h
        simp only [bind_eq_ok, pairError_eq_ok_iff, add_eq] at h
        obtain ⟨_, ⟨hm, rfl⟩, _, -, h⟩ := h
        intro j hj hne
        rcases j with _ | j
        · exact ⟨original, ho, hm⟩
        · have := ih hs' h j (Nat.lt_of_succ_lt_succ hj) (by omega)
          rwa [show l + 1 + j = l + (j + 1) by omega] at this

/-- The error of a colour is the sum of the errors of its pairs. -/
theorem colorError_eq (hm : Measures ctx xs.length) (hk : k < xs.length)
    (he : eye.space = .perceived) (hs : ∀ e ∈ xs, e.space = .perceived) :
    colorError ctx xs k eye = .ok (errorAt ctx xs k eye) := by
  obtain ⟨row, hrow, hpairs⟩ := hm k hk
  have horiginal (l : ℕ) : originalAt ctx k l = row.getD l 0 := by
    have hk : ctx.distances.getD k [] = row := by
      rw [List.getD_eq_getElem?_getD, hrow, Option.getD_some]
    rw [originalAt, hk]
  have h₀ : (Arith.decimal 0 0 : ℝ) = 0 := decimal_zero
  have hadd := addPairErrors_eq (l := 0) (k := k) (a := 0) he hs fun j hj hne => by
    rw [Nat.zero_add] at hne ⊢
    exact hpairs j hj hne
  let term (j : ℕ) : ℝ := if 0 + j = k then 0
    else pairCost ctx.settings (apart eye (seenAt xs j)) (row.getD (0 + j) 0)
  have hself : term k = 0 := if_pos (Nat.zero_add k)
  have hsum : ∑ j ∈ Finset.range xs.length, term j = errorAt ctx xs k eye := by
    rw [← Finset.sum_erase _ hself, errorAt]
    refine Finset.sum_congr rfl fun j hj => ?_
    have hj : term j = _ := if_neg (by rw [Nat.zero_add]; exact Finset.ne_of_mem_erase hj)
    rw [hj, cost, horiginal, Nat.zero_add]
  rw [colorError, row_of_nat hrow, ok_bind, h₀, hadd, zero_add]
  exact congrArg Except.ok hsum

/-- Where a palette has errors, every pair has one. -/
theorem measures_of_colorErrors (hs : ∀ e ∈ xs, e.space = .perceived) {es : List ℝ}
    (h : colorErrors ctx xs = .ok es) : Measures ctx xs.length := by
  intro k hk
  obtain ⟨hlen, h⟩ := colorErrors_eq_ok_iff.1 h
  have hx := List.getElem?_eq_getElem hk
  have he := h k _ _ hx (List.getElem?_eq_getElem (hlen ▸ hk))
  obtain ⟨row, hrow, hadd⟩ := bind_eq_ok.1 he
  refine ⟨row, row_eq_ok hrow, fun l hl hne => ?_⟩
  have := measurable_of_addPairErrors (hs _ (List.getElem_mem hk)) hs hadd l hl (by omega)
  rwa [Nat.zero_add] at this

/-! ### The error of a palette -/

theorem colorErrors_eq (hm : Measures ctx xs.length) (hs : ∀ e ∈ xs, e.space = .perceived) :
    colorErrors ctx xs =
      .ok ((List.range xs.length).map fun k => errorAt ctx xs k (seenAt xs k)) := by
  refine colorErrors_eq_ok_iff.2 ⟨by rw [List.length_map, List.length_range], ?_⟩
  intro k x e hx he
  obtain ⟨hk, hxk⟩ := List.getElem?_eq_some_iff.1 hx
  rw [List.getElem?_map, List.getElem?_range hk, Option.map_some] at he
  obtain rfl := Option.some.inj he
  rw [seenAt_of_getElem? hx]
  exact colorError_eq hm hk (hs x (hxk ▸ List.getElem_mem hk)) hs

theorem foldlM_add (es : List ℝ) (a : ℝ) : es.foldlM Arith.add a = .ok (a + es.sum) := by
  induction es generalizing a with
  | nil => simp [pure, Except.pure]
  | cons e es ih => rw [List.foldlM_cons, add_eq, ok_bind, ih, List.sum_cons, add_assoc]

theorem aggregate_sum (es : List ℝ) : Mode.sum.aggregate es = .ok es.sum := by
  cases es with
  | nil =>
    simp only [Mode.aggregate, calc_scientific, scientific_zero, List.sum_nil]
  | cons e es =>
    have h₀ : (Arith.whole 0 : ℝ) = 0 := Int.cast_zero
    show (e :: es).foldlM Arith.add (Arith.whole 0) = _
    rw [h₀, foldlM_add, zero_add]

theorem foldlM_max (es : List ℝ) (a : ℝ) :
    es.foldlM (fun a b : ℝ => Calc.max (.ok a) (.ok b)) a = .ok (es.foldl max a) := by
  induction es generalizing a with
  | nil => rfl
  | cons e es ih => rw [List.foldlM_cons, calc_max, ok_bind, ih, List.foldl_cons]

/-- The Max error of a palette is the greatest of its errors. -/
theorem aggregate_max_eq_ok_iff {es : List ℝ} (hne : es ≠ []) {m : ℝ} :
    Mode.max.aggregate es = .ok m ↔ m ∈ es ∧ ∀ e ∈ es, e ≤ m := by
  cases es with
  | nil => exact absurd rfl hne
  | cons e es =>
    rw [← List.max?_eq_some_iff, List.max?_cons', Option.some.injEq]
    show es.foldlM (fun a b : ℝ => Calc.max (.ok a) (.ok b)) e = .ok m ↔ _
    rw [foldlM_max, Except.ok.injEq]

theorem exists_aggregate (mode : Mode) (es : List ℝ) : ∃ e, mode.aggregate es = .ok e := by
  cases mode with
  | sum => exact ⟨_, aggregate_sum es⟩
  | max =>
    cases es with
    | nil => exact ⟨_, rfl⟩
    | cons e es => exact ⟨_, foldlM_max es e⟩

theorem sum_map_range (f : ℕ → ℝ) (n : ℕ) :
    ((List.range n).map f).sum = ∑ k ∈ Finset.range n, f k := by
  induction n with
  | zero => rfl
  | succ n ih =>
    rw [List.range_succ, List.map_append, List.sum_append, ih, Finset.sum_range_succ]
    simp

/-- The Sum error of a palette. -/
def totalOf (ctx : Context ℝ) (xs : List (Eye ℝ)) : ℝ :=
  ∑ k ∈ Finset.range xs.length, errorAt ctx xs k (seenAt xs k)

theorem aggregate_sum_eq (hs : ∀ e ∈ xs, e.space = .perceived) {es : List ℝ}
    (h : colorErrors ctx xs = .ok es) : Mode.sum.aggregate es = .ok (totalOf ctx xs) := by
  have h' := colorErrors_eq (measures_of_colorErrors hs h) hs
  obtain rfl := Except.ok.inj (h.symm.trans h')
  rw [aggregate_sum, sum_map_range, totalOf]

/-- Where no pair costs anything there is no error. -/
theorem totalOf_eq_zero (h : ∀ k < xs.length, ∀ l < xs.length, l ≠ k →
    cost ctx xs k (seenAt xs k) l = 0) : totalOf ctx xs = 0 := by
  refine Finset.sum_eq_zero fun k hk => Finset.sum_eq_zero fun l hl => ?_
  obtain ⟨hne, hl⟩ := Finset.mem_erase.1 hl
  exact h k (Finset.mem_range.1 hk) l (Finset.mem_range.1 hl) hne

theorem cost_nonneg (h : 0 ≤ ctx.settings.collapsePenalty) : 0 ≤ cost ctx xs k eye l :=
  pairCost_nonneg h _ _

theorem errorAt_nonneg (h : 0 ≤ ctx.settings.collapsePenalty) : 0 ≤ errorAt ctx xs k eye :=
  Finset.sum_nonneg fun _ _ => cost_nonneg h

/-- The error of a palette is at least that of any of its pairs. -/
theorem cost_le_totalOf (h : 0 ≤ ctx.settings.collapsePenalty) (hk : k < xs.length)
    (hl : l < xs.length) (hne : l ≠ k) : cost ctx xs k (seenAt xs k) l ≤ totalOf ctx xs := by
  have hcost (l : ℕ) : 0 ≤ cost ctx xs k (seenAt xs k) l := cost_nonneg h
  calc cost ctx xs k (seenAt xs k) l ≤ errorAt ctx xs k (seenAt xs k) :=
        Finset.single_le_sum (fun l _ => hcost l)
          (Finset.mem_erase.2 ⟨hne, Finset.mem_range.2 hl⟩)
    _ ≤ totalOf ctx xs :=
        Finset.single_le_sum (f := fun k => errorAt ctx xs k (seenAt xs k))
          (fun _ _ => errorAt_nonneg h) (Finset.mem_range.2 hk)

/-! ### The original distances -/

/-- A context holds what it is made of, and the distances of its colours. -/
theorem ofLinear_eq_ok {α : Type} [ColorArith α] {original : List (Triple α)} {d : Deficiency}
    {settings : Settings α} {ctx : Context α} :
    Context.ofLinear original d settings = .ok ctx ↔
      (ctx.original = original ∧ ctx.deficiency = d ∧ ctx.settings = settings) ∧
        distanceMatrix original = .ok ctx.distances := by
  unfold Context.ofLinear
  rw [bind_eq_ok]
  constructor
  · rintro ⟨rows, hrows, h⟩
    obtain rfl := pure_eq_ok.1 h
    exact ⟨⟨rfl, rfl, rfl⟩, hrows⟩
  · rintro ⟨⟨rfl, rfl, rfl⟩, hrows⟩
    exact ⟨_, hrows, rfl⟩

theorem distanceMatrix_eq {colors : List (Triple ℝ)} {eyes : List (Eye ℝ)}
    (h : List.Forall₂ (fun c e => Eye.ofLinear .perceived c = .ok e) colors eyes) :
    distanceMatrix colors = .ok (eyes.map fun a => eyes.map fun b => apart a b) := by
  have hspace : ∀ e ∈ eyes, e.space = .perceived := by
    intro e he
    obtain ⟨c, -, hc⟩ := exists_left_of_mem h he
    exact Eye.ofLinear_space hc
  have hrow : ∀ a ∈ eyes, (eyes.mapM fun b => a.distance b) = .ok (eyes.map fun b => apart a b) :=
    fun a ha => mapM_eq_map fun b hb => distance_eq (hspace a ha) (hspace b hb)
  unfold distanceMatrix
  rw [mapM_eq_ok_iff.2 h, ok_bind]
  exact mapM_eq_map hrow

/-- The distances of colours on the wheel, row by row. -/
theorem distanceMatrix_eq_ok {colors : List (Triple ℝ)} {rows : List (List ℝ)}
    (h : distanceMatrix colors = .ok rows) : ∃ eyes : List (Eye ℝ),
      List.Forall₂ (fun c e => Eye.ofLinear .perceived c = .ok e) colors eyes ∧
      (∀ e ∈ eyes, e.hue ∈ Set.Icc (0 : ℝ) 1) ∧
      rows = eyes.map fun a => eyes.map fun b => apart a b := by
  obtain ⟨eyes, heyes, -⟩ := bind_eq_ok.1 h
  have hall := mapM_eq_ok_iff.1 heyes
  refine ⟨eyes, hall, fun e he => ?_, Except.ok.inj (h.symm.trans (distanceMatrix_eq hall))⟩
  obtain ⟨c, -, hc⟩ := exists_left_of_mem hall he
  rw [hue_of_ofLinear hc]
  exact hueOf_mem c

/-- Original distances are those of the original colours. -/
theorem exists_originalAt (h : distanceMatrix ctx.original = .ok ctx.distances) :
    ∃ eyes : List (Eye ℝ),
      List.Forall₂ (fun c e => Eye.ofLinear .perceived c = .ok e) ctx.original eyes ∧
      (∀ e ∈ eyes, e.hue ∈ Set.Icc (0 : ℝ) 1) ∧
      ∀ (k l : ℕ) (a b : Eye ℝ), eyes[k]? = some a → eyes[l]? = some b →
        originalAt ctx k l = apart a b := by
  obtain ⟨eyes, hall, hhue, hrows⟩ := distanceMatrix_eq_ok h
  refine ⟨eyes, hall, hhue, fun k l a b ha hb => ?_⟩
  rw [originalAt, hrows]
  simp [List.getD_eq_getElem?_getD, ha, hb]

theorem distances_length (hd : distanceMatrix ctx.original = .ok ctx.distances) :
    ctx.distances.length = ctx.size := by
  obtain ⟨eyes, hall, -, hrows⟩ := distanceMatrix_eq_ok hd
  rw [hrows, List.length_map]
  exact hall.length_eq.symm

theorem square_of_distances (h : distanceMatrix ctx.original = .ok ctx.distances) :
    ctx.Square := by
  obtain ⟨eyes, hall, -, hrows⟩ := distanceMatrix_eq_ok h
  refine ⟨distances_length h, fun row hrow => ?_⟩
  rw [hrows] at hrow
  obtain ⟨a, -, rfl⟩ := List.mem_map.1 hrow
  rw [List.length_map]
  exact hall.length_eq.symm

/-- The tables of all contexts that can be made are square. -/
theorem square_of_ofLinear {original : List (Triple ℝ)} {d : Deficiency} {settings : Settings ℝ}
    (h : Context.ofLinear original d settings = .ok ctx) : ctx.Square := by
  obtain ⟨⟨rfl, -, -⟩, hdistances⟩ := ofLinear_eq_ok.1 h
  exact square_of_distances hdistances

/-- In a square table no pair is without a distance. -/
theorem measures_of_square (hctx : ctx.Square) (hn : n ≤ ctx.size)
    (h : ∀ k < n, ∀ l < n, l ≠ k → Measurable ctx (originalAt ctx k l)) : Measures ctx n := by
  intro k hk
  have hrow := List.getElem?_eq_getElem ((hk.trans_le hn).trans_eq hctx.1.symm)
  refine ⟨_, hrow, fun l hl hne => ?_⟩
  have hlength := hctx.2 _ (List.mem_of_getElem? hrow)
  have ho := List.getElem?_eq_getElem ((hl.trans_le hn).trans_eq hlength.symm)
  exact ⟨_, ho, originalAt_of_getElem? hrow ho ▸ h k hk l hl hne⟩

theorem originalAt_comm (h : distanceMatrix ctx.original = .ok ctx.distances)
    (hk : k < ctx.size) (hl : l < ctx.size) : originalAt ctx k l = originalAt ctx l k := by
  obtain ⟨eyes, hall, hhue, hat⟩ := exists_originalAt h
  have hlen : eyes.length = ctx.size := hall.length_eq.symm
  have hk := List.getElem?_eq_getElem (hk.trans_eq hlen.symm)
  have hl := List.getElem?_eq_getElem (hl.trans_eq hlen.symm)
  rw [hat k l _ _ hk hl, hat l k _ _ hl hk]
  exact apart_comm (hhue _ (List.mem_of_getElem? hk)) (hhue _ (List.mem_of_getElem? hl))

/-- The error of a pair is the same from either side. -/
theorem cost_comm (h : distanceMatrix ctx.original = .ok ctx.distances)
    (hn : xs.length ≤ ctx.size) (hhue : ∀ e ∈ xs, e.hue ∈ Set.Icc (0 : ℝ) 1)
    (hk : k < xs.length) (hl : l < xs.length) :
    cost ctx xs k (seenAt xs k) l = cost ctx xs l (seenAt xs l) k := by
  have hseen {i : ℕ} (hi : i < xs.length) : (seenAt xs i).hue ∈ Set.Icc (0 : ℝ) 1 :=
    hhue _ (List.mem_of_getElem? (getElem?_seenAt hi))
  rw [cost, cost, apart_comm (hseen hk) (hseen hl),
    originalAt_comm h (hk.trans_le hn) (hl.trans_le hn)]

end Exact

end Dichromat

end
