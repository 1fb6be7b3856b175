import Dichromat.Search.Error
import Dichromat.Proofs.Outcome

/-!
# Projection through shared buffers

A projector overwrites its buffers at every call, and the colour in them may remember the intensity
limit of an earlier one. None of this shows: what a call leaves agrees in hue, purity and intensity
with the projection that uses no buffer (`Projector.serves_project`), and errors do not tell
colours apart that agree (`colorError_congr`).
-/

namespace Dichromat

variable {α : Type}

/-! ### Colours that agree -/

namespace Eye

/-- Perceived colours that differ at most in the limit that they remember. -/
structure Agrees (a b : Eye α) : Prop where
  left : a.space = .perceived
  right : b.space = .perceived
  hue : a.hue = b.hue
  purity : a.purity = b.purity
  perceived : a.perceived = b.perceived

theorem Agrees.refl {e : Eye α} (h : e.space = .perceived) : e.Agrees e := ⟨h, h, rfl, rfl, rfl⟩

theorem Agrees.symm {a b : Eye α} (h : a.Agrees b) : b.Agrees a :=
  ⟨h.right, h.left, h.hue.symm, h.purity.symm, h.perceived.symm⟩

theorem Agrees.trans {a b c : Eye α} (h : a.Agrees b) (h' : b.Agrees c) : a.Agrees c :=
  ⟨h.left, h'.right, h.hue.trans h'.hue, h.purity.trans h'.purity,
    h.perceived.trans h'.perceived⟩

/-- A colour with the hue, purity and intensity of another one. -/
def showing (e seen : Eye α) : Eye α :=
  { e with hue := seen.hue, purity := seen.purity, perceived := seen.perceived }

theorem showing_agrees {e seen : Eye α} (he : e.space = .perceived)
    (hs : seen.space = .perceived) : (e.showing seen).Agrees seen :=
  ⟨he, hs, rfl, rfl, rfl⟩

/-- Perceived colours agree with themselves, place by place. -/
theorem forall₂_agrees_self {eyes : List (Eye α)} (h : ∀ e ∈ eyes, e.space = .perceived) :
    List.Forall₂ Agrees eyes eyes :=
  List.forall₂_same.2 fun e he => .refl (h e he)

variable [ColorArith α]

theorem intensity_of_perceived {e : Eye α} (h : e.space = .perceived) :
    e.intensity = .ok e.perceived := by
  rcases e with ⟨_, _, _, _, _, _, _, _⟩
  subst h
  rfl

theorem distance_congr {a a' b b' : Eye α} (ha : a.Agrees a') (hb : b.Agrees b') :
    a.distance b = a'.distance b' := by
  simp only [distance, intensity_of_perceived ha.left, intensity_of_perceived ha.right,
    intensity_of_perceived hb.left, intensity_of_perceived hb.right, ha.hue, hb.hue, ha.purity,
    hb.purity, ha.perceived, hb.perceived]

end Eye

/-! ### Taking over linear channels -/

variable [ColorArith α]

/-- The hue and purity of a tint; greys have the hue opposite to red. -/
def Tint.hueAndPurity (t : Tint α) : Except Fault (α × α) := do
  if ← t.isGrey then return (Arith.ratio 1 2, Arith.decimal 0 0)
  let r ← t.hue
  let p ← t.purity
  return (r, p)

namespace Eye

theorem apply_readLinear {e : Eye α} (he : e.space = .perceived) (c : Triple α) :
    (readLinear c).apply e = (do
      let t ← Tint.ofLinear c
      let (r, p) ← t.hueAndPurity
      let i ← perceivedIntensity c
      return { e with hue := r, purity := p, perceived := i }) := by
  rcases e with ⟨_, _, _, _, _, _, _, _⟩
  subst he
  unfold Update.apply readLinear
  simp only [Update.runOn_bind, Update.runOn_liftM]
  rcases Tint.ofLinear c with _ | t
  · rfl
  simp only [ok_bind, Tint.hueAndPurity]
  rcases t.isGrey with _ | grey
  · rfl
  cases grey with
  | true =>
    simp only [ok_bind, if_true]
    rcases perceivedIntensity c with _ | i <;> rfl
  | false =>
    simp only [ok_bind, Bool.false_eq_true, if_false, Update.runOn_bind, Update.runOn_liftM]
    rcases t.hue with _ | r
    · rfl
    simp only [ok_bind, Update.runOn_modify]
    rcases t.purity with _ | p
    · rfl
    simp only [ok_bind]
    rcases perceivedIntensity c with _ | i <;> rfl

/-- What a colour was before does not show after it has taken over linear channels. -/
theorem apply_readLinear_eq_ok {e f : Eye α} (he : e.space = .perceived) {c : Triple α} :
    (readLinear c).apply e = .ok f ↔
      ∃ seen, ofLinear .perceived c = .ok seen ∧ f = e.showing seen := by
  have hb : (blank .perceived : Eye α).space = .perceived := rfl
  rw [ofLinear, apply_readLinear he, apply_readLinear hb]
  simp only [bind_eq_ok, pure_eq_ok]
  constructor
  · rintro ⟨t, ht, ⟨r, p⟩, hp, i, hi, rfl⟩
    exact ⟨_, ⟨t, ht, (r, p), hp, i, hi, rfl⟩, rfl⟩
  · rintro ⟨_, ⟨t, ht, ⟨r, p⟩, hp, i, hi, rfl⟩, rfl⟩
    exact ⟨t, ht, (r, p), hp, i, hi, rfl⟩

theorem ofLinear_space {c : Triple α} {seen : Eye α} (h : ofLinear .perceived c = .ok seen) :
    seen.space = .perceived := by
  obtain ⟨seen', -, rfl⟩ := (apply_readLinear_eq_ok (e := blank .perceived) rfl).1 h
  rfl

theorem apply_copyEye {source target : Eye α} (hs : source.space = .perceived)
    (ht : target.space = .perceived) : (copyEye source).apply target = .ok source := by
  rcases source with ⟨_, _, _, _, _, _, _, _⟩
  rcases target with ⟨_, _, _, _, _, _, _, _⟩
  subst hs
  subst ht
  rfl

end Eye

/-! ### Projection -/

/-- Whether a colour is, in hue, purity and intensity, what a dichromat perceives of light. -/
def Deficiency.Sees (d : Deficiency) (c : Triple α) (eye : Eye α) : Prop :=
  ∃ seen, d.project c = .ok seen ∧ eye.Agrees seen

theorem Deficiency.Sees.agrees {d : Deficiency} {c : Triple α} {a b : Eye α} (ha : d.Sees c a)
    (hb : d.Sees c b) : a.Agrees b := by
  obtain ⟨seen, hs, ha⟩ := ha
  obtain ⟨seen', hs', hb⟩ := hb
  obtain rfl : seen = seen' := by simpa [hs] using hs'
  exact ha.trans hb.symm

theorem Deficiency.sees_of_project {d : Deficiency} {c : Triple α} {a : Eye α}
    (h : d.project c = .ok a) : d.Sees c a := by
  obtain ⟨_, -, ha⟩ := bind_eq_ok.1 h
  exact ⟨a, h, Eye.Agrees.refl (Eye.ofLinear_space ha)⟩

theorem Deficiency.Sees.perceived {d : Deficiency} {c : Triple α} {a : Eye α} (h : d.Sees c a) :
    a.space = .perceived := by
  obtain ⟨_, -, ha⟩ := h
  exact ha.left

theorem Deficiency.perceived_of_sees {d : Deficiency} {colors : List (Triple α)}
    {eyes : List (Eye α)} (h : List.Forall₂ d.Sees colors eyes) :
    ∀ e ∈ eyes, e.space = .perceived := by
  intro e he
  obtain ⟨_, -, hsees⟩ := exists_left_of_mem h he
  exact hsees.perceived

namespace Projector

/-- The buffers of a projector for a deficiency. -/
structure Serves (p : Projector α) (d : Deficiency) : Prop where
  deficiency : p.deficiency = d
  perceived : p.eye.space = .perceived

theorem serves_ofDeficiency (d : Deficiency) : (ofDeficiency d : Projector α).Serves d :=
  ⟨rfl, rfl⟩

variable {p q : Projector α} {d : Deficiency} {c : Triple α} (hp : p.Serves d)

include hp

/-- A call leaves the projection of its colour in the buffers. -/
theorem serves_project (h : p.project c = .ok q) : q.Serves d ∧ d.Sees c q.eye := by
  simp only [project, bind_eq_ok, pure_eq_ok, Eye.apply_readLinear_eq_ok hp.perceived] at h
  obtain ⟨light, hl, _, ⟨seen, hs, rfl⟩, rfl⟩ := h
  rw [hp.deficiency] at hl
  refine ⟨⟨hp.deficiency, hp.perceived⟩, seen, bind_eq_ok.2 ⟨light, hl, hs⟩, ?_⟩
  exact Eye.showing_agrees hp.perceived (Eye.ofLinear_space hs)

theorem project_ok {seen : Eye α} (h : d.project c = .ok seen) : ∃ q, p.project c = .ok q := by
  obtain ⟨light, hl, hs⟩ := bind_eq_ok.1 h
  rw [← hp.deficiency] at hl
  exact ⟨_, bind_eq_ok.2 ⟨light, hl,
    bind_eq_ok.2 ⟨_, (Eye.apply_readLinear_eq_ok hp.perceived).2 ⟨seen, hs, rfl⟩, rfl⟩⟩⟩

theorem projectCopy_eq_ok {eye : Eye α} :
    p.projectCopy c = .ok (eye, q) ↔ p.project c = .ok q ∧ eye = q.eye := by
  simp only [projectCopy, bind_eq_ok, pure_eq_ok, Prod.mk.injEq]
  constructor
  · rintro ⟨q', hq, copy, hc, rfl, rfl⟩
    rw [Eye.apply_copyEye (serves_project hp hq).1.perceived rfl] at hc
    exact ⟨hq, (Except.ok.inj hc).symm⟩
  · rintro ⟨hq, rfl⟩
    exact ⟨q, hq, _, Eye.apply_copyEye (serves_project hp hq).1.perceived rfl, rfl, rfl⟩

/-- What is copied out of the buffers agrees with the projection that uses none. -/
theorem sees_iff_projectCopy {eye : Eye α} :
    d.Sees c eye ↔ ∃ copy q, p.projectCopy c = .ok (copy, q) ∧ eye.Agrees copy := by
  constructor
  · rintro ⟨seen, hs, ha⟩
    obtain ⟨q, hq⟩ := project_ok hp hs
    exact ⟨q.eye, q, (projectCopy_eq_ok hp).2 ⟨hq, rfl⟩,
      Deficiency.Sees.agrees ⟨seen, hs, ha⟩ (serves_project hp hq).2⟩
  · rintro ⟨_, q, h, ha⟩
    obtain ⟨hq, rfl⟩ := (projectCopy_eq_ok hp).1 h
    obtain ⟨seen, hs, hqs⟩ := (serves_project hp hq).2
    exact ⟨seen, hs, ha.trans hqs⟩

omit hp in
theorem serves_projectAll {colors : List (Triple α)} {eyes : List (Eye α)} (hp : p.Serves d)
    (h : p.projectAll colors = .ok (eyes, q)) : q.Serves d ∧ List.Forall₂ d.Sees colors eyes := by
  induction colors generalizing p eyes with
  | nil =>
    obtain ⟨rfl, rfl⟩ : [] = eyes ∧ p = q := by simpa [projectAll] using h
    exact ⟨hp, .nil⟩
  | cons c rest ih =>
    simp only [projectAll, bind_eq_ok, pure_eq_ok, Prod.mk.injEq] at h
    obtain ⟨⟨eye, p'⟩, hc, ⟨eyes', q'⟩, hr, rfl, rfl⟩ := h
    obtain ⟨hp', rfl⟩ := (projectCopy_eq_ok hp).1 hc
    obtain ⟨hs, hsees⟩ := serves_project hp hp'
    obtain ⟨hq, hall⟩ := ih hs hr
    exact ⟨hq, .cons hsees hall⟩

omit hp in
theorem projectAll_ok {colors : List (Triple α)} (hp : p.Serves d)
    (h : ∀ c ∈ colors, ∃ seen, d.project c = .ok seen) :
    ∃ eyes q, p.projectAll colors = .ok (eyes, q) := by
  induction colors generalizing p with
  | nil => exact ⟨[], p, rfl⟩
  | cons c rest ih =>
    obtain ⟨seen, hc⟩ := h c List.mem_cons_self
    obtain ⟨p', hp'⟩ := project_ok hp hc
    obtain ⟨eyes, q, hr⟩ := ih (serves_project hp hp').1 fun c hc =>
      h c (List.mem_cons_of_mem _ hc)
    exact ⟨p'.eye :: eyes, q, bind_eq_ok.2 ⟨(p'.eye, p'), (projectCopy_eq_ok hp).2 ⟨hp', rfl⟩,
      bind_eq_ok.2 ⟨(eyes, q), hr, rfl⟩⟩⟩

end Projector

/-! ### Errors -/

section Errors

variable {ctx : Context α} {xs ys : List (Eye α)} {a b : Eye α}

theorem addPairErrors_congr {settings : Settings α} {distances : List α} {k : Int} {l : Nat}
    {sum : α} (he : a.Agrees b) (hs : List.Forall₂ Eye.Agrees xs ys) :
    addPairErrors settings distances k a l xs sum =
      addPairErrors settings distances k b l ys sum := by
  induction hs generalizing l sum with
  | nil => rfl
  | cons hd _ ih => simp only [addPairErrors, Eye.distance_congr he hd, ih]

/-- Errors do not tell colours apart that agree. -/
theorem colorError_congr {k : Int} (he : a.Agrees b) (hs : List.Forall₂ Eye.Agrees xs ys) :
    colorError ctx xs k a = colorError ctx ys k b := by
  simp only [colorError, addPairErrors_congr he hs]

/-- The errors of a palette are those of its colours, place by place. -/
theorem colorErrors_eq_ok_iff {es : List α} :
    colorErrors ctx xs = .ok es ↔ es.length = xs.length ∧
      ∀ (k : Nat) (eye : Eye α) (e : α), xs[k]? = some eye → es[k]? = some e →
        colorError ctx xs k eye = .ok e := by
  rw [colorErrors, mapM_eq_ok_iff, List.forall₂_iff_get]
  simp only [List.length_zipIdx, List.get_eq_getElem, List.getElem_zipIdx, Nat.zero_add,
    List.getElem?_eq_some_iff]
  constructor
  · rintro ⟨hl, h⟩
    refine ⟨hl.symm, ?_⟩
    rintro k _ _ ⟨hk, rfl⟩ ⟨hk', rfl⟩
    exact h k hk hk'
  · rintro ⟨hl, h⟩
    exact ⟨hl.symm, fun k hk hk' => h k _ _ ⟨hk, rfl⟩ ⟨hk', rfl⟩⟩

theorem colorErrors_congr (hs : List.Forall₂ Eye.Agrees xs ys) {es : List α}
    (h : colorErrors ctx xs = .ok es) : colorErrors ctx ys = .ok es := by
  rw [colorErrors_eq_ok_iff] at h ⊢
  refine ⟨h.1.trans hs.length_eq, fun k b e hb he => ?_⟩
  obtain ⟨a, ha, hagrees⟩ := exists_right_of_getElem? hs.flip hb
  exact (colorError_congr hagrees hs).symm.trans (h.2 k a e ha he)

/-- The error of a colour does not hang on what is kept at its own place. -/
theorem addPairErrors_set {settings : Settings α} {distances : List α} {k l n : Nat} {sum : α}
    (h : k = l + n) (y : Eye α) :
    addPairErrors settings distances k a l (xs.set n y) sum =
      addPairErrors settings distances k a l xs sum := by
  induction xs generalizing l n sum with
  | nil => rfl
  | cons x xs ih =>
    cases n with
    | zero =>
      have hl : (l : Int) = k := by omega
      simp only [List.set_cons_zero, addPairErrors, if_pos hl]
    | succ n =>
      have hl : ¬ (l : Int) = k := by omega
      have hn : k = l + 1 + n := by omega
      simp only [List.set_cons_succ, addPairErrors, if_neg hl, ih hn]

theorem colorError_set (k : Nat) (y : Eye α) :
    colorError ctx (xs.set k y) k a = colorError ctx xs k a := by
  simp only [colorError, addPairErrors_set (Nat.zero_add k).symm y]

end Errors

end Dichromat
