import Dichromat.Proofs.Color.Confined

/-!
# What colours remember

A perceptual colour hands the limit that it remembers on to its copies, keeps it when it takes over
an RGB colour or is written to, and remembers another one whenever a limit has to be computed. None
of this ever makes the memory wrong: every operation on a store of colours keeps all of them
faithful (`faithful_perform`), and so does every list of operations (`faithful_performAll`). So a
colour always tells the limit of its present hue and purity (`limit_never_stale`), but for the pair
that stands for no memory at all.
-/

noncomputable section

namespace Dichromat

open Update

namespace Eye

/-! ### Reading a limit -/

variable {e : Eye ℝ}

/-- A faithful memory makes no difference, not even to faults. -/
theorem Faithful.limit_eq_intensityLimit (he : e.Faithful)
    (hpair : ¬ (e.hue = -1 ∧ e.purity = -1)) : e.limit = intensityLimit e.hue e.purity := by
  simp only [limit, readLimit, runOn_bind, runOn_get]
  cases hr : e.remembered? with
  | some limit =>
    obtain ⟨hhue, hpurity, rfl⟩ := eq_of_remembered hr
    have hknown := he.resolve_left fun h => hpair ⟨hhue ▸ h.1, hpurity ▸ h.2⟩
    rw [hhue, hpurity] at hknown
    exact hknown.symm
  | none => rcases intensityLimit e.hue e.purity with fault | limit <;> rfl

/-- A limit is remembered with the hue and purity that it was computed from, and a refused one is
not remembered. -/
theorem preserves_readLimit : readLimit.Preserves Faithful := by
  refine preserves_get_bind fun e he => ?_
  cases e.remembered? with
  | some limit => exact he
  | none =>
    rcases hlimit : intensityLimit e.hue e.purity with fault | limit
    · exact he
    · exact Or.inr hlimit

theorem preserves_readIntensity : readIntensity.Preserves Faithful := by
  refine preserves_get_bind fun e he => ?_
  rcases e.space with _ | _
  · exact he
  · exact preserves_readLimit.bind (fun _ => preserves_liftM _) e he

/-- Both colours of a pair are faithful. -/
def BothFaithful (pair : Eye ℝ × Eye ℝ) : Prop := pair.1.Faithful ∧ pair.2.Faithful

/-- A distance reads the intensities of both colours, one after the other. -/
theorem preserves_readDistance : readDistance.Preserves BothFaithful := by
  refine preserves_get_bind ?_
  rintro ⟨a, b⟩ hab
  have ha := preserves_readIntensity a hab.1
  have hb := preserves_readIntensity b hab.2
  have hset {c d : Eye ℝ} (hc : c.Faithful) (hd : d.Faithful) :
      (set (c, d) : Update (Eye ℝ × Eye ℝ) PUnit).Preserves BothFaithful :=
    fun _ _ => ⟨hc, hd⟩
  refine Preserves.bind (preserves_liftM _) (fun cosine => ?_) (a, b) hab
  refine (hset ha hab.2).bind fun _ => (preserves_liftM _).bind fun i => ?_
  refine (preserves_liftM _).bind fun p => (hset ha hb).bind fun _ => ?_
  exact (preserves_liftM _).bind fun j => (preserves_liftM _).bind fun q => preserves_liftM _

/-! ### Changes -/

/-- What a colour remembers, and of which hue and purity. -/
def memory (e : Eye ℝ) : ℝ × ℝ × ℝ := (e.knownHue, e.knownPurity, e.knownLimit)

/-- The memory alone decides whether a colour is faithful. -/
theorem preserves_of_keeps {β : Type} {u : Update (Eye ℝ) β} (hu : u.Keeps memory) :
    u.Preserves Faithful :=
  hu.preserves fun m => (m.1 = -1 ∧ m.2.1 = -1) ∨ intensityLimit m.1 m.2.1 = .ok m.2.2

/-- Linear channels say nothing about limits. -/
theorem keeps_readLinear (c : Triple ℝ) : (readLinear c).Keeps memory := by
  have hperceived : Keeps memory (do
      let i ← perceivedIntensity c
      modify fun e => { e with perceived := i } : Update (Eye ℝ) PUnit) :=
    (keeps_liftM _).bind fun i => keeps_modify fun _ => rfl
  have hnormalized : Keeps memory (do
      let j ← normalizedIntensity c
      modify fun e => { e with normalized := j } : Update (Eye ℝ) PUnit) :=
    (keeps_liftM _).bind fun j => keeps_modify fun _ => rfl
  unfold readLinear
  refine (keeps_liftM _).bind fun t => (keeps_liftM _).bind fun grey => ite_keeps ?_ ?_
  · refine Keeps.bind (keeps_modify fun _ => rfl) fun _ => keeps_get.bind fun e => ?_
    rcases e.space with _ | _
    · exact hperceived
    · exact hnormalized
  · refine (keeps_liftM _).bind fun r => Keeps.bind (keeps_modify fun _ => rfl) fun _ => ?_
    refine (keeps_liftM _).bind fun p => Keeps.bind (keeps_modify fun _ => rfl) fun _ => ?_
    refine keeps_get.bind fun e => ?_
    rcases e.space with _ | _
    · exact hperceived
    · exact hnormalized

theorem preserves_confine : confine.Preserves Faithful := by
  intro e he
  rw [runOn_confine_eq he]
  exact he.confined

/-- A copy takes the memory along; what it reads, it reads from then on. -/
theorem preserves_copyEye {source : Eye ℝ} (hs : source.Faithful) :
    (copyEye source).Preserves Faithful := by
  refine preserves_get_bind fun e he => ?_
  have hset : (set { source with space := e.space } : Update (Eye ℝ) PUnit).Preserves Faithful :=
    fun _ _ => hs
  refine hset.bind (fun _ => ?_) e he
  rcases e.space with _ | _ <;> rcases source.space with _ | _
  · exact preserves_pure _
  · exact preserves_readLimit.bind fun limit => (preserves_liftM _).bind fun i =>
      preserves_of_keeps (keeps_modify fun _ => rfl)
  · exact (preserves_liftM _).bind fun j => preserves_of_keeps (keeps_modify fun _ => rfl)
  · exact preserves_pure _

end Eye

namespace Color

/-! ### Colours of any space -/

/-- What a colour remembers is right; an RGB colour remembers nothing. -/
def Faithful : Color ℝ → Prop
  | rgb _ => True
  | eye e => e.Faithful

theorem faithful_changeEye {u : Update (Eye ℝ) Unit} (hu : u.Preserves Eye.Faithful) {t : Eye ℝ}
    (ht : t.Faithful) : (changeEye u t).1.Faithful :=
  hu t ht

theorem preserves_copyRgbToEye (source : Rgb ℝ) : (copyRgbToEye source).Preserves Eye.Faithful :=
  (preserves_liftM _).bind fun linear => Eye.preserves_of_keeps (Eye.keeps_readLinear linear)

theorem faithful_copyTo {a b : Color ℝ} (ha : a.Faithful) (hb : b.Faithful) :
    (a.copyTo b).source.Faithful ∧ (a.copyTo b).target.Faithful := by
  rcases a with s | s <;> rcases b with t | t
  · exact ⟨trivial, trivial⟩
  · exact ⟨trivial, faithful_changeEye (preserves_copyRgbToEye s) hb⟩
  · exact ⟨ha, trivial⟩
  · refine ⟨?_, faithful_changeEye (Eye.preserves_copyEye ha) hb⟩
    -- the source remembers its limit where the copy has to read it
    show Faithful (if t.space = .normalized ∧ s.space = .perceived then eye s.withKnownLimit
      else eye s)
    split_ifs
    · exact Eye.preserves_readLimit s ha
    · exact ha

theorem faithful_blank (space : Space) : (blank space : Color ℝ).Faithful := by
  rcases space with space | space
  · exact trivial
  · exact Eye.faithful_blank space

theorem faithful_copyList (values : List ℝ) {c : Color ℝ} (hc : c.Faithful) :
    (c.copyList values).1.Faithful := by
  rcases c with t | t
  · exact trivial
  · exact faithful_changeEye ((preserves_liftM _).bind fun c => preserves_copyRgbToEye c) hc

theorem faithful_confine {c : Color ℝ} (hc : c.Faithful) : c.confine.1.Faithful := by
  rcases c with t | t
  · exact trivial
  · exact faithful_changeEye Eye.preserves_confine hc

/-! ### Operations on a store -/

/-- Colours under numbers. -/
abbrev Store := ℕ → Option (Color ℝ)

namespace Store

/-- A store with no colours. -/
def empty : Store := fun _ => none

/-- Puts a colour in a place. -/
def put (s : Store) (k : ℕ) (c : Color ℝ) : Store := Function.update s k (some c)

/-- Changes the perceptual colour under a number, if there is one. -/
def changeEye (s : Store) (k : ℕ) (f : Eye ℝ → Eye ℝ) : Store :=
  match s k with
  | some (eye e) => s.put k (eye (f e))
  | _ => s

/-- All perceptual colours of the store remember right limits. -/
def Faithful (s : Store) : Prop := ∀ k c, s k = some c → c.Faithful

theorem faithful_empty : empty.Faithful := fun _ _ h => absurd h nofun

theorem Faithful.put {s : Store} (hs : s.Faithful) (k : ℕ) {c : Color ℝ} (hc : c.Faithful) :
    (s.put k c).Faithful := by
  intro l d hd
  unfold Store.put at hd
  by_cases h : l = k
  · rw [h, Function.update_self] at hd
    rwa [← Option.some.inj hd]
  · rw [Function.update_of_ne h] at hd
    exact hs l d hd

theorem Faithful.changeEye {s : Store} (hs : s.Faithful) (k : ℕ) {f : Eye ℝ → Eye ℝ}
    (hf : ∀ e : Eye ℝ, e.Faithful → (f e).Faithful) : (s.changeEye k f).Faithful := by
  unfold Store.changeEye
  split
  · next e he => exact hs.put k (hf e (hs k _ he))
  · exact hs

end Store

/-- What a program may write to a perceptual colour. -/
inductive Field
  | hue | purity | perceived | normalized

/-- A colour with another number in a field. -/
def Field.write (field : Field) (x : ℝ) (e : Eye ℝ) : Eye ℝ :=
  match field with
  | hue => { e with hue := x }
  | purity => { e with purity := x }
  | perceived => { e with perceived := x }
  | normalized => { e with normalized := x }

/-- What a program does with colours. -/
inductive Operation
  /-- A new perceptual colour. -/
  | create (k : ℕ) (space : EyeSpace)
  /-- An RGB colour with any channels. -/
  | mix (k : ℕ) (c : Rgb ℝ)
  | write (k : ℕ) (field : Field) (x : ℝ)
  /-- A copy into a colour that is there, converted into its space. -/
  | copy (source target : ℕ)
  | copyList (values : List ℝ) (target : ℕ)
  /-- A copy into a new colour. -/
  | convert (source : ℕ) (space : Space) (target : ℕ)
  | confine (k : ℕ)
  | readLimit (k : ℕ)
  | readIntensity (k : ℕ)
  | readDistance (k l : ℕ)

namespace Operation

/-- What an operation leaves of a store, also where it is refused. -/
def perform (s : Store) : Operation → Store
  | create k space => s.put k (eye (Eye.blank space))
  | mix k c => s.put k (rgb c)
  | write k field x => s.changeEye k (field.write x)
  | copy source target =>
    match s source, s target with
    | some a, some b => (s.put source (a.copyTo b).source).put target (a.copyTo b).target
    | _, _ => s
  | copyList values target =>
    match s target with
    | some b => s.put target (b.copyList values).1
    | none => s
  | convert source space target =>
    match s source with
    | some a =>
      let rest := s.put source (a.convert space).source
      if (a.convert space).fault = none then rest.put target (a.convert space).target else rest
    | none => s
  | confine k =>
    match s k with
    | some c => s.put k c.confine.1
    | none => s
  | readLimit k => s.changeEye k fun e => (Eye.readLimit.runOn e).2
  | readIntensity k => s.changeEye k fun e => (Eye.readIntensity.runOn e).2
  | readDistance k l =>
    match s k, s l with
    | some (eye a), some (eye b) =>
      (s.put k (eye (Eye.readDistance.runOn (a, b)).2.1)).put l
        (eye (Eye.readDistance.runOn (a, b)).2.2)
    | _, _ => s

/-- What a list of operations leaves. -/
def performAll (s : Store) (operations : List Operation) : Store := operations.foldl perform s

/-- No operation makes a memory wrong. -/
theorem faithful_perform {s : Store} (hs : s.Faithful) (op : Operation) :
    (perform s op).Faithful := by
  cases op with
  | create k space => exact hs.put k (Eye.faithful_blank space)
  | mix k c => exact hs.put k trivial
  | write k field x =>
    refine hs.changeEye k fun e he => ?_
    cases field <;> exact he
  | copy source target =>
    simp only [perform]
    split
    · next a b ha hb =>
      obtain ⟨hsource, htarget⟩ := faithful_copyTo (hs source a ha) (hs target b hb)
      exact (hs.put source hsource).put target htarget
    · exact hs
  | copyList values target =>
    simp only [perform]
    split
    · next b hb => exact hs.put target (faithful_copyList values (hs target b hb))
    · exact hs
  | convert source space target =>
    simp only [perform]
    split
    · next a ha =>
      obtain ⟨hsource, htarget⟩ := faithful_copyTo (hs source a ha) (faithful_blank space)
      split_ifs
      · exact (hs.put source hsource).put target htarget
      · exact hs.put source hsource
    · exact hs
  | confine k =>
    simp only [perform]
    split
    · next c hc => exact hs.put k (faithful_confine (hs k c hc))
    · exact hs
  | readLimit k => exact hs.changeEye k Eye.preserves_readLimit
  | readIntensity k => exact hs.changeEye k Eye.preserves_readIntensity
  | readDistance k l =>
    simp only [perform]
    split
    · next a b ha hb =>
      obtain ⟨ha', hb'⟩ := Eye.preserves_readDistance (a, b) ⟨hs k _ ha, hs l _ hb⟩
      exact (hs.put (c := eye _) k ha').put (c := eye _) l hb'
    · exact hs

theorem faithful_performAll {s : Store} (hs : s.Faithful) (operations : List Operation) :
    (performAll s operations).Faithful := by
  induction operations generalizing s with
  | nil => exact hs
  | cons op operations ih => exact ih (faithful_perform hs op)

end Operation

/-! ### Limits are never stale -/

/-- Whatever a program does with its colours, a colour tells the limit of its present hue and purity
as if it were computed afresh, faults included; only the pair of hue and purity that stands for no
memory is excepted. So it does with any other space, hue, purity and intensities, as it gets them in
the middle of an operation. -/
theorem limit_never_stale (operations : List Operation) {k : ℕ} {e : Eye ℝ}
    (he : Operation.performAll Store.empty operations k = some (eye e)) :
    (¬ (e.hue = -1 ∧ e.purity = -1) →
      (Eye.readLimit.runOn e).1 = intensityLimit e.hue e.purity ∧
      (e.space = .normalized → (Eye.readIntensity.runOn e).1 =
        (.ok e.normalized : Calc ℝ) * intensityLimit e.hue e.purity)) ∧
    ∀ space r p i j, ¬ (r = -1 ∧ p = -1) →
      (Eye.readLimit.runOn { e with
        space := space, hue := r, purity := p, perceived := i, normalized := j }).1 =
          intensityLimit r p := by
  have hfaithful : e.Faithful :=
    Operation.faithful_performAll Store.faithful_empty operations k (eye e) he
  refine ⟨fun hpair => ?_, fun space r p i j hpair => ?_⟩
  · have hlimit := hfaithful.limit_eq_intensityLimit hpair
    refine ⟨hlimit, fun hspace => ?_⟩
    rw [← hlimit]
    unfold Eye.readIntensity Eye.limit
    simp only [runOn_bind, runOn_get, hspace]
    rcases Eye.readLimit.runOn e with ⟨fault | limit, t⟩ <;> rfl
  · have hchanged : Eye.Faithful { e with
        space := space, hue := r, purity := p, perceived := i, normalized := j } := hfaithful
    exact hchanged.limit_eq_intensityLimit hpair

/-- The copy of a green that has told its limit, turned to red. -/
theorem limit_never_stale_turned :
    ∃ e : Eye ℝ,
      Operation.performAll Store.empty
        [.create 0 .perceived, .write 0 .hue (1 / 3), .write 0 .purity 1, .readLimit 0,
          .create 1 .perceived, .copy 0 1, .write 1 .hue 0] 1 = some (eye e) ∧
      e.knownHue = 1 / 3 ∧ e.hue = 0 ∧ e.purity = 1 ∧
      (Eye.readLimit.runOn e).1 = intensityLimit 0 1 := by
  let green : Eye ℝ := { Eye.blank .perceived with hue := 1 / 3, purity := 1 }
  have hread : (Eye.readLimit.runOn green).2 = green.known :=
    Eye.withKnownLimit_eq (Eye.limit_eq (Eye.faithful_blank .perceived) zero_le_one le_rfl)
  have hstore : Operation.performAll Store.empty
      [.create 0 .perceived, .write 0 .hue (1 / 3), .write 0 .purity 1, .readLimit 0,
        .create 1 .perceived, .copy 0 1, .write 1 .hue 0] 1 =
      some (eye { green.known with hue := 0 }) := by
    show Operation.performAll
      ((Operation.performAll Store.empty
        [.create 0 .perceived, .write 0 .hue (1 / 3), .write 0 .purity 1]).put 0
          (eye (Eye.readLimit.runOn green).2))
      [.create 1 .perceived, .copy 0 1, .write 1 .hue 0] 1 = _
    rw [hread]
    rfl
  have hpair : ¬ ((0 : ℝ) = -1 ∧ (1 : ℝ) = -1) := by norm_num
  exact ⟨_, hstore, rfl, rfl, rfl, ((limit_never_stale _ hstore).1 hpair).1⟩

end Color

end Dichromat

end
