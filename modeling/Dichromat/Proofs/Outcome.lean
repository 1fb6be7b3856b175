import Mathlib.Data.List.Forall2
import Dichromat.Arith

/-!
# Outcomes of computations

What it means for a computation to succeed, step by step: for `Except Fault`, for maps over lists
(`mapM_eq_ok_iff`), and for an `Update`, whose run from a state gives an outcome and a state
(`Update.runOn`).
-/

namespace Dichromat

variable {β γ : Type}

/-! ### Faults or values -/

@[simp] theorem ok_bind (a : β) (f : β → Except Fault γ) : (Except.ok a >>= f) = f a := rfl

@[simp] theorem error_bind (e : Fault) (f : β → Except Fault γ) :
    (Except.error e >>= f) = .error e := rfl

theorem bind_eq_ok {x : Except Fault β} {f : β → Except Fault γ} {c : γ} :
    (x >>= f) = .ok c ↔ ∃ a, x = .ok a ∧ f a = .ok c := by
  rcases x with e | a
  · simp
  · simp

theorem pure_eq_ok {a b : β} : (pure a : Except Fault β) = .ok b ↔ a = b := by
  simp [pure, Except.pure]

/-- A map over a list succeeds iff it does at every element. -/
theorem mapM_eq_ok_iff {f : β → Except Fault γ} {xs : List β} {ys : List γ} :
    xs.mapM f = .ok ys ↔ List.Forall₂ (fun x y => f x = .ok y) xs ys := by
  induction xs generalizing ys with
  | nil => cases ys <;> simp [pure_eq_ok]
  | cons x xs ih =>
    rw [List.mapM_cons, bind_eq_ok]
    simp only [bind_eq_ok, pure_eq_ok]
    constructor
    · rintro ⟨y, hy, zs, hzs, rfl⟩
      exact .cons hy (ih.1 hzs)
    · rintro (_ | ⟨hy, hzs⟩)
      exact ⟨_, hy, _, ih.2 hzs, rfl⟩

theorem exists_forall₂ {R : β → γ → Prop} {xs : List β} (h : ∀ x ∈ xs, ∃ y, R x y) :
    ∃ ys, List.Forall₂ R xs ys := by
  induction xs with
  | nil => exact ⟨[], .nil⟩
  | cons x xs ih =>
    obtain ⟨y, hy⟩ := h x List.mem_cons_self
    obtain ⟨ys, hys⟩ := ih fun z hz => h z (List.mem_cons_of_mem _ hz)
    exact ⟨y :: ys, .cons hy hys⟩

theorem mapM_ok {f : β → Except Fault γ} {xs : List β} (h : ∀ x ∈ xs, ∃ y, f x = .ok y) :
    ∃ ys, xs.mapM f = .ok ys :=
  (exists_forall₂ h).imp fun _ => mapM_eq_ok_iff.2

theorem mapM_eq_map {f : β → Except Fault γ} {g : β → γ} {xs : List β}
    (h : ∀ x ∈ xs, f x = .ok (g x)) : xs.mapM f = .ok (xs.map g) :=
  mapM_eq_ok_iff.2 (List.forall₂_map_right_iff.2 (List.forall₂_same.2 h))

/-- The fault of a map over a list is that of the first element that has one. -/
theorem mapM_eq_error {f : β → Except Fault γ} {g : β → γ} {e : β → Fault} {p : β → Bool} {x : β}
    {xs : List β} (hok : ∀ y ∈ xs, p y = false → f y = .ok (g y))
    (herror : ∀ y ∈ xs, p y = true → f y = .error (e y)) (h : xs.find? p = some x) :
    xs.mapM f = .error (e x) := by
  induction xs with
  | nil => exact absurd h nofun
  | cons y ys ih =>
    rw [List.mapM_cons]
    cases hy : p y with
    | true =>
      rw [List.find?_cons_of_pos hy] at h
      rw [herror y List.mem_cons_self hy, error_bind, Option.some.inj h]
    | false =>
      rw [List.find?_cons_of_neg (Bool.eq_false_iff.1 hy)] at h
      rw [hok y List.mem_cons_self hy, ok_bind,
        ih (fun z hz => hok z (List.mem_cons_of_mem y hz))
          (fun z hz => herror z (List.mem_cons_of_mem y hz)) h, error_bind]

theorem forM_eq_ok_iff {f : β → Except Fault Unit} {xs : List β} {a : Unit} :
    xs.forM f = .ok a ↔ ∀ x ∈ xs, f x = .ok () := by
  induction xs with
  | nil => exact iff_of_true rfl nofun
  | cons x xs ih =>
    show (f x >>= fun _ => xs.forM f) = _ ↔ _
    rw [bind_eq_ok, List.forall_mem_cons, ← ih]
    exact ⟨fun ⟨_, hx, hxs⟩ => ⟨hx, hxs⟩, fun ⟨hx, hxs⟩ => ⟨(), hx, hxs⟩⟩

theorem exists_right_of_getElem? {R : β → γ → Prop} {xs : List β} {ys : List γ}
    (h : List.Forall₂ R xs ys) {k : Nat} {x : β} (hx : xs[k]? = some x) :
    ∃ y, ys[k]? = some y ∧ R x y := by
  obtain ⟨hk, rfl⟩ := List.getElem?_eq_some_iff.1 hx
  have hk' : k < ys.length := h.length_eq ▸ hk
  exact ⟨_, List.getElem?_eq_getElem hk', h.get hk hk'⟩

theorem exists_right_of_mem {R : β → γ → Prop} {xs : List β} {ys : List γ}
    (h : List.Forall₂ R xs ys) {x : β} (hx : x ∈ xs) : ∃ y ∈ ys, R x y := by
  obtain ⟨k, hk⟩ := List.getElem?_of_mem hx
  obtain ⟨y, hy, hr⟩ := exists_right_of_getElem? h hk
  exact ⟨y, List.mem_of_getElem? hy, hr⟩

theorem exists_left_of_mem {R : β → γ → Prop} {xs : List β} {ys : List γ}
    (h : List.Forall₂ R xs ys) {y : γ} (hy : y ∈ ys) : ∃ x ∈ xs, R x y :=
  exists_right_of_mem h.flip hy

theorem forall₂_of_common {δ : Type} {R : β → γ → Prop} {S : β → δ → Prop} {T : γ → δ → Prop}
    (hT : ∀ x y z, R x y → S x z → T y z) {xs : List β} {ys : List γ} {zs : List δ}
    (h : List.Forall₂ R xs ys) (h' : List.Forall₂ S xs zs) : List.Forall₂ T ys zs := by
  induction h generalizing zs with
  | nil =>
    cases h'
    exact .nil
  | cons hr _ ih =>
    rcases h' with _ | ⟨hr', h'⟩
    exact .cons (hT _ _ _ hr hr') (ih h')

theorem forall₂_set {R : β → γ → Prop} {xs : List β} {ys : List γ} (h : List.Forall₂ R xs ys)
    (n : Nat) {x : β} {y : γ} (hr : R x y) : List.Forall₂ R (xs.set n x) (ys.set n y) := by
  induction h generalizing n with
  | nil => exact .nil
  | cons hd hs ih =>
    cases n with
    | zero => exact .cons hr hs
    | succ n => exact .cons hd (ih n)

/-! ### Updates -/

namespace Update

variable {σ : Type}

@[simp] theorem runOn_pure (a : β) (s : σ) : (pure a : Update σ β).runOn s = (.ok a, s) := rfl

@[simp] theorem runOn_throw (e : Fault) (s : σ) :
    (throw e : Update σ β).runOn s = (.error e, s) := rfl

@[simp] theorem runOn_get (s : σ) : (get : Update σ σ).runOn s = (.ok s, s) := rfl

@[simp] theorem runOn_set (s t : σ) : (set t : Update σ PUnit).runOn s = (.ok ⟨⟩, t) := rfl

@[simp] theorem runOn_modify (f : σ → σ) (s : σ) :
    (modify f : Update σ PUnit).runOn s = (.ok ⟨⟩, f s) := rfl

/-- A computation without state leaves the state as it is. -/
@[simp] theorem runOn_liftM (x : Except Fault β) (s : σ) :
    (liftM x : Update σ β).runOn s = (x, s) := rfl

theorem runOn_bind (u : Update σ β) (f : β → Update σ γ) (s : σ) :
    (u >>= f).runOn s =
      match u.runOn s with
      | (.ok a, t) => (f a).runOn t
      | (.error e, t) => (.error e, t) := by
  unfold runOn
  rw [ExceptT.run_bind, StateT.run_bind]
  rcases StateT.run (ExceptT.run u) s with ⟨e | a, t⟩ <;> rfl

theorem runOn_bind_of_ok {u : Update σ β} {s t : σ} {a : β} (h : u.runOn s = (.ok a, t))
    (f : β → Update σ γ) : (u >>= f).runOn s = (f a).runOn t := by
  rw [runOn_bind, h]

/-- A sequence of two updates succeeds iff the first does and then the second. -/
theorem runOn_bind_eq_ok {u : Update σ β} {f : β → Update σ γ} {s t : σ} {c : γ} :
    (u >>= f).runOn s = (.ok c, t) ↔
      ∃ a r, u.runOn s = (.ok a, r) ∧ (f a).runOn r = (.ok c, t) := by
  rw [runOn_bind]
  rcases u.runOn s with ⟨e | a, r⟩
  · simp
  · constructor
    · exact fun h => ⟨a, r, rfl, h⟩
    · rintro ⟨a', r', h, h'⟩
      obtain ⟨rfl, rfl⟩ : a = a' ∧ r = r' := by simpa using h
      exact h'

theorem apply_eq_ok {u : Update σ Unit} {s t : σ} :
    u.apply s = .ok t ↔ u.runOn s = (.ok (), t) := by
  unfold apply
  rcases u.runOn s with ⟨e | a, r⟩ <;> simp

/-- A sequence of two changes leads on from where the first one leads. -/
theorem apply_bind (u : Update σ Unit) (v : Unit → Update σ Unit) (s : σ) :
    (u >>= v).apply s = u.apply s >>= (v ()).apply := by
  unfold apply
  rw [runOn_bind]
  rcases u.runOn s with ⟨e | ⟨⟩, t⟩ <;> rfl

/-- The outcome after a change is the outcome in the state that it leads to. -/
theorem outcome_bind (u : Update σ Unit) (f : Unit → Update σ γ) (s : σ) :
    ((u >>= f).runOn s).1 = u.apply s >>= fun t => ((f ()).runOn t).1 := by
  unfold apply
  rw [runOn_bind]
  rcases u.runOn s with ⟨e | ⟨⟩, t⟩ <;> rfl

theorem outcome_liftM_bind (x : Except Fault β) (f : β → Update σ γ) (s : σ) :
    ((liftM x >>= f : Update σ γ).runOn s).1 = x >>= fun a => ((f a).runOn s).1 := by
  rw [runOn_bind, runOn_liftM]
  rcases x with e | a <;> rfl

/-- Where no outcome hangs on the state, a map over a list needs none. -/
theorem outcome_mapM {f : β → Update σ γ} {g : β → Except Fault γ}
    (h : ∀ x s, ((f x).runOn s).1 = g x) (xs : List β) (s : σ) :
    ((xs.mapM f).runOn s).1 = xs.mapM g := by
  induction xs generalizing s with
  | nil => rfl
  | cons x xs ih =>
    rw [List.mapM_cons, List.mapM_cons, ← h x s, runOn_bind]
    rcases (f x).runOn s with ⟨e | y, t⟩
    · rfl
    · rw [ok_bind, ← ih t]
      show ((xs.mapM f >>= fun ys => pure (y :: ys) : Update σ (List γ)).runOn t).1 = _
      rw [runOn_bind]
      rcases (xs.mapM f).runOn t with ⟨e | ys, r⟩ <;> rfl

theorem runOn_forM_cons_eq_ok {f : β → Update σ PUnit} {x : β} {xs : List β} {s t : σ} :
    ((x :: xs).forM f).runOn s = (.ok ⟨⟩, t) ↔
      ∃ r, (f x).runOn s = (.ok ⟨⟩, r) ∧ (xs.forM f).runOn r = (.ok ⟨⟩, t) := by
  show (f x >>= fun _ => xs.forM f).runOn s = _ ↔ _
  rw [runOn_bind_eq_ok]
  exact ⟨fun ⟨_, r, h⟩ => ⟨r, h⟩, fun ⟨r, h⟩ => ⟨⟨⟩, r, h⟩⟩

/-- Whatever the outcome, what holds of the state before holds of the state left behind. -/
def Preserves (I : σ → Prop) (u : Update σ β) : Prop := ∀ s, I s → I (u.runOn s).2

section Preserves

variable {I : σ → Prop} {u : Update σ β} {f : β → Update σ γ}

theorem Preserves.apply {v : Update σ Unit} (hv : v.Preserves I) {s t : σ} (hs : I s)
    (h : v.apply s = .ok t) : I t := by
  have ht := hv s hs
  rwa [apply_eq_ok.1 h] at ht

/-- What follows a bind is only run on what its first part leaves. -/
theorem Preserves.bind_of_ok (hu : u.Preserves I)
    (hf : ∀ s a t, I s → u.runOn s = (.ok a, t) → I ((f a).runOn t).2) :
    (u >>= f).Preserves I := by
  intro s hs
  have ht := hu s hs
  rw [runOn_bind]
  rcases hrun : u.runOn s with ⟨e | a, t⟩
  · rwa [hrun] at ht
  · exact hf s a t hs hrun

theorem Preserves.bind (hu : u.Preserves I) (hf : ∀ a, (f a).Preserves I) :
    (u >>= f).Preserves I := by
  refine hu.bind_of_ok fun s a t hs h => hf a t ?_
  have ht := hu s hs
  rwa [h] at ht

/-- A first part that succeeds may bring about what the rest preserves. -/
theorem Preserves.after {s t : σ} {a : β} (h : u.runOn s = (.ok a, t)) (ht : I t)
    (hf : (f a).Preserves I) : I ((u >>= f).runOn s).2 := by
  rw [runOn_bind_of_ok h]
  exact hf t ht

theorem preserves_get_bind {f : σ → Update σ γ} (hf : ∀ s, I s → I ((f s).runOn s).2) :
    (get >>= f : Update σ γ).Preserves I := by
  intro s hs
  rw [runOn_bind_of_ok (runOn_get s)]
  exact hf s hs

theorem preserves_pure (a : β) : (pure a : Update σ β).Preserves I := fun _ hs => hs

theorem preserves_get : (get : Update σ σ).Preserves I := fun _ hs => hs

theorem preserves_liftM (x : Except Fault β) : (liftM x : Update σ β).Preserves I := fun _ hs => hs

theorem preserves_throw (e : Fault) : (throw e : Update σ β).Preserves I := fun _ hs => hs

theorem preserves_modify {g : σ → σ} (hg : ∀ s, I s → I (g s)) :
    (modify g : Update σ PUnit).Preserves I :=
  hg

theorem ite_preserves {c : Prop} [Decidable c] {v w : Update σ β} (hv : v.Preserves I)
    (hw : w.Preserves I) : (if c then v else w).Preserves I := by
  split_ifs
  · exact hv
  · exact hw

theorem preserves_forM {g : β → Update σ PUnit} (hg : ∀ x, (g x).Preserves I) (xs : List β) :
    (xs.forM g).Preserves I := by
  induction xs with
  | nil => exact preserves_pure _
  | cons x xs ih => exact (hg x).bind fun _ => ih

end Preserves

/-- Whatever the outcome, the view of the state is what it was. -/
def Keeps {δ : Type} (view : σ → δ) (u : Update σ β) : Prop := ∀ d, u.Preserves fun s => view s = d

section Keeps

variable {δ : Type} {view : σ → δ} {u : Update σ β} {f : β → Update σ γ}

theorem Keeps.eq (hu : u.Keeps view) (s : σ) : view (u.runOn s).2 = view s := hu _ s rfl

theorem keeps_of_eq (h : ∀ s, view (u.runOn s).2 = view s) : u.Keeps view :=
  fun _ s hs => (h s).trans hs

theorem Keeps.bind (hu : u.Keeps view) (hf : ∀ a, (f a).Keeps view) : (u >>= f).Keeps view :=
  fun d => (hu d).bind fun a => hf a d

theorem keeps_pure (a : β) : (pure a : Update σ β).Keeps view := fun _ => preserves_pure a

theorem keeps_get : (get : Update σ σ).Keeps view := fun _ => preserves_get

theorem keeps_liftM (x : Except Fault β) : (liftM x : Update σ β).Keeps view :=
  fun _ => preserves_liftM x

theorem keeps_throw (e : Fault) : (throw e : Update σ β).Keeps view := fun _ => preserves_throw e

theorem keeps_modify {g : σ → σ} (hg : ∀ s, view (g s) = view s) :
    (modify g : Update σ PUnit).Keeps view :=
  fun _ => preserves_modify fun s hs => (hg s).trans hs

theorem ite_keeps {c : Prop} [Decidable c] {v w : Update σ β} (hv : v.Keeps view)
    (hw : w.Keeps view) : (if c then v else w).Keeps view :=
  fun d => ite_preserves (hv d) (hw d)

theorem keeps_forM {g : β → Update σ PUnit} (hg : ∀ x, (g x).Keeps view) (xs : List β) :
    (xs.forM g).Keeps view :=
  fun d => preserves_forM (fun x => hg x d) xs

theorem Keeps.preserves (hu : u.Keeps view) (I : δ → Prop) : u.Preserves fun s => I (view s) := by
  intro s hs
  rwa [hu.eq s]

theorem Keeps.map {ε : Type} (hu : u.Keeps view) (g : δ → ε) : u.Keeps fun s => g (view s) :=
  keeps_of_eq fun s => congrArg g (hu.eq s)

theorem Keeps.apply {v : Update σ Unit} (hv : v.Keeps view) {s t : σ} (h : v.apply s = .ok t) :
    view t = view s :=
  (hv (view s)).apply rfl h

end Keeps

/-- Whether the state is changed before or after makes no difference. -/
def Commutes (f : σ → σ) (u : Update σ β) : Prop :=
  ∀ s, u.runOn (f s) = ((u.runOn s).1, f (u.runOn s).2)

section Commutes

variable {f : σ → σ} {u : Update σ β} {k : β → Update σ γ}

theorem Commutes.bind (hu : u.Commutes f) (hk : ∀ a, (k a).Commutes f) : (u >>= k).Commutes f := by
  intro s
  rw [runOn_bind, runOn_bind, hu s]
  rcases u.runOn s with ⟨e | a, t⟩
  · rfl
  · exact hk a t

/-- What follows may look at what the change leaves alone. -/
theorem commutes_get_bind {k : σ → Update σ γ} (hk : ∀ s, k (f s) = k s)
    (h : ∀ s, (k s).Commutes f) : (get >>= k).Commutes f := by
  intro s
  rw [runOn_bind_of_ok (runOn_get _), runOn_bind_of_ok (runOn_get _), hk]
  exact h s s

theorem commutes_pure (a : β) : (pure a : Update σ β).Commutes f := fun _ => rfl

theorem commutes_liftM (x : Except Fault β) : (liftM x : Update σ β).Commutes f := fun _ => rfl

theorem commutes_throw (e : Fault) : (throw e : Update σ β).Commutes f := fun _ => rfl

theorem commutes_modify {g : σ → σ} (hg : ∀ s, g (f s) = f (g s)) :
    (modify g : Update σ PUnit).Commutes f :=
  fun s => Prod.ext rfl (hg s)

theorem commutes_forM {g : β → Update σ PUnit} (hg : ∀ x, (g x).Commutes f) (xs : List β) :
    (xs.forM g).Commutes f := by
  induction xs with
  | nil => exact commutes_pure _
  | cons x xs ih => exact (hg x).bind fun _ => ih

theorem Commutes.apply {v : Update σ Unit} (hv : v.Commutes f) {s t : σ} (h : v.apply s = .ok t) :
    v.apply (f s) = .ok (f t) := by
  rw [apply_eq_ok] at h ⊢
  rw [hv s, h]

end Commutes

end Update

/-! ### Computations that hand a state on -/

section Handed

variable {σ : Type}

theorem run_bind_eq_ok {x : StateT σ (Except Fault) β} {f : β → StateT σ (Except Fault) γ}
    {s u : σ} {c : γ} :
    (x >>= f).run s = .ok (c, u) ↔ ∃ a t, x.run s = .ok (a, t) ∧ (f a).run t = .ok (c, u) := by
  rw [StateT.run_bind, bind_eq_ok]
  exact ⟨fun ⟨(a, t), h, h'⟩ => ⟨a, t, h, h'⟩, fun ⟨a, t, h, h'⟩ => ⟨(a, t), h, h'⟩⟩

theorem run_pure_eq_ok {a b : β} {s t : σ} :
    (pure a : StateT σ (Except Fault) β).run s = .ok (b, t) ↔ a = b ∧ s = t := by
  rw [StateT.run_pure, pure_eq_ok, Prod.mk.injEq]

theorem run_get_eq_ok {s t u : σ} :
    (get : StateT σ (Except Fault) σ).run s = .ok (u, t) ↔ s = u ∧ s = t := by
  rw [StateT.run_get, pure_eq_ok, Prod.mk.injEq]

theorem run_set_eq_ok {r s t : σ} {a : PUnit} :
    (set r : StateT σ (Except Fault) PUnit).run s = .ok (a, t) ↔ r = t := by
  rw [StateT.run_set, pure_eq_ok, Prod.mk.injEq]
  exact and_iff_right (Subsingleton.elim _ _)

theorem run_liftM_eq_ok {x : Except Fault β} {a : β} {s t : σ} :
    (liftM x : StateT σ (Except Fault) β).run s = .ok (a, t) ↔ x = .ok a ∧ s = t := by
  show (x >>= fun a => pure (a, s)) = .ok (a, t) ↔ _
  simp only [bind_eq_ok, pure_eq_ok, Prod.mk.injEq]
  exact ⟨fun ⟨_, h, rfl, h'⟩ => ⟨h, h'⟩, fun ⟨h, h'⟩ => ⟨a, h, rfl, h'⟩⟩

theorem run_throw_ne_ok (e : Fault) (s : σ) (a : β × σ) :
    (throw e : StateT σ (Except Fault) β).run s ≠ .ok a :=
  nofun

variable {I : σ → Prop} {P : β → γ → Prop} {f : β → StateT σ (Except Fault) γ} {xs : List β}

/-- What every step of a map keeps of the state and says of its value holds of the whole map. -/
theorem forall₂_of_run_mapM
    (hf : ∀ x ∈ xs, ∀ s y t, I s → (f x).run s = .ok (y, t) → I t ∧ P x y) {s t : σ} {ys : List γ}
    (hs : I s) (h : (xs.mapM f).run s = .ok (ys, t)) : I t ∧ List.Forall₂ P xs ys := by
  induction xs generalizing s ys with
  | nil =>
    obtain ⟨rfl, rfl⟩ := run_pure_eq_ok.1 h
    exact ⟨hs, .nil⟩
  | cons x xs ih =>
    simp only [List.mapM_cons, run_bind_eq_ok, run_pure_eq_ok] at h
    obtain ⟨y, r, hx, zs, u, hxs, rfl, rfl⟩ := h
    obtain ⟨hr, hy⟩ := hf x List.mem_cons_self s y r hs hx
    obtain ⟨hu, hzs⟩ := ih (fun z hz => hf z (List.mem_cons_of_mem _ hz)) hr hxs
    exact ⟨hu, .cons hy hzs⟩

theorem run_mapM_ok (hf : ∀ x ∈ xs, ∀ s, I s → ∃ y t, (f x).run s = .ok (y, t) ∧ I t) {s : σ}
    (hs : I s) : ∃ ys t, (xs.mapM f).run s = .ok (ys, t) ∧ I t := by
  induction xs generalizing s with
  | nil => exact ⟨[], s, rfl, hs⟩
  | cons x xs ih =>
    obtain ⟨y, r, hx, hr⟩ := hf x List.mem_cons_self s hs
    obtain ⟨ys, t, hxs, ht⟩ := ih (fun z hz => hf z (List.mem_cons_of_mem _ hz)) hr
    refine ⟨y :: ys, t, ?_, ht⟩
    simp only [List.mapM_cons, run_bind_eq_ok, run_pure_eq_ok]
    exact ⟨y, r, hx, ys, t, hxs, rfl, rfl⟩

end Handed

end Dichromat
