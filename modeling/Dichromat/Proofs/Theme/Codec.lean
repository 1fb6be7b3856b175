import Dichromat.Proofs.Counting
import Dichromat.Proofs.Outcome
import Dichromat.Proofs.Theme.Hex
import Mathlib.Tactic.IntervalCases

/-!
# The grammar of colour codes

A code is read iff it spells three or six digits (`Hex.decode_eq_ok_iff_spells`); white space around
it, a number sign and the case of its letters do not matter. Of all spellings of a colour, writing
gives the one with six lower-case digits behind a number sign (`Hex.toList_encode`), which is read as
the channels that were written, each brought into its range (`Hex.decode_encode`).
-/

namespace Dichromat

namespace Hex

open Text

/-! ### Spellings -/

/-- A hexadecimal digit of either case, and its value. -/
def IsDigit (c : Char) (n : ℕ) : Prop := n < 16 ∧ (c = n.digitChar ∨ c = n.digitChar.toUpper)

/-- How a code is spelled: by digits behind a number sign or without one, between white space. -/
def Spells (code : String) (digits : List ℕ) : Prop :=
  ∃ before sign chars after, code.toList = before ++ (sign ++ chars) ++ after ∧
    (∀ c ∈ before, isBlank c = true) ∧ (∀ c ∈ after, isBlank c = true) ∧
    (sign = [] ∨ sign = ['#']) ∧ List.Forall₂ IsDigit chars digits

/-- The channels of digits: two for each channel, the higher one first. Three digits stand for the
six in which each of them is doubled. -/
inductive Gives : List ℕ → Triple ℕ → Prop
  | pairs (r r' g g' b b' : ℕ) :
      Gives [r, r', g, g', b, b'] ⟨16 * r + r', 16 * g + g', 16 * b + b'⟩
  | doubled {r g b : ℕ} {rgb : Triple ℕ} (h : Gives [r, r, g, g, b, b] rgb) : Gives [r, g, b] rgb

theorem digit?_eq_some_iff {c : Char} {n : ℕ} : digit? c = some n ↔ IsDigit c n := by
  constructor
  · intro h
    have hc : c = Char.ofNat c.toNat := (Char.ofNat_toNat c).symm
    have hrange := toNat_of_digit? h
    generalize c.toNat = k at hc hrange
    subst hc
    rcases hrange with ⟨hlow, hhigh⟩ | ⟨hlow, hhigh⟩ | ⟨hlow, hhigh⟩
    all_goals
      interval_cases k <;> obtain rfl := Option.some.inj h <;> exact ⟨by decide, by decide⟩
  · rintro ⟨hn, rfl | rfl⟩
    all_goals interval_cases n <;> rfl

theorem mapM_digit?_eq_some_iff {chars : List Char} {digits : List ℕ} :
    chars.mapM digit? = some digits ↔ List.Forall₂ IsDigit chars digits := by
  induction chars generalizing digits with
  | nil => simp [eq_comm]
  | cons c chars ih =>
    simp only [List.mapM_cons, Option.bind_eq_bind, Option.bind_eq_some_iff, digit?_eq_some_iff, ih,
      Option.pure_def, Option.some.injEq, List.forall₂_cons_left_iff]
    exact ⟨fun ⟨n, hn, ns, hns, h⟩ => ⟨n, ns, hn, hns, h.symm⟩,
      fun ⟨n, ns, hn, hns, h⟩ => ⟨n, hn, ns, hns, h.symm⟩⟩

theorem isBlank_of_isDigit {c : Char} {n : ℕ} (h : IsDigit c n) : isBlank c = false :=
  isBlank_of_digit? (digit?_eq_some_iff.2 h)

theorem ne_sign_of_isDigit {c : Char} {n : ℕ} (h : IsDigit c n) : c ≠ '#' := by
  rintro rfl
  exact nomatch digit?_eq_some_iff.2 h

theorem dropSign_append {sign chars : List Char} {digits : List ℕ} (hsign : sign = [] ∨ sign = ['#'])
    (h : List.Forall₂ IsDigit chars digits) : dropSign (sign ++ chars) = chars := by
  rcases hsign with rfl | rfl
  · rcases h with _ | ⟨hc, -⟩
    · rfl
    · rw [List.nil_append, dropSign]
      exact fun rest heq => ne_sign_of_isDigit hc (List.cons.inj heq).1
  · rfl

theorem exists_dropSign (s : List Char) :
    ∃ sign, s = sign ++ dropSign s ∧ (sign = [] ∨ sign = ['#']) := by
  unfold dropSign
  split
  · exact ⟨['#'], rfl, Or.inr rfl⟩
  · exact ⟨[], rfl, Or.inl rfl⟩

theorem spells_iff {code : String} {digits : List ℕ} :
    Spells code digits ↔ (dropSign (strip code.toList)).mapM digit? = some digits := by
  rw [mapM_digit?_eq_some_iff]
  constructor
  · rintro ⟨before, sign, chars, after, hcode, hbefore, hafter, hsign, hchars⟩
    have hcore : ∀ c ∈ sign ++ chars, isBlank c = false := by
      intro c hc
      rcases List.mem_append.1 hc with hc | hc
      · rcases hsign with rfl | rfl
        · exact absurd hc List.not_mem_nil
        · rw [List.mem_singleton.1 hc]
          rfl
      · obtain ⟨n, -, hn⟩ := exists_right_of_mem hchars hc
        exact isBlank_of_isDigit hn
    rwa [hcode, strip_append hbefore hafter hcore, dropSign_append hsign hchars]
  · intro h
    obtain ⟨before, after, hcode, hbefore, hafter⟩ := exists_strip code.toList
    obtain ⟨sign, hstrip, hsign⟩ := exists_dropSign (strip code.toList)
    exact ⟨before, sign, _, after, hstrip ▸ hcode, hbefore, hafter, hsign, h⟩

/-! ### Reading -/

theorem channels?_eq_some_iff {digits : List ℕ} {rgb : Triple ℕ} :
    channels? digits = some rgb ↔ Gives digits rgb := by
  constructor
  · intro h
    unfold channels? at h
    split at h
    · obtain rfl := Option.some.inj h
      simp only [Nat.mul_comm _ 16]
      exact .doubled (.pairs ..)
    · obtain rfl := Option.some.inj h
      simp only [Nat.mul_comm _ 16]
      exact .pairs ..
    · exact nomatch h
  · have hpairs : ∀ r r' g g' b b' : ℕ, channels? [r, r', g, g', b, b'] =
        some ⟨16 * r + r', 16 * g + g', 16 * b + b'⟩ := fun r r' g g' b b' => by
      simp only [channels?, Nat.mul_comm 16]
    rintro (⟨r, r', g, g', b, b'⟩ | @⟨r, g, b, _, ⟨⟩⟩)
    · exact hpairs ..
    · exact hpairs r r g g b b

/-- A code is read iff it spells three or six digits, as their channels. -/
theorem decode_eq_ok_iff_spells {code : String} {rgb : Triple ℕ} :
    decode code = .ok rgb ↔ ∃ digits, Spells code digits ∧ Gives digits rgb := by
  simp only [decode_eq_ok_iff, decode?, Option.bind_eq_some_iff, spells_iff, channels?_eq_some_iff]

theorem get_le_of_decode {code : String} {rgb : Triple ℕ} (h : decode code = .ok rgb)
    (k : Channel) : rgb.get k ≤ 255 := by
  obtain ⟨digits, ⟨_, _, _, _, -, -, -, -, hdigits⟩, hgives⟩ := decode_eq_ok_iff_spells.1 h
  have hlt : ∀ n ∈ digits, n < 16 := fun n hn => by
    obtain ⟨_, -, hdigit⟩ := exists_left_of_mem hdigits hn
    exact hdigit.1
  rcases hgives with ⟨r, r', g, g', b, b'⟩ | @⟨r, g, b, _, ⟨⟩⟩
  all_goals
    simp only [List.forall_mem_cons] at hlt
    cases k <;> simp only [Triple.get] <;> omega

/-! ### Writing -/

theorem natCast_clamp (n : ℤ) : (clamp n : ℤ) = max 0 (min 255 n) := by
  unfold clamp
  omega

theorem clamp_natCast {n : ℕ} (h : n ≤ 255) : clamp n = n := by
  unfold clamp
  omega

theorem hexadecimal_two {n : ℕ} (h : n < 256) :
    hexadecimal 2 n = [(n / 16).digitChar, (n % 16).digitChar] := by
  unfold hexadecimal
  rcases Nat.lt_or_ge n 16 with hlow | hhigh
  · rw [Nat.toDigits_of_lt_base hlow, Nat.div_eq_of_lt hlow, Nat.mod_eq_of_lt hlow]
    rfl
  · have hdigits : Nat.toDigits 16 n = [(n / 16).digitChar, (n % 16).digitChar] := by
      conv_lhs => rw [← Nat.div_add_mod n 16]
      rw [← Nat.toDigits_append_toDigits (by decide) (Nat.div_pos hhigh (by decide))
        (Nat.mod_lt n (by decide)), Nat.toDigits_of_lt_base (by omega),
        Nat.toDigits_of_lt_base (Nat.mod_lt n (by decide))]
      rfl
    rw [hdigits]
    rfl

/-- The canonical code of a colour: a number sign, and two lower-case digits for each channel. -/
theorem toList_encode (rgb : Triple ℤ) : (encode rgb).toList = '#' :: rgb.toList.flatMap
    fun n => [(clamp n / 16).digitChar, (clamp n % 16).digitChar] := by
  rw [encode, String.toList_ofList]
  congr 2
  funext n
  exact hexadecimal_two (by unfold clamp; omega)

theorem spells_encode (rgb : Triple ℤ) :
    Spells (encode rgb) (rgb.toList.flatMap fun n => [clamp n / 16, clamp n % 16]) := by
  have hdigit : ∀ n < 16, IsDigit n.digitChar n := fun n hn => ⟨hn, Or.inl rfl⟩
  have hlt : ∀ n, clamp n / 16 < 16 := fun n => by unfold clamp; omega
  have hmod : ∀ n, clamp n % 16 < 16 := fun n => Nat.mod_lt _ (by decide)
  refine ⟨[], ['#'], _, [], (toList_encode rgb).trans (List.append_nil _).symm, nofun, nofun,
    Or.inr rfl, ?_⟩
  exact .cons (hdigit _ (hlt _)) (.cons (hdigit _ (hmod _)) (.cons (hdigit _ (hlt _))
    (.cons (hdigit _ (hmod _)) (.cons (hdigit _ (hlt _)) (.cons (hdigit _ (hmod _)) .nil)))))

/-- What is written is read as the channels that are nearest to those that were to be written. -/
theorem decode_encode (rgb : Triple ℤ) : decode (encode rgb) = .ok (rgb.map clamp) := by
  refine decode_eq_ok_iff_spells.2 ⟨_, spells_encode rgb, ?_⟩
  have hchannels : rgb.map clamp = ⟨16 * (clamp rgb.red / 16) + clamp rgb.red % 16,
      16 * (clamp rgb.green / 16) + clamp rgb.green % 16,
      16 * (clamp rgb.blue / 16) + clamp rgb.blue % 16⟩ := by
    simp only [Nat.div_add_mod]
    rfl
  rw [hchannels]
  exact .pairs ..

theorem map_clamp_of_decode {code : String} {rgb : Triple ℕ} (h : decode code = .ok rgb) :
    (rgb.map (Nat.cast : ℕ → ℤ)).map clamp = rgb :=
  Triple.ext_get fun k => by
    rw [Triple.get_map, Triple.get_map, clamp_natCast (get_le_of_decode h k)]

/-- Colours that were read have the same canonical code only if they are the same. -/
theorem encode_inj_of_decode {a b : String} {x y : Triple ℕ} (hx : decode a = .ok x)
    (hy : decode b = .ok y) : encode (x.map Nat.cast) = encode (y.map Nat.cast) ↔ x = y := by
  refine ⟨fun h => ?_, fun h => h ▸ rfl⟩
  have hread := decode_encode (x.map Nat.cast)
  rw [h, decode_encode, map_clamp_of_decode hx, map_clamp_of_decode hy] at hread
  exact (Except.ok.inj hread).symm

/-! ### Comparison -/

theorem equivalent_zero {a b : String} {x y : Triple ℕ} (hx : decode a = .ok x)
    (hy : decode b = .ok y) :
    equivalent (.text a) (.text b) (.int 0) = .ok (decide (x = y)) := by
  have hclose : ∀ m n : ℕ, Value.le (.int (channelGap m n)) (.int 0) = .ok (decide (m = n)) := by
    intro m n
    rw [Value.le_int]
    congr 2
    unfold channelGap
    exact propext (by omega)
  obtain ⟨r, g, b⟩ := x
  obtain ⟨r', g', b'⟩ := y
  simp only [equivalent, decodeValue, hx, hy, ok_bind, hclose, Triple.mk.injEq]
  by_cases hr : r = r' <;> by_cases hg : g = g' <;> simp [hr, hg, pure, Except.pure]

/-- A code is read iff it spells three or six digits, and every other text is refused. Whatever
integers are written, they are read as the nearest ones from 0 to 255. Codes that are read have a
canonical form with six lower-case digits, and it is the same for two of them iff they are equivalent
without any tolerance. -/
theorem reads_spellings_and_writes_canonical :
    (∀ code rgb, decode code = .ok rgb ↔ ∃ digits, Spells code digits ∧ Gives digits rgb) ∧
    (∀ code, (∃ rgb, decode code = .ok rgb) ∨
      decode code = .error (.invalidHex code) ∧ (Fault.invalidHex code).isRefusal = true) ∧
    (∀ rgb : Triple ℤ, ∃ clamped, decode (encode rgb) = .ok clamped ∧
      ∀ k, (clamped.get k : ℤ) = max 0 (min 255 (rgb.get k))) ∧
    ∀ a b x y, decode a = .ok x → decode b = .ok y →
      (encode (x.map Nat.cast)).toList =
        '#' :: x.toList.flatMap (fun n => [(n / 16).digitChar, (n % 16).digitChar]) ∧
      equivalent (.text a) (.text b) (.int 0) =
        .ok (decide (encode (x.map Nat.cast) = encode (y.map Nat.cast))) := by
  refine ⟨fun _ _ => decode_eq_ok_iff_spells, fun code => ?_, fun rgb => ?_,
    fun a b x y hx hy => ⟨?_, ?_⟩⟩
  · cases h : decode? code with
    | some rgb => exact Or.inl ⟨rgb, decode_eq_ok_iff.2 h⟩
    | none => exact Or.inr ⟨decode_eq_error_iff.2 h, rfl⟩
  · refine ⟨_, decode_encode rgb, fun k => ?_⟩
    rw [Triple.get_map, natCast_clamp]
  · have hclamp : ∀ k, clamp (x.get k : ℤ) = x.get k := fun k => clamp_natCast (get_le_of_decode hx k)
    rw [toList_encode]
    show '#' :: [(clamp (x.get .red) / 16).digitChar, (clamp (x.get .red) % 16).digitChar,
      (clamp (x.get .green) / 16).digitChar, (clamp (x.get .green) % 16).digitChar,
      (clamp (x.get .blue) / 16).digitChar, (clamp (x.get .blue) % 16).digitChar] = _
    simp only [hclamp]
    rfl
  · rw [equivalent_zero hx hy]
    simp only [encode_inj_of_decode hx hy]

/-- Two spellings of one colour, with three digits and with six. -/
theorem reads_spellings_and_writes_canonical_azure :
    decode " #0Af\n" = .ok ⟨0, 170, 255⟩ ∧ decode "00aaFF\t" = .ok ⟨0, 170, 255⟩ ∧
      (encode ⟨0, 170, 255⟩).toList = ['#', '0', '0', 'a', 'a', 'f', 'f'] ∧
      equivalent (.text " #0Af\n") (.text "00aaFF\t") (.int 0) = .ok true := by
  have hthree : decode " #0Af\n" = .ok ⟨0, 170, 255⟩ := by decide +kernel
  have hsix : decode "00aaFF\t" = .ok ⟨0, 170, 255⟩ := by decide +kernel
  obtain ⟨hcode, hequivalent⟩ :=
    reads_spellings_and_writes_canonical.2.2.2 _ _ _ _ hthree hsix
  exact ⟨hthree, hsix, hcode, hequivalent.trans (by rw [decide_eq_true rfl])⟩

end Hex

end Dichromat
