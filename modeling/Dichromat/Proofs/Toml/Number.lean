import Dichromat.Toml.Scalar
import Mathlib.Data.List.Basic

/-!
# Numbers of a document

What a document takes for the text of a number is one (`decimalText_eq_some`): a sign, digits with
single underscores between them, perhaps a fraction and an exponent. So it has a value, unless it is
an integer with too many digits (`decimalValue_of_decimalText`).
-/

namespace Dichromat.Toml

open Text

/-! ### Runs of digits -/

/-- Decimal digits with single underscores between them. -/
inductive IsRun : List Char → Prop
  | digit {c : Char} (hc : isDecimal c = true) : IsRun [c]
  | cons {c : Char} {run : List Char} (hc : isDecimal c = true) (h : IsRun run) : IsRun (c :: run)
  | underscore {c : Char} {run : List Char} (hc : isDecimal c = true) (h : IsRun run) :
      IsRun (c :: '_' :: run)

theorem isDecimal_iff {c : Char} : isDecimal c = true ↔ 48 ≤ c.toNat ∧ c.toNat ≤ 57 := by
  rw [isDecimal, Bool.and_eq_true, decide_eq_true_eq, decide_eq_true_eq, Char.le_def, Char.le_def,
    UInt32.le_iff_toNat_le, UInt32.le_iff_toNat_le]
  rfl

theorem exists_digit?_of_isDecimal {c : Char} (h : isDecimal c = true) :
    ∃ d, digit? c = some d := by
  have hdigit : c.isDigit = true := h
  exact ⟨_, digit?_of_isDigit hdigit⟩

theorem ne_underscore {c : Char} (h : isDecimal c = true) : c ≠ '_' := by
  rintro rfl
  exact absurd h (by decide)

/-- Behind a digit, what is read of a run makes a run with it. -/
theorem isRun_cons_digitRun {d : Char} (hd : isDecimal d = true) (cs : List Char) :
    IsRun (d :: (digitRun isDecimal cs).1) := by
  induction hlength : cs.length using Nat.strongRecOn generalizing d cs with
  | ind n ih =>
    subst hlength
    rcases cs with _ | ⟨c, rest⟩
    · exact .digit hd
    rw [digitRun.eq_def]
    dsimp only
    split_ifs with hc
    · exact .cons hd (ih _ (Nat.lt_succ_self _) hc rest rfl)
    · split
      · rename_i next behind
        split_ifs with hnext
        · exact .underscore hd (ih _ (by simp only [List.length_cons]; omega) hnext behind rfl)
        · exact .digit hd
      · exact .digit hd

theorem isRun_of_digits1 {cs run rest : List Char} (h : digits1 isDecimal cs = some (run, rest)) :
    IsRun run := by
  rcases cs with _ | ⟨c, cs⟩
  · exact nomatch h
  rw [digits1] at h
  split_ifs at h with hc
  rw [digitRun.eq_def] at h
  simp only [if_pos hc, Option.some.injEq, Prod.mk.injEq] at h
  exact h.1 ▸ isRun_cons_digitRun hc cs

namespace IsRun

variable {run : List Char}

theorem ne_nil (h : IsRun run) : run ≠ [] := by
  rintro rfl
  exact nomatch h

theorem forall_mem (h : IsRun run) : ∀ c ∈ run, isDecimal c = true ∨ c = '_' := by
  induction h with
  | digit hc => exact List.forall_mem_singleton.2 (Or.inl hc)
  | cons hc _ ih => exact List.forall_mem_cons.2 ⟨Or.inl hc, ih⟩
  | underscore hc _ ih =>
    exact List.forall_mem_cons.2 ⟨Or.inl hc, List.forall_mem_cons.2 ⟨Or.inr rfl, ih⟩⟩

/-- A run has a value, whatever digits have been read before it. -/
theorem exists_go (h : IsRun run) (value : Nat) (afterDigit : Bool) :
    ∃ n, digitsValue?.go value afterDigit run = some n := by
  have hgo : ∀ (c : Char) (rest : List Char), isDecimal c = true → ∀ value afterDigit, ∃ d,
      digitsValue?.go value afterDigit (c :: rest) =
        digitsValue?.go (value * 10 + d) true rest := fun c rest hc value afterDigit => by
    obtain ⟨d, hd⟩ := exists_digit?_of_isDecimal hc
    refine ⟨d, ?_⟩
    rw [digitsValue?.go.eq_3 _ _ _ _ (ne_underscore hc), hd]
  induction h generalizing value afterDigit with
  | @digit c hc =>
    obtain ⟨d, hd⟩ := hgo c [] hc value afterDigit
    exact ⟨_, hd⟩
  | @cons c run hc _ ih =>
    obtain ⟨d, hd⟩ := hgo c run hc value afterDigit
    rw [hd]
    exact ih _ true
  | @underscore c run hc _ ih =>
    obtain ⟨d, hd⟩ := hgo c ('_' :: run) hc value afterDigit
    rw [hd, digitsValue?.go.eq_2, if_pos rfl]
    exact ih _ false

theorem exists_digitsValue? (h : IsRun run) : ∃ n, digitsValue? run = some n := h.exists_go 0 false

theorem exists_cons (h : IsRun run) : ∃ c rest, run = c :: rest ∧ isDecimal c = true := by
  cases h with
  | digit hc | cons hc | underscore hc => exact ⟨_, _, rfl, hc⟩

/-- A run begins with a digit, so there are some to count. -/
theorem exists_digitsAndCount? (h : IsRun run) :
    ∃ n count, digitsAndCount? run = some (n, count) ∧ count ≠ 0 := by
  obtain ⟨n, hn⟩ := h.exists_digitsValue?
  obtain ⟨c, rest, rfl, hc⟩ := h.exists_cons
  refine ⟨n, _, by rw [digitsAndCount?, hn]; rfl, ?_⟩
  have hne : (c != '_') = true := bne_iff_ne.2 (ne_underscore hc)
  rw [List.filter_cons_of_pos (p := fun x => x != '_') hne]
  exact Nat.succ_ne_zero _

/-- What begins with digits has no sign. -/
theorem splitSign_append (h : IsRun run) (behind : List Char) :
    splitSign (run ++ behind) = (false, run ++ behind) := by
  obtain ⟨c, rest, rfl, hc⟩ := h.exists_cons
  rw [isDecimal_iff] at hc
  have hne : ∀ d : Char, d.toNat < 48 → ∀ tail, c :: (rest ++ behind) = d :: tail → False := by
    rintro d hd tail heq
    obtain rfl := (List.cons.inj heq).1
    omega
  exact splitSign.eq_3 _ (hne '-' (by decide)) (hne '+' (by decide))

end IsRun

/-! ### Parts of a number -/

/-- A sign, or none. -/
def IsSign (cs : List Char) : Prop := cs = [] ∨ cs = ['+'] ∨ cs = ['-']

/-- A point and digits, or nothing. -/
def IsFraction (cs : List Char) : Prop := cs = [] ∨ ∃ run, IsRun run ∧ cs = '.' :: run

/-- The letter of an exponent with a sign and digits, or nothing. -/
def IsExponent (cs : List Char) : Prop :=
  cs = [] ∨ ∃ e sign run, (e = 'e' ∨ e = 'E') ∧ IsSign sign ∧ IsRun run ∧ cs = e :: sign ++ run

theorem isRun_of_wholePart {cs whole rest : List Char} (h : wholePart cs = some (whole, rest)) :
    IsRun whole := by
  rw [wholePart.eq_def] at h
  split at h
  · obtain ⟨rfl, -⟩ := Prod.mk.inj (Option.some.inj h)
    exact .digit rfl
  · exact isRun_of_digits1 h

theorem isFraction_fractionPart (cs : List Char) : IsFraction (fractionPart cs).1 := by
  rw [fractionPart.eq_def]
  split
  · split
    · rename_i hrun
      exact .inr ⟨_, isRun_of_digits1 hrun, rfl⟩
    · exact .inl rfl
  · exact .inl rfl

theorem isExponent_exponentPart (cs : List Char) : IsExponent (exponentPart cs).1 := by
  rw [exponentPart.eq_def]
  split
  · split
    · rename_i e rest he
      split
      rename_i sign rest hsign
      split
      · rename_i hrun
        refine .inr ⟨e, sign, _, he, ?_, isRun_of_digits1 hrun, rfl⟩
        split at hsign <;> obtain ⟨rfl, -⟩ := Prod.mk.inj hsign
        exacts [.inr (.inl rfl), .inr (.inr rfl), .inl rfl]
      · exact .inl rfl
    · exact .inl rfl
  · exact .inl rfl

/-- The parts of a number in a text. -/
structure Parts where
  sign : List Char
  whole : List Char
  fraction : List Char
  exponent : List Char

namespace Parts

/-- What may stand in the parts of a number. -/
structure Valid (p : Parts) : Prop where
  sign : IsSign p.sign
  whole : IsRun p.whole
  fraction : IsFraction p.fraction
  exponent : IsExponent p.exponent

/-- The characters of a number. -/
def text (p : Parts) : List Char := p.sign ++ p.whole ++ p.fraction ++ p.exponent

/-- Whether a number has neither a fraction nor an exponent. -/
def isInteger (p : Parts) : Bool := p.fraction.isEmpty && p.exponent.isEmpty

end Parts

theorem decimalText_eq_some {cs rest : List Char} {text : String} {isInteger : Bool}
    (h : decimalText cs = some ((text, isInteger), rest)) :
    ∃ p : Parts, p.Valid ∧ text = String.ofList p.text ∧ isInteger = p.isInteger := by
  unfold decimalText at h
  split at h
  rename_i sign signed hsign
  obtain ⟨⟨whole, behind⟩, hwhole, h⟩ := Option.bind_eq_some_iff.1 h
  obtain ⟨heq, -⟩ := Prod.mk.inj (Option.some.inj h)
  obtain ⟨rfl, rfl⟩ := Prod.mk.inj heq
  refine ⟨⟨sign, whole, _, _⟩, ⟨?_, isRun_of_wholePart hwhole, isFraction_fractionPart _,
    isExponent_exponentPart _⟩, rfl, rfl⟩
  split at hsign <;> obtain ⟨rfl, -⟩ := Prod.mk.inj hsign
  exacts [.inr (.inl rfl), .inr (.inr rfl), .inl rfl]

/-! ### Values -/

/-- Visible characters: no white space is among them. -/
def IsVisible (c : Char) : Prop := 33 ≤ c.toNat ∧ c.toNat ≤ 126

instance (c : Char) : Decidable (IsVisible c) := inferInstanceAs (Decidable (_ ∧ _))

theorem isVisible_of_isDecimal {c : Char} (h : isDecimal c = true) : IsVisible c := by
  have hrange := isDecimal_iff.1 h
  exact ⟨by omega, by omega⟩

theorem isMargin_eq_false {c : Char} (h : IsVisible c) : isMargin c = false := by
  obtain ⟨hlow, hhigh⟩ := h
  have hblank : isBlank c = false := by
    rw [Bool.eq_false_iff]
    intro hblank
    simp only [isBlank, Bool.or_eq_true, Bool.and_eq_true, decide_eq_true_eq, beq_iff_eq] at hblank
    omega
  rw [isMargin, hblank, Bool.false_and]

theorem trimmed_ofList {cs : List Char} (h : ∀ c ∈ cs, IsVisible c) :
    trimmed (String.ofList cs) = cs := by
  have hkept : ∀ s : List Char, (∀ c ∈ s, IsVisible c) → s.dropWhile isMargin = s := by
    rintro (_ | ⟨c, s⟩) hs
    · rfl
    · exact List.dropWhile_cons_of_neg
        (Bool.eq_false_iff.1 (isMargin_eq_false (hs c List.mem_cons_self)))
  rw [trimmed, String.toList_ofList, hkept cs h, hkept _ fun c hc => h c (List.mem_reverse.1 hc),
    List.reverse_reverse]

theorem IsRun.forall_isVisible {run : List Char} (h : IsRun run) : ∀ c ∈ run, IsVisible c := by
  intro c hc
  rcases h.forall_mem c hc with hc | rfl
  · exact isVisible_of_isDecimal hc
  · decide

theorem IsSign.forall_isVisible {sign : List Char} (h : IsSign sign) : ∀ c ∈ sign, IsVisible c := by
  rcases h with rfl | rfl | rfl
  · exact List.forall_mem_nil _
  · exact List.forall_mem_singleton.2 (by decide)
  · exact List.forall_mem_singleton.2 (by decide)

namespace Parts

variable {p : Parts}

theorem Valid.forall_isVisible (h : p.Valid) : ∀ c ∈ p.text, IsVisible c := by
  have hfraction : ∀ c ∈ p.fraction, IsVisible c := by
    rcases h.fraction with hnil | ⟨run, hrun, heq⟩
    · exact hnil ▸ List.forall_mem_nil _
    · exact heq ▸ List.forall_mem_cons.2 ⟨by decide, hrun.forall_isVisible⟩
  have hexponent : ∀ c ∈ p.exponent, IsVisible c := by
    rcases h.exponent with hnil | ⟨e, sign, run, he, hsign, hrun, heq⟩
    · exact hnil ▸ List.forall_mem_nil _
    · have hletter : IsVisible e := by rcases he with rfl | rfl <;> decide
      exact heq ▸ List.forall_mem_append.2
        ⟨List.forall_mem_cons.2 ⟨hletter, hsign.forall_isVisible⟩, hrun.forall_isVisible⟩
  exact List.forall_mem_append.2 ⟨List.forall_mem_append.2 ⟨List.forall_mem_append.2
    ⟨h.sign.forall_isVisible, h.whole.forall_isVisible⟩, hfraction⟩, hexponent⟩

/-- What stands behind the sign. -/
def body (p : Parts) : List Char := p.whole ++ p.fraction ++ p.exponent

end Parts

/-- A sign is split from what begins with digits. -/
theorem IsSign.exists_splitSign {sign run : List Char} (h : IsSign sign) (hrun : IsRun run)
    (behind : List Char) :
    ∃ negative, splitSign (sign ++ (run ++ behind)) = (negative, run ++ behind) := by
  rcases h with rfl | rfl | rfl
  exacts [⟨false, hrun.splitSign_append behind⟩, ⟨false, rfl⟩, ⟨true, rfl⟩]

theorem IsFraction.exists_mantissa? {whole fraction : List Char} (hwhole : IsRun whole)
    (h : IsFraction fraction) : ∃ m, mantissa? (whole ++ fraction) = some m := by
  have hpart : ∀ {run}, IsRun run → ∃ n count, partDigits? run = some (n, count) ∧ count ≠ 0 :=
    fun {run} hrun => by
      rw [partDigits?, List.isEmpty_eq_false_iff.2 hrun.ne_nil, if_neg nofun]
      exact hrun.exists_digitsAndCount?
  obtain ⟨n, count, hn, hcount⟩ := hpart hwhole
  have hpoint : ∀ c ∈ whole, (c != '.') = true := fun c hc => bne_iff_ne.2 <| by
    rintro rfl
    exact (hwhole.forall_mem _ hc).elim nofun nofun
  obtain ⟨htake, m, places, hm⟩ : (whole ++ fraction).takeWhile (· != '.') = whole ∧
      ∃ m places, partDigits? ((whole ++ fraction).drop (whole.length + 1)) = some (m, places) := by
    rw [List.takeWhile_append_of_pos hpoint, List.drop_length_add_append]
    rcases h with rfl | ⟨run, hrun, rfl⟩
    · exact ⟨List.append_nil _, 0, 0, rfl⟩
    · obtain ⟨m, places, hm, -⟩ := hpart hrun
      exact ⟨List.append_nil _, m, places, hm⟩
  have hsome : ¬count + places = 0 := by omega
  unfold mantissa?
  simp only [htake, hn, hm, Option.bind_eq_bind, Option.bind_some, if_neg hsome]
  exact ⟨_, rfl⟩

theorem exists_exponent? {sign run : List Char} (hsign : IsSign sign)
    (hrun : IsRun run) : ∃ n, exponent? (sign ++ run) = some n := by
  obtain ⟨negative, hsplit⟩ := hsign.exists_splitSign hrun []
  obtain ⟨n, hn⟩ := hrun.exists_digitsValue?
  rw [List.append_nil] at hsplit
  unfold exponent?
  rw [hsplit]
  simp only [hn, Option.bind_eq_bind, Option.bind_some]
  exact ⟨_, rfl⟩

namespace Parts

variable {p : Parts}

theorem Valid.exists_unsigned? (h : p.Valid) : ∃ x, unsigned? p.body = some x := by
  obtain ⟨⟨digits, places⟩, hm⟩ := h.fraction.exists_mantissa? h.whole
  have hrun : ∀ {run}, IsRun run → ∀ c ∈ run, (c != 'e' && c != 'E') = true :=
    fun {run} hrun c hc => by
      rw [Bool.and_eq_true, bne_iff_ne, bne_iff_ne]
      constructor <;> rintro rfl <;> exact (hrun.forall_mem _ hc).elim nofun nofun
  have hletter : ∀ c ∈ p.whole ++ p.fraction, (c != 'e' && c != 'E') = true := by
    refine List.forall_mem_append.2 ⟨hrun h.whole, ?_⟩
    rcases h.fraction with hnil | ⟨run, hfraction, heq⟩
    · exact hnil ▸ List.forall_mem_nil _
    · exact heq ▸ List.forall_mem_cons.2 ⟨rfl, hrun hfraction⟩
  obtain ⟨htake, hexponent⟩ :
      p.body.takeWhile (fun c => c != 'e' && c != 'E') = p.whole ++ p.fraction ∧
      ((p.whole ++ p.fraction).length ≠ p.body.length →
        ∃ n, exponent? (p.body.drop ((p.whole ++ p.fraction).length + 1)) = some n) := by
    rw [body, List.takeWhile_append_of_pos hletter, List.drop_length_add_append]
    rcases h.exponent with hnil | ⟨e, sign, run, he, hsign, hexponent, heq⟩
    · rw [hnil, List.append_nil]
      exact ⟨List.append_nil _, fun hne => absurd rfl hne⟩
    · have hstop : ¬(e != 'e' && e != 'E') = true := by rcases he with rfl | rfl <;> decide
      rw [heq, List.cons_append,
        List.takeWhile_cons_of_neg (p := fun c => c != 'e' && c != 'E') hstop]
      exact ⟨List.append_nil _, fun _ => exists_exponent? hsign hexponent⟩
  unfold unsigned?
  simp only [htake, hm, Option.bind_eq_bind, Option.bind_some]
  split_ifs with _ _ hlength
  · exact ⟨_, rfl⟩
  · exact ⟨_, rfl⟩
  · exact ⟨_, rfl⟩
  · obtain ⟨n, hn⟩ := hexponent hlength
    rw [hn]
    exact ⟨_, rfl⟩

/-- The text of a number is read as a real number. -/
theorem Valid.exists_real (h : p.Valid) : ∃ x, real (String.ofList p.text) = .ok x := by
  obtain ⟨negative, hsplit⟩ := h.sign.exists_splitSign h.whole (p.fraction ++ p.exponent)
  obtain ⟨x, hx⟩ := h.exists_unsigned?
  have htrimmed : trimmed (String.ofList p.text) =
      p.sign ++ (p.whole ++ (p.fraction ++ p.exponent)) := by
    rw [trimmed_ofList h.forall_isVisible]
    simp only [text, List.append_assoc]
  have hreal : real? (String.ofList p.text) = some (if negative then -x else x) := by
    rw [body, List.append_assoc] at hx
    unfold real?
    rw [htrimmed, hsplit]
    simp only [hx, Option.bind_eq_bind, Option.bind_some]
    rfl
  exact ⟨_, by rw [real, hreal]⟩

/-- Without fraction and exponent it is read as an integer, unless it has too many digits. -/
theorem Valid.integer (h : p.Valid) (hinteger : p.isInteger = true) :
    (∃ n, integer (String.ofList p.text) = .ok n) ∨
      ∃ count, digitLimit < count ∧
        integer (String.ofList p.text) = .error (.tooManyDigits count) := by
  obtain ⟨hfraction, hexponent⟩ := Bool.and_eq_true_iff.1 hinteger
  obtain ⟨negative, hsplit⟩ := h.sign.exists_splitSign h.whole []
  obtain ⟨n, hn⟩ := h.whole.exists_digitsValue?
  have htrimmed : trimmed (String.ofList p.text) = p.sign ++ (p.whole ++ []) := by
    rw [trimmed_ofList h.forall_isVisible, text, List.isEmpty_iff.1 hfraction,
      List.isEmpty_iff.1 hexponent, List.append_nil, List.append_nil, List.append_nil]
  unfold Text.integer
  simp only [htrimmed, hsplit]
  rw [List.append_nil, hn]
  by_cases hlimit : digitLimit < (leadingDigits? p.whole).getD 0
  · exact .inr ⟨_, hlimit, if_pos hlimit⟩
  · exact .inl ⟨_, if_neg hlimit⟩

end Parts

/-- What is taken for a number has a value, unless it is an integer with too many digits. -/
theorem decimalValue_of_decimalText {cs rest : List Char} {text : String} {isInteger : Bool}
    (h : decimalText cs = some ((text, isInteger), rest)) :
    (∃ v, decimalValue text isInteger = .ok v) ∨
      ∃ count, digitLimit < count ∧
        decimalValue text isInteger = .error (.tooManyDigits count) := by
  obtain ⟨p, hp, rfl, rfl⟩ := decimalText_eq_some h
  unfold decimalValue
  split_ifs with hinteger
  · rcases hp.integer hinteger with ⟨n, hn⟩ | ⟨count, hcount, hn⟩ <;> rw [hn]
    exacts [.inl ⟨_, rfl⟩, .inr ⟨count, hcount, rfl⟩]
  · obtain ⟨x, hx⟩ := hp.exists_real
    exact .inl ⟨.float x, by rw [hx]; rfl⟩

end Dichromat.Toml
