import Dichromat.Proofs.Text
import Dichromat.Theme.Hex
import Mathlib.Tactic.SplitIfs

/-!
# Reading colour codes

A code is read between white space, but a number sign only counts in front of its first character.
So a code that begins with white space cannot be read any more once a number sign has been put in
front of it, and every other one without a sign is read as before (`decode?_sign`).
-/

namespace Dichromat

namespace Hex

open Text

/-- Whether a code begins with white space. -/
def isIndented (code : String) : Bool := code.toList.head?.any isBlank

/-- The channels of digits without a number sign or white space. -/
def read? (digits : List Char) : Option (Triple Nat) := (digits.mapM digit?).bind channels?

theorem decode_eq_ok_iff {code : String} {rgb : Triple Nat} :
    decode code = .ok rgb ↔ decode? code = some rgb := by
  unfold decode
  cases decode? code <;> simp

theorem decode_eq_error_iff {code : String} :
    decode code = .error (.invalidHex code) ↔ decode? code = none := by
  unfold decode
  cases decode? code <;> simp

theorem toNat_of_digit? {c : Char} {n : Nat} (h : digit? c = some n) :
    (48 ≤ c.toNat ∧ c.toNat ≤ 57) ∨ (97 ≤ c.toNat ∧ c.toNat ≤ 102) ∨
      (65 ≤ c.toNat ∧ c.toNat ≤ 70) := by
  unfold digit? at h
  split_ifs at h with hdecimal hlower hupper
  · exact Or.inl hdecimal
  · exact Or.inr (Or.inl hlower)
  · exact Or.inr (Or.inr hupper)

theorem isBlank_of_digit? {c : Char} {n : Nat} (h : digit? c = some n) : isBlank c = false := by
  have hrange := toNat_of_digit? h
  simp only [isBlank, Bool.or_eq_false_iff, Bool.and_eq_false_iff, beq_eq_false_iff_ne,
    decide_eq_false_iff_not]
  omega

theorem read?_indented {c : Char} (h : isBlank c = true) (s : List Char) :
    read? ((c :: s).rdropWhile isBlank) = none := by
  have hdigit : digit? c = none := by
    cases hc : digit? c with
    | none => rfl
    | some n => simp [isBlank_of_digit? hc] at h
  rcases hdrop : (c :: s).rdropWhile isBlank with _ | ⟨c', rest⟩
  · rfl
  · obtain ⟨rfl, -⟩ := List.cons_prefix_cons.1 (hdrop ▸ List.rdropWhile_prefix isBlank (c :: s))
    rw [read?, List.mapM_cons, hdigit]
    rfl

/-- Characters that neither begin with white space nor with a number sign. -/
theorem dropSign_strip {s : List Char} (hblank : s.head?.any isBlank = false)
    (hsign : ¬ ['#'] <+: s) : dropSign (strip s) = s.rdropWhile isBlank := by
  rcases s with _ | ⟨c, s⟩
  · rfl
  · have hc : isBlank c = false := hblank
    have hne : c ≠ '#' := by
      rintro rfl
      exact hsign (List.cons_prefix_cons.2 ⟨rfl, List.nil_prefix⟩)
    rw [strip_cons hc, rdropWhile_cons hc, dropSign]
    intro rest heq
    exact hne (List.cons.inj heq).1

/-- With a number sign in front, a code without one is read as before, unless it is indented: then
the sign stands in front of white space, and nothing is read. -/
theorem decode?_sign {code : String} (hsign : ¬ code.startsWith "#") :
    decode? ("#" ++ code) = if isIndented code then none else decode? code := by
  have hread : decode? ("#" ++ code) = read? (code.toList.rdropWhile isBlank) := by
    rw [decode?, String.toList_append]
    show read? (dropSign (strip ('#' :: code.toList))) = _
    rw [strip_cons (by decide)]
    rfl
  rw [String.startsWith_string_iff] at hsign
  rw [hread, isIndented]
  cases hblank : code.toList.head?.any isBlank with
  | true =>
    obtain ⟨c, s, hcode⟩ : ∃ c s, code.toList = c :: s :=
      List.ne_nil_iff_exists_cons.1 fun hnil => by simp [hnil] at hblank
    rw [hcode] at hblank ⊢
    exact read?_indented hblank s
  | false =>
    show _ = read? (dropSign (strip code.toList))
    rw [dropSign_strip hblank hsign]

/-- A code with a number sign has it in front of all white space. -/
theorem isIndented_of_sign {code : String} (hsign : code.startsWith "#") :
    isIndented code = false := by
  rw [String.startsWith_string_iff] at hsign
  obtain ⟨s, hcode⟩ := hsign
  rw [isIndented, ← hcode]
  rfl

end Hex

end Dichromat
