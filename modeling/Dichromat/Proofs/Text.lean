import Mathlib.Data.List.Basic
import Mathlib.Data.List.DropRight
import Dichromat.Proofs.Outcome
import Dichromat.Text.Character

/-!
# Texts

A text has some lines if its line breaks divide it into them, each of which ends with one
(`HasLines`); no text has other lines than its own (`HasLines.eq`). What the last of some characters
divides a text into is behind and before it (`append_cons_inj`, `rtakeWhile_cases`), and what white
space is taken off stands between it (`exists_strip`, `strip_append`).
-/

namespace Dichromat.Text

/-! ### Lines -/

/-- A text that its line breaks divide into these lines, each of which ends with one. -/
def HasLines (text : String) (lines : List String) : Prop :=
  text.toList.splitOn '\n' = (lines ++ [""]).map String.toList

theorem HasLines.eq {text : String} {lines lines' : List String} (h : HasLines text lines)
    (h' : HasLines text lines') : lines = lines' :=
  List.append_cancel_right
    (List.map_injective_iff.2 (fun _ _ => String.toList_injective) (h.symm.trans h'))

theorem hasLines_intercalate {lines : List String} (h : ∀ line ∈ lines, '\n' ∉ line.toList) :
    HasLines (String.intercalate "\n" (lines ++ [""])) lines := by
  rw [HasLines, String.toList_intercalate]
  refine List.splitOn_intercalate '\n' (fun chars hchars => ?_) (by simp)
  obtain ⟨line, hline, rfl⟩ := List.mem_map.1 hchars
  rcases List.mem_append.1 hline with hline | hline
  · exact h line hline
  · rw [List.mem_singleton.1 hline]
    exact List.not_mem_nil

theorem join_lines (lines : List String) :
    String.join (lines.map (· ++ "\n")) = String.intercalate "\n" (lines ++ [""]) := by
  induction lines with
  | nil => rfl
  | cons line lines ih =>
    rw [List.map_cons, String.join_cons, ih, List.cons_append,
      String.intercalate_cons_of_ne_nil (by simp)]

theorem hasLines_join {lines : List String} (h : ∀ line ∈ lines, '\n' ∉ line.toList) :
    HasLines (String.join (lines.map (· ++ "\n"))) lines := by
  rw [join_lines]
  exact hasLines_intercalate h

/-! ### The last of some characters -/

/-- The last of some separators divides a list in one way only. -/
theorem append_cons_inj {γ : Type} {c : γ} {before before' after after' : List γ}
    (h : c ∉ after) (h' : c ∉ after') :
    before ++ c :: after = before' ++ c :: after' ↔ before = before' ∧ after = after' := by
  refine ⟨fun heq => ?_, fun ⟨hbefore, hafter⟩ => by rw [hbefore, hafter]⟩
  -- what lies between the two separators is nothing, or the one in front would not be the last
  have hnil {between rest rest' : List γ} (hc : c ∉ rest)
      (hrest : c :: rest = between ++ c :: rest') : between = [] := by
    rcases between with _ | ⟨d, between⟩
    · rfl
    · refine absurd ?_ hc
      rw [(List.cons.inj hrest).2]
      exact List.mem_append_right _ List.mem_cons_self
  rcases List.append_eq_append_iff.1 heq with ⟨between, rfl, hrest⟩ | ⟨between, rfl, hrest⟩
  · obtain rfl := hnil h hrest
    exact ⟨(List.append_nil _).symm, (List.cons.inj hrest).2⟩
  · obtain rfl := hnil h' hrest
    exact ⟨List.append_nil _, (List.cons.inj hrest).2.symm⟩

/-- What stands behind the last of some characters is all, or the character stands before it. -/
theorem rtakeWhile_cases (c : Char) (s : List Char) :
    (c ∉ s ∧ s.rtakeWhile (· ≠ c) = s) ∨ ∃ before, s = before ++ c :: s.rtakeWhile (· ≠ c) := by
  have hsplit : s.rdropWhile (· ≠ c) ++ s.rtakeWhile (· ≠ c) = s :=
    List.rdropWhile_append_rtakeWhile
  by_cases hall : s.rdropWhile (· ≠ c) = []
  · rw [hall, List.nil_append] at hsplit
    refine Or.inl ⟨fun hmem => ?_, hsplit⟩
    simpa using List.rdropWhile_eq_nil_iff.1 hall c hmem
  · have hlast : (s.rdropWhile (· ≠ c)).getLast hall = c := by
      simpa using List.rdropWhile_last_not (· ≠ c) s hall
    refine Or.inr ⟨(s.rdropWhile (· ≠ c)).dropLast, hsplit.symm.trans ?_⟩
    conv_lhs => rw [← List.dropLast_append_getLast hall, hlast]
    rw [List.append_assoc, List.singleton_append]

/-! ### White space -/

theorem rdropWhile_cons {p : Char → Bool} {c : Char} (h : p c = false) (s : List Char) :
    (c :: s).rdropWhile p = c :: s.rdropWhile p := by
  rw [List.rdropWhile, List.reverse_cons, List.dropWhile_append, List.rdropWhile]
  cases hs : s.reverse.dropWhile p <;> simp [h]

/-- Text that does not begin with white space only loses what is at its end. -/
theorem strip_cons {c : Char} (h : isBlank c = false) (s : List Char) :
    strip (c :: s) = c :: s.rdropWhile isBlank := by
  rw [← rdropWhile_cons h]
  show ((c :: s).dropWhile isBlank).rdropWhile isBlank = _
  rw [List.dropWhile_cons_of_neg (by rw [h]; exact Bool.false_ne_true)]

theorem exists_strip (s : List Char) : ∃ before after, s = before ++ strip s ++ after ∧
    (∀ c ∈ before, isBlank c = true) ∧ ∀ c ∈ after, isBlank c = true := by
  refine ⟨s.takeWhile isBlank, (s.dropWhile isBlank).rtakeWhile isBlank, ?_,
    fun _ => List.mem_takeWhile_imp, fun _ => List.mem_rtakeWhile_imp⟩
  show s = s.takeWhile isBlank ++ (s.dropWhile isBlank).rdropWhile isBlank ++ _
  rw [List.append_assoc, List.rdropWhile_append_rtakeWhile, List.takeWhile_append_dropWhile]

/-- What stands between white space is left, if it has none itself. -/
theorem strip_append {before core after : List Char} (hbefore : ∀ c ∈ before, isBlank c = true)
    (hafter : ∀ c ∈ after, isBlank c = true) (hcore : ∀ c ∈ core, isBlank c = false) :
    strip (before ++ core ++ after) = core := by
  have hkept : ∀ s : List Char, (∀ c ∈ s, isBlank c = false) → s.dropWhile isBlank = s := by
    rintro (_ | ⟨c, s⟩) hs
    · rfl
    · exact List.dropWhile_cons_of_neg (Bool.eq_false_iff.1 (hs c List.mem_cons_self))
  unfold strip
  rw [List.append_assoc, List.dropWhile_append_of_pos hbefore, List.dropWhile_append,
    hkept core hcore]
  split_ifs with hnil
  · rw [List.isEmpty_iff.1 hnil, List.dropWhile_eq_nil_iff.2 hafter]
    rfl
  · have hblank : ∀ c ∈ after.reverse, isBlank c = true :=
      fun c hc => hafter c (List.mem_reverse.1 hc)
    rw [List.reverse_append, List.dropWhile_append_of_pos hblank,
      hkept _ fun c hc => hcore c (List.mem_reverse.1 hc), List.reverse_reverse]

end Dichromat.Text
