import Dichromat.Proofs.Outcome
import Dichromat.Proofs.Toml.Number
import Dichromat.Toml.Document

/-!
# Faults of a document

A document that cannot be read is malformed, or is too much to read: its values are nested too
deeply, or an integer has too many digits (`fault_of_document`).
-/

namespace Dichromat.Toml

/-- What is well formed so far and too much to read. -/
inductive IsExcess : Fault → Prop
  | nesting : IsExcess .nestedTooDeeply
  | digits {count : Nat} (h : Text.digitLimit < count) : IsExcess (.tooManyDigits count)

/-- The only faults are those of text that is malformed or too much to read. -/
def FaultsOfText {β : Type} (x : Except Fault β) : Prop :=
  ∀ e, x = .error e → e = .malformed ∨ IsExcess e

/-! ### Rules -/

section Rules

variable {β γ : Type}

theorem faultsOfText_ok (a : β) : FaultsOfText (.ok a) := nofun

theorem faultsOfText_malformed : FaultsOfText (.error .malformed : Except Fault β) :=
  fun _ h => .inl (Except.error.inj h).symm

theorem FaultsOfText.bind {x : Except Fault β} {f : β → Except Fault γ} (hx : FaultsOfText x)
    (hf : ∀ a, FaultsOfText (f a)) : FaultsOfText (x >>= f) := by
  rcases x with e | a
  · exact fun e' h => hx e' (congrArg _ (Except.error.inj h))
  · exact hf a

theorem FaultsOfText.map {x : Except Fault β} (hx : FaultsOfText x) (f : β → γ) :
    FaultsOfText (x.map f) := by
  rcases x with e | a
  · exact fun e' h => hx e' (congrArg _ (Except.error.inj h))
  · exact faultsOfText_ok _

theorem faultsOfText_required (x : Option β) : FaultsOfText (required x) := by
  rcases x with _ | a
  exacts [faultsOfText_malformed, faultsOfText_ok a]

theorem faultsOfText_reserve (levels needed : Nat) : FaultsOfText (reserve levels needed) := by
  unfold reserve
  split_ifs
  · exact fun e h => .inr (Except.error.inj h ▸ .nesting)
  · exact faultsOfText_ok _

end Rules

/-! ### Values -/

theorem faultsOfText_number (cs : List Char) : FaultsOfText (number cs) := by
  unfold number
  split
  · exact faultsOfText_ok _
  · split
    · rename_i htext
      refine FaultsOfText.map (fun e he => ?_) _
      rcases decimalValue_of_decimalText htext with ⟨v, hv⟩ | ⟨count, hcount, hv⟩
      · exact absurd (hv.symm.trans he) nofun
      · exact .inr (Except.error.inj (hv.symm.trans he) ▸ .digits hcount)
    · exact faultsOfText_required _

theorem faultsOfText_scalar (cs : List Char) : FaultsOfText (scalar cs) := by
  unfold scalar
  split
  · exact faultsOfText_ok _
  · exact faultsOfText_ok _
  · split
    · exact faultsOfText_malformed
    · split <;> exact faultsOfText_ok _
    · split
      · exact faultsOfText_ok _
      · exact faultsOfText_number cs

theorem faultsOfText_skipGap (levels : Nat) (cs : List Char) : FaultsOfText (skipGap levels cs) :=
  (faultsOfText_reserve _ _).bind fun _ => faultsOfText_required _

/-- The faults of all that is read with so much fuel. -/
structure FaultsWithin (fuel : Nat) : Prop where
  value : ∀ levels cs, FaultsOfText (value fuel levels cs)
  arrayItems : ∀ levels cs, FaultsOfText (arrayItems fuel levels cs)
  inlineEntries : ∀ levels t cs, FaultsOfText (inlineEntries fuel levels t cs)

theorem FaultsWithin.value_succ {fuel : Nat} (h : FaultsWithin fuel) (levels : Nat)
    (cs : List Char) : FaultsOfText (Toml.value (fuel + 1) levels cs) := by
  unfold Toml.value
  refine (faultsOfText_reserve _ _).bind fun _ => ?_
  split
  · exact faultsOfText_required _
  · exact faultsOfText_required _
  · refine (faultsOfText_skipGap _ _).bind fun rest => ?_
    split
    · exact faultsOfText_ok _
    · exact (h.arrayItems _ _).bind fun _ => faultsOfText_ok _
  · split
    · exact faultsOfText_ok _
    · exact (h.inlineEntries _ _ _).bind fun _ => faultsOfText_ok _
  · exact faultsOfText_scalar _

theorem FaultsWithin.arrayItems_succ {fuel : Nat} (h : FaultsWithin fuel) (levels : Nat)
    (cs : List Char) : FaultsOfText (Toml.arrayItems (fuel + 1) levels cs) := by
  unfold Toml.arrayItems
  refine (h.value _ _).bind fun ⟨item, rest⟩ => (faultsOfText_skipGap _ _).bind fun rest => ?_
  split
  · exact faultsOfText_ok _
  · refine (faultsOfText_skipGap _ _).bind fun rest => ?_
    split
    · exact faultsOfText_ok _
    · exact (h.arrayItems _ _).bind fun _ => faultsOfText_ok _
  · exact (faultsOfText_reserve _ _).bind fun _ => faultsOfText_malformed

theorem FaultsWithin.inlineEntries_succ {fuel : Nat} (h : FaultsWithin fuel) (levels : Nat)
    (t : Inline) (cs : List Char) : FaultsOfText (Toml.inlineEntries (fuel + 1) levels t cs) := by
  unfold Toml.inlineEntries
  refine (faultsOfText_reserve _ _).bind fun _ => (faultsOfText_required _).bind fun ⟨k, rest⟩ => ?_
  dsimp only
  split
  · refine (h.value _ _).bind fun ⟨v, rest⟩ => (faultsOfText_required _).bind fun t => ?_
    split
    · exact faultsOfText_ok _
    · exact h.inlineEntries _ _ _
    · exact faultsOfText_malformed
  · exact faultsOfText_malformed

theorem faultsWithin (fuel : Nat) : FaultsWithin fuel := by
  induction fuel with
  | zero =>
    refine ⟨fun _ _ => ?_, fun _ _ => ?_, fun _ _ _ => ?_⟩
    · unfold value
      exact faultsOfText_malformed
    · unfold arrayItems
      exact faultsOfText_malformed
    · unfold inlineEntries
      exact faultsOfText_malformed
  | succ fuel ih => exact ⟨ih.value_succ, ih.arrayItems_succ, ih.inlineEntries_succ⟩

/-! ### Statements -/

theorem faultsOfText_statement (levels : Nat) (l : Ledger) (cs : List Char) :
    FaultsOfText (statement levels l cs) := by
  unfold statement
  split
  · refine (faultsOfText_required _).bind fun ⟨k, rest⟩ =>
      (faultsOfText_required _).bind fun l => ?_
    split
    · exact faultsOfText_ok _
    · exact faultsOfText_malformed
  · refine (faultsOfText_required _).bind fun ⟨k, rest⟩ =>
      (faultsOfText_required _).bind fun l => ?_
    split
    · exact faultsOfText_ok _
    · exact faultsOfText_malformed
  · refine (faultsOfText_required _).bind fun ⟨k, rest⟩ => ?_
    dsimp only
    split
    · exact ((faultsWithin _).value _ _).bind fun ⟨v, rest⟩ =>
        (faultsOfText_required _).bind fun l => faultsOfText_ok _
    · exact faultsOfText_malformed

theorem faultsOfText_statements (levels fuel : Nat) (l : Ledger) (cs : List Char) :
    FaultsOfText (statements levels fuel l cs) := by
  induction fuel generalizing l cs with
  | zero => exact faultsOfText_malformed
  | succ fuel ih =>
    unfold statements
    split
    · exact faultsOfText_ok _
    · exact ih _ _
    · dsimp only
      split_ifs
      · refine (faultsOfText_required _).bind fun rest => ?_
        split
        exacts [faultsOfText_ok _, ih _ _, faultsOfText_malformed]
      · refine (faultsOfText_statement _ _ _).bind fun ⟨l, rest⟩ =>
          (faultsOfText_required _).bind fun rest => ?_
        split
        exacts [faultsOfText_ok _, ih _ _, faultsOfText_malformed]

theorem fault_of_document {levels : Nat} {text : String} {e : Fault}
    (h : document levels text = .error e) : e = .malformed ∨ IsExcess e :=
  (faultsOfText_statements _ _ _ _).map _ e h

end Dichromat.Toml
