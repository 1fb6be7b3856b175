import Dichromat.CommandLine.Run
import Dichromat.Proofs.Outcome
import Dichromat.Proofs.Theme.Hex

/-!
# Colours of a command line

A word is divided at its last equals sign (`divides_splitName`), and its code is kept with a number
sign in front. The command reads the kept codes again, where it no longer refuses any. This only
goes well as long as no code begins with white space, which was passed over the first time and now
stands behind the number sign: `colors_kept_unless_indented`.
-/

namespace Dichromat.CommandLine

open Hex Text

/-! ### Words -/

/-- How a word at a place is divided into a name and a code: at its last equals sign. Without one it
is all code, and named for its place. -/
def Divides (word : String) (place : ℕ) (name code : String) : Prop :=
  (word = name ++ "=" ++ code ∧ '=' ∉ code.toList) ∨
    ('=' ∉ word.toList ∧ name = s!"color{place}" ∧ code = word)

theorem divides_splitName (word : String) (place : ℕ) :
    Divides word place ((splitName word).getD (s!"color{place}", word)).1
      ((splitName word).getD (s!"color{place}", word)).2 := by
  have hlength : word.length = word.toList.length := String.length_toList.symm
  rcases rtakeWhile_cases '=' word.toList with ⟨hno, hall⟩ | ⟨before, hword⟩
  · have hnone : splitName word = none :=
      if_pos ((congrArg List.length hall).trans hlength.symm)
    rw [hnone]
    exact Or.inr ⟨hno, rfl, rfl⟩
  · generalize hbehind : word.toList.rtakeWhile (· ≠ '=') = behind at hword
    have hcount : word.length = before.length + (behind.length + 1) := by
      rw [hlength, hword, List.length_append, List.length_cons]
    have hbefore : word.toList.take (word.length - behind.length - 1) = before := by
      rw [hcount, Nat.sub_sub, Nat.add_sub_cancel, hword, List.take_left]
    have hne : behind.length ≠ word.length := by omega
    have hsome : splitName word = some (String.ofList before, String.ofList behind) := by
      subst hbehind
      exact (if_neg hne).trans
        (congrArg (fun name => some (String.ofList name, String.ofList _)) hbefore)
    rw [hsome]
    refine Or.inl ⟨String.toList_inj.1 ?_, fun hmem => ?_⟩
    · simp [hword]
    · rw [Option.getD_some, String.toList_ofList, ← hbehind] at hmem
      simpa using List.mem_rtakeWhile_imp hmem

/-! ### Kept codes -/

/-- A code that has been read is read again once it has its sign, unless it is indented. -/
theorem decode_withSign {code : String} {rgb : Triple ℕ} (h : Hex.decode code = .ok rgb) :
    Hex.decode (withSign code) =
      if isIndented code then .error (.invalidHex (withSign code)) else .ok rgb := by
  unfold withSign
  split_ifs with hsign hindented hindented
  · rw [isIndented_of_sign hsign] at hindented
    exact absurd hindented Bool.false_ne_true
  · exact h
  · rw [decode_eq_error_iff, decode?_sign hsign, if_pos hindented]
  · rw [decode_eq_ok_iff, decode?_sign hsign, if_neg hindented]
    exact decode_eq_ok_iff.1 h

/-- What is made of a word: its name, its code and the colour of that, and the code that is kept. -/
structure Reading where
  name : String
  code : String
  color : Triple ℕ
  kept : String

/-- A reading of the word at a place: the kept code gives the same colour, unless it is indented. -/
structure Reading.Reads (r : Reading) (word : String) (place : ℕ) : Prop where
  divides : Divides word place r.name r.code
  accepted : Hex.decode r.code = .ok r.color
  again : isIndented r.code = false → Hex.decode r.kept = .ok r.color
  lost : isIndented r.code = true → Hex.decode r.kept = .error (.invalidHex r.kept)

theorem exists_reads {word : String} {place : ℕ} {entry : String × String}
    (h : parseColor word place = .ok entry) :
    ∃ r : Reading, r.Reads word place ∧ entry = (r.name, r.kept) := by
  have hdivides := divides_splitName word place
  unfold parseColor at h
  generalize (splitName word).getD (s!"color{place}", word) = divided at h hdivides
  obtain ⟨name, code⟩ := divided
  obtain ⟨rgb, hcode, hentry⟩ := bind_eq_ok.1 h
  have hkept := decode_withSign hcode
  refine ⟨⟨name, code, rgb, withSign code⟩, ⟨hdivides, hcode, fun hindented => ?_,
    fun hindented => ?_⟩, (Except.ok.inj hentry).symm⟩
  · exact hkept.trans (if_neg (Bool.eq_false_iff.1 hindented))
  · exact hkept.trans (if_pos hindented)

theorem exists_readings {words : List String} {definitions : List (String × String)}
    (h : parseColors words = .ok definitions) : ∃ readings : List Reading,
      List.Forall₂ (fun (r : Reading) (entry : String × ℕ) => r.Reads entry.1 entry.2) readings
        words.zipIdx ∧
      definitions = readings.map fun r => (r.name, r.kept) := by
  rw [parseColors, mapM_eq_ok_iff] at h
  generalize words.zipIdx = entries at h ⊢
  induction h with
  | nil => exact ⟨[], .nil, rfl⟩
  | cons hentry _ ih =>
    obtain ⟨r, hr, rfl⟩ := exists_reads hentry
    obtain ⟨readings, hreadings, rfl⟩ := ih
    exact ⟨r :: readings, .cons hr hreadings, rfl⟩

/-! ### The command -/

/-- A code that can no longer be read ends the whole command, once the settings have been read. -/
theorem runOn_eq_error {ι α : Type} [ColorArith α] {host : Host ι α} {t : FileTree} {a : Arguments}
    {d : Deficiency} {settings : Settings Value} {definitions : List (String × String)} {e : Fault}
    (hd : Deficiency.ofValue a.mode = .ok d) (hparse : parseColors a.colors = .ok definitions)
    (hsettings : settingsOf host.levels t a = .ok settings)
    (hagain : (definitions.mapM fun entry => Hex.decode entry.2) = .error e) :
    runOn host t a = .error e := by
  unfold runOn
  rw [hd, ok_bind, hparse]
  show (settingsOf host.levels t a >>= fun _ =>
    (definitions.mapM fun entry => Hex.decode entry.2) >>= _) = _
  rw [hsettings, ok_bind, hagain]
  rfl

/-- Words whose colours are accepted have one definition each, in order, of the name and the code
that they are divided into. The codes that are kept are read as the same colours once more if none
of them is indented. Otherwise the first one that is can no longer be read, and as this happens
after the colours have been accepted, the outcome of the whole command is a fault and no refusal,
on whatever it runs. -/
theorem colors_kept_unless_indented {ι α : Type} [ColorArith α] (host : Host ι α)
    {words : List String} {definitions : List (String × String)}
    (h : parseColors words = .ok definitions) :
    ∃ readings : List Reading,
      List.Forall₂ (fun (r : Reading) (entry : String × ℕ) => r.Reads entry.1 entry.2) readings
        words.zipIdx ∧
      definitions = readings.map (fun r => (r.name, r.kept)) ∧
      ((∀ r ∈ readings, isIndented r.code = false) →
        (definitions.mapM fun entry => Hex.decode entry.2) = .ok (readings.map Reading.color)) ∧
      ∀ r, readings.find? (fun r => isIndented r.code) = some r →
        (definitions.mapM fun entry => Hex.decode entry.2) = .error (.invalidHex r.kept) ∧
        ∀ t a d settings, a.colors = words → Deficiency.ofValue a.mode = .ok d →
          settingsOf host.levels t a = .ok settings →
          runOn host t a = .error (.invalidHex r.kept) := by
  obtain ⟨readings, hreads, rfl⟩ := exists_readings h
  have hagain : ∀ r ∈ readings, isIndented r.code = false → Hex.decode r.kept = .ok r.color :=
    fun r hr => (exists_right_of_mem hreads hr).elim fun _ hread => hread.2.again
  have hlost : ∀ r ∈ readings, isIndented r.code = true →
      Hex.decode r.kept = .error (.invalidHex r.kept) :=
    fun r hr => (exists_right_of_mem hreads hr).elim fun _ hread => hread.2.lost
  have hmap : ((readings.map fun r => (r.name, r.kept)).mapM fun entry => Hex.decode entry.2) =
      readings.mapM fun r => Hex.decode r.kept := List.mapM_map
  refine ⟨readings, hreads, rfl, fun hall => ?_, fun r hr => ?_⟩
  · rw [hmap]
    exact mapM_eq_map fun r hr => hagain r hr (hall r hr)
  · have herror := hmap.trans (mapM_eq_error hagain hlost hr)
    refine ⟨herror, fun t a d settings hcolors hd hsettings => ?_⟩
    exact runOn_eq_error hd (hcolors ▸ h) hsettings herror

/-- A named colour, and one behind white space. -/
theorem colors_kept_unless_indented_mixed :
    parseColors ["a=b=#09f", " 000"] = .ok [("a=b", "#09f"), ("color1", "# 000")] ∧
      ∃ r s : Reading, r.Reads "a=b=#09f" 0 ∧ r.name = "a=b" ∧ r.kept = "#09f" ∧
        s.Reads " 000" 1 ∧ s.name = "color1" ∧ s.kept = "# 000" := by
  have hparse :
      parseColors ["a=b=#09f", " 000"] = .ok [("a=b", "#09f"), ("color1", "# 000")] := by
    decide +kernel
  refine ⟨hparse, ?_⟩
  obtain ⟨readings, hreads, hdefinitions, -, -⟩ :=
    colors_kept_unless_indented Host.program hparse
  obtain ⟨r, _, hr, htail, rfl⟩ := List.forall₂_cons_right_iff.1 hreads
  obtain ⟨s, _, hs, hnil, rfl⟩ := List.forall₂_cons_right_iff.1 htail
  obtain rfl := List.forall₂_nil_right_iff.1 hnil
  simp only [List.map_cons, List.map_nil, List.cons.injEq, Prod.mk.injEq] at hdefinitions
  obtain ⟨⟨hname, hkept⟩, ⟨hname', hkept'⟩, -⟩ := hdefinitions
  exact ⟨r, s, hr, hname.symm, hkept.symm, hs, hname'.symm, hkept'.symm⟩

/-- White behind white space is accepted, and with a number sign in front of it faults the command,
although nothing is missing. -/
theorem colors_lost_white :
    parseColors [" #fff"] = .ok [("color0", "# #fff")] ∧
      Hex.decode " #fff" = .ok ⟨255, 255, 255⟩ ∧
      Hex.decode "# #fff" = .error (.invalidHex "# #fff") ∧
      run FileTree.empty
        { Parsing.start.arguments with colors := [" #fff"], mode := .text "none" } =
          .error (.invalidHex "# #fff") := by
  have hparse : parseColors [" #fff"] = .ok [("color0", "# #fff")] := by decide +kernel
  have hagain : Hex.decode "# #fff" = .error (.invalidHex "# #fff") := rfl
  have hmode : Deficiency.ofValue (.text "none") = .ok .none := by decide
  have hsettings : settingsOf Host.program.levels FileTree.empty
      { Parsing.start.arguments with colors := [" #fff"], mode := .text "none" } =
        .ok Settings.standard := rfl
  refine ⟨hparse, rfl, hagain, runOn_eq_error hmode hparse hsettings ?_⟩
  rw [List.mapM_cons, hagain]
  rfl

end Dichromat.CommandLine
