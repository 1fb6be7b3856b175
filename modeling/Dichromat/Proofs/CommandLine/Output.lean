import Mathlib.Data.List.Nodup
import Dichromat.Proofs.CommandLine.Words
import Dichromat.Proofs.Run.Checked
import Dichromat.Proofs.Theme.Stylesheet

/-!
# What the command prints

A command that succeeds has one adjusted colour for each of its words, and prints them in order
(`run_outcome`): as lines, or as the declarations of a stylesheet. A report has them in a table by
name, in which a name that comes again takes the place of the earlier one (`Report.Tabulates`), so
that it holds them all iff no two names are the same (`Report.colorTable_eq_self_iff`).
-/

namespace Dichromat.CommandLine

open Text (HasLines hasLines_join)

/-! ### Tables -/

namespace Report

/-- A table of colours by name: the names in the order in which they come first, each with the
colour that it comes with last. -/
structure Tabulates (named table : List (String × String)) : Prop where
  names : table.map Prod.fst = (named.map Prod.fst).eraseDups
  last : ∀ name color, (name, color) ∈ table → ∃ before after,
    named = before ++ (name, color) :: after ∧ name ∉ after.map Prod.fst

variable {named table : List (String × String)} {name color : String}

theorem eraseDups_concat {names : List String} : (names ++ [name]).eraseDups =
    if name ∈ names then names.eraseDups else names.eraseDups ++ [name] := by
  rw [List.eraseDups_append, List.cons_removeAll, List.nil_removeAll]
  split_ifs with hnot hmem hmem
  · exact absurd (List.elem_iff.2 hmem) (by simpa using hnot)
  · rfl
  · exact List.append_nil _
  · exact absurd hmem (by simpa using hnot)

theorem nodup_eraseDups (names : List String) : names.eraseDups.Nodup := by
  induction names using List.reverseRecOn with
  | nil => exact List.nodup_nil
  | append_singleton names name ih =>
    rw [eraseDups_concat]
    split_ifs with hmem
    · exact ih
    · rw [← List.concat_eq_append]
      exact List.Nodup.concat (fun h => hmem (List.mem_eraseDups.1 h)) ih

theorem setColor_of_mem (h : name ∈ table.map Prod.fst) : setColor table name color =
    table.map fun entry => if entry.1 = name then (name, color) else entry := by
  obtain ⟨entry, hentry, hname⟩ := List.mem_map.1 h
  exact if_pos (List.any_eq_true.2 ⟨entry, hentry, decide_eq_true hname⟩)

theorem setColor_of_not_mem (h : name ∉ table.map Prod.fst) :
    setColor table name color = table ++ [(name, color)] := by
  refine if_neg fun hany => h ?_
  obtain ⟨entry, hentry, hname⟩ := List.any_eq_true.1 hany
  exact List.mem_map.2 ⟨entry, hentry, of_decide_eq_true hname⟩

theorem map_fst_setColor : (setColor table name color).map Prod.fst =
    if name ∈ table.map Prod.fst then table.map Prod.fst else table.map Prod.fst ++ [name] := by
  split_ifs with hmem
  · rw [setColor_of_mem hmem, List.map_map]
    refine List.map_congr_left fun entry _ => ?_
    by_cases hname : entry.1 = name <;> simp [hname]
  · rw [setColor_of_not_mem hmem, List.map_append, List.map_singleton]

/-- What a name is set to is its colour, and the others keep theirs. -/
theorem mem_setColor {other old : String} (h : (other, old) ∈ setColor table name color) :
    (other, old) = (name, color) ∨ other ≠ name ∧ (other, old) ∈ table := by
  by_cases hmem : name ∈ table.map Prod.fst
  · rw [setColor_of_mem hmem] at h
    obtain ⟨entry, hentry, heq⟩ := List.mem_map.1 h
    split_ifs at heq with hname
    · exact .inl heq.symm
    · subst heq
      exact .inr ⟨hname, hentry⟩
  · rw [setColor_of_not_mem hmem, List.mem_append, List.mem_singleton] at h
    refine h.symm.imp_right fun hold => ⟨?_, hold⟩
    rintro rfl
    exact hmem (List.mem_map_of_mem hold)

theorem Tabulates.setColor (h : Tabulates named table) (name color : String) :
    Tabulates (named ++ [(name, color)]) (setColor table name color) := by
  constructor
  · rw [map_fst_setColor, h.names, List.map_append, List.map_singleton, eraseDups_concat]
    simp only [List.mem_eraseDups]
  · intro other old hold
    rcases mem_setColor hold with heq | ⟨hne, hold⟩
    · obtain ⟨rfl, rfl⟩ := Prod.mk.inj heq
      exact ⟨named, [], rfl, List.not_mem_nil⟩
    · obtain ⟨before, after, rfl, hafter⟩ := h.last other old hold
      refine ⟨before, after ++ [(name, color)], List.append_assoc .., ?_⟩
      simpa [hne] using hafter

theorem colorTable_concat (named : List (String × String)) (name color : String) :
    colorTable (named ++ [(name, color)]) = Report.setColor (colorTable named) name color := by
  rw [colorTable, colorTable, List.foldl_append]
  rfl

theorem tabulates_colorTable (named : List (String × String)) :
    Tabulates named (colorTable named) := by
  induction named using List.reverseRecOn with
  | nil => exact ⟨rfl, nofun⟩
  | append_singleton named entry ih =>
    rw [colorTable_concat]
    exact ih.setColor entry.1 entry.2

/-- A table holds every colour iff no two of them have the same name. -/
theorem colorTable_eq_self_iff : colorTable named = named ↔ (named.map Prod.fst).Nodup := by
  constructor
  · intro h
    have hnames := (tabulates_colorTable named).names
    rw [h] at hnames
    exact hnames ▸ nodup_eraseDups _
  · intro h
    induction named using List.reverseRecOn with
    | nil => rfl
    | append_singleton named entry ih =>
      rw [List.map_append, List.map_singleton, ← List.concat_eq_append, List.nodup_concat] at h
      rw [colorTable_concat, ih h.2, setColor_of_not_mem h.1]

end Report

/-! ### Printing -/

/-- How named colours are printed: each in a line or a declaration of its own, in order, or together
in the table of a report, which holds them all iff no two have the same name. -/
inductive Prints (a : Arguments) (d : Deficiency) (named : List (String × String))
    {α : Type} (result : Result α) : Output α → Prop
  | lines {text : String} (hjson : a.json = false) (hcss : a.css = false)
      (hlines : HasLines text (named.map Prod.snd)) : Prints a d named result (.text text)
  | block (hjson : a.json = false) (hcss : a.css = true) {declarations : List String}
      (hdeclarations : declarations = named.map fun entry => Theme.declaration entry.1 entry.2)
      (hlines : (∀ entry ∈ named, '\n' ∉ entry.1.toList) →
        HasLines (Theme.renderBlock ":root" declarations)
          (":root \x7b" :: declarations ++ ["\x7d"])) :
      Prints a d named result (.text (Theme.renderBlock ":root" declarations))
  | report (hjson : a.json = true) {colors : List (String × String)}
      (htable : Report.Tabulates named colors)
      (hall : colors = named ↔ (named.map Prod.fst).Nodup) :
      Prints a d named result (.report
        { mode := d.name, colors
          initialError := result.initialError, bestError := result.bestError
          iterations := result.iterations, bestIteration := result.bestIteration })

theorem prints_of_output {α : Type} {a : Arguments} {d : Deficiency}
    {named : List (String × String)} {result : Result α} {printed : Output α}
    (hnewline : ∀ entry ∈ named, '\n' ∉ entry.2.toList)
    (h : output a d named result = .ok printed) : Prints a d named result printed := by
  unfold output at h
  cases hjson : a.json with
  | true =>
    rw [if_pos hjson] at h
    obtain rfl := Except.ok.inj h
    exact .report hjson (Report.tabulates_colorTable named) Report.colorTable_eq_self_iff
  | false =>
    rw [if_neg (Bool.eq_false_iff.1 hjson)] at h
    cases hcss : a.css with
    | true =>
      rw [if_pos hcss, Theme.renderCss_text] at h
      obtain rfl := Except.ok.inj h
      refine .block hjson hcss rfl fun hnames =>
        Theme.hasLines_renderBlock (by decide) fun line hline => ?_
      obtain ⟨entry, hentry, rfl⟩ := List.mem_map.1 hline
      exact Theme.newline_not_mem_declaration (hnames entry hentry) (hnewline entry hentry)
    | false =>
      rw [if_neg (Bool.eq_false_iff.1 hcss)] at h
      obtain rfl := Except.ok.inj h
      refine .lines hjson hcss ?_
      have hlines : named.map (fun entry => entry.2 ++ "\n") =
          (named.map Prod.snd).map (· ++ "\n") := by
        rw [List.map_map]
        rfl
      rw [hlines]
      refine hasLines_join fun line hline => ?_
      obtain ⟨entry, hentry, rfl⟩ := List.mem_map.1 hline
      exact hnewline entry hentry

/-! ### Runs -/

section Runs

variable {ι α : Type} {readings : List Reading} {result : Result α} {finished : Finished ι α}

/-- The adjusted colours of a command, each with the name that its word gives it. -/
def adjusted (readings : List Reading) (result : Result α) : List (String × String) :=
  readings.zipWith (fun r rgb => (r.name, Hex.encode rgb)) result.palette

theorem newline_not_mem_adjusted (readings : List Reading) (result : Result α) :
    ∀ entry ∈ adjusted readings result, '\n' ∉ entry.2.toList := by
  intro entry hentry
  rw [adjusted, ← List.map_uncurry_zip_eq_zipWith] at hentry
  obtain ⟨pair, -, rfl⟩ := List.mem_map.1 hentry
  exact Theme.not_mem_encode (by decide) (by decide) pair.2

/-- With as many colours as words, none of the names is missing. -/
theorem map_fst_adjusted (h : readings.length = result.palette.length) :
    (adjusted readings result).map Prod.fst = readings.map Reading.name := by
  rw [adjusted, List.map_zipWith, ← List.map_uncurry_zip_eq_zipWith]
  conv_rhs => rw [← List.map_fst_zip h.le, List.map_map]
  rfl

theorem Reading.Reads.eq_color {r : Reading} {word : String} {place : ℕ} {rgb : Triple ℕ}
    (h : r.Reads word place) (hkept : Hex.decode r.kept = .ok rgb) : rgb = r.color := by
  cases hindented : Hex.isIndented r.code with
  | false => exact Except.ok.inj (hkept.symm.trans (h.again hindented))
  | true => exact nomatch hkept.symm.trans (h.lost hindented)

/-- Codes that can be read again are read as the same colours. -/
theorem eq_map_color {entries : List (String × ℕ)}
    {colors : List (Triple ℕ)}
    (hreads : List.Forall₂ (fun (r : Reading) (entry : String × ℕ) => r.Reads entry.1 entry.2)
      readings entries)
    (h : ((readings.map fun r => (r.name, r.kept)).mapM fun entry => Hex.decode entry.2) =
      .ok colors) : colors = readings.map Reading.color := by
  rw [List.mapM_map] at h
  have hkept : readings.mapM (fun r => Hex.decode r.kept) = .ok (readings.map Reading.color) := by
    refine mapM_eq_map fun r hr => ?_
    obtain ⟨_, -, hread⟩ := exists_right_of_mem hreads hr
    obtain ⟨rgb, -, hrgb⟩ := exists_right_of_mem (mapM_eq_ok_iff.1 h) hr
    exact hread.eq_color hrgb ▸ hrgb
  exact Except.ok.inj (h.symm.trans hkept)

theorem orRefused_eq_ok {β : Type} {outcome : Except Fault β}
    {next : β → Except Fault (Finished ι α)} (h : orRefused outcome next = .ok finished) :
    (∃ x, outcome = .ok x ∧ next x = .ok finished) ∨
      ∃ e, e.isRefusal = true ∧ finished = refused e := by
  unfold orRefused at h
  rcases outcome with e | x
  · dsimp only at h
    split_ifs at h with hrefusal
    exact .inr ⟨e, hrefusal, (Except.ok.inj h).symm⟩
  · exact .inl ⟨x, rfl, h⟩

variable [ColorArith α] {host : Host ι α} {t : FileTree} {a : Arguments} {d : Deficiency}

/-- What a command of which nothing is refused has read, and that it prints what is made of it: the
colours of its words, adjusted for the deficiency in the settings. -/
structure Completes (host : Host ι α) (t : FileTree) (a : Arguments) (d : Deficiency)
    (readings : List Reading) (result : Result α) (finished : Finished ι α) : Prop where
  mode : Deficiency.ofValue a.mode = .ok d
  definitions : parseColors a.colors = .ok (readings.map fun r => (r.name, r.kept))
  reads : List.Forall₂ (fun (r : Reading) (entry : String × ℕ) => r.Reads entry.1 entry.2) readings
    a.colors.zipIdx
  optimized : ∃ settings, settingsOf host.levels t a = .ok settings ∧
    optimizeBy host.read (.list (colorValues (readings.map Reading.color))) (.text d.name) settings
      none = .ok result
  size : result.palette.length = a.colors.length
  names : (adjusted readings result).map Prod.fst = readings.map Reading.name
  code : finished.code = 0
  error : finished.error = ""
  prints : Prints a d (adjusted readings result) result finished.output

theorem completes_of_runOn (h : runOn host t a = .ok finished) :
    (∃ e, e.isRefusal = true ∧ finished = refused e) ∨
      ∃ d readings result, Completes host t a d readings result finished := by
  unfold runOn at h
  obtain ⟨⟨d, definitions⟩, hparsed, h⟩ | hrefused := orRefused_eq_ok h
  swap
  · exact .inl hrefused
  obtain ⟨d', hd, hparsed⟩ := bind_eq_ok.1 hparsed
  obtain ⟨definitions', hdefinitions, hparsed⟩ := bind_eq_ok.1 hparsed
  obtain ⟨rfl, rfl⟩ := Prod.mk.inj (pure_eq_ok.1 hparsed)
  obtain ⟨readings, hreads, rfl⟩ := exists_readings hdefinitions
  obtain ⟨settings, hsettings, h⟩ := bind_eq_ok.1 h
  obtain ⟨colors, hcolors, h⟩ := bind_eq_ok.1 h
  obtain rfl := eq_map_color hreads hcolors
  obtain ⟨result, hresult, h⟩ | hrefused := orRefused_eq_ok h
  swap
  · exact .inl hrefused
  obtain ⟨preview, -, h⟩ := bind_eq_ok.1 h
  obtain ⟨printed, hprinted, h⟩ := bind_eq_ok.1 h
  obtain rfl := pure_eq_ok.1 h
  rw [List.zipWith_map_left] at hprinted
  have hwords : readings.length = a.colors.length :=
    hreads.length_eq.trans List.length_zipIdx
  have hsize : result.palette.length = a.colors.length := by
    rw [length_of_optimizeBy hresult, colorValues, List.length_map, List.length_map, hwords]
  exact .inr ⟨_, readings, result, hd, hdefinitions, hreads, ⟨settings, hsettings, hresult⟩,
    hsize, map_fst_adjusted (hwords.trans hsize.symm), rfl, rfl,
    prints_of_output (newline_not_mem_adjusted readings result) hprinted⟩

/-- Every command ends with a fault, or refuses its input, or prints the adjusted colours of its
words: one for each, with its name and in order. So it is whatever the command runs on. -/
theorem run_outcome (host : Host ι α) (t : FileTree) (a : Arguments) :
    (∃ e, runOn host t a = .error e) ∨
      (∃ e, e.isRefusal = true ∧ runOn host t a = .ok (refused e)) ∨
      ∃ finished d readings result, runOn host t a = .ok finished ∧
        Completes host t a d readings result finished := by
  rcases hrun : runOn host t a with e | finished
  · exact .inl ⟨e, rfl⟩
  · refine .inr ?_
    obtain ⟨e, hrefusal, rfl⟩ | ⟨d, readings, result, hcompletes⟩ := completes_of_runOn hrun
    · exact .inl ⟨e, hrefusal, rfl⟩
    · exact .inr ⟨finished, d, readings, result, rfl, hcompletes⟩

/-! ### Repeated names -/

/-- Of a command that is asked for a report, this is what is printed. -/
theorem Completes.exists_report (h : Completes host t a d readings result finished)
    (hjson : a.json = true) : ∃ r, finished.output = .report r ∧
      Report.Tabulates (adjusted readings result) r.colors := by
  generalize hprinted : finished.output = printed
  cases hprinted ▸ h.prints with
  | lines hplain => exact nomatch hjson.symm.trans hplain
  | block hplain => exact nomatch hjson.symm.trans hplain
  | report _ htable => exact ⟨_, rfl, htable⟩

/-- A report has each of the names of a command line once. -/
theorem exists_report_of_runOn {definitions : List (String × String)}
    (hparse : parseColors a.colors = .ok definitions) (hjson : a.json = true)
    (hrun : runOn host t a = .ok finished) (hcode : finished.code = 0) :
    ∃ r, finished.output = .report r ∧
      r.colors.map Prod.fst = (definitions.map Prod.fst).eraseDups := by
  obtain ⟨e, -, rfl⟩ | ⟨d, readings, result, hcompletes⟩ := completes_of_runOn hrun
  · exact nomatch hcode
  obtain rfl := Except.ok.inj (hcompletes.definitions.symm.trans hparse)
  obtain ⟨r, hprinted, htable⟩ := hcompletes.exists_report hjson
  refine ⟨r, hprinted, ?_⟩
  rw [htable.names, hcompletes.names, List.map_map]
  rfl

/-- A command without a preview whose input is read and optimized ends with exit code 0. -/
theorem runOn_of_optimizeBy {definitions : List (String × String)} {colors : List (Triple ℕ)}
    {settings : Settings Value} {printed : Output α} (hd : Deficiency.ofValue a.mode = .ok d)
    (hparse : parseColors a.colors = .ok definitions)
    (hsettings : settingsOf host.levels t a = .ok settings)
    (hcolors : (definitions.mapM fun entry => Hex.decode entry.2) = .ok colors)
    (hresult : optimizeBy host.read (.list (colorValues colors)) (.text d.name) settings none =
      .ok result)
    (hpreview : pathOf a.preview = none)
    (hprinted : output a d (definitions.zipWith (fun entry rgb => (entry.1, Hex.encode rgb))
      result.palette) result = .ok printed) :
    runOn host t a = .ok { code := 0, output := printed, error := "", preview := none } := by
  unfold runOn
  simp only [hd, hparse, hsettings, hcolors, hresult, ok_bind, orRefused, previewOf,
    hpreview, hprinted, pure, Except.pure]

end Runs

/-- The program with numbers that are counted with as real numbers. -/
noncomputable def Host.exact : Host Image ℝ where
  imaging := Host.program.imaging
  levels := Host.program.levels
  read := Value.exact

/-- In exact arithmetic a report without a deficiency has the colours that were given. -/
theorem exists_runOn_none {t : FileTree} {a : Arguments} {definitions : List (String × String)}
    {colors : List (Triple ℕ)} {settings : Settings Value}
    (hmode : Deficiency.ofValue a.mode = .ok .none)
    (hparse : parseColors a.colors = .ok definitions)
    (hcolors : (definitions.mapM fun entry => Hex.decode entry.2) = .ok colors)
    (hload : settingsOf Host.exact.levels t a = .ok settings) (hsettings : settings.validate = .ok ())
    (hexact : settings.IsExact) (hseed : settings.seed.IsSeed)
    (hthreshold : 0 ≤ settings.zeroDistanceThreshold.exact) (hpreview : pathOf a.preview = none)
    (hjson : a.json = true) : ∃ finished r, runOn Host.exact t a = .ok finished ∧
      finished.code = 0 ∧ finished.output = .report r ∧
      r.colors = Report.colorTable
        (definitions.zipWith (fun entry rgb => (entry.1, Hex.encode (rgb.map Nat.cast))) colors) := by
  have hrows : ∀ row ∈ colors.map (fun rgb => rgb.toList.map (Nat.cast : ℕ → ℤ)),
      row.length = 3 ∧ ∀ n ∈ row, 0 ≤ n ∧ n ≤ 255 := by
    simp only [List.forall_mem_map]
    intro rgb hrgb
    obtain ⟨entry, -, hentry⟩ := exists_left_of_mem (mapM_eq_ok_iff.1 hcolors) hrgb
    refine ⟨rfl, fun n hn => ⟨n.cast_nonneg, ?_⟩⟩
    obtain ⟨k, rfl⟩ := Triple.exists_get_of_mem hn
    exact_mod_cast Hex.get_le_of_decode hentry k
  obtain ⟨result, hresult, hpalette⟩ :=
    exists_optimizeBy_none hrows hsettings hexact hseed hthreshold
  have hvalues : (colors.map fun rgb => rgb.toList.map (Nat.cast : ℕ → ℤ)).map
      (fun row => Value.list (row.map .int)) = colorValues colors := by
    rw [List.map_map]
    rfl
  have hsame : result.palette = colors.map fun rgb => rgb.map Nat.cast := by
    refine (List.map_inj_right fun _ _ => Triple.toList_inj.1).1 (hpalette.trans ?_)
    rw [List.map_map]
    rfl
  rw [hvalues] at hresult
  refine ⟨_, _, runOn_of_optimizeBy hmode hparse hload hcolors hresult hpreview (if_pos hjson),
    rfl, rfl, ?_⟩
  rw [hsame, List.zipWith_map_right]

/-- The name that a colour is given may be the one that a later colour has for its place. A report
then has one colour for both. So it is wherever a report is printed, and in exact arithmetic one is.
-/
theorem color_lost_repeated :
    parseColors ["color1=#f00", "#0f0"] = .ok [("color1", "#f00"), ("color1", "#0f0")] ∧
      (∀ (ι α : Type) [ColorArith α] (host : Host ι α) (t : FileTree) (a : Arguments)
        (finished : Finished ι α), a.colors = ["color1=#f00", "#0f0"] → a.json = true →
          runOn host t a = .ok finished → finished.code = 0 →
          ∃ r color, finished.output = .report r ∧ r.colors = [("color1", color)]) ∧
      ∃ finished r, runOn Host.exact FileTree.empty
          { Parsing.start.arguments with
            colors := ["color1=#f00", "#0f0"], mode := .text "none", json := true } = .ok finished ∧
        finished.code = 0 ∧ finished.output = .report r ∧ r.colors = [("color1", "#00ff00")] := by
  have hparse : parseColors ["color1=#f00", "#0f0"] =
      .ok [("color1", "#f00"), ("color1", "#0f0")] := by decide +kernel
  refine ⟨hparse, fun ι α _ host t a finished hcolors hjson hrun hcode => ?_, ?_⟩
  · obtain ⟨r, hprinted, hnames⟩ :=
      exists_report_of_runOn (hcolors ▸ hparse) hjson hrun hcode
    obtain ⟨⟨name, color⟩, rest, hfirst, rfl, hrest⟩ :=
      List.map_eq_cons_iff.1 (hnames : _ = ["color1"])
    obtain rfl := List.map_eq_nil_iff.1 hrest
    exact ⟨r, color, hprinted, hfirst⟩
  · have hmode : Deficiency.ofValue (.text "none") = .ok .none := by decide
    let a : Arguments := { Parsing.start.arguments with
      colors := ["color1=#f00", "#0f0"], mode := .text "none", json := true }
    exact exists_runOn_none (a := a) hmode hparse rfl rfl Settings.validate_standard
      Settings.isExact_standard trivial Settings.threshold_standard rfl rfl

end Dichromat.CommandLine
