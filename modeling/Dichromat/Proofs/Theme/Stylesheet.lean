import Dichromat.Proofs.Theme.Codec
import Dichromat.Theme.Definition

/-!
# The lines of a stylesheet

A stylesheet block has a line for its selector, a line that declares each colour, and a closing
brace (`hasLines_renderBlock`). The last colon of a declaration stands between the name of a
property and a colour (`declaration_inj`), whatever else the name holds. So of definitions that each
lie within a line nothing is lost but whether an identifier began with two hyphens:
`renderCss_loses_nothing`.
-/

namespace Dichromat.Theme

open Text (HasLines append_cons_inj hasLines_intercalate)

/-! ### Declarations -/

/-- The property that an identifier names: the identifier, behind two hyphens iff it does not begin
with them already. -/
def Names (identifier property : String) : Prop :=
  (['-', '-'] <+: identifier.toList ∧ property = identifier) ∨
    (¬ ['-', '-'] <+: identifier.toList ∧ property = "--" ++ identifier)

theorem names_iff {identifier property : String} :
    Names identifier property ↔ property = propertyName identifier := by
  have hstarts : identifier.startsWith "--" = true ↔ ['-', '-'] <+: identifier.toList :=
    String.startsWith_string_iff
  unfold Names propertyName
  by_cases h : ['-', '-'] <+: identifier.toList
  · simp [h, hstarts.2 h]
  · simp [h, mt hstarts.1 h]

/-- A line that declares a colour under the name of a property. -/
def Declares (entry : String × String) (line : String) : Prop :=
  ∃ property, Names entry.1 property ∧ line = "  " ++ property ++ ": " ++ entry.2 ++ ";"

theorem declares_declaration (entry : String × String) :
    Declares entry (declaration entry.1 entry.2) :=
  ⟨_, names_iff.2 rfl, rfl⟩

theorem toList_declaration (identifier color : String) : (declaration identifier color).toList =
    ' ' :: ' ' :: ((propertyName identifier).toList ++ ':' :: ' ' :: (color.toList ++ [';'])) := by
  simp [declaration]

theorem declaration_inj {identifier identifier' color color' : String} (h : ':' ∉ color.toList)
    (h' : ':' ∉ color'.toList) :
    declaration identifier color = declaration identifier' color' ↔
      propertyName identifier = propertyName identifier' ∧ color = color' := by
  have hcolon {s : String} (hs : ':' ∉ s.toList) : ':' ∉ ' ' :: (s.toList ++ [';']) := by
    simpa using hs
  rw [← String.toList_inj, toList_declaration, toList_declaration, List.cons_inj_right,
    List.cons_inj_right, append_cons_inj (hcolon h) (hcolon h'), List.cons_inj_right,
    List.append_left_inj, String.toList_inj, String.toList_inj]

/-! ### Blocks -/

theorem hasLines_renderBlock {selector : String} {declarations : List String}
    (hselector : '\n' ∉ selector.toList) (h : ∀ line ∈ declarations, '\n' ∉ line.toList) :
    HasLines (renderBlock selector declarations)
      ((selector ++ " \x7b") :: declarations ++ ["\x7d"]) := by
  have hblock : renderBlock selector declarations =
      String.intercalate "\n" ((selector ++ " \x7b") :: declarations ++ ["\x7d"] ++ [""]) := by
    rw [String.intercalate_append_of_ne_nil (by simp) (by simp), String.intercalate_singleton,
      String.append_empty]
    rfl
  rw [hblock]
  refine hasLines_intercalate fun line hline => ?_
  rw [List.mem_append, List.mem_cons, List.mem_singleton] at hline
  obtain (rfl | hline) | rfl := hline
  · simpa using hselector
  · exact h line hline
  · decide

/-- A block ends with its closing brace and one line break. -/
theorem brace_suffix_renderBlock (selector : String) (declarations : List String) :
    ['\x7d', '\n'] <:+ (renderBlock selector declarations).toList := by
  rw [renderBlock, ← List.cons_append, String.intercalate_append_of_ne_nil (by simp) (by simp),
    String.intercalate_singleton]
  refine ⟨(String.intercalate "\n" ((selector ++ " \x7b") :: declarations) ++ "\n").toList, ?_⟩
  simp

theorem renderCss_text (named : List (String × String)) (selector : String) :
    renderCss (named.map fun entry => ⟨.text entry.1, .text entry.2⟩) selector =
      .ok (renderBlock selector (named.map fun entry => declaration entry.1 entry.2)) := by
  refine bind_eq_ok.2 ⟨_, mapM_eq_ok_iff.2 ?_, rfl⟩
  rw [List.forall₂_map_left_iff, List.forall₂_map_right_iff]
  exact List.forall₂_same.2 fun _ _ => rfl

/-! ### Colours within a line -/

theorem not_mem_encode {c : Char} (hsign : c ≠ '#') (hdigit : ∀ n < 16, c ≠ n.digitChar)
    (rgb : Triple ℤ) : c ∉ (Hex.encode rgb).toList := by
  rw [Hex.toList_encode, List.mem_cons, List.mem_flatMap]
  rintro (h | ⟨n, -, h⟩)
  · exact hsign h
  · have hn : Hex.clamp n < 256 := by
      unfold Hex.clamp
      omega
    rw [List.mem_cons, List.mem_singleton] at h
    exact h.elim (hdigit _ (by omega)) (hdigit _ (by omega))

theorem newline_not_mem_declaration {identifier color : String}
    (hidentifier : '\n' ∉ identifier.toList) (hcolor : '\n' ∉ color.toList) :
    '\n' ∉ (declaration identifier color).toList := by
  have hproperty : '\n' ∉ (propertyName identifier).toList := by
    unfold propertyName
    split_ifs
    · exact hidentifier
    · simpa using hidentifier
  simp [toList_declaration, hproperty, hcolor]

/-- A selector and named colours that each lie within a line, and no colour has a colon. -/
structure InLines (selector : String) (named : List (String × String)) : Prop where
  selector : '\n' ∉ selector.toList
  identifier : ∀ entry ∈ named, '\n' ∉ entry.1.toList
  color : ∀ entry ∈ named, '\n' ∉ entry.2.toList
  colon : ∀ entry ∈ named, ':' ∉ entry.2.toList

section InLines

variable {selector selector' : String} {named named' : List (String × String)}

theorem InLines.hasLines (h : InLines selector named) :
    HasLines (renderBlock selector (named.map fun entry => declaration entry.1 entry.2))
      ((selector ++ " \x7b") :: named.map (fun entry => declaration entry.1 entry.2) ++
        ["\x7d"]) := by
  refine hasLines_renderBlock h.selector fun line hline => ?_
  obtain ⟨entry, hentry, rfl⟩ := List.mem_map.1 hline
  exact newline_not_mem_declaration (h.identifier entry hentry) (h.color entry hentry)

/-- Two identifiers of the same property, with the same colour. -/
def SameProperty (entry entry' : String × String) : Prop :=
  (∃ property, Names entry.1 property ∧ Names entry'.1 property) ∧ entry.2 = entry'.2

theorem sameProperty_iff {entry entry' : String × String} : SameProperty entry entry' ↔
    propertyName entry.1 = propertyName entry'.1 ∧ entry.2 = entry'.2 := by
  refine and_congr_left' ?_
  simp only [names_iff, exists_eq_left]

/-- The declarations tell the properties and their colours apart. -/
theorem InLines.map_declaration_inj (h : InLines selector named) (h' : InLines selector' named') :
    (named.map fun entry => declaration entry.1 entry.2) =
        named'.map (fun entry => declaration entry.1 entry.2) ↔
      List.Forall₂ SameProperty named named' := by
  rw [← List.forall₂_eq_eq_eq, List.forall₂_map_left_iff, List.forall₂_map_right_iff,
    List.forall₂_iff_zip, List.forall₂_iff_zip]
  refine and_congr_right fun _ => forall₂_congr fun entry entry' =>
    forall_congr' fun hzip => ?_
  obtain ⟨hentry, hentry'⟩ := List.of_mem_zip hzip
  rw [declaration_inj (h.colon _ hentry) (h'.colon _ hentry'), sameProperty_iff]

theorem InLines.renderBlock_inj (h : InLines selector named) (h' : InLines selector' named') :
    renderBlock selector (named.map fun entry => declaration entry.1 entry.2) =
        renderBlock selector' (named'.map fun entry => declaration entry.1 entry.2) ↔
      selector = selector' ∧ List.Forall₂ SameProperty named named' := by
  rw [← h.map_declaration_inj h']
  constructor
  · intro htext
    have hlines := h.hasLines.eq (htext ▸ h'.hasLines)
    rw [List.cons_append, List.cons_append, List.cons.injEq, List.append_left_inj] at hlines
    exact hlines.imp_left (String.append_left_inj _).1
  · rintro ⟨rfl, hdeclarations⟩
    rw [hdeclarations]

/-- Blocks of named colours are the same text iff they have the same selector and, in order, the
same properties with the same colours. Each has a line that declares a colour for each of them,
between its selector and its closing brace, and one line break behind that. All codes of colours
qualify. -/
theorem renderCss_loses_nothing (h : InLines selector named) (h' : InLines selector' named') :
    ∃ text text' declarations,
      renderCss (named.map fun entry => ⟨.text entry.1, .text entry.2⟩) selector = .ok text ∧
      renderCss (named'.map fun entry => ⟨.text entry.1, .text entry.2⟩) selector' = .ok text' ∧
      (text = text' ↔ selector = selector' ∧ List.Forall₂ SameProperty named named') ∧
      List.Forall₂ Declares named declarations ∧
      HasLines text ((selector ++ " \x7b") :: declarations ++ ["\x7d"]) ∧
      ['\x7d', '\n'] <:+ text.toList ∧
      ∀ rgb, '\n' ∉ (Hex.encode rgb).toList ∧ ':' ∉ (Hex.encode rgb).toList := by
  refine ⟨_, _, _, renderCss_text named selector, renderCss_text named' selector',
    h.renderBlock_inj h', ?_, h.hasLines, brace_suffix_renderBlock _ _, fun rgb => ?_⟩
  · rw [List.forall₂_map_right_iff]
    exact List.forall₂_same.2 fun entry _ => declares_declaration entry
  · exact ⟨not_mem_encode (by decide) (by decide) rgb, not_mem_encode (by decide) (by decide) rgb⟩

end InLines

/-- Two spellings of one property, whose name holds what ends a declaration. -/
theorem renderCss_loses_nothing_spellings :
    InLines ":root" [("a: b; \x7d", "#ff0000")] ∧ InLines ":root" [("--a: b; \x7d", "#ff0000")] ∧
      ∃ text, renderCss [⟨.text "a: b; \x7d", .text "#ff0000"⟩] ":root" = .ok text ∧
        renderCss [⟨.text "--a: b; \x7d", .text "#ff0000"⟩] ":root" = .ok text ∧
        HasLines text [":root \x7b", "  --a: b; \x7d: #ff0000;", "\x7d"] := by
  have h : InLines ":root" [("a: b; \x7d", "#ff0000")] :=
    ⟨by decide, by decide, by decide, by decide⟩
  have h' : InLines ":root" [("--a: b; \x7d", "#ff0000")] :=
    ⟨by decide, by decide, by decide, by decide⟩
  have hproperty : Names "a: b; \x7d" "--a: b; \x7d" := Or.inr ⟨by decide, rfl⟩
  have hproperty' : Names "--a: b; \x7d" "--a: b; \x7d" := Or.inl ⟨by decide, rfl⟩
  obtain ⟨text, text', declarations, htext, htext', heq, hdeclares, hlines, -⟩ :=
    renderCss_loses_nothing h h'
  obtain rfl := heq.2 ⟨rfl, .cons ⟨⟨_, hproperty, hproperty'⟩, rfl⟩ .nil⟩
  obtain ⟨line, _, ⟨property, hnames, rfl⟩, hnil, rfl⟩ := List.forall₂_cons_left_iff.1 hdeclares
  obtain rfl := List.forall₂_nil_left_iff.1 hnil
  obtain rfl := (names_iff.1 hnames).trans (names_iff.1 hproperty).symm
  exact ⟨h, h', text, htext, htext', hlines⟩

end Dichromat.Theme
