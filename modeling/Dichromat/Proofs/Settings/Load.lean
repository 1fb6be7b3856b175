import Dichromat.Proofs.Toml.Faults
import Dichromat.Settings.Load

/-!
# What a settings file gives

Loading settings fails only where a file is read whose bytes are no text, or a text that is too much
to read. In every other case there are settings: the standard ones, without a warning where nothing
is and with one where the file gives no table, or the table of the file over the standard ones
(`Settings.loadWith_outcome`).
-/

namespace Dichromat.Settings

/-! ### Text -/

/-- Bytes that spell a text in UTF-8. -/
def Spell (bytes : List UInt8) (text : String) : Prop := text.toUTF8.data.toList = bytes

theorem fromUTF8?_eq_some_iff {bytes : List UInt8} {text : String} :
    String.fromUTF8? (ByteArray.mk bytes.toArray) = some text ↔ Spell bytes text := by
  unfold String.fromUTF8? Spell
  split_ifs with h
  · rw [Option.some.injEq]
    constructor
    · rintro rfl
      rfl
    · rintro rfl
      rfl
  · refine iff_of_false nofun fun hspell => h ?_
    subst hspell
    exact text.isValidUTF8

/-! ### Settings -/

/-- The standard settings with the entries of a table in place of their own. -/
def IsOverlay (table : List (String × Value)) (s : Settings Value) : Prop :=
  s.toTable = (standard : Settings Value).toTable.map fun (k, v) =>
    (k, (Value.field? k table).getD v)

theorem isOverlay_iff {table : List (String × Value)} {s : Settings Value} :
    IsOverlay table s ↔ s = ofTable table := by
  constructor
  · exact fun h => (ofTable_toTable s).symm.trans ((congrArg ofTable h).trans rfl)
  · rintro rfl
    rfl

/-! ### Outcomes -/

section Outcomes

variable (read : List String → FileNode → Option (List UInt8)) (levels : ℕ) (t : FileTree)

/-- A path leads to something that is read as these bytes, or refused. -/
def Reads (path : String) (bytes : Option (List UInt8)) : Prop :=
  ∃ place node, t.lookup path = .found place node ∧ read place node = bytes

/-- How loading fails: on bytes that are no text, and on text that is too much to read. -/
inductive Fails (path : String) : Fault → Prop
  | notText {bytes : List UInt8} (hbytes : Reads read t path (some bytes))
      (h : ∀ text, ¬Spell bytes text) : Fails path .notUtf8
  | excess {bytes : List UInt8} {text : String} {e : Fault}
      (hbytes : Reads read t path (some bytes)) (htext : Spell bytes text)
      (h : Toml.document levels text = .error e) (he : Toml.IsExcess e) : Fails path e

/-- What loading gives: standard settings where nothing is, and with a warning where what is there
gives no table; else the table over the standard settings. -/
inductive Gives : Option String → Loaded → Prop
  | noPath {path : Option String} (h : path.getD "" = "") : Gives path ⟨standard, 0⟩
  | nothing {path : String} (h : ∀ place node, t.lookup path ≠ .found place node) :
      Gives (some path) ⟨standard, 0⟩
  | refused {path : String} (h : Reads read t path none) : Gives (some path) ⟨standard, 1⟩
  | malformed {path : String} {bytes : List UInt8} {text : String}
      (hbytes : Reads read t path (some bytes)) (htext : Spell bytes text)
      (h : Toml.document levels text = .error .malformed) : Gives (some path) ⟨standard, 1⟩
  | notTable {path : String} {bytes : List UInt8} {text : String} {entries : Toml.Entries}
      {v : Value} (hbytes : Reads read t path (some bytes)) (htext : Spell bytes text)
      (h : Toml.document levels text = .ok entries)
      (hv : Value.field? "optimizer" entries = some v) (hne : ∀ table, v ≠ .table table) :
      Gives (some path) ⟨standard, 1⟩
  | table {path : String} {bytes : List UInt8} {text : String} {entries table : Toml.Entries}
      {s : Settings Value} (hbytes : Reads read t path (some bytes)) (htext : Spell bytes text)
      (h : Toml.document levels text = .ok entries)
      (htable : (Value.field? "optimizer" entries).getD (.table []) = .table table)
      (hs : IsOverlay table s) : Gives (some path) ⟨s, 0⟩

variable {read levels t} {path : String} {bytes : List UInt8}

theorem loadWith_of_reads (h : Reads read t path (some bytes)) :
    loadWith read levels t (some path) = ofBytes levels bytes := by
  obtain ⟨place, node, hplace, hread⟩ := h
  simp only [loadWith, hplace, hread]

theorem loadWith_of_refused (h : Reads read t path none) :
    loadWith read levels t (some path) = .ok ⟨standard, 1⟩ := by
  obtain ⟨place, node, hplace, hread⟩ := h
  simp only [loadWith, hplace, hread]
  rfl

theorem loadWith_of_nothing (h : ∀ place node, t.lookup path ≠ .found place node) :
    loadWith read levels t (some path) = .ok ⟨standard, 0⟩ := by
  unfold loadWith
  dsimp only
  split
  · rename_i hfound
    exact absurd hfound (h _ _)
  · rfl
  · rfl

theorem ofBytes_of_spell {text : String} (h : Spell bytes text) : ofBytes levels bytes =
    match Toml.document levels text with
    | .ok entries => .ok (ofDocument entries)
    | .error .malformed => .ok ⟨standard, 1⟩
    | .error e => .error e := by
  rw [ofBytes, fromUTF8?_eq_some_iff.2 h]
  rfl

theorem ofBytes_of_not_spell (h : ∀ text, ¬Spell bytes text) :
    ofBytes levels bytes = .error .notUtf8 := by
  unfold ofBytes
  split
  · rfl
  · rename_i text htext
    exact absurd (fromUTF8?_eq_some_iff.1 htext) (h text)

theorem ofDocument_of_table {entries table : Toml.Entries} {s : Settings Value}
    (htable : (Value.field? "optimizer" entries).getD (.table []) = .table table)
    (hs : IsOverlay table s) : ofDocument entries = ⟨s, 0⟩ := by
  rw [isOverlay_iff.1 hs]
  unfold ofDocument
  rcases hfield : Value.field? "optimizer" entries with _ | v
  · rw [hfield] at htable
    obtain rfl := (Value.table.inj htable).symm
    rfl
  · rw [hfield] at htable
    obtain rfl : v = .table table := htable
    rfl

theorem ofDocument_of_not_table {entries : Toml.Entries} {v : Value}
    (hv : Value.field? "optimizer" entries = some v) (hne : ∀ table, v ≠ .table table) :
    ofDocument entries = ⟨standard, 1⟩ := by
  unfold ofDocument
  rw [hv]
  split
  · rename_i heq
    exact absurd heq nofun
  · rename_i heq
    exact absurd (Option.some.inj heq) (hne _)
  · rfl

theorem Fails.loadWith_eq {e : Fault} (h : Fails read levels t path e) :
    loadWith read levels t (some path) = .error e := by
  cases h with
  | notText hbytes h => rw [loadWith_of_reads hbytes, ofBytes_of_not_spell h]
  | excess hbytes htext h he =>
    rw [loadWith_of_reads hbytes, ofBytes_of_spell htext, h]
    cases he <;> rfl

theorem Gives.loadWith_eq {path : Option String} {l : Loaded} (h : Gives read levels t path l) :
    loadWith read levels t path = .ok l := by
  cases h with
  | noPath h =>
    rcases path with _ | path
    · rfl
    · obtain rfl : path = "" := h
      exact loadWith_of_nothing fun _ _ => nofun
  | nothing h => exact loadWith_of_nothing h
  | refused h => exact loadWith_of_refused h
  | malformed hbytes htext h => rw [loadWith_of_reads hbytes, ofBytes_of_spell htext, h]
  | notTable hbytes htext h hv hne =>
    rw [loadWith_of_reads hbytes, ofBytes_of_spell htext, h, ← ofDocument_of_not_table hv hne]
  | table hbytes htext h htable hs =>
    rw [loadWith_of_reads hbytes, ofBytes_of_spell htext, h, ← ofDocument_of_table htable hs]

/-- What is read gives settings or a fault. -/
theorem gives_or_fails_of_reads (hbytes : Reads read t path (some bytes)) :
    (∃ l, Gives read levels t (some path) l) ∨ ∃ e, Fails read levels t path e := by
  by_cases htext : ∃ text, Spell bytes text
  · obtain ⟨text, htext⟩ := htext
    rcases h : Toml.document levels text with e | entries
    · rcases Toml.fault_of_document h with rfl | he
      exacts [.inl ⟨_, .malformed hbytes htext h⟩, .inr ⟨e, .excess hbytes htext h he⟩]
    · left
      by_cases htable :
          ∃ table, (Value.field? "optimizer" entries).getD (.table []) = .table table
      · obtain ⟨table, htable⟩ := htable
        exact ⟨_, .table hbytes htext h htable (isOverlay_iff.2 rfl)⟩
      · rcases hv : Value.field? "optimizer" entries with _ | v
        · exact absurd ⟨[], by rw [hv]; rfl⟩ htable
        · refine ⟨_, .notTable hbytes htext h hv fun table heq => htable ⟨table, ?_⟩⟩
          rw [hv]
          exact heq
  · exact .inr ⟨_, .notText hbytes fun text h => htext ⟨text, h⟩⟩

theorem gives_or_fails (path : Option String) : (∃ l, Gives read levels t path l) ∨
    ∃ p e, path = some p ∧ Fails read levels t p e := by
  rcases path with _ | path
  · exact .inl ⟨_, .noPath rfl⟩
  by_cases hfound : ∃ place node, t.lookup path = .found place node
  · obtain ⟨place, node, hfound⟩ := hfound
    rcases hread : read place node with _ | bytes
    · exact .inl ⟨_, .refused ⟨place, node, hfound, hread⟩⟩
    · exact (gives_or_fails_of_reads ⟨place, node, hfound, hread⟩).imp_right
        fun ⟨e, he⟩ => ⟨path, e, rfl, he⟩
  · exact .inl ⟨_, .nothing fun place node h => hfound ⟨place, node, h⟩⟩

/-- Loading fails exactly on bytes that are no text and on text that is too much to read; in every
other case it gives settings, with as many warnings as `Gives` tells. -/
theorem loadWith_outcome (read : List String → FileNode → Option (List UInt8)) (levels : ℕ)
    (t : FileTree) (path : Option String) :
    (∀ e, loadWith read levels t path = .error e ↔
      ∃ p, path = some p ∧ Fails read levels t p e) ∧
    ∀ l, loadWith read levels t path = .ok l ↔ Gives read levels t path l := by
  rcases @gives_or_fails read levels t path with ⟨l, hl⟩ | ⟨p, e, rfl, he⟩
  · have hload := hl.loadWith_eq
    refine ⟨fun e => iff_of_false (hload ▸ nofun) ?_, fun l' => ⟨fun h => ?_, Gives.loadWith_eq⟩⟩
    · rintro ⟨p, rfl, he⟩
      exact absurd (hload.symm.trans he.loadWith_eq) nofun
    · exact Except.ok.inj (hload.symm.trans h) ▸ hl
  · have hload := he.loadWith_eq
    refine ⟨fun e' => ⟨fun h => ⟨p, rfl, ?_⟩, fun ⟨p', hp, he'⟩ => ?_⟩,
      fun l => iff_of_false (hload ▸ nofun) fun hl => ?_⟩
    · exact Except.error.inj (hload.symm.trans h) ▸ he
    · exact Option.some.inj hp ▸ he'.loadWith_eq
    · exact absurd (hload.symm.trans hl.loadWith_eq) nofun

end Outcomes

/-- A byte that begins no character is refused, and no settings are given. -/
theorem load_notText :
    load nestingLimit (FileTree.empty.put ["c.toml"] (.file [0xff])) (some "c.toml") =
      .error .notUtf8 := by
  have hbytes : Reads (fun _ node => node.bytes?) (FileTree.empty.put ["c.toml"] (.file [0xff]))
      "c.toml" (some [0xff]) := ⟨["c.toml"], .file [0xff], by decide +kernel, rfl⟩
  have htext : String.fromUTF8? (ByteArray.mk #[0xff]) = none := by decide +kernel
  refine Fails.loadWith_eq (.notText hbytes fun text htext' => ?_)
  exact absurd (htext.symm.trans (fromUTF8?_eq_some_iff.2 htext')) nofun

end Dichromat.Settings
