import Dichromat.Proofs.FileTree
import Dichromat.Proofs.Outcome
import Dichromat.Theme.Write

/-!
# What a write leaves behind

Whatever the file system replies, a write either puts what was written in the place of its target or
leaves nothing but new directories, and no temporary file stays (`Theme.writeWith_outcome`). Success
is told when every call succeeds; how much was written is not looked at.
-/

namespace Dichromat.Theme

open FileTree

/-! ### Replies -/

namespace Replies

/-- What a file system may reply to the write of a path: faults of its own; the directories are made
and nothing else is done with them; the temporary file is new; and only what is no directory is
replaced. -/
structure Lawful (replies : Replies) (t : FileTree) (path : String) : Prop where
  directories_system : ∀ e, replies.directories = some e → e.isSystem = true
  create_system : ∀ e, replies.create = .error e → e.isSystem = true
  write_system : ∀ content e, replies.write content = .error e → e.isSystem = true
  close_system : ∀ e, replies.close = some e → e.isSystem = true
  rename_system : ∀ e, replies.rename = some e → e.isSystem = true
  extends_made : Extends t replies.made
  create_new : ∀ temporary, replies.create = .ok temporary → replies.made.node? temporary = none
  rename_file : replies.rename = none → renameReply replies.made path = none

/-- Every call succeeds, and so many bytes of the content are written. -/
structure Succeed (replies : Replies) (content : List UInt8) (written : ℕ) : Prop where
  directories : replies.directories = none
  create : ∃ temporary, replies.create = .ok temporary
  write : replies.write content = .ok written
  close : replies.close = none
  rename : replies.rename = none

end Replies

variable {replies : Replies} {t : FileTree} {path : String} {content : List UInt8}

theorem failed_ne_ok_true (e : Fault) : failed e ≠ .ok true := by
  unfold failed
  split_ifs <;> nofun

/-- What is no directory can be replaced: it is a file, or nothing. -/
theorem renameReply_eq_none (h : renameReply t path = none) :
    ∃ target, t.lookup path = .absent target ∨
      ∃ old, t.lookup path = .found target (.file old) := by
  unfold renameReply at h
  rcases hlookup : t.lookup path with ⟨target, _ | old⟩ | target | e <;> simp only [hlookup] at h
  · exact nomatch h
  · exact ⟨target, .inr ⟨old, rfl⟩⟩
  · exact ⟨target, .inl rfl⟩
  · exact nomatch h

/-- With directories and a temporary file, all hangs on the faults of writing and renaming it. -/
theorem replaceFile_of_create {temporary : List String} (hdirectories : replies.directories = none)
    (hcreate : replies.create = .ok temporary) :
    replaceFile replies path content =
      let t := replies.made.put temporary (.file (written replies content).1)
      match (written replies content).2.or replies.rename with
      | some e => (failed e, if e.isSystem then t.remove temporary else t)
      | none => (.ok true, t.rename temporary (placeOf (replies.made.lookup path))) := by
  obtain ⟨directories, made, create, write, close, rename⟩ := replies
  obtain rfl : directories = none := hdirectories
  obtain rfl : create = .ok temporary := hcreate
  rfl

theorem replaceFile_of_succeed {n : ℕ} {temporary : List String} (h : replies.Succeed content n)
    (htemporary : replies.create = .ok temporary) :
    replaceFile replies path content =
      (.ok true, (replies.made.put temporary (.file (content.take n))).rename temporary
        (placeOf (replies.made.lookup path))) := by
  have hwritten : written replies content = (content.take n, none) := by
    rw [written, h.write, h.close]
  rw [replaceFile_of_create h.directories htemporary, hwritten, h.rename]
  rfl

theorem Replies.Lawful.isSystem_written (h : replies.Lawful t path) {e : Fault}
    (he : (written replies content).2 = some e) : e.isSystem = true := by
  unfold written at he
  rcases hwrite : replies.write content with e' | n <;> simp only [hwrite] at he
  · rcases hclose : replies.close with _ | e'' <;> rw [hclose] at he
    · exact Option.some.inj he ▸ h.write_system content e' hwrite
    · exact Option.some.inj he ▸ h.close_system e'' hclose
  · exact h.close_system e he

theorem exists_of_written_eq_none (h : (written replies content).2 = none) :
    replies.close = none ∧ ∃ n, replies.write content = .ok n := by
  unfold written at h
  rcases hwrite : replies.write content with e | n <;> simp only [hwrite] at h
  · exact nomatch h
  · exact ⟨h, n, rfl⟩

/-- A call that fails leaves the files as they are, or makes a temporary one and removes it. -/
theorem replaceFile_of_not_succeed (h : replies.Lawful t path)
    (hnot : ∀ n, ¬replies.Succeed content n) :
    ∃ outcome files, replaceFile replies path content = (outcome, files) ∧ outcome ≠ .ok true ∧
      (files = replies.made ∨ ∃ temporary node, replies.create = .ok temporary ∧
        files = (replies.made.put temporary node).remove temporary) := by
  rcases hdirectories : replies.directories with _ | e
  · rcases hcreate : replies.create with e | temporary
    · refine ⟨failed e, replies.made, ?_, failed_ne_ok_true e, .inl rfl⟩
      simp only [replaceFile, hdirectories, hcreate]
    · have hreplace : replaceFile replies path content = _ :=
        replaceFile_of_create hdirectories hcreate
      rcases hfault : (written replies content).2.or replies.rename with _ | e
      · obtain ⟨hwritten, hrename⟩ := Option.or_eq_none_iff.1 hfault
        obtain ⟨hclose, n, hwrite⟩ := exists_of_written_eq_none hwritten
        exact absurd ⟨hdirectories, ⟨temporary, hcreate⟩, hwrite, hclose, hrename⟩ (hnot n)
      · have hsystem : e.isSystem = true := by
          rcases Option.or_eq_some_iff.1 hfault with hwritten | ⟨-, hrename⟩
          exacts [h.isSystem_written hwritten, h.rename_system e hrename]
        refine ⟨_, _, hreplace, ?_⟩
        rw [hfault]
        simp only [if_pos hsystem]
        exact ⟨failed_ne_ok_true e, .inr ⟨temporary, _, rfl, rfl⟩⟩
  · unfold replaceFile
    dsimp only
    split
    · exact ⟨_, _, rfl, nofun, .inl rfl⟩
    · exact ⟨_, _, rfl, nofun, .inl rfl⟩
    · rename_i hnone
      exact absurd (hdirectories.symm.trans hnone) nofun

/-! ### Replies of a file tree -/

/-- The directory of a path is made of characters of the path. -/
theorem hasNul_split (h : hasNul path = false) : hasNul (FileTree.split path).1 = false := by
  rw [hasNul_eq_false_iff] at h ⊢
  have htake : ∀ c ∈ (String.ofList (path.toList.take
      (path.length - ((parts path).getLastD "").length))).toList, c ≠ '\x00' := fun c hc => by
    rw [String.toList_ofList] at hc
    exact h c (List.mem_of_mem_take hc)
  intro c hc
  simp only [FileTree.split, withoutSlashes] at hc
  split_ifs at hc
  · exact htake c hc
  · rw [String.toList_ofList, List.mem_reverse] at hc
    exact htake c (List.mem_reverse.1 ((List.dropWhile_sublist _).subset hc))

theorem createReply_new {directory temporary : List String} {length : ℕ}
    (h : createReply t directory length = .ok temporary) : t.node? temporary = none := by
  unfold createReply at h
  split_ifs at h
  exact Except.ok.inj h ▸ node?_append_freshName t directory

theorem isSystem_of_createReply {directory : List String} {length : ℕ} {e : Fault}
    (h : createReply t directory length = .error e) : e.isSystem = true := by
  unfold createReply at h
  split_ifs at h
  exact Except.error.inj h ▸ rfl

theorem isSystem_of_renameReply (hnul : hasNul path = false) {e : Fault}
    (h : renameReply t path = some e) : e.isSystem = true := by
  unfold renameReply at h
  rcases hlookup : t.lookup path with ⟨place, _ | bytes⟩ | place | e' <;> simp only [hlookup] at h
  · exact Option.some.inj h ▸ rfl
  · exact nomatch h
  · exact nomatch h
  · exact Option.some.inj h ▸ isSystem_of_lookup hnul hlookup

theorem made_repliesOf (t : FileTree) (path : String) :
    (repliesOf t path).made = (t.makeDirectories (FileTree.split path).1).2 := by
  simp only [repliesOf]

/-- The directories that a file tree makes are on the way to that of the path. -/
theorem node?_made_repliesOf {place : List String}
    (h : ¬OnWay (FileTree.split path).1 place) :
    (repliesOf t path).made.node? place = t.node? place := by
  rw [made_repliesOf]
  exact node?_makeDirectories h

theorem rename_repliesOf (t : FileTree) (path : String) :
    (repliesOf t path).rename = renameReply (repliesOf t path).made path := by
  simp only [repliesOf]

/-- A file tree replies as a file system may, to every path without a null character. -/
theorem lawful_repliesOf (t : FileTree) (hnul : hasNul path = false) :
    (repliesOf t path).Lawful t path where
  directories_system e h := by
    simp only [repliesOf] at h
    rcases hplace : (t.makeDirectories (FileTree.split path).1).1 with e' | place <;>
      simp only [hplace] at h
    · exact Option.some.inj h ▸ isSystem_of_makeDirectories (hasNul_split hnul) hplace
    · exact nomatch h
  create_system e h := by
    simp only [repliesOf] at h
    rcases hplace : (t.makeDirectories (FileTree.split path).1).1 with e' | place <;>
      rw [hplace] at h
    · exact Except.error.inj h ▸ isSystem_of_makeDirectories (hasNul_split hnul) hplace
    · rw [ok_bind] at h
      exact isSystem_of_createReply h
  write_system content e h := by
    simp only [repliesOf] at h
    exact nomatch h
  close_system e h := by
    simp only [repliesOf] at h
    exact nomatch h
  rename_system e h := by
    rw [rename_repliesOf] at h
    exact isSystem_of_renameReply hnul h
  extends_made := by
    rw [made_repliesOf]
    exact extends_makeDirectories t _
  create_new temporary h := by
    simp only [repliesOf] at h ⊢
    rcases hplace : (t.makeDirectories (FileTree.split path).1).1 with e' | place <;>
      rw [hplace] at h
    · exact nomatch h
    · rw [ok_bind] at h
      exact createReply_new h
  rename_file h := by
    rw [rename_repliesOf] at h
    exact h

/-! ### Outcomes -/

/-- A path leads to a file with this content, in the place of what it led to; at other places there
are at most new directories. -/
def Replaced (t : FileTree) (path : String) (content : List UInt8) (files : FileTree) : Prop :=
  ∃ target, files.lookup path = .found target (.file content) ∧
    (∀ place node, t.lookup path = .found place node → place = target) ∧
    ∀ place, place ≠ target → Grows (t.node? place) (files.node? place)

/-- There are at most new directories, and only where some were made at first, which a file tree does
on the way to the directory of a path (`node?_made_repliesOf`). What the path led to is still there,
and where it led to nothing it still does, unless a directory was made there. -/
structure Untouched (replies : Replies) (t : FileTree) (path : String) (files : FileTree) :
    Prop where
  extends_files : Extends t files
  unchanged : ∀ place, replies.made.node? place = t.node? place →
    files.node? place = t.node? place
  found : ∀ place node, t.lookup path = .found place node → files.lookup path = .found place node
  absent : ∀ place, t.lookup path = .absent place → replies.made.node? place = none →
    files.lookup path = .absent place

theorem untouched_of_extends {files : FileTree} (h : Extends t files)
    (hmade : ∀ place, replies.made.node? place = t.node? place →
      files.node? place = t.node? place) : Untouched replies t path files where
  extends_files := h
  unchanged := hmade
  found _ _ := h.lookup_found
  absent place habsent hnone := by
    have hplace := node?_of_lookup_absent habsent
    exact h.lookup_absent habsent ((hmade place (hnone.trans hplace.symm)).trans hplace)

theorem replaced_of_succeed {n : ℕ} {temporary : List String} (h : replies.Lawful t path)
    (hrename : replies.rename = none) (htemporary : replies.create = .ok temporary) :
    Replaced t path (content.take n)
      ((replies.made.put temporary (.file (content.take n))).rename temporary
        (placeOf (replies.made.lookup path))) := by
  obtain ⟨target, hlookup⟩ := renameReply_eq_none (h.rename_file hrename)
  have hplace : placeOf (replies.made.lookup path) = target := by
    rcases hlookup with hlookup | ⟨old, hlookup⟩ <;> rw [hlookup] <;> rfl
  have hnew := h.create_new temporary htemporary
  have hnode : replies.made.node? target ≠ some .directory := by
    rcases hlookup with hlookup | ⟨old, hlookup⟩
    · exact (node?_of_lookup_absent hlookup).trans_ne nofun
    · exact (node?_of_lookup_file hlookup).trans_ne nofun
  have hput : ∀ place, (replies.made.put temporary (.file (content.take n))).node? place =
      if place = temporary then some (.file (content.take n)) else replies.made.node? place :=
    node?_put (not_isFixed_of_none hnew)
  have hfiles := node?_rename (not_isFixed_of_none hnew) (not_isFixed hnode)
    ((hput temporary).trans (if_pos rfl))
  rw [hplace]
  refine ⟨target, ?_, fun place node hfound => ?_, fun place hne => ?_⟩
  · refine lookup_file_of_directories (fun place hdirectory => ?_) hlookup
      ((hfiles target).trans (if_pos rfl))
    have hne : place ≠ target := fun heq => hnode (heq ▸ hdirectory)
    have hne' : place ≠ temporary := by
      rintro rfl
      exact nomatch hnew.symm.trans hdirectory
    rw [hfiles, if_neg hne, if_neg hne', hput, if_neg hne', hdirectory]
  · have hmade := h.extends_made.lookup_found hfound
    rcases hlookup with hlookup | ⟨old, hlookup⟩
    · exact nomatch hmade.symm.trans hlookup
    · exact (Lookup.found.inj (hmade.symm.trans hlookup)).1
  · have hgrows := h.extends_made.put_remove hnew (.file (content.take n)) place
    rw [node?_remove (not_isFixed_of_none hnew)] at hgrows
    rwa [hfiles, if_neg hne]

/-- What a write comes to. It succeeds if every call does, and then what was written is in the place
of the target; otherwise there are at most new directories. -/
inductive Outcome (replies : Replies) (t : FileTree) (path : String) (definitions : List Definition)
    (selector : String) : Except Fault Bool × FileTree → Prop
  | written {text : String} {n : ℕ} {files : FileTree}
      (htext : renderCss definitions selector = .ok text)
      (hsucceed : replies.Succeed text.toUTF8.toList n)
      (hfiles : Replaced t path (text.toUTF8.toList.take n) files) :
      Outcome replies t path definitions selector (.ok true, files)
  | untouched {outcome : Except Fault Bool} {files : FileTree} (houtcome : outcome ≠ .ok true)
      (hnot : ∀ text n, renderCss definitions selector = .ok text →
        ¬replies.Succeed text.toUTF8.toList n)
      (hfiles : Untouched replies t path files) :
      Outcome replies t path definitions selector (outcome, files)

/-- Whatever the file system replies, success is told iff every call succeeds, however much of the
content was written; without it no file is there that was not, and none is changed. -/
theorem writeWith_outcome {replies : Replies} {t : FileTree} {path : String}
    (h : replies.Lawful t path) (definitions : List Definition) (selector : String) :
    Outcome replies t path definitions selector
      (writeWith replies t path definitions selector) := by
  unfold writeWith
  rcases htext : renderCss definitions selector with e | text
  · exact .untouched nofun (fun _ _ h => nomatch htext.symm.trans h)
      (untouched_of_extends (.refl t) fun _ _ => rfl)
  dsimp only
  by_cases hsucceed : ∃ n, replies.Succeed text.toUTF8.toList n
  · obtain ⟨n, hn⟩ := hsucceed
    obtain ⟨temporary, htemporary⟩ := hn.create
    rw [replaceFile_of_succeed hn htemporary]
    exact .written htext hn (replaced_of_succeed h hn.rename htemporary)
  · obtain ⟨outcome, files, hreplace, houtcome, hfiles⟩ :=
      replaceFile_of_not_succeed h fun n hn => hsucceed ⟨n, hn⟩
    rw [hreplace]
    refine .untouched houtcome (fun text' n htext' hn => ?_) ?_
    · rw [htext, Except.ok.injEq] at htext'
      exact hsucceed ⟨n, htext' ▸ hn⟩
    · rcases hfiles with rfl | ⟨temporary, node, htemporary, rfl⟩
      · exact untouched_of_extends h.extends_made fun _ => id
      · have hnew := h.create_new temporary htemporary
        refine untouched_of_extends (h.extends_made.put_remove hnew node) fun place hplace => ?_
        rw [node?_put_remove hnew, hplace]

/-- What fails to be renamed leaves its target untouched. -/
theorem Outcome.untouched_of_rename {definitions : List Definition} {selector : String}
    {result : Except Fault Bool × FileTree}
    (h : Outcome replies t path definitions selector result) (hrename : replies.rename ≠ none) :
    Untouched replies t path result.2 := by
  cases h with
  | written _ hsucceed => exact absurd hsucceed.rename hrename
  | untouched _ _ hfiles => exact hfiles

/-- The same replies, but that nothing may be replaced in the end. -/
def Replies.denied (replies : Replies) : Replies := { replies with rename := some .accessDenied }

theorem Replies.made_denied (replies : Replies) : replies.denied.made = replies.made := rfl

theorem Replies.Lawful.denied (h : replies.Lawful t path) : replies.denied.Lawful t path :=
  { h with
    rename_system := fun _ h => Option.some.inj h ▸ rfl
    rename_file := nofun }

/-- A tree with a stylesheet. -/
def styled : FileTree := FileTree.empty.put ["a.css"] (.file [97])

/-- Two colours. -/
def warnings : List Definition :=
  [⟨.text "danger", .text "#ff0000"⟩, ⟨.text "--warn", .text "#c85000"⟩]

/-- A write onto the stylesheet that succeeds replaces it; one that is denied in the end leaves it,
and one into a new directory leaves the directory without the file. -/
theorem writeWith_outcome_denied :
    ((repliesOf styled "a.css").Lawful styled "a.css" ∧
      (writeCss styled "a.css" warnings ":root").1 = .ok true ∧
      ∃ text, renderCss warnings ":root" = .ok text ∧ Replaced styled "a.css" text.toUTF8.toList
        (writeCss styled "a.css" warnings ":root").2) ∧
    ((repliesOf styled "a.css").denied.Lawful styled "a.css" ∧
      (writeWith (repliesOf styled "a.css").denied styled "a.css" warnings ":root").1 = .ok false ∧
      (writeWith (repliesOf styled "a.css").denied styled "a.css" warnings ":root").2.lookup
        "a.css" = .found ["a.css"] (.file [97])) ∧
    (repliesOf styled "css/b.css").denied.Lawful styled "css/b.css" ∧
      (writeWith (repliesOf styled "css/b.css").denied styled "css/b.css" warnings ":root").1 =
        .ok false ∧
      (writeWith (repliesOf styled "css/b.css").denied styled "css/b.css" warnings ":root").2.node?
        ["css", "b.css"] = none := by
  have hnul : hasNul "a.css" = false := by decide
  have hnul' : hasNul "css/b.css" = false := by decide
  have hlawful := lawful_repliesOf styled hnul
  have hdenied := hlawful.denied
  have hdenied' := (lawful_repliesOf styled hnul').denied
  have hreplaced := writeWith_outcome hlawful warnings ":root"
  have hkept := (writeWith_outcome hdenied warnings ":root").untouched_of_rename nofun
  have hmissing := (writeWith_outcome hdenied' warnings ":root").untouched_of_rename nofun
  have htrue : (writeWith (repliesOf styled "a.css") styled "a.css" warnings ":root").1 =
      .ok true := by decide +kernel
  refine ⟨⟨hlawful, htrue, ?_⟩, ⟨hdenied, by decide +kernel, ?_⟩, hdenied', by decide +kernel, ?_⟩
  · unfold writeCss
    generalize writeWith (repliesOf styled "a.css") styled "a.css" warnings ":root" = result
      at hreplaced htrue ⊢
    cases hreplaced with
    | @written text n _ htext hsucceed hfiles =>
      have hn : n = text.toUTF8.toList.length := (Except.ok.inj hsucceed.write).symm
      rw [hn, List.take_length] at hfiles
      exact ⟨text, htext, hfiles⟩
    | untouched houtcome => exact absurd htrue houtcome
  · exact hkept.found _ _ (by decide +kernel)
  · have hway : ¬OnWay (FileTree.split "css/b.css").1 ["css", "b.css"] := by decide +kernel
    have hmade := node?_made_repliesOf (t := styled) hway
    rw [← Replies.made_denied] at hmade
    exact (hmissing.unchanged _ hmade).trans (by decide +kernel)

/-- A file system that takes one byte of what is written, as it may where no more fits. -/
def shortWrite : Replies where
  directories := none
  made := .empty
  create := .ok ["t"]
  write := fun _ => .ok 1
  close := none
  rename := none

theorem lawful_shortWrite : shortWrite.Lawful .empty "a.css" where
  directories_system := nofun
  create_system := nofun
  write_system := nofun
  close_system := nofun
  rename_system := nofun
  extends_made := .refl _
  create_new := by
    rintro _ ⟨⟩
    decide +kernel
  rename_file _ := by decide +kernel

/-- A write of which one byte arrives is told as a success; one to a path that ends in a slash fails
and leaves a directory in its place. -/
theorem writeWith_cutShort :
    (shortWrite.Lawful .empty "a.css" ∧ renderCss [] ":root" = .ok ":root \x7b\n\x7d\n" ∧
      (writeWith shortWrite .empty "a.css" [] ":root").1 = .ok true ∧
      (writeWith shortWrite .empty "a.css" [] ":root").2.node? ["a.css"] = some (.file [58])) ∧
    FileTree.empty.node? ["dir"] = none ∧
      (writeCss .empty "dir/" [] ":root").1 = .ok false ∧
      (writeCss .empty "dir/" [] ":root").2.node? ["dir"] = some .directory :=
  ⟨⟨lawful_shortWrite, by decide +kernel, by decide +kernel, by decide +kernel⟩,
    by decide +kernel, by decide +kernel, by decide +kernel⟩

end Dichromat.Theme
