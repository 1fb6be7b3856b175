import Dichromat.FileTree
import Mathlib.Data.List.Basic
import Mathlib.Tactic.SplitIfs

/-!
# Changes of a file tree

Writing, removing and moving a file change what is at their own places only (`node?_put`,
`node?_remove`, `node?_rename`). Making directories extends a tree: what was there stays, under the
same paths (`Extends.lookup_found`).
-/

namespace Dichromat.FileTree

variable {t t' : FileTree} {path place : List String} {node : FileNode}

/-! ### Places -/

/-- The places that are directories in every tree. -/
def IsFixed (path : List String) : Prop := (path.all (· = "..") || path = root) = true

instance (path : List String) : Decidable (IsFixed path) := inferInstanceAs (Decidable (_ = _))

theorem node?_of_isFixed (h : IsFixed path) : t.node? path = some .directory := if_pos h

theorem node?_of_not_isFixed (h : ¬IsFixed path) :
    t.node? path = (t.nodes.find? fun entry => entry.1 = path).map Prod.snd := if_neg h

theorem not_isFixed (h : t.node? path ≠ some .directory) : ¬IsFixed path :=
  fun hfixed => h (node?_of_isFixed hfixed)

theorem not_isFixed_of_none (h : t.node? path = none) : ¬IsFixed path :=
  not_isFixed (h.trans_ne nofun)

theorem node?_remove (h : ¬IsFixed path) (place : List String) :
    (t.remove path).node? place = if place = path then none else t.node? place := by
  by_cases hfixed : IsFixed place
  · have hne : place ≠ path := fun heq => h (heq ▸ hfixed)
    rw [node?_of_isFixed hfixed, node?_of_isFixed hfixed, if_neg hne]
  · rw [node?_of_not_isFixed hfixed, node?_of_not_isFixed hfixed, remove, List.find?_filter]
    have hpred : (fun entry : List String × FileNode =>
        decide (decide (entry.1 ≠ path) = true ∧ decide (entry.1 = place) = true)) =
          fun entry => if place = path then false else decide (entry.1 = place) := by
      funext entry
      by_cases hentry : entry.1 = place
      · subst hentry
        simp
      · simp [hentry]
    rw [hpred]
    split_ifs
    · exact congrArg _ (List.find?_eq_none.2 fun _ _ => Bool.false_ne_true)
    · rfl

theorem node?_put (h : ¬IsFixed path) (place : List String) :
    (t.put path node).node? place = if place = path then some node else t.node? place := by
  by_cases hfixed : IsFixed place
  · have hne : place ≠ path := fun heq => h (heq ▸ hfixed)
    rw [node?_of_isFixed hfixed, node?_of_isFixed hfixed, if_neg hne]
  · rw [node?_of_not_isFixed hfixed, put, List.find?_cons]
    by_cases heq : path = place
    · rw [decide_eq_true heq, if_pos heq.symm]
      rfl
    · rw [decide_eq_false heq, if_neg (Ne.symm heq)]
      have hremove := node?_remove (t := t) h place
      rwa [node?_of_not_isFixed hfixed, if_neg (Ne.symm heq)] at hremove

/-- A new node that is removed again leaves nothing behind. -/
theorem node?_put_remove (hnew : t.node? path = none) (node : FileNode) (place : List String) :
    ((t.put path node).remove path).node? place = t.node? place := by
  rw [node?_remove (not_isFixed_of_none hnew), node?_put (not_isFixed_of_none hnew)]
  split_ifs with heq
  · exact heq ▸ hnew.symm
  · rfl

theorem node?_rename {source target : List String} (hsource : ¬IsFixed source)
    (htarget : ¬IsFixed target) (h : t.node? source = some node) (place : List String) :
    (t.rename source target).node? place =
      if place = target then some node else if place = source then none else t.node? place := by
  rw [rename, h]
  dsimp only
  rw [node?_put htarget, node?_remove hsource]

/-! ### Paths -/

theorem walk_of_directory {here rest : List String} {part : String}
    (hlimit : ¬nameLimit < part.utf8ByteSize) (h : t.node? (step here part) = some .directory) :
    t.walk here (part :: rest) = t.walk (step here part) rest := by
  rw [walk, if_neg hlimit]
  simp only [h]

/-- A walk that is not refused goes on through a directory, or ends at its last component. -/
theorem exists_of_walk {here : List String} {part : String} {rest : List String} {l : Lookup}
    (h : t.walk here (part :: rest) = l) (hl : ∀ e, l ≠ .refused e) :
    ¬nameLimit < part.utf8ByteSize ∧
      ((t.node? (step here part) = some .directory ∧ t.walk (step here part) rest = l) ∨
        rest = [] ∧ ((t.node? (step here part) = none ∧ l = .absent (step here part)) ∨
          ∃ bytes, t.node? (step here part) = some (.file bytes) ∧
            l = .found (step here part) (.file bytes))) := by
  rw [walk] at h
  by_cases hlimit : nameLimit < part.utf8ByteSize
  · rw [if_pos hlimit] at h
    exact absurd h.symm (hl _)
  rw [if_neg hlimit] at h
  refine ⟨hlimit, ?_⟩
  rcases hnode : t.node? (step here part) with _ | _ | bytes <;> simp only [hnode] at h
  · split_ifs at h with hrest
    · exact .inr ⟨List.isEmpty_iff.1 hrest, .inl ⟨rfl, h.symm⟩⟩
    · exact absurd h.symm (hl _)
  · exact .inl ⟨rfl, h⟩
  · split_ifs at h with hrest
    · exact .inr ⟨List.isEmpty_iff.1 hrest, .inr ⟨bytes, rfl, h.symm⟩⟩
    · exact absurd h.symm (hl _)

/-- Where directories stay, so does what a path leads to, up to the content of a file. -/
theorem walk_file_of_directories {here parts : List String} {bytes : List UInt8}
    (hdirectories : ∀ place, t.node? place = some .directory → t'.node? place = some .directory)
    (hwalk : t.walk here parts = .absent place ∨
      ∃ old, t.walk here parts = .found place (.file old))
    (hplace : t'.node? place = some (.file bytes)) :
    t'.walk here parts = .found place (.file bytes) := by
  obtain ⟨l, hl⟩ : ∃ l, t.walk here parts = l := ⟨_, rfl⟩
  have hplaceOf : l = .absent place ∨ ∃ old, l = .found place (.file old) := hl ▸ hwalk
  clear hwalk
  induction parts generalizing here with
  | nil =>
    subst hl
    exact hplaceOf.elim nofun nofun
  | cons part rest ih =>
    have hne : ∀ e, l ≠ .refused e := fun e he => by
      subst he
      exact hplaceOf.elim nofun nofun
    obtain ⟨hlimit, ⟨hnode, hrest⟩ | ⟨rfl, hend⟩⟩ := exists_of_walk hl hne
    · rw [walk_of_directory hlimit (hdirectories _ hnode)]
      exact ih hrest
    · have hstep : step here part = place := by
        rcases hend with ⟨-, rfl⟩ | ⟨old, -, rfl⟩
        · exact hplaceOf.elim Lookup.absent.inj nofun
        · exact hplaceOf.elim nofun fun ⟨_, h⟩ => (Lookup.found.inj h).1
      rw [walk, if_neg hlimit]
      simp only [hstep, hplace, List.isEmpty_nil, if_true]

theorem walk_directory_of_directories {here parts : List String}
    (hdirectories : ∀ place, t.node? place = some .directory → t'.node? place = some .directory)
    (hwalk : t.walk here parts = .found place .directory) :
    t'.walk here parts = .found place .directory := by
  induction parts generalizing here with
  | nil => exact hwalk
  | cons part rest ih =>
    obtain ⟨hlimit, ⟨hnode, hrest⟩ | ⟨rfl, hend⟩⟩ := exists_of_walk hwalk fun _ => nofun
    · rw [walk_of_directory hlimit (hdirectories _ hnode)]
      exact ih hrest
    · exact hend.elim (fun h => nomatch h.2) fun ⟨_, h⟩ => nomatch h.2

theorem walk_absent_of_directories {here parts : List String}
    (hdirectories : ∀ place, t.node? place = some .directory → t'.node? place = some .directory)
    (hwalk : t.walk here parts = .absent place) (hplace : t'.node? place = none) :
    t'.walk here parts = .absent place := by
  induction parts generalizing here with
  | nil => exact nomatch hwalk
  | cons part rest ih =>
    obtain ⟨hlimit, ⟨hnode, hrest⟩ | ⟨rfl, ⟨-, heq⟩ | ⟨_, -, heq⟩⟩⟩ :=
      exists_of_walk hwalk fun _ => nofun
    · rw [walk_of_directory hlimit (hdirectories _ hnode)]
      exact ih hrest
    · obtain rfl := Lookup.absent.inj heq
      rw [walk, if_neg hlimit]
      simp only [hplace, List.isEmpty_nil, if_true]
    · exact nomatch heq

theorem node?_of_walk_file {here parts : List String} {bytes : List UInt8}
    (h : t.walk here parts = .found place (.file bytes)) : t.node? place = some (.file bytes) := by
  induction parts generalizing here with
  | nil => exact nomatch h
  | cons part rest ih =>
    obtain ⟨-, ⟨-, hrest⟩ | ⟨-, hend⟩⟩ := exists_of_walk h fun _ => nofun
    · exact ih hrest
    · rcases hend with ⟨-, heq⟩ | ⟨bytes', hnode, heq⟩
      · exact nomatch heq
      · obtain ⟨rfl, hbytes⟩ := Lookup.found.inj heq
        exact hnode.trans (congrArg some hbytes.symm)

theorem node?_of_walk_absent {here parts : List String} (h : t.walk here parts = .absent place) :
    t.node? place = none := by
  induction parts generalizing here with
  | nil => exact nomatch h
  | cons part rest ih =>
    obtain ⟨-, ⟨-, hrest⟩ | ⟨-, hend⟩⟩ := exists_of_walk h fun _ => nofun
    · exact ih hrest
    · rcases hend with ⟨hnode, heq⟩ | ⟨bytes', -, heq⟩
      · exact Lookup.absent.inj heq ▸ hnode
      · exact nomatch heq

/-- Whether a path can lead to what is looked up, whatever the tree: only a directory has a path
that ends in a slash. -/
structure LeadsTo (path : String) (l : Lookup) : Prop where
  ne_empty : path ≠ ""
  noNul : hasNul path = false
  size_le : path.utf8ByteSize ≤ pathLimit
  directory : path.endsWith "/" = true → ∃ place, l = .found place .directory

theorem lookup_eq_iff {path : String} {l : Lookup} (hl : ∀ e, l ≠ .refused e) :
    t.lookup path = l ↔ LeadsTo path l ∧ t.walk (origin path) (components path) = l := by
  have hrefused : ∀ {e}, Lookup.refused e ≠ l := fun h => hl _ h.symm
  unfold lookup
  constructor
  · intro h
    by_cases hempty : path = ""
    · rw [if_pos hempty] at h
      exact absurd h hrefused
    by_cases hnul : hasNul path = true
    · rw [if_neg hempty, if_pos hnul] at h
      exact absurd h hrefused
    by_cases hsize : pathLimit < path.utf8ByteSize
    · rw [if_neg hempty, if_neg hnul, if_pos hsize] at h
      exact absurd h hrefused
    rw [if_neg hempty, if_neg hnul, if_neg hsize] at h
    rw [Bool.not_eq_true] at hnul
    rcases hwalk : t.walk (origin path) (components path) with ⟨place, _ | bytes⟩ | place | e <;>
      simp only [hwalk] at h
    · exact ⟨⟨hempty, hnul, Nat.le_of_not_lt hsize, fun _ => ⟨place, h.symm⟩⟩, h⟩
    · by_cases hslash : path.endsWith "/" = true
      · rw [if_pos hslash] at h
        exact absurd h hrefused
      · rw [if_neg hslash] at h
        exact ⟨⟨hempty, hnul, Nat.le_of_not_lt hsize, fun h => absurd h hslash⟩, h⟩
    · by_cases hslash : path.endsWith "/" = true
      · rw [if_pos hslash] at h
        exact absurd h hrefused
      · rw [if_neg hslash] at h
        exact ⟨⟨hempty, hnul, Nat.le_of_not_lt hsize, fun h => absurd h hslash⟩, h⟩
    · exact absurd h hrefused
  · rintro ⟨hpath, hwalk⟩
    rw [if_neg hpath.ne_empty, if_neg (Bool.eq_false_iff.1 hpath.noNul),
      if_neg (Nat.not_lt.2 hpath.size_le), hwalk]
    have hslash : (∀ place, l ≠ .found place .directory) → ¬path.endsWith "/" = true :=
      fun hne h => (hpath.directory h).elim hne
    rcases l with ⟨place, _ | bytes⟩ | place | e
    · rfl
    · exact if_neg (hslash nofun)
    · exact if_neg (hslash nofun)
    · exact absurd rfl (hl e)

theorem lookup_absent_iff {path : String} : t.lookup path = .absent place ↔
    LeadsTo path (.absent place) ∧ t.walk (origin path) (components path) = .absent place :=
  lookup_eq_iff nofun

theorem lookup_found_iff {path : String} : t.lookup path = .found place node ↔
    LeadsTo path (.found place node) ∧
      t.walk (origin path) (components path) = .found place node :=
  lookup_eq_iff nofun

theorem lookup_file_of_directories {path : String} {bytes : List UInt8}
    (hdirectories : ∀ place, t.node? place = some .directory → t'.node? place = some .directory)
    (hlookup : t.lookup path = .absent place ∨ ∃ old, t.lookup path = .found place (.file old))
    (hplace : t'.node? place = some (.file bytes)) :
    t'.lookup path = .found place (.file bytes) := by
  obtain ⟨hpath, hwalk⟩ : LeadsTo path (.found place (.file bytes)) ∧
      (t.walk (origin path) (components path) = .absent place ∨
        ∃ old, t.walk (origin path) (components path) = .found place (.file old)) := by
    rcases hlookup with h | ⟨old, h⟩
    · obtain ⟨⟨hempty, hnul, hsize, hslash⟩, hwalk⟩ := lookup_absent_iff.1 h
      exact ⟨⟨hempty, hnul, hsize, fun h => (hslash h).elim nofun⟩, .inl hwalk⟩
    · obtain ⟨⟨hempty, hnul, hsize, hslash⟩, hwalk⟩ := lookup_found_iff.1 h
      exact ⟨⟨hempty, hnul, hsize, fun h => (hslash h).elim nofun⟩, .inr ⟨old, hwalk⟩⟩
  exact lookup_found_iff.2 ⟨hpath, walk_file_of_directories hdirectories hwalk hplace⟩

theorem lookup_directory_of_directories {path : String}
    (hdirectories : ∀ place, t.node? place = some .directory → t'.node? place = some .directory)
    (hlookup : t.lookup path = .found place .directory) :
    t'.lookup path = .found place .directory := by
  obtain ⟨hpath, hwalk⟩ := lookup_found_iff.1 hlookup
  exact lookup_found_iff.2 ⟨hpath, walk_directory_of_directories hdirectories hwalk⟩

theorem lookup_absent_of_directories {path : String}
    (hdirectories : ∀ place, t.node? place = some .directory → t'.node? place = some .directory)
    (hlookup : t.lookup path = .absent place) (hplace : t'.node? place = none) :
    t'.lookup path = .absent place := by
  obtain ⟨hpath, hwalk⟩ := lookup_absent_iff.1 hlookup
  exact lookup_absent_iff.2 ⟨hpath, walk_absent_of_directories hdirectories hwalk hplace⟩

theorem node?_of_lookup_file {path : String} {bytes : List UInt8}
    (h : t.lookup path = .found place (.file bytes)) : t.node? place = some (.file bytes) :=
  node?_of_walk_file (lookup_found_iff.1 h).2

theorem node?_of_lookup_absent {path : String} (h : t.lookup path = .absent place) :
    t.node? place = none :=
  node?_of_walk_absent (lookup_absent_iff.1 h).2

/-! ### New directories -/

/-- What is at a place stays, but a directory may be made where nothing was. -/
def Grows (before after : Option FileNode) : Prop :=
  after = before ∨ before = none ∧ after = some .directory

/-- Directories are made, and all else stays. -/
def Extends (t t' : FileTree) : Prop := ∀ place, Grows (t.node? place) (t'.node? place)

namespace Extends

theorem refl (t : FileTree) : Extends t t := fun _ => .inl rfl

theorem trans {u : FileTree} (h : Extends t t') (h' : Extends t' u) : Extends t u := fun place => by
  rcases h place, h' place with ⟨heq | ⟨hnone, heq⟩, heq' | ⟨hnone', heq'⟩⟩
  · exact .inl (heq'.trans heq)
  · exact .inr ⟨heq ▸ hnone', heq'⟩
  · exact .inr ⟨hnone, heq'.trans heq⟩
  · exact absurd (heq.symm.trans hnone') nofun

theorem put_directory (h : t.node? path = none) :
    Extends t (t.put path .directory) := fun place => by
  rw [node?_put (not_isFixed_of_none h)]
  split_ifs with heq
  · exact .inr ⟨heq ▸ h, rfl⟩
  · exact .inl rfl

theorem put_remove (h : Extends t t') (hnew : t'.node? path = none) (node : FileNode) :
    Extends t ((t'.put path node).remove path) :=
  fun place => (node?_put_remove hnew node place).symm ▸ h place

theorem directory (h : Extends t t') {place : List String}
    (hplace : t.node? place = some .directory) : t'.node? place = some .directory := by
  rcases h place with heq | ⟨-, heq⟩
  · exact heq.trans hplace
  · exact heq

/-- What a path leads to is still there under the path. -/
theorem lookup_found (h : Extends t t') {path : String}
    (hfound : t.lookup path = .found place node) : t'.lookup path = .found place node := by
  rcases node with _ | bytes
  · exact lookup_directory_of_directories (fun _ => h.directory) hfound
  · refine lookup_file_of_directories (fun _ => h.directory) (.inr ⟨bytes, hfound⟩) ?_
    have hnode := node?_of_lookup_file hfound
    rcases h place with heq | ⟨hnone, -⟩
    · exact heq.trans hnode
    · exact absurd (hnode.symm.trans hnone) nofun

/-- A path that leads to nothing still does, unless a directory is made there. -/
theorem lookup_absent (h : Extends t t') {path : String} (habsent : t.lookup path = .absent place)
    (hplace : t'.node? place = none) : t'.lookup path = .absent place :=
  lookup_absent_of_directories (fun _ => h.directory) habsent hplace

end Extends

theorem extends_makeBelow (t : FileTree) (here : List String) (made : Bool)
    (parts : List (String × ℕ)) : Extends t (t.makeBelow here made parts).2 := by
  induction parts generalizing t here made with
  | nil => exact .refl t
  | cons part rest ih =>
    obtain ⟨part, stop⟩ := part
    unfold makeBelow
    split_ifs
    · exact ih t here made
    · exact .refl t
    · exact .refl t
    · rcases hnode : t.node? (step here part) with _ | _ | bytes <;> simp only [hnode]
      · exact (Extends.put_directory hnode).trans (ih _ _ _)
      · exact ih _ _ _
      · exact .refl t

/-- Making the directories of a path does nothing else, whatever its outcome. -/
theorem extends_makeDirectories (t : FileTree) (path : String) :
    Extends t (t.makeDirectories path).2 :=
  extends_makeBelow _ _ _ _

/-- The places that the components of a path lead through, to the last one. -/
def OnWay (path : String) (place : List String) : Prop :=
  ∃ k < (components path).length, place = ((components path).take (k + 1)).foldl step (origin path)

instance (path : String) (place : List String) : Decidable (OnWay path place) :=
  inferInstanceAs (Decidable (∃ k < _, _))

theorem node?_makeBelow {here : List String} {made : Bool} {parts : List (String × ℕ)}
    (h : ∀ k < (parts.map Prod.fst).length,
      place ≠ ((parts.map Prod.fst).take (k + 1)).foldl step here) :
    (t.makeBelow here made parts).2.node? place = t.node? place := by
  induction parts generalizing t here made with
  | nil => rfl
  | cons part rest ih =>
    obtain ⟨part, stop⟩ := part
    have hfirst : place ≠ step here part := h 0 (Nat.succ_pos _)
    have hrest : ∀ k < (rest.map Prod.fst).length,
        place ≠ ((rest.map Prod.fst).take (k + 1)).foldl step (step here part) :=
      fun k hk => h (k + 1) (Nat.succ_lt_succ hk)
    unfold makeBelow
    split_ifs with hdot
    · obtain rfl : part = "." := of_decide_eq_true (Bool.and_eq_true_iff.1 hdot).2
      exact ih hrest
    · rfl
    · rfl
    · rcases hnode : t.node? (step here part) with _ | _ | bytes <;> simp only [hnode]
      · rw [ih hrest, node?_put (not_isFixed_of_none hnode), if_neg hfirst]
      · exact ih hrest

/-- The directories that are made are on the way. -/
theorem node?_makeDirectories {path : String} (h : ¬OnWay path place) :
    (t.makeDirectories path).2.node? place = t.node? place :=
  node?_makeBelow fun k hk heq => h ⟨k, hk, heq⟩

/-! ### Faults -/

theorem mem_of_mem_splitOn {c d : Char} {cs part : List Char} (h : part ∈ cs.splitOn d)
    (hc : c ∈ part) : c ∈ cs := by
  induction cs generalizing part with
  | nil =>
    rw [List.splitOn_nil, List.mem_singleton] at h
    exact absurd (h ▸ hc) List.not_mem_nil
  | cons first cs ih =>
    rw [List.splitOn_cons_eq_if_modifyHead] at h
    split_ifs at h
    · rcases List.mem_cons.1 h with rfl | h
      · exact absurd hc List.not_mem_nil
      · exact List.mem_cons_of_mem _ (ih h hc)
    · obtain ⟨head, tail, hsplit⟩ := List.exists_cons_of_ne_nil (List.splitOn_ne_nil d cs)
      rw [hsplit, List.modifyHead_cons] at h
      rcases List.mem_cons.1 h with rfl | h
      · rcases List.mem_cons.1 hc with rfl | hc
        · exact List.mem_cons_self
        · exact List.mem_cons_of_mem _ (ih (hsplit ▸ List.mem_cons_self) hc)
      · exact List.mem_cons_of_mem _ (ih (hsplit ▸ List.mem_cons_of_mem _ h) hc)

theorem hasNul_eq_false_iff {s : String} : hasNul s = false ↔ ∀ c ∈ s.toList, c ≠ '\x00' := by
  rw [hasNul, List.any_eq_false]
  simp only [decide_eq_true_eq, ne_eq]

theorem hasNul_of_mem_parts {path part : String} (h : hasNul path = false)
    (hpart : part ∈ parts path) : hasNul part = false := by
  obtain ⟨chars, hchars, rfl⟩ := List.mem_map.1 hpart
  rw [hasNul_eq_false_iff] at h ⊢
  rw [String.toList_ofList]
  exact fun c hc => h c (mem_of_mem_splitOn hchars hc)

theorem mem_parts_of_mem_measuredComponents {path : String} {component : String × ℕ}
    (h : component ∈ measuredComponents path) : component.1 ∈ parts path := by
  have hfold : ∀ (rest : List String) (acc : List (String × ℕ) × ℕ),
      (∀ part ∈ rest, part ∈ parts path) → (∀ c ∈ acc.1, c.1 ∈ parts path) →
      ∀ c ∈ (rest.foldl (fun (acc : List (String × ℕ) × ℕ) part =>
        let stop := acc.2 + part.utf8ByteSize
        (if part = "" then acc.1 else acc.1 ++ [(part, stop)], stop + 1)) acc).1,
        c.1 ∈ parts path := fun rest => by
    induction rest with
    | nil => exact fun acc _ hacc => hacc
    | cons part rest ih =>
      intro acc hrest hacc
      obtain ⟨hpart, hrest⟩ := List.forall_mem_cons.1 hrest
      refine ih _ hrest ?_
      dsimp only
      split_ifs
      · exact hacc
      · exact List.forall_mem_append.2 ⟨hacc, List.forall_mem_singleton.2 hpart⟩
  exact hfold (parts path) ([], 0) (fun _ h => h) nofun component h

/-- Without a null character in the path, only the file system refuses to make directories. -/
theorem isSystem_of_makeBelow {here : List String} {made : Bool} {parts : List (String × ℕ)}
    (hnul : ∀ part ∈ parts, hasNul part.1 = false) {e : Fault}
    (he : (t.makeBelow here made parts).1 = .error e) : e.isSystem = true := by
  induction parts generalizing t here made with
  | nil => exact nomatch he
  | cons part rest ih =>
    obtain ⟨part, stop⟩ := part
    obtain ⟨hpart, hrest⟩ := List.forall_mem_cons.1 hnul
    unfold makeBelow at he
    simp only [hpart, Bool.false_eq_true, if_false] at he
    split_ifs at he
    · exact ih hrest he
    · exact Except.error.inj he ▸ rfl
    · rcases hnode : t.node? (step here part) with _ | _ | bytes <;> simp only [hnode] at he
      · exact ih hrest he
      · exact ih hrest he
      · rw [← Except.error.inj he]
        rcases rest with _ | ⟨⟨next, stop'⟩, rest⟩
        · rfl
        · rw [belowFile, (List.forall_mem_cons.1 hrest).1]
          split_ifs <;> first | rfl | contradiction

theorem isSystem_of_makeDirectories {path : String} (hnul : hasNul path = false) {e : Fault}
    (he : (t.makeDirectories path).1 = .error e) : e.isSystem = true :=
  isSystem_of_makeBelow (fun _ h => hasNul_of_mem_parts hnul
    (mem_parts_of_mem_measuredComponents h)) he

theorem isSystem_of_walk {here parts : List String} {e : Fault}
    (h : t.walk here parts = .refused e) : e.isSystem = true := by
  induction parts generalizing here with
  | nil => exact nomatch h
  | cons part rest ih =>
    rw [walk] at h
    by_cases hlimit : nameLimit < part.utf8ByteSize
    · rw [if_pos hlimit] at h
      exact Lookup.refused.inj h ▸ rfl
    rw [if_neg hlimit] at h
    rcases hnode : t.node? (step here part) with _ | _ | bytes <;> simp only [hnode] at h
    · split_ifs at h
      exact Lookup.refused.inj h ▸ rfl
    · exact ih h
    · split_ifs at h
      exact Lookup.refused.inj h ▸ rfl

theorem isSystem_of_lookup {path : String} (hnul : hasNul path = false) {e : Fault}
    (h : t.lookup path = .refused e) : e.isSystem = true := by
  unfold lookup at h
  simp only [hnul, Bool.false_eq_true, if_false] at h
  by_cases hempty : path = ""
  · rw [if_pos hempty] at h
    exact Lookup.refused.inj h ▸ rfl
  by_cases hsize : pathLimit < path.utf8ByteSize
  · rw [if_neg hempty, if_pos hsize] at h
    exact Lookup.refused.inj h ▸ rfl
  rw [if_neg hempty, if_neg hsize] at h
  rcases hwalk : t.walk (origin path) (components path) with ⟨place, _ | bytes⟩ | place | e' <;>
    simp only [hwalk] at h
  · exact nomatch h
  · split_ifs at h
    exact Lookup.refused.inj h ▸ rfl
  · split_ifs at h
    exact Lookup.refused.inj h ▸ rfl
  · exact Lookup.refused.inj h ▸ isSystem_of_walk hwalk

/-! ### New names -/

theorem length_le_foldl_max {parts : List String} {part : String} (h : part ∈ parts) (n : ℕ) :
    part.length ≤ parts.foldl (fun n part => max n part.length) n := by
  have hle : ∀ (parts : List String) (n : ℕ),
      n ≤ parts.foldl (fun n part => max n part.length) n := fun parts => by
    induction parts with
    | nil => exact fun n => Nat.le_refl n
    | cons part parts ih => exact fun n => Nat.le_trans (Nat.le_max_left n part.length) (ih _)
  induction parts generalizing n with
  | nil => exact nomatch h
  | cons first parts ih =>
    rcases List.mem_cons.1 h with rfl | h
    · exact Nat.le_trans (Nat.le_max_right n part.length) (hle parts _)
    · exact ih h _

/-- A fresh name is longer than every name of the tree. -/
theorem node?_append_freshName (t : FileTree) (directory : List String) :
    t.node? (directory ++ [t.freshName]) = none := by
  have hmem : t.freshName ∈ directory ++ [t.freshName] :=
    List.mem_append_right _ (List.mem_singleton.2 rfl)
  have hfixed : ¬IsFixed (directory ++ [t.freshName]) := by
    have hhead : t.freshName.toList.head? = some 't' := by
      rw [freshName, String.toList_ofList]
      rfl
    intro h
    rcases (Bool.or_eq_true _ _).mp h with h | h
    · have hdots := of_decide_eq_true (List.all_eq_true.1 h _ hmem)
      rw [hdots] at hhead
      exact absurd hhead (by decide)
    · rw [of_decide_eq_true h, root, List.mem_singleton] at hmem
      rw [hmem] at hhead
      exact absurd hhead (by decide)
  have hlong : ∀ entry ∈ t.nodes, ¬decide (entry.1 = directory ++ [t.freshName]) = true := by
    intro entry hentry h
    have hnodes : t.freshName ∈ t.nodes.flatMap Prod.fst :=
      List.mem_flatMap.2 ⟨entry, hentry, of_decide_eq_true h ▸ hmem⟩
    have hle := length_le_foldl_max hnodes 0
    have hlength : t.freshName.length =
        (t.nodes.flatMap Prod.fst).foldl (fun n part => max n part.length) 0 + 1 := by
      rw [freshName, String.length_ofList, List.length_replicate]
    omega
  rw [node?_of_not_isFixed hfixed, List.find?_eq_none.2 hlong]
  rfl

end Dichromat.FileTree
