import Glint.Proofs.PathName
import Glint.ShaderFile
import Mathlib.Data.List.Induction

/-!
# What a change of a tree keeps

Directories are made only where nothing stands, and a file is written only where there is no
directory. So every change of a tree keeps all its directories and all files but the one that is
written, and what is read through directories that were there before is still read alike.

## Main definitions

* `FileTree.fileAt?` — the contents of the file at a place
* `FileTree.Keeps` — a tree has the directories of another one, and its files but for some places

## Main results

* `FileTree.findFrom_append` — names are followed in two parts
* `FileTree.keeps_makeDirectory`, `FileTree.keeps_writeText` — what the operations keep
* `FileTree.exists_writeText_iff` — when a file can be written
* `FileTree.Keeps.load_eq` — a shader file that is kept is read alike
-/

namespace Glint

/-- A name that leads on to its own entry. -/
theorem Path.follow_of_isFixed_eq_false {name : String} (h : isFixed name = false)
    (dir : List String) : follow dir name = dir ++ [name] := by
  simp only [isFixed, Bool.or_eq_false_iff, beq_eq_false_iff_ne] at h
  rw [follow, if_neg h.1.1, if_neg h.1.2]

theorem Path.IsEntry.isFixed_eq {name : String} (h : IsEntry name) : isFixed name = false := by
  have hidle := h.not_idle
  have hparent := h.not_parent
  have hslash := h.notMem_slash
  simp only [isFixed, Bool.or_eq_false_iff, beq_eq_false_iff_ne]
  refine ⟨⟨?_, ?_⟩, ?_⟩ <;> rintro rfl
  · simp [isIdle] at hidle
  · simp [isParent] at hparent
  · simp at hslash

namespace FileTree

variable {tree tree' : FileTree} {dir key names rest : List String} {name : String}
  {node : FileNode} {nodes : List (List String × FileNode)} {contents : ByteArray}

/-! ### Following names -/

/-- Names that go on are followed from where the first of them lead to, if that is a directory. -/
theorem findFrom_append (hrest : rest ≠ []) :
    tree.findFrom dir (names ++ rest) =
      match tree.findFrom dir names with
      | .ok .directory => tree.findFrom (names.foldl Path.follow dir) rest
      | .ok (.file _) => .error .notDirectory
      | .error failure => .error failure := by
  induction names generalizing dir with
  | nil => rfl
  | cons name names ih =>
    have hmore : (names ++ rest).isEmpty = false := by simp [hrest]
    rw [List.cons_append, findFrom, findFrom, List.foldl_cons]
    split
    · exact ih
    · rename_i hfixed
      split
      · rfl
      · cases hnode : tree.nodes.lookup (dir ++ [name]) with
        | none => rfl
        | some node =>
          cases node with
          | file contents =>
            -- A file ends the search, whether the names that are left are of the first part or not.
            dsimp only
            rw [hmore]
            cases names <;> rfl
          | directory =>
            rw [Path.follow_of_isFixed_eq_false (eq_false_of_ne_true hfixed)]
            exact ih

theorem find_eq_ok_iff : tree.find names = .ok node ↔
    (names.any fun name => name.toList.contains '\x00') = false ∧
      tree.findFrom [] names = .ok node := by
  rw [find]
  cases names.any fun name => name.toList.contains '\x00' <;> simp

/-- What the entry of a directory is, for a name that can lead to one. -/
def entryAt (tree : FileTree) (key : List String) (name : String) : Except FileFailure FileNode :=
  if name.toList.contains '\x00' then .error .invalidName
  else if maxNameLength < name.utf8ByteSize then .error .nameTooLong
  else match tree.nodes.lookup key with
    | some node => .ok node
    | none => .error .notFound

theorem resolve_concat (hfixed : Path.isFixed name = false) :
    Path.resolve (names ++ [name]) = Path.resolve names ++ [name] := by
  rw [Path.resolve, List.foldl_append]
  exact Path.follow_of_isFixed_eq_false hfixed _

/-- A name leads from a directory to the entry of that name. -/
theorem find_concat (h : tree.find names = .ok .directory) (hfixed : Path.isFixed name = false) :
    tree.find (names ++ [name]) = tree.entryAt (Path.resolve (names ++ [name])) name := by
  obtain ⟨hnul, hfind⟩ := find_eq_ok_iff.mp h
  rw [find, List.any_append, hnul, Bool.false_or, List.any_cons, List.any_nil, Bool.or_false,
    findFrom_append (List.cons_ne_nil _ _), hfind, entryAt, resolve_concat hfixed]
  dsimp only
  rw [findFrom, hfixed, if_neg Bool.false_ne_true, Path.resolve]
  cases tree.nodes.lookup (names.foldl Path.follow [] ++ [name]) with
  | none => rfl
  | some node => cases node <;> rfl

/-- From a file no name leads on. -/
theorem find_concat_of_file (h : tree.find names = .ok (.file contents)) (name : String) :
    ∃ failure, failure ≠ .notFound ∧ tree.find (names ++ [name]) = .error failure := by
  obtain ⟨-, hfind⟩ := find_eq_ok_iff.mp h
  rw [find, findFrom_append (List.cons_ne_nil _ _), hfind]
  split
  · exact ⟨.invalidName, by decide, rfl⟩
  · exact ⟨.notDirectory, by decide, rfl⟩

/-- Names that lead somewhere lead on to a directory or to an entry, or they fail for another
reason than that nothing stands there. -/
theorem find_concat_cases (h : tree.find names = .ok node) (name : String) :
    tree.find (names ++ [name]) = .ok .directory ∨
      (∃ failure, failure ≠ .notFound ∧ tree.find (names ++ [name]) = .error failure) ∨
      tree.find (names ++ [name]) = tree.entryAt (Path.resolve (names ++ [name])) name := by
  cases node with
  | file contents => exact .inr (.inl (find_concat_of_file h name))
  | directory =>
    cases hfixed : Path.isFixed name with
    | false => exact .inr (.inr (find_concat h hfixed))
    | true =>
      -- A name that leads nowhere or up is followed without a look at the tree.
      obtain ⟨-, hfind⟩ := find_eq_ok_iff.mp h
      rw [find, findFrom_append (List.cons_ne_nil _ _), hfind]
      split
      · exact .inr (.inl ⟨.invalidName, by decide, rfl⟩)
      · refine .inl ?_
        dsimp only
        rw [findFrom, hfixed, if_pos rfl, findFrom]

theorem find_of_find_concat (h : tree.find (names ++ [name]) = .ok node) :
    tree.find names = .ok .directory := by
  obtain ⟨hnul, hfind⟩ := find_eq_ok_iff.mp h
  rw [List.any_append, Bool.or_eq_false_iff] at hnul
  rw [findFrom_append (List.cons_ne_nil _ _)] at hfind
  split at hfind
  · rename_i hdir
    exact find_eq_ok_iff.mpr ⟨hnul.1, hdir⟩
  · cases hfind
  · cases hfind

theorem lookup_of_entryAt_eq_ok (h : tree.entryAt key name = .ok node) :
    tree.nodes.lookup key = some node := by
  rw [entryAt] at h
  split at h
  · cases h
  · split at h
    · cases h
    · split at h
      · rename_i hnode
        rw [hnode, Except.ok.inj h]
      · cases h

theorem lookup_of_entryAt_eq_notFound (h : tree.entryAt key name = .error .notFound) :
    tree.nodes.lookup key = none := by
  rw [entryAt] at h
  split at h
  · cases h
  · split at h
    · cases h
    · split at h
      · cases h
      · assumption

/-- Where names lead to a file, the file stands. -/
theorem lookup_of_find_eq_file (h : tree.find names = .ok (.file contents)) :
    tree.nodes.lookup (Path.resolve names) = some (.file contents) := by
  cases names using List.reverseRecOn with
  | nil => cases h
  | append_singleton dir name =>
    rcases find_concat_cases (find_of_find_concat h) name with hdir | ⟨_, -, hfail⟩ | hentry
    · cases hdir.symm.trans h
    · cases hfail.symm.trans h
    · exact lookup_of_entryAt_eq_ok (hentry.symm.trans h)

/-- Where names lead to nothing in a directory, nothing stands. -/
theorem lookup_of_find_eq_notFound (h : tree.find names = .error .notFound)
    (hinit : tree.find names.dropLast = .ok node) :
    tree.nodes.lookup (Path.resolve names) = none := by
  cases names using List.reverseRecOn with
  | nil => cases h
  | append_singleton dir name =>
    rw [List.dropLast_concat] at hinit
    rcases find_concat_cases hinit name with hdir | ⟨failure, hne, hfail⟩ | hentry
    · cases hdir.symm.trans h
    · exact absurd (Except.error.inj (hfail.symm.trans h)) hne
    · exact lookup_of_entryAt_eq_notFound (hentry.symm.trans h)

/-! ### Changing a node -/

theorem lookup_cons : ((names, node) :: nodes).lookup key =
    if key = names then some node else nodes.lookup key := by
  rw [List.lookup_cons]
  by_cases h : key = names
  · rw [if_pos h, beq_iff_eq.mpr h]
  · rw [if_neg h, beq_false_of_ne h]

/-- A node that has been put into a tree is found there, and no other is changed. -/
theorem lookup_put :
    (put names node nodes).lookup key = if key = names then some node else nodes.lookup key := by
  induction nodes with
  | nil => exact lookup_cons
  | cons old nodes ih =>
    rw [put]
    split
    · rename_i hold
      subst hold
      rw [lookup_cons, lookup_cons]
      split <;> rfl
    · rename_i hold
      rw [lookup_cons, lookup_cons, ih]
      by_cases hkey : key = old.1
      · rw [if_pos hkey, if_pos hkey, if_neg (hkey ▸ hold)]
      · rw [if_neg hkey, if_neg hkey]

theorem add_eq_ok_iff : tree.add names node = .ok tree' ↔
    (∃ above, tree.find names.dropLast = .ok above) ∧
      tree' = ⟨put (Path.resolve names) node tree.nodes⟩ := by
  rw [add]
  cases tree.find names.dropLast <;> simp [eq_comm]

/-- A text is written where no directory stands. -/
theorem writeText_eq_ok {text : String} (h : tree.writeText names text = .ok tree') :
    tree.nodes.lookup (Path.resolve names) ≠ some .directory ∧
      tree' = ⟨put (Path.resolve names) (.file text.toUTF8) tree.nodes⟩ := by
  rw [writeText] at h
  split at h
  · cases h
  · rename_i hfile
    rw [lookup_of_find_eq_file hfile]
    exact ⟨nofun, (add_eq_ok_iff.mp h).2⟩
  · rename_i hnone
    obtain ⟨⟨above, habove⟩, htree⟩ := add_eq_ok_iff.mp h
    rw [lookup_of_find_eq_notFound hnone habove]
    exact ⟨nofun, htree⟩
  · cases h

/-- A directory is made where nothing stands, unless it is there already. -/
theorem makeStep_eq_ok (h : tree.makeStep names = .ok tree') :
    tree' = tree ∨ tree.nodes.lookup (Path.resolve names) = none ∧
      tree' = ⟨put (Path.resolve names) .directory tree.nodes⟩ := by
  rw [makeStep] at h
  split at h
  · exact .inl (Except.ok.inj h).symm
  · cases h
  · rename_i hnone
    obtain ⟨⟨above, habove⟩, htree⟩ := add_eq_ok_iff.mp h
    exact .inr ⟨lookup_of_find_eq_notFound hnone habove, htree⟩
  · cases h

/-! ### What is kept -/

/-- The contents of the file at a place, if one stands there. -/
def fileAt? (tree : FileTree) (key : List String) : Option ByteArray :=
  match tree.nodes.lookup key with
  | some (.file contents) => some contents
  | some .directory | none => none

theorem fileAt?_eq_some_iff :
    tree.fileAt? key = some contents ↔ tree.nodes.lookup key = some (.file contents) := by
  rw [fileAt?]
  rcases tree.nodes.lookup key with - | (- | -) <;> simp

/-- The second tree has the directories of the first one, and the same files, but for those at some
places. -/
structure Keeps (changed : List String → Prop) (tree tree' : FileTree) : Prop where
  directory : ∀ key, tree.nodes.lookup key = some .directory →
    tree'.nodes.lookup key = some .directory
  fileAt? : ∀ key, ¬ changed key → tree'.fileAt? key = tree.fileAt? key

namespace Keeps

variable {changed changed' : List String → Prop} {tree'' : FileTree}

theorem refl (changed : List String → Prop) (tree : FileTree) : Keeps changed tree tree :=
  ⟨fun _ => id, fun _ _ => rfl⟩

theorem trans (h : Keeps changed tree tree') (h' : Keeps changed tree' tree'') :
    Keeps changed tree tree'' :=
  ⟨fun key hkey => h'.directory key (h.directory key hkey),
    fun key hkey => (h'.fileAt? key hkey).trans (h.fileAt? key hkey)⟩

theorem mono (h : Keeps changed tree tree') (hmore : ∀ key, changed key → changed' key) :
    Keeps changed' tree tree' :=
  ⟨h.directory, fun key hkey => h.fileAt? key fun hchanged => hkey (hmore key hchanged)⟩

end Keeps

/-- Making a directory changes no file. -/
theorem keeps_makeStep (h : tree.makeStep names = .ok tree') :
    Keeps (fun _ => False) tree tree' := by
  rcases makeStep_eq_ok h with rfl | ⟨hnone, rfl⟩
  · exact .refl _ _
  · constructor
    · intro key hkey
      rw [lookup_put, hkey, ite_self]
    · intro key _
      rw [fileAt?, fileAt?, lookup_put]
      by_cases hkey : key = Path.resolve names
      · rw [if_pos hkey, hkey, hnone]
      · rw [if_neg hkey]

theorem keeps_makeFrom (tree : FileTree) (above : List (List String)) :
    Keeps (fun _ => False) tree (tree.makeFrom above).1 := by
  induction above with
  | nil => exact .refl _ _
  | cons names above ih =>
    rw [makeFrom]
    split
    · rename_i made hmade
      exact keeps_makeStep hmade
    -- The directories above are made first, and stay also if this one cannot be made then.
    · split
      · rename_i made failure hmade
        rwa [hmade] at ih
      · rename_i made hmade
        rw [hmade] at ih
        split
        · rename_i whole hwhole
          exact ih.trans (keeps_makeStep hwhole)
        · exact ih
    · exact .refl _ _

/-- Making a directory with those above it changes no file, also if it fails. -/
theorem keeps_makeDirectory (tree : FileTree) (names : List String) :
    Keeps (fun _ => False) tree (tree.makeDirectory names).1 :=
  keeps_makeFrom tree _

/-- Writing a text changes one file and makes no directory. -/
theorem lookup_directory_of_writeText {text : String} (h : tree.writeText names text = .ok tree') :
    tree'.nodes.lookup key = some .directory ↔ tree.nodes.lookup key = some .directory := by
  obtain ⟨hfile, rfl⟩ := writeText_eq_ok h
  rw [lookup_put]
  split
  · rename_i heq
    subst heq
    exact iff_of_false nofun hfile
  · exact Iff.rfl

theorem keeps_writeText {text : String} (h : tree.writeText names text = .ok tree') :
    Keeps (· = Path.resolve names) tree tree' := by
  refine ⟨fun key => (lookup_directory_of_writeText h).mpr, fun key hkey => ?_⟩
  obtain ⟨-, rfl⟩ := writeText_eq_ok h
  rw [fileAt?, fileAt?, lookup_put, if_neg hkey]

/-! ### What is found still -/

theorem entryAt_of (hnul : name.toList.contains '\x00' = false)
    (hlength : name.utf8ByteSize ≤ maxNameLength) :
    tree.entryAt key name = match tree.nodes.lookup key with
      | some node => .ok node
      | none => .error .notFound := by
  rw [entryAt, hnul, if_neg Bool.false_ne_true, if_neg (Nat.not_lt.mpr hlength)]

/-- A text can be written only in a directory. -/
theorem find_of_writeText {text : String} (h : tree.writeText (dir ++ [name]) text = .ok tree') :
    tree.find dir = .ok .directory := by
  rw [writeText] at h
  split at h
  · cases h
  · rename_i hfile
    exact find_of_find_concat hfile
  · rename_i hnone
    obtain ⟨⟨above, habove⟩, -⟩ := add_eq_ok_iff.mp h
    rw [List.dropLast_concat] at habove
    cases above with
    | file contents =>
      obtain ⟨failure, hne, hfail⟩ := find_concat_of_file habove name
      exact absurd (Except.error.inj (hfail.symm.trans hnone)) hne
    | directory => exact habove
  · cases h

/-- A text can be written exactly in a directory that is there, under a name that can stand in it
and where no directory stands. -/
theorem exists_writeText_iff (hfixed : Path.isFixed name = false) (text : String) :
    (∃ written, tree.writeText (dir ++ [name]) text = .ok written) ↔
      tree.find dir = .ok .directory ∧ name.toList.contains '\x00' = false ∧
        name.utf8ByteSize ≤ maxNameLength ∧
        tree.nodes.lookup (Path.resolve (dir ++ [name])) ≠ some .directory := by
  constructor
  · rintro ⟨written, h⟩
    have hdir := find_of_writeText h
    -- The failure of a bad name is that of the write.
    have hnul : name.toList.contains '\x00' = false := by
      by_contra hnul
      rw [writeText, find_concat hdir hfixed, entryAt, eq_true_of_ne_false hnul, if_pos rfl] at h
      cases h
    refine ⟨hdir, hnul, ?_, (writeText_eq_ok h).1⟩
    by_contra hlength
    rw [writeText, find_concat hdir hfixed, entryAt, hnul, if_neg Bool.false_ne_true,
      if_pos (Nat.lt_of_not_le hlength)] at h
    cases h
  · rintro ⟨hdir, hnul, hlength, hentry⟩
    have habove : tree.find (dir ++ [name]).dropLast = .ok .directory := by
      rwa [List.dropLast_concat]
    rw [writeText, find_concat hdir hfixed, entryAt_of hnul hlength]
    rcases hnode : tree.nodes.lookup (Path.resolve (dir ++ [name])) with - | (contents | -)
    · exact ⟨_, add_eq_ok_iff.mpr ⟨⟨_, habove⟩, rfl⟩⟩
    · exact ⟨_, add_eq_ok_iff.mpr ⟨⟨_, habove⟩, rfl⟩⟩
    · exact absurd hnode hentry

namespace Keeps

variable {changed : List String → Prop}

theorem findFrom_directory (h : Keeps changed tree tree')
    (hfind : tree.findFrom dir names = .ok .directory) :
    tree'.findFrom dir names = .ok .directory := by
  induction names generalizing dir with
  | nil => rfl
  | cons name names ih =>
    rw [findFrom] at hfind ⊢
    split at hfind
    · rename_i hfixed
      rw [if_pos hfixed]
      exact ih hfind
    · rename_i hfixed
      rw [if_neg hfixed]
      split at hfind
      · cases hfind
      · rename_i hlength
        rw [if_neg hlength]
        split at hfind
        · cases hfind
        · split at hfind <;> cases hfind
        · rename_i hdirectory
          rw [h.directory _ hdirectory]
          exact ih hfind

/-- Names lead to a directory still. -/
theorem find_directory (h : Keeps changed tree tree') (hfind : tree.find names = .ok .directory) :
    tree'.find names = .ok .directory := by
  rw [find_eq_ok_iff] at hfind ⊢
  exact ⟨hfind.1, h.findFrom_directory hfind.2⟩

/-- What stands at a place that is not changed stands there still. -/
theorem lookup_eq (h : Keeps changed tree tree') (hkey : ¬ changed key)
    (hnode : tree.nodes.lookup key = some node) : tree'.nodes.lookup key = some node := by
  cases node with
  | directory => exact h.directory key hnode
  | file contents =>
    rw [← fileAt?_eq_some_iff] at hnode ⊢
    exact (h.fileAt? key hkey).trans hnode

/-- An entry of a directory is found still, if it is not changed. -/
theorem find_concat_eq (h : Keeps changed tree tree') (hdir : tree.find dir = .ok .directory)
    (hfixed : Path.isFixed name = false) (hkey : ¬ changed (Path.resolve dir ++ [name]))
    (hnode : tree.nodes.lookup (Path.resolve dir ++ [name]) = some node) :
    tree'.find (dir ++ [name]) = tree.find (dir ++ [name]) := by
  rw [find_concat hdir hfixed, find_concat (h.find_directory hdir) hfixed, entryAt, entryAt,
    resolve_concat hfixed, hnode, h.lookup_eq hkey hnode]

end Keeps

/-! ### Reading shader files -/

/-- The names in a directory are those of nodes that stand in it. -/
theorem exists_of_mem_list {found : List String} (h : tree.list names = .ok found)
    (hname : name ∈ found) :
    ∃ node, tree.nodes.lookup (Path.resolve names ++ [name]) = some node := by
  rw [list] at h
  split at h
  · obtain rfl := Except.ok.inj h
    obtain ⟨entry, hentry, hnameIn⟩ := List.mem_filterMap.mp hname
    have hkey : entry.1 = Path.resolve names ++ [name] := by
      rw [nameIn?] at hnameIn
      split at hnameIn
      · obtain ⟨hkey, heq⟩ := Option.ite_none_right_eq_some.mp hnameIn
        rwa [Option.some.inj heq] at hkey
      · cases hnameIn
    rw [← Option.ne_none_iff_exists']
    intro hnone
    have hne := List.lookup_eq_none_iff.mp hnone entry hentry
    rw [hkey, bne_self_eq_false] at hne
    cases hne
  · cases h
  · cases h

theorem find_of_list {found : List String} (h : tree.list names = .ok found) :
    tree.find names = .ok .directory := by
  rw [list] at h
  split at h
  · assumption
  · cases h
  · cases h

/-- A slash at the end of a path leads to the same directory. -/
theorem find_steps {path : String} (h : tree.find (Path.names path) = .ok .directory) :
    tree.find (Path.steps path) = .ok .directory := by
  rw [Path.names] at h
  split at h
  · exact find_of_find_concat h
  · rwa [List.append_nil] at h

theorem resolve_names (path : String) : Path.resolve (Path.names path) =
    Path.resolve (Path.steps path) := by
  rw [Path.names]
  split
  · rw [Path.resolve, List.foldl_append]
    rfl
  · rw [List.append_nil]

/-- A shader file of a directory is read alike, if it is not changed. -/
theorem Keeps.load_eq {changed : List String → Prop} {path : String} {found : List String}
    (h : Keeps changed tree tree') (hlist : tree.list (Path.names path) = .ok found)
    (hname : name ∈ found) (hentry : Path.IsEntry name)
    (hkey : ¬ changed (Path.resolve (Path.steps path) ++ [name])) :
    ShaderText.load tree' (Path.join path name) = ShaderText.load tree (Path.join path name) := by
  obtain ⟨node, hnode⟩ := exists_of_mem_list hlist hname
  rw [resolve_names] at hnode
  have hfind := h.find_concat_eq (find_steps (find_of_list hlist)) hentry.isFixed_eq hkey hnode
  rw [ShaderText.load, ShaderText.load, Path.names_join path hentry, readText, readText, hfind]

end FileTree

end Glint
