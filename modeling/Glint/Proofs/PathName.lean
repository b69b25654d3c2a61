import Glint.Path

/-!
# The last name of a path

A path that is continued by the name of a file ends with that name: its stem and its extension
are those of the name, and it leads from where the path leads to the entry of that name.

## Main definitions

* `Path.IsEntry` — a name that can stand in a directory

## Main results

* `Path.fileName?_join` — the last name of a path that goes on
* `Path.splitName_eq`, `Path.splitName_append` — a name with an extension is its stem, a point and
  the extension
* `Path.resolve_names_join` — where a path that goes on with a name leads to
-/

namespace Glint.Path

open Text

variable {base path name stem ext : String}

/-! ### Pieces -/

theorem pieces_append_slash (a b : String) : pieces (a ++ "/" ++ b) = pieces a ++ pieces b := by
  have htext : (a ++ "/" ++ b).toList = a.toList ++ '/' :: b.toList := by simp
  rw [pieces, htext, splitWhere_append (by decide)]
  rfl

/-- A text without a slash is one piece. -/
theorem pieces_of_notMem (h : '/' ∉ name.toList) : pieces name = [name.toList] := by
  refine splitWhere_of_forall fun c hc => ?_
  rw [beq_eq_false_iff_ne]
  rintro rfl
  exact h hc

theorem notMem_of_mem_pieces {piece : List Char} (h : piece ∈ pieces path) : '/' ∉ piece := by
  intro hslash
  have hsep := forall_of_mem_splitWhere h '/' hslash
  cases hsep

/-- A path that is not absolute goes on after a slash, which is left out where it would be the
first character or the second of two. -/
theorem join_cases (base : String) (h : isAbsolute path = false) :
    (base = "" ∧ join base path = path) ∨
      (∃ dir, base = dir ++ "/" ∧ join base path = dir ++ "/" ++ path) ∨
      (base ≠ "" ∧ base.toList.getLast? ≠ some '/' ∧ join base path = base ++ "/" ++ path) := by
  rw [join, h, if_neg Bool.false_ne_true]
  rcases List.eq_nil_or_concat base.toList with hnil | ⟨dir, c, hconcat⟩
  · obtain rfl : base = "" := String.toList_eq_nil_iff.mp hnil
    exact .inl ⟨rfl, by simp⟩
  · have hlast : base.toList.getLast? = some c := by simp [hconcat]
    have hne : base ≠ "" := by
      rintro rfl
      simp at hconcat
    by_cases hc : c = '/'
    · -- The slash is there already.
      subst hc
      have hbase : base = String.ofList dir ++ "/" := by
        rw [← String.toList_inj, hconcat]
        simp
      refine .inr (.inl ⟨String.ofList dir, hbase, ?_⟩)
      rw [hlast, ← hbase]
      rfl
    · refine .inr (.inr ⟨hne, by simpa [hlast] using hc, ?_⟩)
      rw [hlast]
      split
      · rename_i hnone
        cases hnone
      · rename_i hslash
        exact absurd (Option.some.inj hslash) hc
      · rfl

/-- A path that goes on ends with the pieces of what it goes on with. -/
theorem exists_pieces_join (base path : String) :
    ∃ before, pieces (join base path) = before ++ pieces path := by
  by_cases habs : isAbsolute path = true
  · exact ⟨[], by rw [join, if_pos habs, List.nil_append]⟩
  · rcases join_cases base (eq_false_of_ne_true habs) with ⟨-, hjoin⟩ | ⟨dir, -, hjoin⟩ |
      ⟨-, -, hjoin⟩
    · exact ⟨[], by rw [hjoin, List.nil_append]⟩
    · exact ⟨pieces dir, by rw [hjoin, pieces_append_slash]⟩
    · exact ⟨pieces base, by rw [hjoin, pieces_append_slash]⟩

/-! ### The last name -/

/-- A name that can stand in a directory: it has no slash and does not lead elsewhere. -/
structure IsEntry (name : String) : Prop where
  notMem_slash : '/' ∉ name.toList
  not_idle : isIdle name.toList = false
  not_parent : isParent name.toList = false

theorem isEntry_of_length (hslash : '/' ∉ name.toList) (hlength : 2 < name.toList.length) :
    IsEntry name := by
  refine ⟨hslash, ?_, ?_⟩
  · rw [← Bool.not_eq_true]
    intro hidle
    rcases Bool.or_eq_true_iff.mp hidle with hname | hname <;>
      simp [beq_iff_eq.mp hname] at hlength
  · rw [← Bool.not_eq_true]
    intro hparent
    simp [beq_iff_eq.mp hparent] at hlength

/-- The last name of a path can stand in a directory. -/
theorem isEntry_of_fileName? (h : fileName? path = some name) : IsEntry name := by
  rw [fileName?] at h
  split at h
  · cases h
  · rename_i piece rest hdrop
    obtain ⟨hparent, hname⟩ := Option.ite_none_left_eq_some.mp h
    obtain rfl := Option.some.inj hname
    have hmem : piece ∈ pieces path := by
      rw [← List.mem_reverse]
      exact (List.dropWhile_sublist isIdle).subset (by simp [hdrop])
    have hidle : isIdle piece = false := by
      have hne : (pieces path).reverse.dropWhile isIdle ≠ [] := by simp [hdrop]
      have hhead := List.head_dropWhile_not isIdle hne
      simpa only [hdrop, List.head_cons] using hhead
    rw [← String.toList_ofList (l := piece)] at hmem hidle hparent
    exact ⟨notMem_of_mem_pieces hmem, hidle, eq_false_of_ne_true hparent⟩

/-- The last name of a path that goes on is that of what it goes on with. -/
theorem fileName?_join (base : String) (h : fileName? path = some name) :
    fileName? (join base path) = some name := by
  obtain ⟨before, hpieces⟩ := exists_pieces_join base path
  rw [fileName?] at h ⊢
  rw [hpieces, List.reverse_append, List.dropWhile_append]
  cases hdrop : (pieces path).reverse.dropWhile isIdle with
  | nil =>
    rw [hdrop] at h
    cases h
  | cons piece rest =>
    rw [hdrop] at h
    exact h

theorem fileName?_of_isEntry (h : IsEntry name) : fileName? name = some name := by
  rw [fileName?, pieces_of_notMem h.notMem_slash, List.reverse_singleton,
    List.dropWhile_cons_of_neg (by simp [h.not_idle])]
  simp [h.not_parent]

/-- A text without a slash that has a last name is that name. -/
theorem eq_of_fileName? (hslash : '/' ∉ path.toList) (h : fileName? path = some name) :
    name = path := by
  rw [fileName?, pieces_of_notMem hslash, List.reverse_singleton] at h
  cases hidle : isIdle path.toList with
  | true =>
    rw [List.dropWhile_cons_of_pos hidle] at h
    cases h
  | false =>
    rw [List.dropWhile_cons_of_neg (by simp [hidle])] at h
    obtain ⟨-, hname⟩ := Option.ite_none_left_eq_some.mp h
    rw [← Option.some.inj hname, String.ofList_toList]

/-! ### Stem and extension -/

/-- A name with an extension is its stem, a point and the extension, which has no point. -/
theorem splitName_eq (h : splitName name = (stem, some ext)) :
    name = stem ++ "." ++ ext ∧ '.' ∉ ext.toList := by
  rw [splitName] at h
  split at h
  · rename_i first before after hsplit
    obtain ⟨hstem, hext⟩ := Prod.mk.inj h
    obtain rfl := hstem
    obtain rfl := Option.some.inj hext
    obtain ⟨sep, hname, hsep⟩ := exists_of_splitLast? hsplit
    obtain rfl : sep = '.' := by simpa using hsep
    refine ⟨?_, ?_⟩
    · rw [← String.toList_inj, hname]
      simp
    · rw [String.toList_ofList]
      intro hpoint
      have hsep := forall_of_splitLast? hsplit '.' hpoint
      cases hsep
  · cases h
  · cases h

/-- A point that starts a name does not end its stem. -/
theorem ne_empty_of_splitName (h : splitName name = (stem, some ext)) : stem ≠ "" := by
  rw [splitName] at h
  split at h
  · obtain ⟨rfl, -⟩ := Prod.mk.inj h
    simp
  · cases h
  · cases h

/-- A stem, a point and an extension without a point are the parts of a name. -/
theorem splitName_append (hstem : stem ≠ "") (hpoint : '.' ∉ ext.toList) :
    splitName (stem ++ "." ++ ext) = (stem, some ext) := by
  have htext : (stem ++ "." ++ ext).toList = stem.toList ++ '.' :: ext.toList := by simp
  have hlast : splitLast? (· == '.') ('.' :: ext.toList) = some ([], ext.toList) := by
    apply splitLast?_cons rfl
    intro c hc
    rw [beq_eq_false_iff_ne]
    rintro rfl
    exact hpoint hc
  obtain ⟨c, cs, hcs⟩ := List.exists_cons_of_ne_nil (mt String.toList_eq_nil_iff.mp hstem)
  rw [splitName, htext, splitLast?_append hlast, List.append_nil, hcs]
  simp only [← hcs, String.ofList_toList]

/-- The stem of a name is the name or begins it. -/
theorem exists_splitName_eq (name : String) :
    ∃ rest, name = (splitName name).1 ++ rest := by
  rw [splitName]
  split
  · rename_i first before after hsplit
    obtain ⟨sep, hname, -⟩ := exists_of_splitLast? hsplit
    refine ⟨String.ofList (sep :: after), ?_⟩
    rw [← String.toList_inj, hname]
    simp
  · exact ⟨"", String.append_empty.symm⟩
  · exact ⟨"", String.append_empty.symm⟩

theorem extension?_join (base : String) (h : extension? path = some ext) :
    extension? (join base path) = some ext := by
  obtain ⟨name, hname, hext⟩ := Option.bind_eq_some_iff.mp h
  exact Option.bind_eq_some_iff.mpr ⟨name, fileName?_join base hname, hext⟩

/-- A file name is known by its stem and its extension. -/
theorem eq_of_stem?_of_extension? (hslash : '/' ∉ name.toList) (hstem : stem? name = some stem)
    (hext : extension? name = some ext) : name = stem ++ "." ++ ext ∧ '.' ∉ ext.toList := by
  obtain ⟨file, hfile, rfl⟩ := Option.map_eq_some_iff.mp hstem
  obtain ⟨file', hfile', hsplit⟩ := Option.bind_eq_some_iff.mp hext
  obtain rfl : file = file' := Option.some.inj (hfile.symm.trans hfile')
  obtain rfl := eq_of_fileName? hslash hfile
  exact splitName_eq (Prod.ext rfl hsplit)

/-- A stem has no slash, since it begins a name. -/
theorem notMem_slash_of_stem? (h : stem? path = some stem) : '/' ∉ stem.toList := by
  obtain ⟨name, hname, rfl⟩ := Option.map_eq_some_iff.mp h
  obtain ⟨rest, heq⟩ := exists_splitName_eq name
  intro hslash
  apply (isEntry_of_fileName? hname).notMem_slash
  rw [heq, String.toList_append]
  exact List.mem_append_left _ hslash

/-! ### Where a path leads to -/

theorem IsEntry.toList_ne_nil (h : IsEntry name) : name.toList ≠ [] := by
  intro hnil
  have hidle := h.not_idle
  rw [hnil] at hidle
  cases hidle

theorem IsEntry.isAbsolute_eq (h : IsEntry name) : isAbsolute name = false := by
  rw [isAbsolute, beq_eq_false_iff_ne]
  intro hhead
  exact h.notMem_slash (List.mem_of_mem_head? hhead)

theorem isAbsolute_append (hne : base ≠ "") (path : String) :
    isAbsolute (base ++ path) = isAbsolute base := by
  obtain ⟨c, cs, hbase⟩ := List.exists_cons_of_ne_nil (mt String.toList_eq_nil_iff.mp hne)
  rw [isAbsolute, isAbsolute, String.toList_append, hbase]
  rfl

/-- The steps of a path, from its pieces before the last one. -/
theorem steps_eq_append (h : IsEntry name) (habs : isAbsolute path = isAbsolute base)
    {before : List (List Char)} (hpieces : pieces path = before ++ [name.toList])
    (hbefore : before.filter (fun piece => piece != []) =
      (pieces base).filter fun piece => piece != []) :
    steps path = steps base ++ [name] := by
  have hkept : [name.toList].filter (fun piece => piece != []) = [name.toList] :=
    List.filter_cons_of_pos (by simpa using h.toList_ne_nil)
  rw [steps, steps, habs, hpieces, List.filter_append, hbefore, hkept, List.map_append,
    List.map_singleton, String.ofList_toList, List.append_assoc]

/-- The steps of a path that goes on with a name are its own and the name. -/
theorem steps_join (base : String) (h : IsEntry name) :
    steps (join base name) = steps base ++ [name] := by
  have hpieces := pieces_of_notMem h.notMem_slash
  rcases join_cases base h.isAbsolute_eq with ⟨rfl, hjoin⟩ | ⟨dir, rfl, hjoin⟩ | ⟨hne, -, hjoin⟩
  · rw [hjoin]
    exact steps_eq_append h h.isAbsolute_eq (hpieces.trans (List.nil_append _).symm) rfl
  · -- Behind the slash at the end there is an empty piece, which is no step.
    have hdir : pieces (dir ++ "/") = pieces dir ++ [[]] := by
      rw [← String.append_empty (s := dir ++ "/"), pieces_append_slash]
      rfl
    have hwhole : pieces (dir ++ "/" ++ name) = pieces dir ++ [name.toList] := by
      rw [pieces_append_slash, hpieces]
    rw [hjoin]
    refine steps_eq_append h (isAbsolute_append (by simp) name) hwhole ?_
    rw [hdir, List.filter_append]
    simp
  · rw [hjoin, String.append_assoc]
    refine steps_eq_append h (isAbsolute_append hne _) ?_ rfl
    rw [← String.append_assoc, pieces_append_slash, hpieces]

/-- A path that goes on with a name does not end with a slash. -/
theorem getLast?_join_ne (base : String) (h : IsEntry name) :
    (join base name).toList.getLast? ≠ some '/' := by
  have happend : ∃ before : String, join base name = before ++ name := by
    rcases join_cases base h.isAbsolute_eq with ⟨-, hjoin⟩ | ⟨dir, -, hjoin⟩ | ⟨-, -, hjoin⟩
    · exact ⟨"", by rw [hjoin, String.empty_append]⟩
    · exact ⟨_, hjoin⟩
    · exact ⟨_, hjoin⟩
  obtain ⟨before, hjoin⟩ := happend
  rw [hjoin, String.toList_append, List.getLast?_append]
  intro hlast
  cases hname : name.toList.getLast? with
  | none => exact h.toList_ne_nil (List.getLast?_eq_none_iff.mp hname)
  | some c =>
    rw [hname] at hlast
    exact h.notMem_slash (List.mem_of_getLast? (hname.trans hlast))

theorem names_join (base : String) (h : IsEntry name) :
    names (join base name) = steps base ++ [name] := by
  rw [names, if_neg (by simpa using getLast?_join_ne base h), List.append_nil, steps_join base h]

theorem follow_of_isEntry (h : IsEntry name) (dir : List String) :
    follow dir name = dir ++ [name] := by
  have hidle := h.not_idle
  have hparent := h.not_parent
  rw [follow, if_neg, if_neg]
  · rintro rfl
    simp [isParent] at hparent
  · rintro rfl
    simp [isIdle] at hidle

/-- A path that goes on with a name leads to the entry of that name. -/
theorem resolve_names_join (base : String) (h : IsEntry name) :
    resolve (names (join base name)) = resolve (steps base) ++ [name] := by
  rw [names_join base h, resolve, List.foldl_append, List.foldl_cons, List.foldl_nil,
    follow_of_isEntry h]
  rfl

end Glint.Path
