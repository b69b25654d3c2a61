import Glint.Proofs.BuildReports

/-!
# The shader files that events and builds agree on

Three places tell the stage of a shader from a path, each on its own: the filter of events, the
grouping of a directory, which sees the names of its entries, and the reading of a file. They
agree on every entry of a directory, whatever path leads to the directory. An entry is a shader
file exactly if its name is a stem that is not empty, a point and the extension of a stage. So a
name that is all extension is no shader file, and of several points the last one counts.

## Main definitions

* `DirectoryListing` — the names of the entries of a directory
* `ListedEntry` — an entry of a directory, with the names it is listed among
* `ListedEntry.IsGroupedAs` — the entry is put into a group, by a stage

## Main results

* `Stage.ofPath?_join_eq` — the directory does not matter to the stage of an entry
* `ListedEntry.isGroupedAs_iff` — the entries that are grouped are those whose path has a stage
* `FileEvent.changesShader_iff_grouped` — events, groups and the reading of files agree
-/

namespace Glint

variable {dir name stem ext : String} {stage : Stage}

/-! ### The stage of an entry -/

/-- The directory does not matter to the extension of an entry. -/
theorem Path.extension?_join_eq (dir : String) (h : IsEntry name) :
    extension? (join dir name) = extension? name := by
  have hname := fileName?_of_isEntry h
  rw [extension?, extension?, fileName?_join dir hname, hname]

/-- The parts of an entry with an extension are those of its name. -/
theorem Path.stem?_extension?_iff (h : IsEntry name) :
    stem? name = some stem ∧ extension? name = some ext ↔ splitName name = (stem, some ext) := by
  rw [stem?, extension?, fileName?_of_isEntry h, Option.map_some, Option.bind_some,
    Option.some.injEq, Prod.ext_iff]

namespace Stage

theorem ofPath?_join_eq (dir : String) (h : Path.IsEntry name) :
    ofPath? (Path.join dir name) = ofPath? name := by
  rw [ofPath?, ofPath?, Path.extension?_join_eq dir h]

theorem notMem_extension (stage : Stage) : '.' ∉ stage.extension.toList := by
  cases stage <;> decide

/-- The extension of a stage names it. -/
theorem ofExtension?_extension (stage : Stage) : ofExtension? stage.extension = some stage := by
  cases stage <;> decide

/-- A shader file is named by a stem, a point and the extension of its stage. -/
theorem stem?_ofPath?_iff (h : Path.IsEntry name) :
    Path.stem? name = some stem ∧ ofPath? name = some stage ↔
      stem ≠ "" ∧ name = stem ++ "." ++ stage.extension := by
  constructor
  · rintro ⟨hstem, hstage⟩
    obtain ⟨ext, hext, -⟩ := Option.bind_eq_some_iff.mp hstage
    have hsplit := (Path.stem?_extension?_iff h).mp ⟨hstem, hext⟩
    exact ⟨Path.ne_empty_of_splitName hsplit,
      Path.eq_of_stem?_of_ofPath? h.notMem_slash hstage hstem⟩
  · rintro ⟨hstem, rfl⟩
    have hsplit := Path.splitName_append hstem stage.notMem_extension
    obtain ⟨hname, hext⟩ := (Path.stem?_extension?_iff h).mpr hsplit
    exact ⟨hname, Option.bind_eq_some_iff.mpr ⟨_, hext, stage.ofExtension?_extension⟩⟩

end Stage

/-! ### Reading a file -/

namespace ShaderText

variable {tree : FileTree} {path : String}

/-- A file of a stage is read with this stage, or not at all. -/
theorem load_of_ofPath? (tree : FileTree) (hname : Path.fileName? path = some name)
    (hstage : Stage.ofPath? path = some stage) :
    load tree path = ((tree.readText (Path.names path)).mapError .file).map
      fun text => ⟨name, stage, text⟩ := by
  rw [load, hstage, hname]
  cases tree.readText (Path.names path) <;> rfl

/-- A file is refused for its extension exactly if it has no stage. -/
theorem exists_load_eq_unknownStage_iff (tree : FileTree) (path : String) :
    (∃ ext, load tree path = .error (.unknownStage ext)) ↔ Stage.ofPath? path = none := by
  constructor
  · rintro ⟨ext, hload⟩
    cases hstage : Stage.ofPath? path with
    | none => rfl
    | some stage => exact absurd hload (load_ne_unknownStage hstage)
  · intro hstage
    rw [load, hstage]
    exact ⟨_, rfl⟩

end ShaderText

/-! ### Listed entries -/

/-- The names of the entries of a directory, in the order in which they are listed. -/
structure DirectoryListing where
  names : List String
  nodup : names.Nodup
  isEntry : ∀ name ∈ names, Path.IsEntry name

/-- An entry of a directory, with the names that it is listed among. -/
structure ListedEntry where
  dir : String
  listing : DirectoryListing
  name : String
  mem : name ∈ listing.names

namespace ListedEntry

/-- The path of an entry. -/
def path (entry : ListedEntry) : String :=
  Path.join entry.dir entry.name

/-- The groups of the directory hold the entry, with a stage. -/
def IsGroupedAs (entry : ListedEntry) (stage : Stage) : Prop :=
  ∃ group ∈ ShaderGroup.ofNames entry.listing.names, ⟨stage, entry.name⟩ ∈ group.entries

variable {entry : ListedEntry}

theorem isEntry (entry : ListedEntry) : Path.IsEntry entry.name :=
  entry.listing.isEntry entry.name entry.mem

theorem fileName?_path (entry : ListedEntry) : Path.fileName? entry.path = some entry.name :=
  Path.fileName?_join entry.dir (Path.fileName?_of_isEntry entry.isEntry)

/-- An entry is held by the group of a stem. -/
theorem isGroupedAs_iff_exists_holds : entry.IsGroupedAs stage ↔ ∃ stem,
    ShaderGroup.Holds (ShaderGroup.ofNames entry.listing.names) stem ⟨stage, entry.name⟩ := by
  constructor
  · rintro ⟨group, hgroup, hentry⟩
    exact ⟨group.stem, group, hgroup, rfl, hentry⟩
  · rintro ⟨_, group, hgroup, -, hentry⟩
    exact ⟨group, hgroup, hentry⟩

/-- The entries that are grouped are those whose path has a stage. -/
theorem isGroupedAs_iff : entry.IsGroupedAs stage ↔ Stage.ofPath? entry.path = some stage := by
  rw [isGroupedAs_iff_exists_holds, path, Stage.ofPath?_join_eq entry.dir entry.isEntry]
  constructor
  · rintro ⟨stem, hholds⟩
    exact (ShaderGroup.holds_ofNames_iff.mp hholds).2.1
  · intro hstage
    -- Every entry has a stem, since it has a last name.
    obtain ⟨stem, hstem⟩ : ∃ stem, Path.stem? entry.name = some stem :=
      ⟨_, congrArg (Option.map _) (Path.fileName?_of_isEntry entry.isEntry)⟩
    exact ⟨stem, ShaderGroup.holds_ofNames_iff.mpr ⟨entry.mem, hstage, hstem⟩⟩

/-- The entries that are grouped are those with the extension of a stage behind a stem. -/
theorem isGroupedAs_iff_exists_stem : entry.IsGroupedAs stage ↔
    ∃ stem, stem ≠ "" ∧ entry.name = stem ++ "." ++ stage.extension := by
  rw [isGroupedAs_iff_exists_holds]
  refine exists_congr fun stem => ?_
  rw [ShaderGroup.holds_ofNames_iff, and_iff_right entry.mem, and_comm,
    Stage.stem?_ofPath?_iff entry.isEntry]

/-- A file is refused for its extension exactly if its entry is in no group. -/
theorem exists_load_eq_unknownStage_iff (tree : FileTree) :
    (∃ ext, ShaderText.load tree entry.path = .error (.unknownStage ext)) ↔
      ¬ ∃ stage, entry.IsGroupedAs stage := by
  simp only [ShaderText.exists_load_eq_unknownStage_iff, isGroupedAs_iff,
    Option.eq_none_iff_forall_ne_some, not_exists, ne_eq]

end ListedEntry

/-- The shaders that are read for a group come in pipeline order. -/
theorem DirectoryListing.pairwise_load (listing : DirectoryListing) (dir : String)
    {group : ShaderGroup} (hgroup : group ∈ ShaderGroup.ofNames listing.names) :
    group.entries.Pairwise fun earlier later => ∀ tree source source',
      ShaderText.load tree (Path.join dir earlier.name) = .ok source →
      ShaderText.load tree (Path.join dir later.name) = .ok source' →
        source.stage.rank < source'.stage.rank := by
  have hslash : ∀ n ∈ listing.names, '/' ∉ n.toList :=
    fun n hn => (listing.isEntry n hn).notMem_slash
  -- A shader that is read has the stage of its entry, and the stages of the entries ascend.
  have hload : ∀ entry ∈ group.entries, ∀ tree source,
      ShaderText.load tree (Path.join dir entry.name) = .ok source →
        source.stage = entry.stage := by
    intro entry hentry tree source hsource
    have hfile := Build.isFile_of_mem hslash hgroup hentry
    exact (ShaderText.of_load (Path.fileName?_join dir (Path.fileName?_of_isEntry hfile.isEntry))
      (Stage.ofPath?_join dir hfile.stage) hsource).2
  refine (ShaderGroup.pairwise_of_mem_ofNames listing.nodup hslash hgroup).imp_of_mem ?_
  intro earlier later hearlier hlater hprecedes tree source source' hsource hsource'
  rw [hload earlier hearlier tree source hsource, hload later hlater tree source' hsource']
  exact hprecedes

/-! ### Events -/

namespace FileEvent

theorem isChange_iff {kind : FileEventKind} :
    kind.isChange = true ↔ kind = .create ∨ kind = .modify ∨ kind = .remove := by
  cases kind <;> decide

/-- An event counts exactly if it creates, modifies or removes entries of directories and one of
them would be put into a group, were it listed. An entry is grouped exactly if its name is a stem,
a point and the extension of a stage. Those entries are read with the stage that they are grouped
by, or not at all, and all others are refused for their extension; so the shaders that are read
for a group come in pipeline order. -/
theorem changesShader_iff_grouped :
    (∀ (kind : FileEventKind) (entries : List ListedEntry),
      changesShader ⟨kind, entries.map ListedEntry.path⟩ = true ↔
        (kind = .create ∨ kind = .modify ∨ kind = .remove) ∧
          ∃ entry ∈ entries, ∃ stage, entry.IsGroupedAs stage) ∧
    (∀ (entry : ListedEntry) (stage : Stage),
      entry.IsGroupedAs stage ↔ ∃ stem, stem ≠ "" ∧ entry.name = stem ++ "." ++ stage.extension) ∧
    (∀ (entry : ListedEntry) (tree : FileTree),
      ((∃ ext, ShaderText.load tree entry.path = .error (.unknownStage ext)) ↔
        ¬ ∃ stage, entry.IsGroupedAs stage) ∧
      ∀ stage, entry.IsGroupedAs stage →
        ShaderText.load tree entry.path =
          ((tree.readText (Path.names entry.path)).mapError .file).map
            fun text => ⟨entry.name, stage, text⟩) ∧
    ∀ (listing : DirectoryListing) (dir : String), ∀ group ∈ ShaderGroup.ofNames listing.names,
      group.entries.Pairwise fun earlier later => ∀ tree source source',
        ShaderText.load tree (Path.join dir earlier.name) = .ok source →
        ShaderText.load tree (Path.join dir later.name) = .ok source' →
          source.stage.rank < source'.stage.rank := by
  refine ⟨?_, fun entry stage => ListedEntry.isGroupedAs_iff_exists_stem, ?_, ?_⟩
  · -- The filter asks for the stage of a path, and so do the groups.
    intro kind entries
    simp only [changesShader, Bool.and_eq_true, isChange_iff, List.any_map, List.any_eq_true,
      Function.comp_apply, Option.isSome_iff_exists, ListedEntry.isGroupedAs_iff]
  · intro entry tree
    refine ⟨ListedEntry.exists_load_eq_unknownStage_iff tree, fun stage hgrouped => ?_⟩
    exact ShaderText.load_of_ofPath? tree entry.fileName?_path
      (ListedEntry.isGroupedAs_iff.mp hgrouped)
  · intro listing dir group hgroup
    exact listing.pairwise_load dir hgroup

/-- A directory with two shader files of several points, a file that is all extension and a copy. -/
def fogListing : DirectoryListing where
  names := ["lit.fog.frag", "lit.fog.vert", ".vert", "lit.vert.bak"]
  nodup := by decide
  isEntry := by
    intro name hname
    have hentry : '/' ∉ name.toList ∧ 2 < name.toList.length := by
      revert name
      decide
    exact Path.isEntry_of_length hentry.1 hentry.2

/-- A shader file of the directory, whose own name does not matter. -/
def fogEntry : ListedEntry :=
  ⟨"effects.frag/", fogListing, "lit.fog.vert", by decide⟩

/-- The file that is all extension. -/
def hiddenEntry : ListedEntry :=
  ⟨"effects.frag/", fogListing, ".vert", by decide⟩

/-- The group of the directory. -/
def fogGroup : ShaderGroup :=
  ⟨"lit.fog", [⟨.vertex, "lit.fog.vert"⟩, ⟨.fragment, "lit.fog.frag"⟩]⟩

/-- A tree with the directory, whose files are empty. -/
def fogTree : FileTree :=
  ⟨(["effects.frag"], .directory) ::
    fogListing.names.map fun name => (["effects.frag", name], .file ⟨#[]⟩)⟩

theorem changesShader_iff_grouped_fog :
    fogEntry.IsGroupedAs .vertex ∧ (¬ ∃ stage, hiddenEntry.IsGroupedAs stage) ∧
    changesShader ⟨.modify, [hiddenEntry, fogEntry].map ListedEntry.path⟩ = true ∧
    changesShader ⟨.remove, [hiddenEntry].map ListedEntry.path⟩ = false ∧
    ShaderText.load fogTree fogEntry.path = .ok ⟨"lit.fog.vert", .vertex, ""⟩ ∧
    (∃ ext, ShaderText.load fogTree hiddenEntry.path = .error (.unknownStage ext)) ∧
    fogGroup ∈ ShaderGroup.ofNames fogListing.names ∧
    ∃ source source',
      ShaderText.load fogTree (Path.join "effects.frag/" "lit.fog.vert") = .ok source ∧
      ShaderText.load fogTree (Path.join "effects.frag/" "lit.fog.frag") = .ok source' ∧
      source.stage.rank < source'.stage.rank := by
  obtain ⟨hchanges, hnames, hloads, hordered⟩ := changesShader_iff_grouped
  have hfog : fogEntry.IsGroupedAs .vertex :=
    (hnames fogEntry .vertex).mpr ⟨"lit.fog", by decide, rfl⟩
  have hrefused : ∃ ext, ShaderText.load fogTree hiddenEntry.path = .error (.unknownStage ext) :=
    ⟨"", by decide +kernel⟩
  have hhidden : ¬ ∃ stage, hiddenEntry.IsGroupedAs stage :=
    (hloads hiddenEntry fogTree).1.mp hrefused
  have hgroup : fogGroup ∈ ShaderGroup.ofNames fogListing.names := by decide +kernel
  have hread : fogTree.readText (Path.names fogEntry.path) = .ok "" := by decide +kernel
  have hload := (hloads fogEntry fogTree).2 .vertex hfog
  rw [hread] at hload
  have hload' : ShaderText.load fogTree (Path.join "effects.frag/" "lit.fog.frag") =
      .ok ⟨"lit.fog.frag", .fragment, ""⟩ := by
    decide +kernel
  have hpair := List.pairwise_pair.mp (hordered fogListing "effects.frag/" fogGroup hgroup)
  refine ⟨hfog, hhidden, ?_, ?_, hload, hrefused, hgroup, _, _, hload, hload', ?_⟩
  · exact (hchanges .modify _).mpr ⟨.inr (.inl rfl), fogEntry, by simp, .vertex, hfog⟩
  · rw [← Bool.not_eq_true, hchanges]
    rintro ⟨-, entry, hentry, hgrouped⟩
    exact hhidden (List.mem_singleton.mp hentry ▸ hgrouped)
  · exact hpair fogTree _ _ hload hload'

end FileEvent

end Glint
