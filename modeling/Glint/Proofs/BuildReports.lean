import Glint.Proofs.Collection
import Glint.Proofs.KeptFiles
import Glint.Proofs.ShaderGroups

/-!
# The reports of a build

A build goes through the groups of a directory and writes one report for each, beside one
another in the output directory. The stems differ, so no report is written over another
one, and nothing else in the tree changes. Every file that a build reads has been grouped by
its stage, so no build stops at a file without a stage.

## Main definitions

* `ShaderEntry.IsFile` — an entry that stands for a shader file of a directory
* `Build.reportKey` — the names that lead to the report of a group
* `Build.Reports` — what a build has written for some groups

## Main results

* `Build.run_ne_unknownStage` — no build stops at a file without a stage
* `Build.run_reports` — the groups of a directory and the reports of a build
-/

namespace Glint

variable {tree tree' : FileTree} {dir path name ext : String} {stage : Stage}

/-! ### Reading the files of a group -/

/-- The entry stands for a shader file of a directory. -/
structure ShaderEntry.IsFile (entry : ShaderEntry) : Prop where
  isEntry : Path.IsEntry entry.name
  stage : Stage.ofPath? entry.name = some entry.stage

/-- The entry that a shader was read from. -/
def Interface.entry (i : Interface) : ShaderEntry :=
  ⟨i.stage, i.sourceName⟩

namespace ShaderText

theorem of_load {source : ShaderText} (hname : Path.fileName? path = some name)
    (hstage : Stage.ofPath? path = some stage) (h : load tree path = .ok source) :
    source.name = name ∧ source.stage = stage := by
  rw [load, hstage] at h
  cases htext : tree.readText (Path.names path) with
  | error failure =>
    rw [htext] at h
    cases h
  | ok text =>
    rw [htext, hname] at h
    cases h
    exact ⟨rfl, rfl⟩

/-- The file of a stage is not refused for its extension. -/
theorem load_ne_unknownStage (hstage : Stage.ofPath? path = some stage) :
    load tree path ≠ .error (.unknownStage ext) := by
  rw [load, hstage]
  cases tree.readText (Path.names path) <;> simp

end ShaderText

namespace Interface

/-- A shader that has been read from a file of a directory comes from the entry of the file. -/
theorem entry_of_ofFile {entry : ShaderEntry} (hfile : entry.IsFile) {i : Interface}
    (h : ofFile tree (Path.join dir entry.name) = .ok i) : i.entry = entry := by
  obtain ⟨source, hload, htext⟩ := Outcome.bind_eq_ok.mp h
  have hname := Path.fileName?_join dir (Path.fileName?_of_isEntry hfile.isEntry)
  have hstage := Stage.ofPath?_join dir hfile.stage
  obtain ⟨hname, hstage⟩ :=
    ShaderText.of_load hname hstage (Outcome.mapError_eq_ok.mp hload)
  obtain ⟨_, _, -, -, rfl⟩ := ofText_eq_ok_iff.mp (Outcome.mapError_eq_ok.mp htext)
  exact ShaderEntry.mk.injEq .. ▸ ⟨hstage, hname⟩

theorem ofFile_ne_unknownStage (hstage : Stage.ofPath? path = some stage) :
    ofFile tree path ≠ .error (.load (.unknownStage ext)) := by
  intro h
  rcases Outcome.bind_eq_error.mp h with hload | ⟨source, -, htext⟩
  · obtain ⟨cause, hcause, heq⟩ := Outcome.mapError_eq_error.mp hload
    obtain rfl := BuildError.load.inj heq
    exact ShaderText.load_ne_unknownStage hstage hcause
  · obtain ⟨cause, -, heq⟩ := Outcome.mapError_eq_error.mp htext
    cases heq

end Interface

namespace Report

variable {group : ShaderGroup}

/-- The report of a group has its stem as name and the shaders of its entries, in order. -/
theorem of_ofGroup {report : Report} (hfiles : ∀ entry ∈ group.entries, entry.IsFile)
    (h : ofGroup tree dir group = .ok report) :
    report.pipelineName = group.stem ∧ report.shaders.map Interface.entry = group.entries := by
  obtain ⟨shaders, hshaders, h⟩ := Outcome.bind_eq_ok.mp h
  obtain ⟨pipeline, -, h⟩ := Outcome.bind_eq_ok.mp h
  obtain rfl := Outcome.pure_eq_ok.mp h
  refine ⟨rfl, ?_⟩
  have hmap := Outcome.map_eq_of_mapM_eq_ok (g := Interface.entry) (h := id)
    (fun entry hentry i => Interface.entry_of_ofFile (hfiles entry hentry)) hshaders
  rwa [List.map_id] at hmap

theorem ofGroup_ne_unknownStage
    (hstages : ∀ entry ∈ group.entries, Stage.ofPath? entry.name = some entry.stage) :
    ofGroup tree dir group ≠ .error (.load (.unknownStage ext)) := by
  intro h
  rcases Outcome.bind_eq_error.mp h with hshaders | ⟨shaders, -, h⟩
  · obtain ⟨entry, hentry, hfile⟩ := Outcome.exists_of_mapM_eq_error hshaders
    exact Interface.ofFile_ne_unknownStage (Stage.ofPath?_join dir (hstages entry hentry)) hfile
  · rcases Outcome.bind_eq_error.mp h with hpipeline | ⟨pipeline, -, hpure⟩
    · obtain ⟨cause, -, heq⟩ := Outcome.mapError_eq_error.mp hpipeline
      cases heq
    · cases hpure

end Report

/-! ### Writing the reports -/

namespace Build

variable {config : BuildConfig} {group : ShaderGroup} {groups : List ShaderGroup}
  {names : List String} {key : List String}

/-- The names that lead to the report of a group. -/
def reportKey (config : BuildConfig) (group : ShaderGroup) : List String :=
  Path.resolve (Path.names (reportPath config group))

/-- The name of a report can stand in a directory. -/
theorem isEntry_reportName (h : '/' ∉ group.stem.toList) :
    Path.IsEntry (group.stem ++ ".json") := by
  apply Path.isEntry_of_length
  · simp [h]
  · simp

theorem reportKey_eq (h : '/' ∉ group.stem.toList) :
    reportKey config group = Path.resolve (Path.steps config.output) ++ [group.stem ++ ".json"] :=
  Path.resolve_names_join config.output (isEntry_reportName h)

/-- Writing the report of a group puts its text under its key. -/
theorem exists_of_writeGroup (h : writeGroup config tree group = .ok tree') :
    ∃ report, Report.ofGroup tree config.source group = .ok report ∧
      tree'.nodes =
        FileTree.put (reportKey config group) (.file report.text.toUTF8) tree.nodes := by
  obtain ⟨report, hreport, hwrite⟩ := Outcome.bind_eq_ok.mp h
  obtain ⟨-, rfl⟩ := FileTree.writeText_eq_ok (Outcome.mapError_eq_ok.mp hwrite)
  exact ⟨report, hreport, rfl⟩

theorem writeGroup_ne_unknownStage
    (hstages : ∀ entry ∈ group.entries, Stage.ofPath? entry.name = some entry.stage) :
    writeGroup config tree group ≠ .error (.load (.unknownStage ext)) := by
  intro h
  rcases Outcome.bind_eq_error.mp h with hreport | ⟨report, -, hwrite⟩
  · exact Report.ofGroup_ne_unknownStage hstages hreport
  · obtain ⟨failure, -, heq⟩ := Outcome.mapError_eq_error.mp hwrite
    cases heq

/-- A run over groups that comes to its end has written one report for each. -/
theorem written_of_writeGroups (h : (writeGroups config tree groups).error? = none) :
    (writeGroups config tree groups).written = groups.map (reportPath config) := by
  induction groups generalizing tree with
  | nil => rfl
  | cons group groups ih =>
    rw [writeGroups] at h ⊢
    split at h
    · cases h
    · exact congrArg _ (ih h)

/-- A run over groups changes the tree only where their reports are. -/
theorem lookup_writeGroups_of_ne (h : ∀ group ∈ groups, key ≠ reportKey config group) :
    (writeGroups config tree groups).tree.nodes.lookup key = tree.nodes.lookup key := by
  induction groups generalizing tree with
  | nil => rfl
  | cons group groups ih =>
    obtain ⟨hne, hrest⟩ := List.forall_mem_cons.mp h
    rw [writeGroups]
    split
    · rfl
    · rename_i tree' hwrite
      obtain ⟨report, -, hnodes⟩ := exists_of_writeGroup hwrite
      exact (ih hrest).trans (by rw [hnodes, FileTree.lookup_put, if_neg hne])

/-- A run over groups with different reports that comes to its end leaves every report, made from
the tree that earlier groups have left. -/
theorem exists_report_of_writeGroups (hkeys : (groups.map (reportKey config)).Nodup)
    (h : (writeGroups config tree groups).error? = none) (hgroup : group ∈ groups) :
    ∃ earlier report, earlier ⊆ groups ∧
      Report.ofGroup (writeGroups config tree earlier).tree config.source group = .ok report ∧
      (writeGroups config tree groups).tree.nodes.lookup (reportKey config group) =
        some (.file report.text.toUTF8) := by
  induction groups generalizing tree with
  | nil => cases hgroup
  | cons first groups ih =>
    obtain ⟨hfirst, hkeys⟩ := List.nodup_cons.mp hkeys
    rw [writeGroups] at h ⊢
    split at h
    · cases h
    · rename_i tree' hwrite
      rcases List.mem_cons.mp hgroup with rfl | hgroup
      · -- The reports that follow are written elsewhere.
        obtain ⟨report, hreport, hnodes⟩ := exists_of_writeGroup hwrite
        have hothers : ∀ other ∈ groups, reportKey config group ≠ reportKey config other := by
          rintro other hother heq
          exact hfirst (heq ▸ List.mem_map_of_mem hother)
        refine ⟨[], report, List.nil_subset _, hreport,
          (lookup_writeGroups_of_ne hothers).trans ?_⟩
        rw [hnodes, FileTree.lookup_put, if_pos rfl]
      · obtain ⟨earlier, report, hearlier, hreport, hfound⟩ := ih hkeys h hgroup
        refine ⟨first :: earlier, report, List.cons_subset_cons first hearlier, ?_, hfound⟩
        rw [writeGroups, hwrite]
        exact hreport

theorem writeGroups_ne_unknownStage (hstages : ∀ group ∈ groups, ∀ entry ∈ group.entries,
      Stage.ofPath? entry.name = some entry.stage) :
    (writeGroups config tree groups).error? ≠ some (.load (.unknownStage ext)) := by
  induction groups generalizing tree with
  | nil => exact nofun
  | cons group groups ih =>
    obtain ⟨hgroup, hrest⟩ := List.forall_mem_cons.mp hstages
    rw [writeGroups]
    split
    · rename_i error hwrite
      rintro heq
      obtain rfl := Option.some.inj heq
      exact writeGroup_ne_unknownStage hgroup hwrite
    · exact ih hrest

/-! ### A build -/

/-- No build stops at a file without a stage: such files are in no group. -/
theorem run_ne_unknownStage (config : BuildConfig) (tree : FileTree) (ext : String) :
    (run config tree).error? ≠ some (.load (.unknownStage ext)) := by
  rw [run]
  split
  · exact nofun
  · rename_i names hlist
    split
    · exact nofun
    · apply writeGroups_ne_unknownStage
      rintro group hgroup ⟨stage, name⟩ hentry
      exact (ShaderGroup.holds_ofNames_iff.mp ⟨group, hgroup, rfl, hentry⟩).2.1

/-- What a build has written for some groups: one report for each, at different paths, that
bears the name of the group and has the shaders of its files in order. Nothing else in the
tree has changed. -/
structure Reports (config : BuildConfig) (made : FileTree) (groups : List ShaderGroup)
    (result : BuildResult) : Prop where
  written : result.written = groups.map (reportPath config)
  distinct : result.written.Nodup
  reports : ∀ group ∈ groups, ∃ report : Report, report.pipelineName = group.stem ∧
    report.shaders.map Interface.entry = group.entries ∧
    result.tree.nodes.lookup (reportKey config group) = some (.file report.text.toUTF8)
  kept : ∀ key, (∀ group ∈ groups, key ≠ reportKey config group) →
    result.tree.nodes.lookup key = made.nodes.lookup key

/-- An entry of a group of names without slashes stands for a file. -/
theorem isFile_of_mem (hslash : ∀ n ∈ names, '/' ∉ n.toList)
    (hgroup : group ∈ ShaderGroup.ofNames names) {entry : ShaderEntry}
    (hentry : entry ∈ group.entries) : entry.IsFile := by
  obtain ⟨hname, hstage, hstem⟩ :=
    ShaderGroup.holds_ofNames_iff.mp ⟨group, hgroup, rfl, hentry⟩
  -- A name with a stem has a last name, which is the whole of it.
  obtain ⟨file, hfile, -⟩ := Option.map_eq_some_iff.mp hstem
  obtain rfl := Path.eq_of_fileName? (hslash _ hname) hfile
  exact ⟨Path.isEntry_of_fileName? hfile, hstage⟩

/-- The stem of a group has no slash. -/
theorem notMem_slash_stem (hgroup : group ∈ ShaderGroup.ofNames names) :
    '/' ∉ group.stem.toList := by
  obtain ⟨entry, hentry⟩ :=
    List.exists_mem_of_ne_nil _ (ShaderGroup.entries_ne_nil_of_mem_ofNames hgroup)
  obtain ⟨-, -, hstem⟩ := ShaderGroup.holds_ofNames_iff.mp ⟨group, hgroup, rfl, hentry⟩
  exact Path.notMem_slash_of_stem? hstem

/-- A report is known by its stem. -/
theorem stem_eq_of_reportKey_eq {group' : ShaderGroup} (hslash : '/' ∉ group.stem.toList)
    (hslash' : '/' ∉ group'.stem.toList) (h : reportKey config group = reportKey config group') :
    group.stem = group'.stem := by
  rw [reportKey_eq hslash, reportKey_eq hslash'] at h
  have hname := List.singleton_inj.mp (List.append_cancel_left h)
  rw [← String.toList_inj, String.toList_append, String.toList_append] at hname
  exact String.toList_inj.mp (List.append_cancel_right hname)

/-- The reports of the groups of some names lie at different places. -/
theorem nodup_reportKeys (config : BuildConfig) (names : List String) :
    ((ShaderGroup.ofNames names).map (reportKey config)).Nodup := by
  have hstems := List.pairwise_map.mp (ShaderGroup.ascending_ofNames names).nodup_stems
  refine List.pairwise_map.mpr (hstems.imp_of_mem ?_)
  intro group group' hgroup hgroup' hne hkey
  exact hne (stem_eq_of_reportKey_eq (notMem_slash_stem hgroup) (notMem_slash_stem hgroup') hkey)

/-- A build that comes to its end has written the reports of the groups. -/
theorem reports_of_run (hslash : ∀ n ∈ names, '/' ∉ n.toList)
    (hlist : tree.list (Path.names config.source) = .ok names)
    (h : (run config tree).error? = none) :
    ∃ made, tree.makeDirectory (Path.steps config.output) = (made, none) ∧
      Reports config made (ShaderGroup.ofNames names) (run config tree) := by
  simp only [run, hlist] at h ⊢
  split at h
  · cases h
  · rename_i made hmade
    have hkeys := nodup_reportKeys config names
    have hwritten := written_of_writeGroups h
    refine ⟨made, hmade, hwritten, ?_, ?_, fun key => lookup_writeGroups_of_ne⟩
    · -- Paths that lead to different places are different.
      rw [hwritten]
      refine List.Nodup.of_map (fun path => Path.resolve (Path.names path)) ?_
      rwa [List.map_map]
    · intro group hgroup
      obtain ⟨_, report, -, hreport, hfound⟩ := exists_report_of_writeGroups hkeys h hgroup
      have hfiles : ∀ entry ∈ group.entries, entry.IsFile :=
        fun entry => isFile_of_mem hslash hgroup
      obtain ⟨hname, hshaders⟩ := Report.of_ofGroup hfiles hreport
      exact ⟨report, hname, hshaders, hfound⟩

/-- The files of a directory are grouped in one way, in whatever order they are listed, and a
build that comes to its end has written one report for each group. No build stops at a file
without a stage. -/
theorem run_reports (hnodup : names.Nodup) (hslash : ∀ n ∈ names, '/' ∉ n.toList) :
    (∀ names', names'.Perm names → ShaderGroup.ofNames names' = ShaderGroup.ofNames names) ∧
    ShaderGroup.IsGrouping names (ShaderGroup.ofNames names) ∧
    ∀ config tree, tree.list (Path.names config.source) = .ok names →
      (∀ ext, (run config tree).error? ≠ some (.load (.unknownStage ext))) ∧
      ((run config tree).error? = none →
        ∃ made, tree.makeDirectory (Path.steps config.output) = (made, none) ∧
          Reports config made (ShaderGroup.ofNames names) (run config tree)) :=
  ⟨fun _ hperm => ShaderGroup.ofNames_perm hperm hnodup hslash,
    ShaderGroup.isGrouping_ofNames hnodup hslash,
    fun config tree hlist => ⟨run_ne_unknownStage config tree, reports_of_run hslash hlist⟩⟩

/-- The names in a directory with the files of two pipelines and one that is no shader file. -/
def scene : List String :=
  ["sky.frag", "mesh.frag", "notes.txt", "mesh.vert"]

/-- A tree with that directory, whose shader files are empty. -/
def sceneTree : FileTree :=
  ⟨(["shaders"], .directory) :: scene.map fun name => (["shaders", name], .file ⟨#[]⟩)⟩

/-- A build of the scene into the directory of its files. -/
def sceneConfig : BuildConfig :=
  ⟨"shaders", "shaders"⟩

/-- The groups and the reports of a scene. -/
theorem run_reports_scene :
    ShaderGroup.ofNames ["mesh.vert", "notes.txt", "mesh.frag", "sky.frag"] =
      ShaderGroup.ofNames scene ∧
    ShaderGroup.IsGrouping scene (ShaderGroup.ofNames scene) ∧
    ShaderGroup.ofNames scene =
      [⟨"mesh", [⟨.vertex, "mesh.vert"⟩, ⟨.fragment, "mesh.frag"⟩]⟩,
        ⟨"sky", [⟨.fragment, "sky.frag"⟩]⟩] ∧
    (run sceneConfig sceneTree).written = ["shaders/mesh.json", "shaders/sky.json"] ∧
    ∃ made, sceneTree.makeDirectory ["shaders"] = (made, none) ∧
      Reports sceneConfig made (ShaderGroup.ofNames scene) (run sceneConfig sceneTree) := by
  have hnodup : scene.Nodup := by decide
  have hslash : ∀ n ∈ scene, '/' ∉ n.toList := by decide
  obtain ⟨hperm, hgrouping, hruns⟩ := run_reports hnodup hslash
  have hlist : sceneTree.list (Path.names sceneConfig.source) = .ok scene := by decide +kernel
  have hrun : (run sceneConfig sceneTree).error? = none := by decide +kernel
  have hgroups : ShaderGroup.ofNames scene =
      [⟨"mesh", [⟨.vertex, "mesh.vert"⟩, ⟨.fragment, "mesh.frag"⟩]⟩,
        ⟨"sky", [⟨.fragment, "sky.frag"⟩]⟩] := by decide +kernel
  obtain ⟨made, hmade, hreports⟩ := (hruns sceneConfig sceneTree hlist).2 hrun
  have hwritten : (run sceneConfig sceneTree).written =
      ["shaders/mesh.json", "shaders/sky.json"] := by
    rw [hreports.written, hgroups]
    decide
  exact ⟨hperm _ (by decide), hgrouping, hgroups, hwritten, made, hmade, hreports⟩

end Build

end Glint
