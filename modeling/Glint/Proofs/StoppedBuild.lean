import Glint.Proofs.BuildReports

/-!
# What a stopped build leaves

The reports of a build are no shader files, so writing them does not change what later groups are
read from, not even where they stand among the sources: every group is read as if it were the
first. A build that stops at a group has therefore written the reports of those before it, as a
build of these alone would, and nothing else.

## Main definitions

* `Build.IsReport` — a place where a report can be written
* `Build.CanWrite` — the report of a group can be written
* `Build.StoppedAt` — what a build leaves that stops at a group

## Main results

* `Build.keeps_run` — a build keeps all files but reports
* `Report.ofGroup_eq` — reports in the tree change no other report
* `Build.run_stops_iff` — a build stops exactly if some report cannot be made
* `Build.run_stopped` — what a build leaves that stops
-/

namespace Glint

open FileTree (Keeps)

variable {tree tree' made : FileTree} {dir : String} {name stem : String} {names : List String}

/-- The name of a report is not that of a shader file. -/
theorem Stage.ofPath?_json (h : '/' ∉ stem.toList) : ofPath? (stem ++ ".json") = none := by
  have hentry : Path.IsEntry (stem ++ ".json") :=
    Path.isEntry_of_length (by simp [h]) (by simp)
  rw [← Option.not_isSome_iff_eq_none, Option.isSome_iff_exists]
  rintro ⟨stage, hstage⟩
  obtain ⟨stem', hstem⟩ : ∃ stem', Path.stem? (stem ++ ".json") = some stem' :=
    ⟨_, congrArg _ (Path.fileName?_of_isEntry hentry)⟩
  have hname := Path.eq_of_stem?_of_ofPath? hentry.notMem_slash hstage hstem
  -- No extension of a stage ends like that of a report.
  have hlast := congrArg (·.toList.getLast?) hname
  cases stage <;> simp [extension] at hlast

/-! ### What a build keeps -/

namespace Build

variable {config : BuildConfig} {group other : ShaderGroup} {groups : List ShaderGroup}
  {key : List String}

/-- A report can be written at the place. -/
def IsReport (config : BuildConfig) (key : List String) : Prop :=
  ∃ group : ShaderGroup, '/' ∉ group.stem.toList ∧ key = reportKey config group

/-- No report is written where a shader file can stand. -/
theorem not_isReport_of_stage (hstage : (Stage.ofPath? name).isSome = true) (above : List String) :
    ¬ IsReport config (above ++ [name]) := by
  rintro ⟨group, hslash, hkey⟩
  rw [reportKey_eq hslash] at hkey
  obtain rfl := List.singleton_inj.mp (List.append_inj' hkey rfl).2
  rw [Stage.ofPath?_json hslash] at hstage
  cases hstage

theorem keeps_writeGroup (h : writeGroup config tree group = .ok tree') :
    Keeps (· = reportKey config group) tree tree' := by
  obtain ⟨report, -, hwrite⟩ := Outcome.bind_eq_ok.mp h
  exact FileTree.keeps_writeText (Outcome.mapError_eq_ok.mp hwrite)

/-- A run over groups changes no files but their reports. -/
theorem keeps_writeGroups (config : BuildConfig) (tree : FileTree) (groups : List ShaderGroup) :
    Keeps (fun key => ∃ group ∈ groups, key = reportKey config group) tree
      (writeGroups config tree groups).tree := by
  induction groups generalizing tree with
  | nil => exact .refl _ _
  | cons group groups ih =>
    rw [writeGroups]
    split
    · exact .refl _ _
    · rename_i tree' hwrite
      refine ((keeps_writeGroup hwrite).mono ?_).trans ((ih tree').mono ?_)
      · rintro key rfl
        exact ⟨group, List.mem_cons_self, rfl⟩
      · rintro key ⟨other, hother, rfl⟩
        exact ⟨other, List.mem_cons_of_mem _ hother, rfl⟩

/-- Groups of names are reported at places for reports. -/
theorem keeps_writeGroups_of_subset (hgroups : groups ⊆ ShaderGroup.ofNames names) :
    Keeps (IsReport config) tree (writeGroups config tree groups).tree := by
  refine (keeps_writeGroups config tree groups).mono ?_
  rintro key ⟨group, hgroup, rfl⟩
  exact ⟨group, notMem_slash_stem (hgroups hgroup), rfl⟩

/-- A build changes no files but reports, whatever becomes of it. -/
theorem keeps_run (config : BuildConfig) (tree : FileTree) :
    Keeps (IsReport config) tree (run config tree).tree := by
  rw [run]
  split
  · exact .refl _ _
  · rename_i names hlist
    have hmade : Keeps (IsReport config) tree (tree.makeDirectory (Path.steps config.output)).1 :=
      (tree.keeps_makeDirectory _).mono fun _ => False.elim
    split
    · rename_i made failure heq
      rwa [heq] at hmade
    · rename_i made heq
      rw [heq] at hmade
      exact hmade.trans (keeps_writeGroups_of_subset (List.Subset.refl _))

end Build

/-! ### Reading among reports -/

/-- The report of a group is made from the tree as it was, also after others have been written. -/
theorem Report.ofGroup_eq {config : BuildConfig} {group : ShaderGroup}
    (h : Keeps (Build.IsReport config) tree tree')
    (hlist : tree.list (Path.names dir) = .ok names) (hslash : ∀ n ∈ names, '/' ∉ n.toList)
    (hgroup : group ∈ ShaderGroup.ofNames names) :
    ofGroup tree' dir group = ofGroup tree dir group := by
  have hfiles : ∀ entry ∈ group.entries, Interface.ofFile tree' (Path.join dir entry.name) =
      Interface.ofFile tree (Path.join dir entry.name) := by
    intro entry hentry
    have hfile := Build.isFile_of_mem hslash hgroup hentry
    have hname := (ShaderGroup.holds_ofNames_iff.mp ⟨group, hgroup, rfl, hentry⟩).1
    have hstage : (Stage.ofPath? entry.name).isSome = true := by rw [hfile.stage, Option.isSome_some]
    rw [Interface.ofFile, Interface.ofFile, h.load_eq hlist hname hfile.isEntry
      (Build.not_isReport_of_stage hstage _)]
  rw [ofGroup, ofGroup, Outcome.mapM_congr hfiles]

/-! ### Where a build stops -/

namespace Build

variable {config : BuildConfig} {group other : ShaderGroup} {groups : List ShaderGroup}
  {e : BuildError}

/-- The report of a group can be written, whatever its text is. -/
def CanWrite (config : BuildConfig) (tree : FileTree) (group : ShaderGroup) : Prop :=
  ∀ text, ∃ written, tree.writeText (Path.names (reportPath config group)) text = .ok written

/-- The name of the report can stand in the output directory, and no directory stands there. -/
theorem canWrite_iff (hslash : '/' ∉ group.stem.toList) : CanWrite config tree group ↔
    tree.find (Path.steps config.output) = .ok .directory ∧
      (group.stem ++ ".json").toList.contains '\x00' = false ∧
      (group.stem ++ ".json").utf8ByteSize ≤ FileTree.maxNameLength ∧
      tree.nodes.lookup (reportKey config group) ≠ some .directory := by
  have hentry := isEntry_reportName hslash
  have hnames : Path.names (reportPath config group) =
      Path.steps config.output ++ [group.stem ++ ".json"] := Path.names_join _ hentry
  simp only [CanWrite, reportKey, hnames, FileTree.exists_writeText_iff hentry.isFixed_eq,
    forall_const]

/-- A report does not stand in the way of another one. -/
theorem CanWrite.writeGroup (h : CanWrite config tree group) (hslash : '/' ∉ group.stem.toList)
    (hwrite : Build.writeGroup config tree other = .ok tree') : CanWrite config tree' group := by
  obtain ⟨report, -, hreport⟩ := Outcome.bind_eq_ok.mp hwrite
  have hsame : tree'.nodes.lookup (reportKey config group) = some .directory ↔
      tree.nodes.lookup (reportKey config group) = some .directory :=
    FileTree.lookup_directory_of_writeText (Outcome.mapError_eq_ok.mp hreport)
  rw [canWrite_iff hslash] at h ⊢
  obtain ⟨hdir, hnul, hlength, hfree⟩ := h
  exact ⟨(keeps_writeGroup hwrite).find_directory hdir, hnul, hlength, mt hsame.mp hfree⟩

theorem CanWrite.writeGroups (h : CanWrite config tree group) (hslash : '/' ∉ group.stem.toList)
    (groups : List ShaderGroup) :
    CanWrite config (Build.writeGroups config tree groups).tree group := by
  induction groups generalizing tree with
  | nil => exact h
  | cons first groups ih =>
    rw [Build.writeGroups]
    split
    · exact h
    · rename_i tree' hwrite
      exact ih (h.writeGroup hslash hwrite)

/-- Where reports can be written, a group fails for its shaders. -/
theorem CanWrite.ofGroup_eq_error (h : CanWrite config tree group)
    (hwrite : Build.writeGroup config tree group = .error e) :
    Report.ofGroup tree config.source group = .error e := by
  rcases Outcome.bind_eq_error.mp hwrite with hreport | ⟨report, -, hfail⟩
  · exact hreport
  · obtain ⟨written, hwritten⟩ := h report.text
    rw [hwritten] at hfail
    cases hfail

/-- A run that stops has written the reports of some groups and fails at the next one, of which it
writes nothing. -/
theorem exists_stop_of_writeGroups (h : (writeGroups config tree groups).error? = some e) :
    ∃ before group after, groups = before ++ group :: after ∧
      (writeGroups config tree before).error? = none ∧
      writeGroup config (writeGroups config tree before).tree group = .error e ∧
      (writeGroups config tree groups).tree = (writeGroups config tree before).tree ∧
      (writeGroups config tree groups).written = (writeGroups config tree before).written := by
  induction groups generalizing tree with
  | nil => cases h
  | cons first groups ih =>
    rw [writeGroups] at h ⊢
    cases hwrite : writeGroup config tree first with
    | error error =>
      rw [hwrite] at h
      obtain rfl := Option.some.inj h
      exact ⟨[], first, groups, rfl, rfl, hwrite, rfl, rfl⟩
    | ok tree' =>
      rw [hwrite] at h
      obtain ⟨before, group, after, rfl, hnone, hfail, htree, hwritten⟩ := ih h
      refine ⟨first :: before, group, after, rfl, ?_⟩
      rw [writeGroups, hwrite]
      exact ⟨hnone, hfail, htree, congrArg (List.cons _) hwritten⟩

/-- The groups with smaller stems. -/
def earlier (groups : List ShaderGroup) (group : ShaderGroup) : List ShaderGroup :=
  groups.filter fun other => other.stem < group.stem

theorem earlier_eq {before after : List ShaderGroup}
    (h : ShaderGroup.Ascending (before ++ group :: after)) :
    earlier (before ++ group :: after) group = before := by
  -- The stems go up, so the smaller ones are those in front.
  obtain ⟨-, hafter, hbetween⟩ := List.pairwise_append.mp h
  have hbefore : ∀ other ∈ before, decide (other.stem < group.stem) = true := fun other hother =>
    decide_eq_true (hbetween other hother group List.mem_cons_self)
  have hrest : ∀ other ∈ group :: after, ¬ decide (other.stem < group.stem) = true := by
    rw [List.forall_mem_cons]
    refine ⟨by simp, fun other hother hless => ?_⟩
    have hgreater := (List.pairwise_cons.mp hafter).1 other hother
    exact String.lt_irrefl _ (String.lt_trans hgreater (of_decide_eq_true hless))
  rw [earlier, List.filter_append, List.filter_eq_self.mpr hbefore,
    List.filter_eq_nil_iff.mpr hrest, List.append_nil]

/-- What a build leaves that stops at a group: the report of that group cannot be made. A build of
the groups with smaller stems alone comes to its end, and leaves the same. Their reports are
those that the tree gave rise to before the build, and where the report of any other stem would
stand, there is the same file as before, or none. -/
structure StoppedAt (config : BuildConfig) (tree made : FileTree) (groups : List ShaderGroup)
    (group : ShaderGroup) (e : BuildError) (result : BuildResult) : Prop where
  mem : group ∈ groups
  fails : Report.ofGroup tree config.source group = .error e
  complete : (writeGroups config made (earlier groups group)).error? = none
  leaves : result.tree = (writeGroups config made (earlier groups group)).tree
  written : result.written = (earlier groups group).map (reportPath config)
  reports : ∀ other ∈ groups, other.stem < group.stem →
    ∃ report, Report.ofGroup tree config.source other = .ok report ∧
      result.tree.fileAt? (reportKey config other) = some report.text.toUTF8
  kept : ∀ other : ShaderGroup, '/' ∉ other.stem.toList → ¬ other.stem < group.stem →
    result.tree.fileAt? (reportKey config other) = tree.fileAt? (reportKey config other)

/-- A build that can list its source and make its output directory is a run over the groups. -/
theorem run_eq (hlist : tree.list (Path.names config.source) = .ok names)
    (hmake : tree.makeDirectory (Path.steps config.output) = (made, none)) :
    run config tree = writeGroups config made (ShaderGroup.ofNames names) := by
  simp only [run, hlist, hmake]

section Run

variable (hlist : tree.list (Path.names config.source) = .ok names)
  (hslash : ∀ n ∈ names, '/' ∉ n.toList)
  (hmake : tree.makeDirectory (Path.steps config.output) = (made, none))
include hlist hslash hmake

/-- What has been made and written so far does not change the report of a group. -/
theorem ofGroup_writeGroups_eq (hgroups : groups ⊆ ShaderGroup.ofNames names)
    (hgroup : group ∈ ShaderGroup.ofNames names) :
    Report.ofGroup (writeGroups config made groups).tree config.source group =
      Report.ofGroup tree config.source group := by
  have hmade : Keeps (IsReport config) tree (tree.makeDirectory (Path.steps config.output)).1 :=
    (tree.keeps_makeDirectory _).mono fun _ => False.elim
  rw [hmake] at hmade
  exact Report.ofGroup_eq (hmade.trans (keeps_writeGroups_of_subset hgroups)) hlist hslash hgroup

/-- A run over some of the groups that comes to its end leaves the reports that were to be made
before it. -/
theorem exists_report_of_complete (hgroups : groups.Sublist (ShaderGroup.ofNames names))
    (h : (writeGroups config made groups).error? = none) (hgroup : group ∈ groups) :
    ∃ report, Report.ofGroup tree config.source group = .ok report ∧
      (writeGroups config made groups).tree.fileAt? (reportKey config group) =
        some report.text.toUTF8 := by
  have hkeys := (nodup_reportKeys config names).sublist (hgroups.map _)
  obtain ⟨start, report, hstart, hreport, hfound⟩ := exists_report_of_writeGroups hkeys h hgroup
  rw [ofGroup_writeGroups_eq hlist hslash hmake (List.Subset.trans hstart hgroups.subset)
    (hgroups.subset hgroup)] at hreport
  exact ⟨report, hreport, FileTree.fileAt?_eq_some_iff.mpr hfound⟩

/-- A run over groups in the order of their stems that stops leaves the reports before that. -/
theorem exists_stoppedAt (hwrite : ∀ group ∈ ShaderGroup.ofNames names, CanWrite config made group)
    (h : (writeGroups config made (ShaderGroup.ofNames names)).error? = some e) :
    ∃ group, StoppedAt config tree made (ShaderGroup.ofNames names) group e
      (writeGroups config made (ShaderGroup.ofNames names)) := by
  obtain ⟨before, group, after, hgroups, hnone, hfail, htree, hwritten⟩ :=
    exists_stop_of_writeGroups h
  have hearlier : earlier (ShaderGroup.ofNames names) group = before := by
    have hascending := ShaderGroup.ascending_ofNames names
    rw [hgroups] at hascending
    rw [hgroups, earlier_eq hascending]
  have hbefore : before.Sublist (ShaderGroup.ofNames names) :=
    hgroups ▸ List.sublist_append_left _ _
  have hmem : group ∈ ShaderGroup.ofNames names := by simp [hgroups]
  have hless {other : ShaderGroup} (hother : other ∈ ShaderGroup.ofNames names) :
      other ∈ before ↔ other.stem < group.stem := by
    rw [← hearlier, earlier, List.mem_filter, decide_eq_true_iff, and_iff_right hother]
  refine ⟨group, {
    mem := hmem
    fails := ?_
    complete := hearlier ▸ hnone
    leaves := hearlier ▸ htree
    written := ?_
    reports := fun other hother hstem => ?_
    kept := fun other hother hstem => ?_ }⟩
  -- The tree at the stop differs, but neither what the group is read from nor what it is written to.
  · have hwritable := (hwrite group hmem).writeGroups (notMem_slash_stem hmem) before
    rw [← ofGroup_writeGroups_eq hlist hslash hmake hbefore.subset hmem]
    exact hwritable.ofGroup_eq_error hfail
  · rw [hwritten, hearlier]
    exact written_of_writeGroups hnone
  · rw [htree]
    exact exists_report_of_complete hlist hslash hmake hbefore hnone ((hless hother).mpr hstem)
  · have hmade := tree.keeps_makeDirectory (Path.steps config.output)
    rw [hmake] at hmade
    rw [htree, (keeps_writeGroups config made before).fileAt? _ ?_, hmade.fileAt? _ id]
    rintro ⟨first, hfirst, hkey⟩
    -- A report at the same place would have the same stem.
    have hmemFirst := hbefore.subset hfirst
    have hsame := stem_eq_of_reportKey_eq hother (notMem_slash_stem hmemFirst) hkey
    exact hstem (hsame ▸ (hless hmemFirst).mp hfirst)

/-- Where everything can be written, a build stops exactly if some report cannot be made. -/
theorem run_stops_iff (hwrite : ∀ group ∈ ShaderGroup.ofNames names, CanWrite config made group) :
    (∃ e, (run config tree).error? = some e) ↔
      ∃ group ∈ ShaderGroup.ofNames names, ∃ e,
        Report.ofGroup tree config.source group = .error e := by
  rw [run_eq hlist hmake]
  constructor
  · rintro ⟨e, h⟩
    obtain ⟨group, hstopped⟩ := exists_stoppedAt hlist hslash hmake hwrite h
    exact ⟨group, hstopped.mem, e, hstopped.fails⟩
  · rintro ⟨group, hgroup, e, hfails⟩
    -- A run that comes to its end has made the report of every group.
    by_contra hnone
    rw [← Option.isSome_iff_exists, Option.not_isSome_iff_eq_none] at hnone
    obtain ⟨report, hreport, -⟩ := exists_report_of_complete hlist hslash hmake
      (List.Sublist.refl _) hnone hgroup
    cases hfails.symm.trans hreport

end Run

/-- A build changes no shader file. One that cannot list its source directory changes nothing. One
that can, and that can make and write what it has to, stops at a group only because the report of
that group cannot be made, and leaves the reports of the groups before. -/
theorem run_stopped :
    (∀ config tree above name, (Stage.ofPath? name).isSome = true →
      (run config tree).tree.fileAt? (above ++ [name]) = tree.fileAt? (above ++ [name])) ∧
    (∀ config tree failure, tree.list (Path.names config.source) = .error failure →
      (run config tree).tree = tree ∧ (run config tree).written = []) ∧
    ∀ config tree made names e, tree.list (Path.names config.source) = .ok names →
      (∀ n ∈ names, '/' ∉ n.toList) →
      tree.makeDirectory (Path.steps config.output) = (made, none) →
      (∀ group ∈ ShaderGroup.ofNames names, CanWrite config made group) →
      (run config tree).error? = some e →
        ∃ group, StoppedAt config tree made (ShaderGroup.ofNames names) group e
          (run config tree) := by
  refine ⟨fun config tree above name hstage => ?_, fun config tree failure hlist => ?_,
    fun config tree made names e hlist hslash hmake hwrite h => ?_⟩
  · exact (keeps_run config tree).fileAt? _ (not_isReport_of_stage hstage above)
  · simp only [run, hlist, and_self]
  · rw [run_eq hlist hmake] at h ⊢
    exact exists_stoppedAt hlist hslash hmake hwrite h

/-- The names in a directory with the files of three pipelines, and a report of a former build. -/
def draft : List String :=
  ["wood.frag", "sky.frag", "mesh.vert", "sky.json"]

/-- A tree with that directory, in which the shader of the second pipeline is not finished. -/
def draftTree : FileTree :=
  ⟨[(["shaders"], .directory), (["shaders", "wood.frag"], .file ⟨#[]⟩),
    (["shaders", "sky.frag"], .file "layout(".toUTF8), (["shaders", "mesh.vert"], .file ⟨#[]⟩),
    (["shaders", "sky.json"], .file ⟨#[]⟩)]⟩

/-- The build of the draft stops at its second pipeline, and one without the directory at once. -/
theorem run_stopped_draft :
    (run sceneConfig draftTree).tree.fileAt? (["shaders"] ++ ["sky.frag"]) =
      draftTree.fileAt? (["shaders"] ++ ["sky.frag"]) ∧
    (run sceneConfig .empty).tree = .empty ∧ (run sceneConfig .empty).written = [] ∧
    (run sceneConfig draftTree).written = ["shaders/mesh.json"] ∧
    ∃ group e, StoppedAt sceneConfig draftTree draftTree (ShaderGroup.ofNames draft) group e
      (run sceneConfig draftTree) := by
  have hlist : draftTree.list (Path.names sceneConfig.source) = .ok draft := by decide +kernel
  have hslash : ∀ n ∈ draft, '/' ∉ n.toList := by decide
  have hfind : draftTree.find (Path.steps sceneConfig.output) = .ok .directory := by decide +kernel
  have hmake : draftTree.makeDirectory (Path.steps sceneConfig.output) = (draftTree, none) := by
    rw [FileTree.makeDirectory, FileTree.makeFrom, FileTree.makeStep, hfind]
  have hwrite : ∀ group ∈ ShaderGroup.ofNames draft, CanWrite sceneConfig draftTree group := by
    intro group hgroup
    have hfree : ∀ group ∈ ShaderGroup.ofNames draft,
        (group.stem ++ ".json").toList.contains '\x00' = false ∧
        (group.stem ++ ".json").utf8ByteSize ≤ FileTree.maxNameLength ∧
        draftTree.nodes.lookup (reportKey sceneConfig group) ≠ some .directory := by
      decide +kernel
    exact (canWrite_iff (notMem_slash_stem hgroup)).mpr ⟨hfind, hfree group hgroup⟩
  have hwritten : (run sceneConfig draftTree).written = ["shaders/mesh.json"] := by decide +kernel
  have hstops : (run sceneConfig draftTree).error? =
      some (.shader "shaders/sky.frag" (.malformed 0 .unterminated)) := by
    decide +kernel
  have hmissing : FileTree.empty.list (Path.names sceneConfig.source) = .error .notFound := by
    decide +kernel
  obtain ⟨hkept, hnothing, hstopped⟩ := run_stopped
  obtain ⟨group, hdraft⟩ :=
    hstopped sceneConfig draftTree draftTree draft _ hlist hslash hmake hwrite hstops
  obtain ⟨htree, hnone⟩ := hnothing sceneConfig .empty _ hmissing
  exact ⟨hkept sceneConfig draftTree ["shaders"] "sky.frag" (by decide +kernel), htree, hnone,
    hwritten, group, _, hdraft⟩

end Build

end Glint
