import FactCore.Compare.ComparePlugin
import FactCore.Storage.Overviews

/-!
# Comparing stored objects

`compare` of `src/src/compare/compare.py` loads the complete objects of some uids and
hands them to the plugins. The plugin of
`src/src/plugins/compare/software/code/software.py` sorts the software that is reported
below the objects into the same three classes as the coverage plugin sorts files.

A plugin is skipped if one of the objects lacks a result that it depends on
(`src/src/compare/PluginBase.py`).

Results:
1. `classifiedBy_of_objects`: the classes, in terms of what the objects have.
2. `comparedObjects_exact`: the objects that are loaded for a comparison.
3. `compare_exact`: after every run, the classes of files are those of what is listed for
   the objects, and the classes of software those of what the files below them report.
-/

namespace FactCore

open Relation

/-! ## 1. Classes of anything -/

/-- The classes of what an object has, and the other objects of a comparison have. -/
structure ClassifiedBy (has : Uid → String → Prop) (uidList : List Uid) (coverage : Coverage)
    (uid : Uid) (exclusive rest : List String) : Prop where
  getExclusive : coverage.exclusiveFiles.get? uid = some exclusive
  notInAll : coverage.filesInMoreThanOneButNotInAll.map (fun files => files.get? uid) =
    if 2 < uidList.length then some (some rest) else none
  nodup : (coverage.filesInCommon ++ exclusive ++ rest).Nodup
  mem_common : ∀ x, x ∈ coverage.filesInCommon ↔ ∀ other ∈ uidList, has other x
  mem_exclusive : ∀ x, x ∈ exclusive ↔ has uid x ∧ ∀ other ∈ uidList, other ≠ uid → ¬ has other x
  mem_rest : ∀ x, x ∈ rest ↔ has uid x ∧ (∃ other ∈ uidList, other ≠ uid ∧ has other x) ∧
    ¬ ∀ other ∈ uidList, has other x

theorem classifiedBy_of_classified {has : Uid → String → Prop} {uidList : List Uid}
    {foList : List ComparedObject} {coverage : Coverage}
    (huids : foList.map ComparedObject.uid = uidList) (hnodup : uidList.Nodup)
    (hhas : ∀ fo ∈ foList, ∀ x, x ∈ fo.listOfAllIncludedFiles ↔ has fo.uid x)
    (hclassified : ∀ fo ∈ foList, ∃ exclusive rest, Classified foList coverage fo exclusive rest) :
    ∀ uid ∈ uidList, ∃ exclusive rest, ClassifiedBy has uidList coverage uid exclusive rest := by
  subst huids
  have hdistinct : DistinctObjects foList := hnodup
  intro uid huid
  obtain ⟨fo, hfo, rfl⟩ := List.mem_map.mp huid
  obtain ⟨exclusive, rest, h⟩ := hclassified fo hfo
  -- objects with different uids are different, and the other way round
  have hne : ∀ other ∈ foList, other ≠ fo ↔ other.uid ≠ fo.uid := by
    intro other hother
    refine not_congr ⟨congrArg _, fun heq => ?_⟩
    exact List.inj_on_of_nodup_map hdistinct hother hfo heq
  have hall : ∀ x, InAll foList x ↔ ∀ other ∈ foList.map ComparedObject.uid, has other x := by
    intro x
    rw [List.forall_mem_map, InAll]
    exact forall₂_congr fun other hother => hhas other hother x
  refine ⟨exclusive, rest, h.exclusiveFiles, ?_, ?_, ?_, ?_, ?_⟩
  · rw [h.notInAll, List.length_map]
  · exact h.union.nodup_iff.mpr (List.nodup_dedup _)
  · exact fun x => (h.mem_common x).trans (hall x)
  · intro x
    rw [h.mem_exclusive, OnlyIn, hhas fo hfo, List.forall_mem_map]
    refine and_congr_right fun _ => forall₂_congr fun other hother => ?_
    rw [hne other hother, hhas other hother]
  · intro x
    rw [h.mem_rest, InSome, hhas fo hfo, hall]
    refine and_congr_right fun _ => and_congr_left fun _ => ?_
    simp only [List.mem_map]
    constructor
    · rintro ⟨other, hother, hother', hx⟩
      exact ⟨other.uid, ⟨other, hother, rfl⟩, (hne other hother).mp hother', (hhas other hother x).mp hx⟩
    · rintro ⟨_, ⟨other, hother, rfl⟩, hother', hx⟩
      exact ⟨other, hother, (hne other hother).mpr hother', (hhas other hother x).mpr hx⟩

theorem classifiedBy_of_objects {has : Uid → String → Prop} {uidList : List Uid}
    {foList : List ComparedObject} (huids : foList.map ComparedObject.uid = uidList)
    (hnodup : uidList.Nodup) (hlength : 2 ≤ uidList.length)
    (hhas : ∀ fo ∈ foList, ∀ x, x ∈ fo.listOfAllIncludedFiles ↔ has fo.uid x) :
    ∃ coverage, coverageOf foList = some coverage ∧ ∀ uid ∈ uidList, ∃ exclusive rest,
      ClassifiedBy has uidList coverage uid exclusive rest := by
  have hobjects : 2 ≤ foList.length := by rwa [← huids, List.length_map] at hlength
  have hdistinct : DistinctObjects foList := by
    rw [DistinctObjects, huids]
    exact hnodup
  obtain ⟨coverage, hcoverage, hclassified⟩ := coverageOf_classified hobjects hdistinct
  exact ⟨coverage, hcoverage, classifiedBy_of_classified huids hnodup hhas hclassified⟩

/-! ## 2. The objects of a comparison -/

/-- `Compare.compare`: the objects that are handed to the plugins. -/
def comparedObjects (db : Db) (depth : Nat) (uidList : List Uid) :
    Except SummaryError (List (FileObject × List Uid)) :=
  uidList.mapM (getCompleteObjectIncludingAllSummaries db depth)

/-- What the coverage plugin reads of a complete object. -/
def comparedObject (object : FileObject × List Uid) : ComparedObject :=
  ⟨object.1.uid, object.2, object.1.filesIncluded, object.1.isFirmware⟩

/-- `_get_unmatched_dependencies`. -/
def getUnmatchedDependencies (foList : List FileObject) (dependencyList : List String) : List String :=
  (dependencyList.flatMap fun dependency =>
    (foList.filter fun fo => decide (dependency ∉ fo.processedAnalysis)).map fun _ => dependency).dedup

/-- What `CompareBasePlugin.compare` returns. -/
inductive PluginResult (α : Type)
  /-- The entry `Compare Skipped`. -/
  | skipped (message : String)
  | compared (result : α)

/-- `CompareBasePlugin.compare`, for a plugin with these dependencies. -/
def comparePlugin {α : Type} (dependencies : List String)
    (compareFunction : List FileObject → Option α) (foList : List FileObject) :
    Option (PluginResult α) :=
  let missingDeps := getUnmatchedDependencies foList dependencies
  if missingDeps.length > 0 then
    some (.skipped ("Required analysis not present: " ++ ", ".intercalate missingDeps))
  else (compareFunction foList).map .compared

/-- `_get_software_set`. -/
def getSoftwareSet (fo : FileObject) : Option (List String) :=
  match (fo.processedAnalysis.get? "software_components").bind (·.get? "summary") with
  | some (.dict entries) => some (entries.map Prod.fst)
  | _ => none

/-- `compare_function` of the software plugin: the classes of the coverage plugin, made of the
software of the objects. -/
def compareFunctionSoftware (foList : List FileObject) : Option Coverage := do
  let objects ← foList.mapM fun fo => (getSoftwareSet fo).map fun software =>
    (⟨fo.uid, software, fo.filesIncluded, fo.isFirmware⟩ : ComparedObject)
  coverageOf objects

/-- The comparison by the software plugin. -/
def compareSoftware (foList : List FileObject) : Option (PluginResult Coverage) :=
  comparePlugin ["software_components"] compareFunctionSoftware foList

section Comparison
variable {driver : Driver} {limits : Limits} {contents : Contents} {maxDepth depth : Nat}
  {ops : List ContentOp} {db : Db} {uidList : List Uid}

/-- The objects of a comparison are loaded, in the order of the uids. -/
theorem comparedObjects_exact (h : ContentInv contents maxDepth db) (hdepth : maxDepth < depth)
    (hstored : ∀ uid ∈ uidList, uid ∈ db.fileObjects) (htags : ∀ uid ∈ uidList, db.TagsReadable uid) :
    ∃ objects, comparedObjects db depth uidList = .ok objects ∧
      List.Forall₂ (fun uid object => CompleteObjectExact db uid object.1 object.2) uidList objects := by
  induction uidList with
  | nil => exact ⟨[], rfl, .nil⟩
  | cons uid uidList ih =>
    obtain ⟨hrow, hrest⟩ := List.forall_mem_cons.mp hstored
    obtain ⟨hread, hreads⟩ := List.forall_mem_cons.mp htags
    obtain ⟨fo, files, hfo, hexact⟩ := completeObject_of_inv h hrow hdepth hread
    obtain ⟨objects, hobjects, hall⟩ := ih hrest hreads
    refine ⟨(fo, files) :: objects, ?_, .cons hexact hall⟩
    unfold comparedObjects at hobjects ⊢
    rw [List.mapM_cons, hfo, hobjects]
    rfl

theorem map_uid_of_exact {objects : List (FileObject × List Uid)}
    (h : List.Forall₂ (fun uid object => CompleteObjectExact db uid object.1 object.2) uidList objects) :
    objects.map (fun object => object.1.uid) = uidList := by
  induction h with
  | nil => rfl
  | cons hexact _ ih => rw [List.map_cons, hexact.sameUid, ih]

/-- What the coverage plugin reads of a complete object are uids of stored files. -/
theorem CompleteObjectExact.stored {uid u : Uid} {object : FileObject × List Uid}
    (h : CompleteObjectExact db uid object.1 object.2) (hk : db.ForeignKeys)
    (huid : uid ∈ db.fileObjects)
    (hu : u ∈ object.1.uid :: (object.2 ++ object.1.filesIncluded)) : u ∈ db.fileObjects := by
  rw [h.sameUid, List.mem_cons, List.mem_append] at hu
  rcases hu with rfl | hbelow | hincluded
  · exact huid
  · rcases (h.below u).mp hbelow with ⟨rfl, -⟩ | hbelow
    · exact huid
    · cases hbelow with
      | single hc => exact (hk.included _ _ hc).2
      | tail _ hc => exact (hk.included _ _ hc).2
  · exact (hk.included _ _ ((h.included u).mp hincluded)).2

/-! ## 3. Software -/

/-- The plugin reports the text for the file or one below it. -/
def Db.ReportsBelow (db : Db) (plugin : String) (uid : Uid) (item : String) : Prop :=
  ∃ u, ReflTransGen db.Includes uid u ∧ db.Reports plugin u item

/-- The file is listed for the object. -/
def Db.Lists (db : Db) (uid file : Uid) : Prop :=
  (file = uid ∧ uid ∉ db.firmware) ∨ TransGen db.Includes uid file

/-- The software of a complete object. -/
theorem getSoftwareSet_exact {uid : Uid} {fo : FileObject} {files : List Uid}
    (h : CompleteObjectExact db uid fo files) (hmem : (uid, "software_components") ∈ db.analyses) :
    ∃ software, getSoftwareSet fo = some software ∧
      ∀ item, item ∈ software ↔ db.ReportsBelow "software_components" uid item := by
  obtain ⟨row, hrow⟩ := Dict.mem_iff.mp hmem
  have hstored : getAnalysis db uid "software_components" = some (analysisEntryToDict row) := by
    rw [getAnalysis, hrow]
    rfl
  obtain ⟨result, summary, hresult, hsummarized, hsummary⟩ := h.results _ _ hstored
  refine ⟨summary.entries.map Prod.fst, ?_, fun item => ?_⟩
  · have hset : getSoftwareSet fo =
        some ((summary.entries.map fun e => (e.1, PyVal.list (e.2.map .str))).map Prod.fst) := by
      unfold getSoftwareSet
      rw [hresult, Option.bind_some, hsummarized.summary]
      rfl
    rw [hset, List.map_map]
    rfl
  · show item ∈ summary ↔ _
    constructor
    · intro hitem
      obtain ⟨u, hu⟩ := List.exists_mem_of_ne_nil _ (hsummary.nonempty item hitem)
      exact ⟨u, (hsummary.mem item u).mp hu⟩
    · rintro ⟨u, hu⟩
      have hu := (hsummary.mem item u).mpr hu
      by_contra hno
      rw [Dict.getD, Dict.get?_eq_none_iff.mpr hno] at hu
      cases hu

/-- The objects that the software plugin sorts. -/
theorem softwareObjects_exact {objects : List (FileObject × List Uid)}
    (h : List.Forall₂ (fun uid object => CompleteObjectExact db uid object.1 object.2) uidList objects)
    (hall : ∀ uid ∈ uidList, (uid, "software_components") ∈ db.analyses) :
    ∃ foList : List ComparedObject,
      ((objects.map Prod.fst).mapM fun fo => (getSoftwareSet fo).map fun software =>
        (⟨fo.uid, software, fo.filesIncluded, fo.isFirmware⟩ : ComparedObject)) = some foList ∧
      foList.map ComparedObject.uid = uidList ∧
      ∀ fo ∈ foList, ∀ x, x ∈ fo.listOfAllIncludedFiles ↔
        db.ReportsBelow "software_components" fo.uid x := by
  induction h with
  | nil => exact ⟨[], rfl, rfl, by simp⟩
  | @cons uid object uidList objects hexact _ ih =>
    obtain ⟨hfirst, hrest⟩ := List.forall_mem_cons.mp hall
    obtain ⟨software, hsoftware, hmem⟩ := getSoftwareSet_exact hexact hfirst
    obtain ⟨foList, hfoList, huids, hexacts⟩ := ih hrest
    refine ⟨⟨object.1.uid, software, object.1.filesIncluded, object.1.isFirmware⟩ :: foList, ?_, ?_, ?_⟩
    · rw [List.map_cons, List.mapM_cons, hsoftware, hfoList]
      rfl
    · rw [List.map_cons, huids, hexact.sameUid]
    · refine List.forall_mem_cons.mpr ⟨fun x => ?_, hexacts⟩
      rw [hexact.sameUid]
      exact hmem x

/-- The plugin is skipped if the result that it depends on is missing for one of the objects. -/
theorem getUnmatchedDependencies_software {objects : List (FileObject × List Uid)}
    (h : List.Forall₂ (fun uid object => CompleteObjectExact db uid object.1 object.2) uidList objects) :
    getUnmatchedDependencies (objects.map Prod.fst) ["software_components"] =
      if ∀ uid ∈ uidList, (uid, "software_components") ∈ db.analyses then []
      else ["software_components"] := by
  have hfilter : (objects.map Prod.fst).filter
        (fun fo => decide ("software_components" ∉ fo.processedAnalysis)) = [] ↔
      ∀ uid ∈ uidList, (uid, "software_components") ∈ db.analyses := by
    induction h with
    | nil => simp
    | @cons uid object uidList objects hexact _ ih =>
      rw [List.map_cons, List.forall_mem_cons, ← ih, List.filter_cons, ← hexact.plugins]
      by_cases hplugin : "software_components" ∈ object.1.processedAnalysis <;> simp [hplugin]
  rw [getUnmatchedDependencies, List.flatMap_singleton]
  split
  · next hall => rw [hfilter.mpr hall]; rfl
  · next hno =>
    -- the name stands for every object that lacks the result, and is kept once
    obtain ⟨fo, rest, hcons⟩ := List.exists_cons_of_ne_nil (mt hfilter.mp hno)
    have hconst : ∀ l : List FileObject, ("software_components" :: l.map fun _ =>
        "software_components").dedup = ["software_components"] := by
      intro l
      induction l with
      | nil => rfl
      | cons _ l ih => rw [List.map_cons, List.dedup_cons_of_mem List.mem_cons_self, ih]
    rw [hcons]
    exact hconst rest

/-- After every run, a comparison of two or more stored objects sorts the files that are listed for
them into classes, where all hashes are there that the coverage plugin compares; and it sorts the
software that is reported below them, unless one of them was not analysed for it. -/
theorem compare_exact {η : Type} (env : CompareEnv η)
    (h : ContentRun driver limits contents maxDepth Db.empty ops db) (hdepth : maxDepth < depth)
    (hstored : ∀ uid ∈ uidList, uid ∈ db.fileObjects) (htags : ∀ uid ∈ uidList, db.TagsReadable uid)
    (hcolon : ∀ uid ∈ db.fileObjects, ':' ∉ uid.toList) (hnodup : uidList.Nodup)
    (hlength : 2 ≤ uidList.length) :
    ∃ objects, comparedObjects db depth uidList = .ok objects ∧
      ((compareFunction env (objects.map comparedObject)).isSome ↔
        HashesThere env.toSimilarityEnv (objects.map comparedObject)) ∧
      (∀ result, compareFunction env (objects.map comparedObject) = some result →
        ∀ uid ∈ uidList, ∃ exclusive rest,
          ClassifiedBy db.Lists uidList result.coverage uid exclusive rest) ∧
      ((∃ uid ∈ uidList, (uid, "software_components") ∉ db.analyses) →
        compareSoftware (objects.map Prod.fst) =
          some (.skipped "Required analysis not present: software_components")) ∧
      ((∀ uid ∈ uidList, (uid, "software_components") ∈ db.analyses) →
        ∃ coverage, compareSoftware (objects.map Prod.fst) = some (.compared coverage) ∧
          ∀ uid ∈ uidList, ∃ exclusive rest,
            ClassifiedBy (db.ReportsBelow "software_components") uidList coverage uid exclusive rest) := by
  have hinv := contentInv_of_run h
  obtain ⟨objects, hobjects, hexact⟩ := comparedObjects_exact hinv hdepth hstored htags
  have hdeps := getUnmatchedDependencies_software hexact
  have huids : (objects.map comparedObject).map ComparedObject.uid = uidList := by
    rw [List.map_map]
    exact map_uid_of_exact hexact
  have hlists : ∀ fo ∈ objects.map comparedObject, ∀ file,
      file ∈ fo.listOfAllIncludedFiles ↔ db.Lists fo.uid file := by
    rw [List.forall_mem_map]
    intro object hobject file
    obtain ⟨uid, -, hobject⟩ := forall₂_mem_left hexact.flip hobject
    show file ∈ object.2 ↔ db.Lists object.1.uid file
    rw [hobject.sameUid]
    exact hobject.below file
  have hlen : 2 ≤ (objects.map comparedObject).length := by rwa [← huids, List.length_map] at hlength
  have hdistinct : DistinctObjects (objects.map comparedObject) := by
    rw [DistinctObjects, huids]
    exact hnodup
  have hcolon : UidsWithoutColon (objects.map comparedObject) := by
    unfold UidsWithoutColon
    rw [List.forall_mem_map]
    intro object hobject u hu
    obtain ⟨uid, huid, hobject⟩ := forall₂_mem_left hexact.flip hobject
    exact hcolon u (hobject.stored hinv.files.foreignKeys (hstored uid huid) hu)
  refine ⟨objects, hobjects, compareFunction_isSome_iff hlen hdistinct hcolon,
    fun result hresult => ?_, ?_, fun hall => ?_⟩
  · exact classifiedBy_of_classified huids hnodup hlists
      (classified_of_compareFunction hlen hdistinct hresult)
  · rintro ⟨uid, huid, hno⟩
    have hmissing := hdeps.trans (if_neg fun hall => hno (hall uid huid))
    unfold compareSoftware comparePlugin
    rw [hmissing]
    rfl
  · obtain ⟨foList, hfoList, huids, hmem⟩ := softwareObjects_exact hexact hall
    obtain ⟨coverage, hcoverage, hclassified⟩ := classifiedBy_of_objects huids hnodup hlength hmem
    refine ⟨coverage, ?_, hclassified⟩
    have hcompare : compareFunctionSoftware (objects.map Prod.fst) = some coverage := by
      unfold compareFunctionSoftware
      rw [hfoList]
      exact hcoverage
    have hnone := hdeps.trans (if_pos hall)
    unfold compareSoftware comparePlugin
    rw [hnone, hcompare]
    rfl

end Comparison

theorem compare_image_and_file : ∃ objects result coverage,
    comparedObjects softwareDb 11 ["outer", "inner"] = .ok objects ∧
      compareFunction sameHashesEnv (objects.map comparedObject) = some result ∧
      "inner" ∈ result.coverage.filesInCommon ∧
      compareSoftware (objects.map Prod.fst) = some (.compared coverage) ∧
      "OpenSSL" ∈ coverage.filesInCommon := by
  have hreports : ∀ uid ∈ ["outer", "inner"],
      softwareDb.ReportsBelow "software_components" uid "OpenSSL" := by
    intro uid huid
    refine ⟨uid, .refl, ?_⟩
    rcases List.mem_cons.mp huid with rfl | huid
    · exact ⟨_, rfl, List.mem_singleton_self _⟩
    · obtain rfl := List.mem_singleton.mp huid
      exact ⟨_, rfl, List.mem_singleton_self _⟩
  have hstored : ∀ uid ∈ ["outer", "inner"], uid ∈ softwareDb.fileObjects :=
    List.forall_mem_cons.mpr ⟨by decide, List.forall_mem_singleton.mpr (by decide)⟩
  have hanalysed : ∀ uid ∈ ["outer", "inner"],
      (uid, "software_components") ∈ softwareDb.analyses :=
    List.forall_mem_cons.mpr ⟨by decide, List.forall_mem_singleton.mpr (by decide)⟩
  have hreadable : ∀ uid ∈ ["outer", "inner"], softwareDb.TagsReadable uid :=
    List.forall_mem_cons.mpr ⟨tagsReadable_softwareDb, List.forall_mem_singleton.mpr
      fun hfirmware => absurd hfirmware (by decide)⟩
  have hcolon : ∀ uid ∈ softwareDb.fileObjects, ':' ∉ uid.toList := by
    intro uid huid
    have huid : uid ∈ ["outer", "inner"] := huid
    revert uid
    exact List.forall_mem_cons.mpr ⟨by decide, List.forall_mem_singleton.mpr (by decide)⟩
  have hincludes : softwareDb.Includes "outer" "inner" := List.mem_singleton_self _
  have hlisted : ∀ uid ∈ ["outer", "inner"], softwareDb.Lists uid "inner" :=
    List.forall_mem_cons.mpr ⟨.inr (.single hincludes), List.forall_mem_singleton.mpr
      (.inl ⟨rfl, by decide⟩)⟩
  obtain ⟨objects, hobjects, hthere, hcoverage, -, hsoftware⟩ :=
    compare_exact sameHashesEnv softwareDb_run (by decide : 10 < 11) hstored hreadable hcolon
      (by decide) (Nat.le_refl 2)
  obtain ⟨result, hresult⟩ := Option.isSome_iff_exists.mp
    (hthere.mpr fun _ _ _ _ => ⟨nofun, fun _ _ _ _ => ⟨_, rfl⟩⟩)
  obtain ⟨_, _, hfiles⟩ := hcoverage result hresult "outer" List.mem_cons_self
  obtain ⟨coverage, hcompare, hclassified⟩ := hsoftware hanalysed
  obtain ⟨_, _, houter⟩ := hclassified "outer" List.mem_cons_self
  exact ⟨objects, result, coverage, hobjects, hresult, (hfiles.mem_common _).mpr hlisted, hcompare,
    (houter.mem_common _).mpr hreports⟩

end FactCore
