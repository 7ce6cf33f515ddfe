import FactCore.Compare.SimilarFiles

/-!
# The coverage plugin

`compare_function` of `src/src/plugins/compare/file_coverage/code/file_coverage.py`: the classes of
files, those of them that are not empty of information, the similar files, and for two firmware
images the text files that have changed.

The classes do not depend on the hashes, but the same call reads them: where the similarity part
raises an exception (`missing_hash`), there is no result, and the classes are lost with it.

Result: `compareFunction_classified_iff`, exactly when the result has classes that are a
partition of the files of every object.
-/

namespace FactCore

/-- What the plugin reads besides the objects. `nonZero` is an entropy above `0.1`. -/
structure CompareEnv (η : Type) extends SimilarityEnv η where
  nonZero : Uid → Bool
  vfpOfIncludedTextFiles : Uid → List Uid → Dict String (List Uid)

/-- `_evaluate_entropy_for_list_of_uids`. -/
def evaluateEntropyForListOfUids (nonZero : Uid → Bool) (listOfUids : List Uid)
    (newResult : Dict String (List Uid)) (firmwareUid : String) : Dict String (List Uid) :=
  let nonZeroFileIds := listOfUids.filter nonZero
  if nonZeroFileIds.isEmpty then newResult else newResult.set firmwareUid nonZeroFileIds

/-- `_get_non_zero_common_files`. -/
def getNonZeroCommonFiles (nonZero : Uid → Bool) (filesInAll : List Uid)
    (notInAll : Dict Uid (List Uid)) : Dict String (List Uid) :=
  notInAll.entries.foldl
    (fun result entry => evaluateEntropyForListOfUids nonZero entry.2 result entry.1)
    (if filesInAll.isEmpty then ∅ else evaluateEntropyForListOfUids nonZero filesInAll ∅ "all")

/-- `_find_changed_text_files`: the pairs of files below a path that both images have. -/
def findChangedTextFiles (vfp : Uid → List Uid → Dict String (List Uid)) (first second : Uid)
    (commonFiles : List Uid) : Dict String (List (Uid × Uid)) :=
  let vfpA := vfp first commonFiles
  let vfpB := vfp second commonFiles
  Dict.ofList (vfpA.entries.filterMap fun entry =>
    let pairs := entry.2.flatMap fun uid1 =>
      ((vfpB.get? entry.1).getD []).map fun uid2 => (uid1, uid2)
    if pairs.isEmpty then none else some (entry.1, pairs))

/-- The result of `compare_function`. -/
structure CompareResult where
  coverage : Coverage
  nonZeroFilesInCommon : Dict String (List Uid)
  similarFiles : Dict String SimilarFiles
  changedTextFiles : Option (Dict String (List (Uid × Uid)))

/-- `compare_function`. -/
def compareFunction {η : Type} (env : CompareEnv η) (foList : List ComparedObject) :
    Option CompareResult := do
  let coverage ← coverageOf foList
  let similarFiles ← similarFilesOf env.toSimilarityEnv foList coverage.exclusiveFiles
  some {
    coverage := coverage
    nonZeroFilesInCommon := getNonZeroCommonFiles env.nonZero coverage.filesInCommon
      (coverage.filesInMoreThanOneButNotInAll.getD ∅)
    similarFiles := similarFiles
    changedTextFiles := match foList with
      | [first, second] =>
        if first.isFirmware && second.isFirmware then
          some (findChangedTextFiles env.vfpOfIncludedTextFiles first.uid second.uid
            coverage.filesInCommon)
        else none
      | _ => none }

/-- The plugin stores the classes that `coverageOf` has made. -/
theorem coverage_of_compareFunction {η : Type} {env : CompareEnv η} {foList : List ComparedObject}
    {result : CompareResult} (h : compareFunction env foList = some result) :
    coverageOf foList = some result.coverage := by
  unfold compareFunction at h
  cases hcoverage : coverageOf foList with
  | none =>
    rw [hcoverage] at h
    cases h
  | some coverage =>
    cases hsimilar : similarFilesOf env.toSimilarityEnv foList coverage.exclusiveFiles with
    | none =>
      simp only [hcoverage, Option.bind_eq_bind, Option.bind_some, hsimilar] at h
      cases h
    | some similarFiles =>
      simp only [hcoverage, Option.bind_eq_bind, Option.bind_some, hsimilar] at h
      obtain rfl := Option.some.inj h
      rfl

/-- The plugin ends with a result exactly if all hashes that are compared are there. -/
theorem compareFunction_isSome_iff {η : Type} {env : CompareEnv η} {foList : List ComparedObject}
    (hlength : 2 ≤ foList.length) (h : DistinctObjects foList) (hcolon : UidsWithoutColon foList) :
    (compareFunction env foList).isSome ↔ HashesThere env.toSimilarityEnv foList := by
  obtain ⟨coverage, hcoverage, -⟩ := coverageOf_classified hlength h
  have hexclusive := exclusiveFiles_of_coverageOf hcoverage
  constructor
  · intro hsome
    obtain ⟨result, hresult⟩ := Option.isSome_iff_exists.mp hsome
    cases hsimilar : similarFilesOf env.toSimilarityEnv foList coverage.exclusiveFiles with
    | none =>
      unfold compareFunction at hresult
      simp only [hcoverage, Option.bind_eq_bind, Option.bind_some, hsimilar] at hresult
      cases hresult
    | some similarFiles =>
      rw [hexclusive] at hsimilar
      exact hashesThere_of_similarFilesOf h hsimilar
  · intro hthere
    obtain ⟨es, hsimilar, -, -⟩ := similarFilesOf_eq h hcolon hthere
    unfold compareFunction
    rw [← hexclusive] at hsimilar
    simp only [hcoverage, Option.bind_eq_bind, Option.bind_some, hsimilar, Option.isSome_some]

/-- What is in a result of the plugin is a partition. -/
theorem classified_of_compareFunction {η : Type} {env : CompareEnv η} {foList : List ComparedObject}
    {result : CompareResult} (hlength : 2 ≤ foList.length) (h : DistinctObjects foList)
    (hresult : compareFunction env foList = some result) :
    ∀ fo ∈ foList, ∃ exclusive rest, Classified foList result.coverage fo exclusive rest := by
  obtain ⟨coverage, hcoverage, hclassified⟩ := coverageOf_classified hlength h
  obtain rfl := Option.some.inj (hcoverage.symm.trans (coverage_of_compareFunction hresult))
  exact hclassified

/-- The files of two or more distinct objects are sorted into classes that are a partition of the
files of every object, exactly if all hashes that are compared are there. -/
theorem compareFunction_classified_iff {η : Type} (env : CompareEnv η)
    {foList : List ComparedObject} (hlength : 2 ≤ foList.length) (h : DistinctObjects foList)
    (hcolon : UidsWithoutColon foList) :
    (∃ result, compareFunction env foList = some result ∧
      ∀ fo ∈ foList, ∃ exclusive rest, Classified foList result.coverage fo exclusive rest) ↔
    HashesThere env.toSimilarityEnv foList := by
  rw [← compareFunction_isSome_iff hlength h hcolon, Option.isSome_iff_exists]
  refine exists_congr fun result => ?_
  rw [and_iff_left_iff_imp]
  exact classified_of_compareFunction hlength h

/-- Three objects: one file in all, one in two of them, one in a single one. -/
def threeObjects : List ComparedObject :=
  [⟨"parent1", ["a", "b", "c"], ["a"], true⟩, ⟨"parent2", ["b", "a"], ["a"], true⟩,
    ⟨"parent3", ["a"], ["a"], true⟩]

/-- All files have the same hash, and no file is a text file. -/
def sameHashesEnv : CompareEnv String where
  toSimilarityEnv := sameHashes
  nonZero _ := true
  vfpOfIncludedTextFiles _ _ := ∅

theorem compareFunction_threeObjects : ∃ result,
    compareFunction sameHashesEnv threeObjects = some result ∧
      ∀ fo ∈ threeObjects, ∃ exclusive rest,
        Classified threeObjects result.coverage fo exclusive rest := by
  refine (compareFunction_classified_iff sameHashesEnv (by decide) (by decide) (by decide)).mpr ?_
  exact fun _ _ _ _ => ⟨nofun, fun _ _ _ _ => ⟨_, rfl⟩⟩

/-- The file of the second object has not been analyzed. -/
def hashOfFirstFileEnv : CompareEnv String where
  toSimilarityEnv := hashOfFirstFile
  nonZero _ := true
  vfpOfIncludedTextFiles _ _ := ∅

/-- A file without a hash leaves no classes at all. -/
theorem missing_hash_unclassified : ¬ ∀ (env : CompareEnv String) (foList : List ComparedObject),
    2 ≤ foList.length → DistinctObjects foList → UidsWithoutColon foList →
    ∃ result, compareFunction env foList = some result ∧
      ∀ fo ∈ foList, ∃ exclusive rest, Classified foList result.coverage fo exclusive rest := by
  intro h
  obtain ⟨result, hresult, -⟩ := h hashOfFirstFileEnv twoObjects (by decide) (by decide) (by decide)
  have hnone : compareFunction hashOfFirstFileEnv twoObjects = none := rfl
  rw [hnone] at hresult
  cases hresult

end FactCore
