import Mathlib.Data.Finset.Sort
import FactCore.Lib.Cliques
import FactCore.Lib.Itertools
import FactCore.Compare.FileCoverage
import FactCore.Storage.Comparison

/-!
# Similar files

The similarity part of `src/src/plugins/compare/file_coverage/code/file_coverage.py`, and
`get_ssdeep_hash` of `src/src/storage/db_interface_comparison.py`. Files that are exclusive to one
object are compared with the files that a later object includes. Pairs with a high score are the
edges of a graph, and every maximal clique of it is a group of similar files.

Two things go wrong. The second hash is used before it is looked at, so a file without one
ends the comparison. And the groups are stored under an id of the first four characters of
their uids, so groups with equal ids replace each other.

Hash strings, their comparison and the search for cliques are parameters. Where the code raises
an exception the functions here give `none`.

Results:
1. `getSimilarFiles_isSome_iff`: when no exception is raised.
2. `mem_getSimilarFiles`: the pairs that are found.
3. `combineSimilarityResults_eq`: the entries of the groups.
4. `similarFiles_iff`: exactly when the comparison is total and complete.
5. `missing_hash`: a file without a hash.
-/

namespace FactCore

/-! ## 1. Hashes -/

/-- What `file_hashes` has stored for a file: nothing, a result without ssdeep, or a hash. -/
inductive FileHashes (η : Type)
  | noEntry
  | withoutSsdeep
  | ssdeep (hash : η)
  deriving DecidableEq

/-- The database and the libraries. Hash strings are not empty. -/
structure SimilarityEnv (η : Type) where
  fileHashes : Uid → FileHashes η
  compare : η → η → Nat
  ssdeepIgnoreThreshold : Nat
  cliques : Cliques.CliqueFinder String

section Code
variable {η : Type} (env : SimilarityEnv η)

/-- `get_ssdeep_hash`. A result without the key is a `KeyError`. -/
def getSsdeepHash (uid : Uid) : Option (Option η) :=
  match env.fileHashes uid with
  | .noEntry => some none
  | .withoutSsdeep => none
  | .ssdeep hash => some (some hash)

/-- `ssdeep.compare`, for two strings only. -/
def ssdeepCompare : Option η → Option η → Option Nat
  | some hash, some hash' => some (env.compare hash hash')
  | _, _ => none

/-- `_get_similar_file_id`. -/
def getSimilarFileId (fileUid parentUid : Uid) : String := parentUid ++ ":" ++ fileUid

/-- One round of the loop in `_find_similar_file_for`. -/
def comparePotentialMatch (hashOne : Option η) (id1 : String) (comparisonFo : ComparedObject)
    (potentialMatch : Uid) : Option (List ((String × String) × Nat)) := do
  let id2 := getSimilarFileId potentialMatch comparisonFo.uid
  let hashTwo ← getSsdeepHash env potentialMatch
  let ssdeepSimilarity ← ssdeepCompare env hashOne hashTwo
  if hashTwo.isSome ∧ ssdeepSimilarity > env.ssdeepIgnoreThreshold then
    some [((id1, id2), ssdeepSimilarity)]
  else some []

/-- `_find_similar_file_for`. -/
def findSimilarFileFor (fileUid parentUid : Uid) (comparisonFo : ComparedObject) :
    Option (List ((String × String) × Nat)) := do
  let hashOne ← getSsdeepHash env fileUid
  if hashOne.isNone then some []
  else
    let found ← comparisonFo.filesIncluded.mapM
      (comparePotentialMatch env hashOne (getSimilarFileId fileUid parentUid) comparisonFo)
    some found.flatten

/-- `generate_similarity_sets`. -/
def generateSimilaritySets (listOfPairs : List (String × String)) : List (List String) :=
  (env.cliques.findCliques listOfPairs).map fun c => c.insertionSort (· ≤ ·)

/-- One round of the outer loop in `_get_similar_files`. -/
def similarFilesOfParents (exclusiveFiles : Dict Uid (List Uid))
    (parents : ComparedObject × ComparedObject) : Option (List ((String × String) × Nat)) := do
  let files ← exclusiveFiles.get? parents.1.uid
  let found ← files.mapM fun fileOne => findSimilarFileFor env fileOne parents.1.uid parents.2
  some found.flatten

/-- The pairs and scores that the loops of `_get_similar_files` collect. -/
def similarFilePairs (foList : List ComparedObject) (exclusiveFiles : Dict Uid (List Uid)) :
    Option (List ((String × String) × Nat)) := do
  let found ← (combinationsTwo foList).mapM (similarFilesOfParents env exclusiveFiles)
  some found.flatten

/-- `_get_similar_files`. -/
def getSimilarFiles (foList : List ComparedObject) (exclusiveFiles : Dict Uid (List Uid)) :
    Option (List (List String) × Dict String Nat) := do
  let found ← similarFilePairs env foList exclusiveFiles
  some (generateSimilaritySets env (found.map Prod.fst).dedup,
    Dict.ofList (found.map fun pair =>
      (convertUidListToCompareId [pair.1.1, pair.1.2], pair.2)))

end Code

/-! ## 2. Groups -/

/-- `_get_similarity_value`: an empty text, a score, or the least and the greatest one. -/
inductive SimilarityValue
  | empty
  | one (value : Nat)
  | range (least greatest : Nat)
  deriving DecidableEq, Repr

/-- An entry of `similar_files`: a file, or none, for every object. -/
structure SimilarFiles where
  files : Dict Uid (Option Uid)
  similarity : SimilarityValue

/-- `similar_file_id.split(':')`, which has to give two parts. -/
def splitSimilarFileId (similarFileId : String) : Option (Uid × Uid) :=
  match splitAtChar ':' similarFileId with
  | [parentId, fileId] => some (parentId, fileId)
  | _ => none

/-- `_get_similarity_value`. -/
def getSimilarityValue (groupOfSimilarFiles : List String) (similarityDict : Dict String Nat) :
    SimilarityValue :=
  match (combinationsTwo groupOfSimilarFiles).filterMap fun idTuple =>
      similarityDict.get? (convertUidListToCompareId [idTuple.1, idTuple.2]) with
  | [] => .empty
  | [value] => .one value
  | value :: values => .range (values.foldl min value) (values.foldl max value)

/-- `_get_similar_file_group_id`. -/
def getSimilarFileGroupId (similarFileGroup : List String) : Option String :=
  similarFileGroup.foldlM (fun groupId similarFileId => do
    let (parentUid, fileUid) ← splitSimilarFileId similarFileId
    some (groupId ++ String.ofList (parentUid.toList.take 4) ++
      String.ofList (fileUid.toList.take 4))) ""

/-- `match_dict` of `combine_similarity_results`. -/
def matchDict (foList : List ComparedObject) (groupOfSimilarFiles : List String) :
    Option (Dict Uid (Option Uid)) :=
  groupOfSimilarFiles.foldlM (fun files similarFileId => do
    let (parentId, fileId) ← splitSimilarFileId similarFileId
    some (files.set parentId (some fileId))) (Dict.ofList (foList.map fun fo => (fo.uid, none)))

/-- `combine_similarity_results`. -/
def combineSimilarityResults (similarFiles : List (List String)) (foList : List ComparedObject)
    (similarity : Dict String Nat) : Option (Dict String SimilarFiles) :=
  similarFiles.foldlM (fun resultDict group => do
    let files ← matchDict foList group
    let groupId ← getSimilarFileGroupId group
    some (resultDict.set groupId ⟨files, getSimilarityValue group similarity⟩)) ∅

/-- `similar_files` of `compare_function`. -/
def similarFilesOf {η : Type} (env : SimilarityEnv η) (foList : List ComparedObject)
    (exclusiveFiles : Dict Uid (List Uid)) : Option (Dict String SimilarFiles) := do
  let (similarFiles, similarity) ← getSimilarFiles env foList exclusiveFiles
  combineSimilarityResults similarFiles foList similarity

/-! ## 3. What is asked of it -/

section Spec
variable {η : Type} (env : SimilarityEnv η) (foList : List ComparedObject)

/-- The score of two files that have hashes. -/
def similarScore (file file' : Uid) : Option Nat :=
  match env.fileHashes file, env.fileHashes file' with
  | .ssdeep hash, .ssdeep hash' => some (env.compare hash hash')
  | _, _ => none

/-- Both files have a hash, and the score exceeds the threshold. -/
def Similar (file file' : Uid) : Prop :=
  ∃ score ∈ similarScore env file file', env.ssdeepIgnoreThreshold < score

instance (file file' : Uid) : Decidable (Similar env file file') :=
  inferInstanceAs (Decidable (∃ score ∈ similarScore env file file', _))

/-- A file that is exclusive to the first of two objects is similar to one that the second
includes. -/
structure SimilarPair (parents : ComparedObject × ComparedObject) (file file' : Uid) : Prop where
  objects : parents ∈ combinationsTwo foList
  exclusive : OnlyIn foList parents.1 file
  included : file' ∈ parents.2.filesIncluded
  similar : Similar env file file'

instance (fo : ComparedObject) (file : Uid) : Decidable (OnlyIn foList fo file) :=
  inferInstanceAs (Decidable (file ∈ fo.listOfAllIncludedFiles ∧
    ∀ other ∈ foList, other ≠ fo → file ∉ other.listOfAllIncludedFiles))

/-- The graph of the similar pairs. -/
def similarityEdges : List (String × String) :=
  (combinationsTwo foList).flatMap fun parents =>
    (parents.1.listOfAllIncludedFiles.filter fun file => decide (OnlyIn foList parents.1 file)).flatMap
      fun file => (parents.2.filesIncluded.filter fun file' => decide (Similar env file file')).map
        fun file' => (getSimilarFileId file parents.1.uid, getSimilarFileId file' parents.2.uid)

/-- The hashes that are read are there. The file of a result without the key is not read, and a
file with a hash is compared with files that have one. -/
def HashesThere : Prop :=
  ∀ parents ∈ combinationsTwo foList, ∀ file, OnlyIn foList parents.1 file →
    env.fileHashes file ≠ .withoutSsdeep ∧ ∀ hash, env.fileHashes file = .ssdeep hash →
      ∀ file' ∈ parents.2.filesIncluded, ∃ hash', env.fileHashes file' = .ssdeep hash'

/-- No two groups of similar files have the same id. -/
def GroupIdsDistinct : Prop :=
  ∀ c c' : Finset String, Cliques.MaximalClique (similarityEdges env foList) c →
    Cliques.MaximalClique (similarityEdges env foList) c' →
    getSimilarFileGroupId c.sort = getSimilarFileGroupId c'.sort → c = c'

/-- The entry of a group: it maps each object to its file in the group, if there is one. -/
structure EntryOf (c : Finset String) (entry : SimilarFiles) : Prop where
  file : ∀ fo ∈ foList, ∀ file, entry.files.get? fo.uid = some (some file) ↔
    getSimilarFileId file fo.uid ∈ c
  none : ∀ fo ∈ foList, (∀ file, getSimilarFileId file fo.uid ∉ c) →
    entry.files.get? fo.uid = some none

/-- Every similar pair is in an entry, and every group has its own. -/
structure SimilarityComplete (result : Dict String SimilarFiles) : Prop where
  pairs : ∀ parents file file', SimilarPair env foList parents file file' →
    ∃ key entry, result.get? key = some entry ∧
      entry.files.get? parents.1.uid = some (some file) ∧
      entry.files.get? parents.2.uid = some (some file')
  groups : ∀ c, Cliques.MaximalClique (similarityEdges env foList) c →
    ∃ key entry, result.get? key = some entry ∧ EntryOf foList c entry

end Spec

/-- No uid has a colon. -/
def UidsWithoutColon (foList : List ComparedObject) : Prop :=
  ∀ fo ∈ foList, ∀ uid ∈ fo.uid :: (fo.listOfAllIncludedFiles ++ fo.filesIncluded),
    ':' ∉ uid.toList

instance (foList : List ComparedObject) : Decidable (UidsWithoutColon foList) :=
  inferInstanceAs (Decidable (∀ fo ∈ foList,
    ∀ uid ∈ fo.uid :: (fo.listOfAllIncludedFiles ++ fo.filesIncluded), ':' ∉ uid.toList))

/-! ## 4. Pairs -/

/-- The two parts of a pair differ. -/
theorem uid_ne_of_mem_combinationsTwo {foList : List ComparedObject} (h : DistinctObjects foList)
    {parents : ComparedObject × ComparedObject} (hmem : parents ∈ combinationsTwo foList) :
    parents.1.uid ≠ parents.2.uid := by
  induction foList with
  | nil => cases hmem
  | cons fo foList ih =>
    obtain ⟨hfo, hrest⟩ := List.nodup_cons.mp h
    rcases List.mem_append.mp hmem with hmem | hmem
    · obtain ⟨other, hother, rfl⟩ := List.mem_map.mp hmem
      exact fun heq => hfo (List.mem_map.mpr ⟨other, hother, heq.symm⟩)
    · exact ih hrest hmem

section Pairs
variable {η : Type} {env : SimilarityEnv η} {foList : List ComparedObject}

theorem mem_similarityEdges {edge : String × String} : edge ∈ similarityEdges env foList ↔
    ∃ parents file file', SimilarPair env foList parents file file' ∧
      edge = (getSimilarFileId file parents.1.uid, getSimilarFileId file' parents.2.uid) := by
  simp only [similarityEdges, List.mem_flatMap, List.mem_map, List.mem_filter, decide_eq_true_iff]
  constructor
  · rintro ⟨parents, hparents, file, ⟨-, honly⟩, file', ⟨hfile', hsimilar⟩, rfl⟩
    exact ⟨parents, file, file', ⟨hparents, honly, hfile', hsimilar⟩, rfl⟩
  · rintro ⟨parents, file, file', h, rfl⟩
    exact ⟨parents, h.objects, file, ⟨h.exclusive.1, h.exclusive⟩, file', ⟨h.included, h.similar⟩, rfl⟩

/-! ## 5. What the loops find -/

/-- What is found for one file if no exception is raised. -/
def similarTo (env : SimilarityEnv η) (fileUid parentUid : Uid) (comparisonFo : ComparedObject) :
    List ((String × String) × Nat) :=
  comparisonFo.filesIncluded.flatMap fun potentialMatch =>
    (similarScore env fileUid potentialMatch).toList.flatMap fun score =>
      if score > env.ssdeepIgnoreThreshold then [((getSimilarFileId fileUid parentUid,
        getSimilarFileId potentialMatch comparisonFo.uid), score)]
      else []

theorem mem_similarTo {file parentUid : Uid} {fo : ComparedObject} {edge : String × String} :
    (∃ score, (edge, score) ∈ similarTo env file parentUid fo) ↔
      ∃ file' ∈ fo.filesIncluded, Similar env file file' ∧
        edge = (getSimilarFileId file parentUid, getSimilarFileId file' fo.uid) := by
  simp only [similarTo, List.mem_flatMap, Similar, Option.mem_toList]
  constructor
  · rintro ⟨score, file', hfile', value, hvalue, hmem⟩
    split at hmem
    · next habove =>
      obtain ⟨rfl, -⟩ := Prod.mk.inj (List.mem_singleton.mp hmem)
      exact ⟨file', hfile', ⟨value, hvalue, habove⟩, rfl⟩
    · cases hmem
  · rintro ⟨file', hfile', ⟨score, hscore, habove⟩, rfl⟩
    refine ⟨score, file', hfile', score, hscore, ?_⟩
    rw [if_pos habove]
    exact List.mem_singleton.mpr rfl

/-- One round fails unless the second file has a hash. -/
theorem comparePotentialMatch_isSome_iff {hash : η} {id1 : String} {fo : ComparedObject}
    {file' : Uid} : (comparePotentialMatch env (some hash) id1 fo file').isSome ↔
      ∃ hash', env.fileHashes file' = .ssdeep hash' := by
  unfold comparePotentialMatch getSsdeepHash
  cases env.fileHashes file' with
  | noEntry => exact iff_of_false Bool.false_ne_true fun ⟨_, h⟩ => by cases h
  | withoutSsdeep => exact iff_of_false Bool.false_ne_true fun ⟨_, h⟩ => by cases h
  | ssdeep hash' =>
    refine iff_of_true ?_ ⟨hash', rfl⟩
    simp only [ssdeepCompare, Option.bind_eq_bind, Option.bind_some]
    split <;> rfl

theorem comparePotentialMatch_eq {hash hash' : η} {id1 : String} {fo : ComparedObject}
    {file' : Uid} (h : env.fileHashes file' = .ssdeep hash') :
    comparePotentialMatch env (some hash) id1 fo file' =
      some (if env.compare hash hash' > env.ssdeepIgnoreThreshold then
        [((id1, getSimilarFileId file' fo.uid), env.compare hash hash')] else []) := by
  unfold comparePotentialMatch getSsdeepHash
  rw [h]
  simp only [ssdeepCompare, Option.bind_eq_bind, Option.bind_some, Option.isSome_some, true_and]
  split <;> rfl

/-- Exactly when one file can be compared with those of the other object. -/
theorem findSimilarFileFor_isSome_iff {file parentUid : Uid} {fo : ComparedObject} :
    (findSimilarFileFor env file parentUid fo).isSome ↔
      env.fileHashes file ≠ .withoutSsdeep ∧ ∀ hash, env.fileHashes file = .ssdeep hash →
        ∀ file' ∈ fo.filesIncluded, ∃ hash', env.fileHashes file' = .ssdeep hash' := by
  unfold findSimilarFileFor getSsdeepHash
  cases hfile : env.fileHashes file with
  | noEntry => exact iff_of_true rfl ⟨nofun, nofun⟩
  | withoutSsdeep => exact iff_of_false Bool.false_ne_true fun h => h.1 rfl
  | ssdeep hash =>
    have hrounds := option_mapM_isSome_iff (l := fo.filesIncluded)
      (f := comparePotentialMatch env (some hash) (getSimilarFileId file parentUid) fo)
    simp only [comparePotentialMatch_isSome_iff] at hrounds
    simp only [Option.bind_eq_bind, Option.bind_some, Option.isNone_some, Bool.false_eq_true,
      if_false, Option.isSome_bind, Option.isSome_some, Option.any_true, hrounds, ne_eq,
      reduceCtorEq, not_false_eq_true, true_and, FileHashes.ssdeep.injEq, forall_eq']

theorem findSimilarFileFor_eq {file parentUid : Uid} {fo : ComparedObject}
    (h : (findSimilarFileFor env file parentUid fo).isSome) :
    findSimilarFileFor env file parentUid fo = some (similarTo env file parentUid fo) := by
  obtain ⟨hkey, hhashes⟩ := findSimilarFileFor_isSome_iff.mp h
  unfold findSimilarFileFor getSsdeepHash
  cases hfile : env.fileHashes file with
  | noEntry =>
    have hnone : similarTo env file parentUid fo = [] := by
      simp [similarTo, similarScore, hfile]
    rw [hnone]
    rfl
  | withoutSsdeep => exact absurd hfile hkey
  | ssdeep hash =>
    have hround : ∀ file' ∈ fo.filesIncluded, comparePotentialMatch env (some hash)
        (getSimilarFileId file parentUid) fo file' =
        some ((similarScore env file file').toList.flatMap fun score =>
          if score > env.ssdeepIgnoreThreshold then
            [((getSimilarFileId file parentUid, getSimilarFileId file' fo.uid), score)]
          else []) := by
      intro file' hfile'
      obtain ⟨hash', hhash'⟩ := hhashes hash hfile file' hfile'
      rw [comparePotentialMatch_eq hhash', similarScore, hfile, hhash']
      simp
    simp only [Option.bind_eq_bind, Option.bind_some, Option.isNone_some, Bool.false_eq_true,
      if_false, option_mapM_eq_map hround]
    rfl

/-- The exclusive files of an object, in the order of the code. -/
def exclusiveList (foList : List ComparedObject) (fo : ComparedObject) : List Uid :=
  setDifference fo.listOfAllIncludedFiles.dedup
    (getIncludedFileSets (foList.filter fun e => decide (e ≠ fo)))

theorem similarFilesOfParents_isSome_iff (h : DistinctObjects foList)
    {parents : ComparedObject × ComparedObject} (hparents : parents ∈ combinationsTwo foList) :
    (similarFilesOfParents env (getExclusiveFiles foList) parents).isSome ↔
      ∀ file ∈ exclusiveList foList parents.1,
        (findSimilarFileFor env file parents.1.uid parents.2).isSome := by
  unfold similarFilesOfParents
  rw [get?_getExclusiveFiles h (mem_of_mem_combinationsTwo hparents).1]
  simp only [Option.bind_eq_bind, Option.bind_some, Option.isSome_bind, Option.isSome_some,
    Option.any_true]
  exact option_mapM_isSome_iff

theorem similarFilesOfParents_eq (h : DistinctObjects foList)
    {parents : ComparedObject × ComparedObject} (hparents : parents ∈ combinationsTwo foList)
    (hfiles : ∀ file ∈ exclusiveList foList parents.1,
      (findSimilarFileFor env file parents.1.uid parents.2).isSome) :
    similarFilesOfParents env (getExclusiveFiles foList) parents =
      some ((exclusiveList foList parents.1).flatMap fun file =>
        similarTo env file parents.1.uid parents.2) := by
  unfold similarFilesOfParents
  rw [get?_getExclusiveFiles h (mem_of_mem_combinationsTwo hparents).1]
  simp only [Option.bind_eq_bind, Option.bind_some]
  have hmap := option_mapM_eq_map fun file hfile => findSimilarFileFor_eq (hfiles file hfile)
  rw [exclusiveList] at hmap
  rw [hmap]
  rfl

/-- The loops end without an exception exactly if the hashes are there. -/
theorem similarFilePairs_isSome_iff (h : DistinctObjects foList) :
    (similarFilePairs env foList (getExclusiveFiles foList)).isSome ↔ HashesThere env foList := by
  unfold similarFilePairs
  simp only [Option.bind_eq_bind, Option.isSome_bind, Option.isSome_some, Option.any_true]
  rw [option_mapM_isSome_iff, HashesThere]
  refine forall₂_congr fun parents hparents => ?_
  rw [similarFilesOfParents_isSome_iff h hparents]
  simp only [findSimilarFileFor_isSome_iff, exclusiveList, mem_getExclusiveFiles]

/-- The pairs that are found are the edges of the graph. -/
theorem mem_similarFilePairs (h : DistinctObjects foList) {found : List ((String × String) × Nat)}
    (hfound : similarFilePairs env foList (getExclusiveFiles foList) = some found)
    (edge : String × String) :
    edge ∈ (found.map Prod.fst).dedup ↔ edge ∈ similarityEdges env foList := by
  have hthere := (similarFilePairs_isSome_iff h).mp
    (Option.isSome_iff_exists.mpr ⟨found, hfound⟩)
  have hrounds : ∀ parents ∈ combinationsTwo foList,
      similarFilesOfParents env (getExclusiveFiles foList) parents =
        some ((exclusiveList foList parents.1).flatMap fun file =>
          similarTo env file parents.1.uid parents.2) := fun parents hparents =>
    similarFilesOfParents_eq h hparents fun file hfile => findSimilarFileFor_isSome_iff.mpr
      (hthere parents hparents file (mem_getExclusiveFiles.mp hfile))
  have heq : found = (combinationsTwo foList).flatMap fun parents =>
      (exclusiveList foList parents.1).flatMap fun file =>
        similarTo env file parents.1.uid parents.2 := by
    unfold similarFilePairs at hfound
    rw [option_mapM_eq_map hrounds] at hfound
    exact (Option.some.inj hfound).symm
  rw [List.mem_dedup, mem_similarityEdges, heq]
  constructor
  · intro hedge
    obtain ⟨⟨edge', score⟩, hmem, rfl⟩ := List.mem_map.mp hedge
    obtain ⟨parents, hparents, hmem⟩ := List.mem_flatMap.mp hmem
    obtain ⟨file, hfile, hmem⟩ := List.mem_flatMap.mp hmem
    obtain ⟨file', hfile', hsimilar, heq⟩ := mem_similarTo.mp ⟨score, hmem⟩
    exact ⟨parents, file, file', ⟨hparents, mem_getExclusiveFiles.mp hfile, hfile', hsimilar⟩, heq⟩
  · rintro ⟨parents, file, file', hpair, rfl⟩
    obtain ⟨score, hmem⟩ := mem_similarTo.mpr ⟨file', hpair.included, hpair.similar, rfl⟩
    exact List.mem_map.mpr ⟨_, List.mem_flatMap.mpr ⟨parents, hpair.objects,
      List.mem_flatMap.mpr ⟨file, mem_getExclusiveFiles.mpr hpair.exclusive, hmem⟩⟩, rfl⟩

end Pairs

/-! ## 6. Ids -/

section Ids
variable {η : Type} {env : SimilarityEnv η} {foList : List ComparedObject}

/-- The parent and the file of an id. -/
def idParts (similarFileId : String) : Uid × Uid := (splitSimilarFileId similarFileId).getD ("", "")

/-- A node of the graph is the id of a file of an object. -/
structure NodeOf (foList : List ComparedObject) (node : String) (fo : ComparedObject) (file : Uid) :
    Prop where
  mem : fo ∈ foList
  id : node = getSimilarFileId file fo.uid
  parentUid : ':' ∉ fo.uid.toList
  fileUid : ':' ∉ file.toList

/-- The node is split into the parent and the file. -/
theorem splitSimilarFileId_node {node : String} {fo : ComparedObject} {file : Uid}
    (h : NodeOf foList node fo file) : splitSimilarFileId node = some (fo.uid, file) := by
  have hsplit := splitAtChar_append ':' fo.uid file h.fileUid
  have hfront : splitAtChar ':' fo.uid = [fo.uid] := by
    rw [splitAtChar, List.splitOn_eq_singleton h.parentUid, List.map_singleton, String.ofList_toList]
  rw [hfront] at hsplit
  have hid : node = fo.uid ++ String.singleton ':' ++ file := h.id
  rw [splitSimilarFileId, hid, hsplit]
  rfl

theorem idParts_node {node : String} {fo : ComparedObject} {file : Uid}
    (h : NodeOf foList node fo file) : idParts node = (fo.uid, file) := by
  rw [idParts, splitSimilarFileId_node h]
  rfl

/-- A node is the id of one file of one object only. -/
theorem eq_of_id_eq {fo : ComparedObject} {file file' parentUid : Uid}
    (h : NodeOf foList (getSimilarFileId file' parentUid) fo file) :
    fo.uid = parentUid ∧ file = file' := by
  have hchars : ∀ parent file : Uid,
      (getSimilarFileId file parent).toList = parent.toList ++ ':' :: file.toList := by
    intro parent file
    simp [getSimilarFileId]
  have heq := congrArg String.toList h.id
  rw [hchars, hchars] at heq
  obtain ⟨hparent, -, hfile⟩ :=
    (List.append_cons_inj_of_notMem h.parentUid h.fileUid).mp heq.symm
  exact ⟨String.toList_inj.mp hparent, String.toList_inj.mp hfile⟩

/-- The ends of an edge. -/
theorem nodeOf_similarPair (hcolon : UidsWithoutColon foList)
    {parents : ComparedObject × ComparedObject} {file file' : Uid}
    (hpair : SimilarPair env foList parents file file') :
    NodeOf foList (getSimilarFileId file parents.1.uid) parents.1 file ∧
      NodeOf foList (getSimilarFileId file' parents.2.uid) parents.2 file' := by
  obtain ⟨hone, htwo⟩ := mem_of_mem_combinationsTwo hpair.objects
  have honeUids := List.forall_mem_cons.mp (hcolon parents.1 hone)
  have htwoUids := List.forall_mem_cons.mp (hcolon parents.2 htwo)
  exact ⟨⟨hone, rfl, honeUids.1, honeUids.2 file (List.mem_append_left _ hpair.exclusive.1)⟩,
    ⟨htwo, rfl, htwoUids.1, htwoUids.2 file' (List.mem_append_right _ hpair.included)⟩⟩

theorem exists_nodeOf (hcolon : UidsWithoutColon foList) {node : String}
    (hnode : node ∈ Cliques.nodes (similarityEdges env foList)) :
    ∃ fo file, NodeOf foList node fo file := by
  obtain ⟨edge, hedge, hend⟩ := Cliques.mem_nodes_iff.mp hnode
  obtain ⟨parents, file, file', hpair, rfl⟩ := mem_similarityEdges.mp hedge
  obtain ⟨hone, htwo⟩ := nodeOf_similarPair hcolon hpair
  rcases hend with rfl | rfl
  · exact ⟨parents.1, file, hone⟩
  · exact ⟨parents.2, file', htwo⟩

variable {c : Finset String}

theorem nodeOf_of_mem_clique (hcolon : UidsWithoutColon foList)
    (hc : Cliques.MaximalClique (similarityEdges env foList) c) {node : String} (hnode : node ∈ c) :
    ∃ fo file, NodeOf foList node fo file :=
  exists_nodeOf hcolon (List.mem_toFinset.mp (hc.2.prop.1 hnode))

/-- Files of one object are never linked, so a group has one of them at most. -/
theorem eq_of_same_parent (h : DistinctObjects foList) (hcolon : UidsWithoutColon foList)
    (hc : Cliques.MaximalClique (similarityEdges env foList) c) {node node' : String}
    (hnode : node ∈ c) (hnode' : node' ∈ c)
    (hsame : (idParts node).1 = (idParts node').1) : node = node' := by
  refine Cliques.eq_of_mem_clique (fun node => (idParts node).1) (fun edge hedge => ?_)
    hc.2.prop hnode hnode' hsame
  obtain ⟨parents, file, file', hpair, rfl⟩ := mem_similarityEdges.mp hedge
  obtain ⟨hone, htwo⟩ := nodeOf_similarPair hcolon hpair
  show (idParts (getSimilarFileId file parents.1.uid)).1 ≠
    (idParts (getSimilarFileId file' parents.2.uid)).1
  rw [idParts_node hone, idParts_node htwo]
  exact uid_ne_of_mem_combinationsTwo h hpair.objects

/-! ## 7. Entries -/

/-- What `combine_similarity_results` writes for the nodes of a group. -/
def nodeEntries (group : List String) : List (Uid × Option Uid) :=
  group.map fun node => ((idParts node).1, some (idParts node).2)

theorem matchDict_eq {group : List String} (h : ∀ node ∈ group, (splitSimilarFileId node).isSome) :
    matchDict foList group =
      some ((Dict.ofList (foList.map fun fo => (fo.uid, none))).setAll (nodeEntries group)) := by
  unfold matchDict
  rw [option_foldlM_eq_foldl
    (g := fun files node => files.set (idParts node).1 (some (idParts node).2))]
  · rw [Dict.setAll, nodeEntries, List.foldl_map]
  · intro node hnode files
    obtain ⟨parts, hparts⟩ := Option.isSome_iff_exists.mp (h node hnode)
    rw [idParts, hparts]
    rfl

/-- What is written for a group names the files of its nodes. -/
theorem mem_nodeEntries (hcolon : UidsWithoutColon foList)
    (hc : Cliques.MaximalClique (similarityEdges env foList) c) {parentUid : Uid}
    {value : Option Uid} : (parentUid, value) ∈ nodeEntries c.sort ↔
      ∃ file, value = some file ∧ getSimilarFileId file parentUid ∈ c := by
  simp only [nodeEntries, List.mem_map, Prod.mk.injEq, Finset.mem_sort]
  constructor
  · rintro ⟨node, hnode, rfl, rfl⟩
    obtain ⟨fo, file, hof⟩ := nodeOf_of_mem_clique hcolon hc hnode
    rw [idParts_node hof]
    exact ⟨file, rfl, hof.id ▸ hnode⟩
  · rintro ⟨file, rfl, hnode⟩
    obtain ⟨fo, file', hof⟩ := nodeOf_of_mem_clique hcolon hc hnode
    obtain ⟨rfl, rfl⟩ := eq_of_id_eq hof
    exact ⟨_, hnode, by rw [idParts_node hof], by rw [idParts_node hof]⟩

/-- The entry of a group. -/
theorem entryOf_group (h : DistinctObjects foList) (hcolon : UidsWithoutColon foList)
    (hc : Cliques.MaximalClique (similarityEdges env foList) c) (similarity : SimilarityValue) :
    EntryOf foList c ⟨(Dict.ofList (foList.map fun fo => (fo.uid, none))).setAll
      (nodeEntries c.sort), similarity⟩ := by
  constructor
  · intro fo hfo file
    constructor
    · intro hget
      rcases Dict.get?_setAll_cases hget with hmem | ⟨-, hinit⟩
      · obtain ⟨file', heq, hnode⟩ := (mem_nodeEntries hcolon hc).mp hmem
        rwa [Option.some.inj heq]
      · obtain ⟨fo', -, heq⟩ := List.mem_map.mp (Dict.mem_of_get?_ofList hinit)
        cases (Prod.mk.inj heq).2
    · intro hnode
      have hkey : fo.uid ∈ (nodeEntries c.sort).map Prod.fst :=
        List.mem_map_of_mem ((mem_nodeEntries hcolon hc).mpr ⟨file, rfl, hnode⟩)
      obtain ⟨value, hvalue⟩ := Dict.mem_iff.mp (Dict.mem_setAll.mpr (.inr hkey))
      have hmem := (Dict.get?_setAll_cases hvalue).resolve_right fun hnot => hnot.1 hkey
      obtain ⟨file', rfl, hnode'⟩ := (mem_nodeEntries hcolon hc).mp hmem
      -- both are files of this object in the group
      obtain ⟨fo₁, file₁, hof⟩ := nodeOf_of_mem_clique hcolon hc hnode
      obtain ⟨fo₂, file₂, hof'⟩ := nodeOf_of_mem_clique hcolon hc hnode'
      obtain ⟨huid, rfl⟩ := eq_of_id_eq hof
      obtain ⟨huid', rfl⟩ := eq_of_id_eq hof'
      have hsame := eq_of_same_parent h hcolon hc hnode hnode' (by
        rw [idParts_node hof, idParts_node hof', huid, huid'])
      have heq := (eq_of_id_eq (hsame ▸ hof)).2
      rw [heq]
      exact hvalue
  · intro fo hfo hnone
    rw [Dict.get?_setAll_of_not_mem]
    · exact get?_ofList_uid h hfo fun _ => none
    · intro hkey
      obtain ⟨⟨parentUid, value⟩, hmem, rfl⟩ := List.mem_map.mp hkey
      obtain ⟨file, -, hnode⟩ := (mem_nodeEntries hcolon hc).mp hmem
      exact hnone file hnode

/-- An entry belongs to one group only. -/
theorem eq_of_entryOf (hcolon : UidsWithoutColon foList) {c' : Finset String} {entry : SimilarFiles}
    (hc : Cliques.MaximalClique (similarityEdges env foList) c)
    (hc' : Cliques.MaximalClique (similarityEdges env foList) c')
    (hentry : EntryOf foList c entry) (hentry' : EntryOf foList c' entry) : c = c' := by
  ext node
  constructor
  · intro hnode
    obtain ⟨fo, file, hof⟩ := nodeOf_of_mem_clique hcolon hc hnode
    rw [hof.id] at hnode ⊢
    exact (hentry'.file fo hof.mem file).mp ((hentry.file fo hof.mem file).mpr hnode)
  · intro hnode
    obtain ⟨fo, file, hof⟩ := nodeOf_of_mem_clique hcolon hc' hnode
    rw [hof.id] at hnode ⊢
    exact (hentry.file fo hof.mem file).mp ((hentry'.file fo hof.mem file).mpr hnode)

/-! ## 8. Groups -/

/-- A group is the sorted list of a maximal clique. -/
theorem mem_generateSimilaritySets {pairs : List (String × String)} {group : List String} :
    group ∈ generateSimilaritySets env pairs ↔
      ∃ c, Cliques.MaximalClique pairs c ∧ group = c.sort := by
  have hsort : ∀ l : List String, l.Nodup → l.insertionSort (· ≤ ·) = l.toFinset.sort := by
    intro l hl
    have hperm := List.perm_insertionSort (· ≤ ·) l
    rw [← List.toFinset_eq_of_perm _ _ hperm]
    exact ((List.toFinset_sort (· ≤ ·) (hperm.nodup_iff.mpr hl)).mpr
      (List.pairwise_insertionSort (· ≤ ·) l)).symm
  simp only [generateSimilaritySets, List.mem_map]
  constructor
  · rintro ⟨l, hl, rfl⟩
    obtain ⟨hnodup, hmax⟩ := env.cliques.sound pairs l hl
    exact ⟨l.toFinset, hmax, hsort l hnodup⟩
  · rintro ⟨c, hc, rfl⟩
    obtain ⟨l, hl, rfl⟩ := env.cliques.complete pairs c hc
    exact ⟨l, hl, hsort l (env.cliques.sound pairs l hl).1⟩

theorem getSimilarFileGroupId_isSome {group : List String}
    (h : ∀ node ∈ group, (splitSimilarFileId node).isSome) :
    (getSimilarFileGroupId group).isSome := by
  unfold getSimilarFileGroupId
  rw [option_foldlM_eq_foldl (g := fun groupId node => groupId ++
    String.ofList ((idParts node).1.toList.take 4) ++ String.ofList ((idParts node).2.toList.take 4))]
  · rfl
  · intro node hnode groupId
    obtain ⟨parts, hparts⟩ := Option.isSome_iff_exists.mp (h node hnode)
    rw [idParts, hparts]
    rfl

/-- What is stored for a group. -/
def groupEntry (foList : List ComparedObject) (similarity : Dict String Nat) (group : List String) :
    String × SimilarFiles :=
  ((getSimilarFileGroupId group).getD "",
    ⟨(Dict.ofList (foList.map fun fo => (fo.uid, none))).setAll (nodeEntries group),
      getSimilarityValue group similarity⟩)

/-- The entries of the groups, one after the other. -/
theorem combineSimilarityResults_eq {groups : List (List String)} (similarity : Dict String Nat)
    (h : ∀ group ∈ groups, ∀ node ∈ group, (splitSimilarFileId node).isSome) :
    combineSimilarityResults groups foList similarity =
      some (Dict.ofList (groups.map (groupEntry foList similarity))) := by
  unfold combineSimilarityResults
  rw [option_foldlM_eq_foldl (g := fun result group =>
    result.set (groupEntry foList similarity group).1 (groupEntry foList similarity group).2)]
  · rw [Dict.ofList, Dict.setAll, List.foldl_map]
  · intro group hgroup result
    obtain ⟨groupId, hid⟩ := Option.isSome_iff_exists.mp
      (getSimilarFileGroupId_isSome (h group hgroup))
    rw [matchDict_eq (h group hgroup), groupEntry, hid]
    rfl

end Ids

/-! ## 9. When the comparison is complete -/

section Complete
variable {η : Type} {env : SimilarityEnv η} {foList : List ComparedObject}

/-- The entries that are written, if no exception is raised: one for each group, under its id. -/
theorem similarFilesOf_eq (h : DistinctObjects foList) (hcolon : UidsWithoutColon foList)
    (hthere : HashesThere env foList) : ∃ es : List (String × SimilarFiles),
      similarFilesOf env foList (getExclusiveFiles foList) = some (Dict.ofList es) ∧
      (∀ e ∈ es, ∃ c, Cliques.MaximalClique (similarityEdges env foList) c ∧
        getSimilarFileGroupId c.sort = some e.1 ∧ EntryOf foList c e.2) ∧
      ∀ c, Cliques.MaximalClique (similarityEdges env foList) c →
        ∃ e ∈ es, getSimilarFileGroupId c.sort = some e.1 ∧ EntryOf foList c e.2 := by
  obtain ⟨found, hfound⟩ := Option.isSome_iff_exists.mp ((similarFilePairs_isSome_iff h).mpr hthere)
  have hcongr : ∀ c, Cliques.MaximalClique (found.map Prod.fst).dedup c ↔
      Cliques.MaximalClique (similarityEdges env foList) c := fun c =>
    Cliques.maximalClique_congr (mem_similarFilePairs h hfound)
  have hsplit : ∀ c, Cliques.MaximalClique (similarityEdges env foList) c →
      ∀ node ∈ c.sort, (splitSimilarFileId node).isSome := by
    intro c hc node hnode
    obtain ⟨fo, file, hof⟩ := nodeOf_of_mem_clique hcolon hc ((Finset.mem_sort _).mp hnode)
    rw [splitSimilarFileId_node hof]
    rfl
  let similarity := Dict.ofList (found.map fun pair =>
    (convertUidListToCompareId [pair.1.1, pair.1.2], pair.2))
  let groups := generateSimilaritySets env (found.map Prod.fst).dedup
  have hgroups : ∀ group ∈ groups, ∃ c, Cliques.MaximalClique (similarityEdges env foList) c ∧
      group = c.sort := by
    intro group hgroup
    obtain ⟨c, hc, heq⟩ := mem_generateSimilaritySets.mp hgroup
    exact ⟨c, (hcongr c).mp hc, heq⟩
  have hentry : ∀ c, Cliques.MaximalClique (similarityEdges env foList) c →
      getSimilarFileGroupId c.sort = some (groupEntry foList similarity c.sort).1 ∧
        EntryOf foList c (groupEntry foList similarity c.sort).2 := by
    intro c hc
    obtain ⟨groupId, hid⟩ := Option.isSome_iff_exists.mp (getSimilarFileGroupId_isSome (hsplit c hc))
    refine ⟨?_, entryOf_group h hcolon hc _⟩
    rw [groupEntry, hid]
    rfl
  refine ⟨groups.map (groupEntry foList similarity), ?_, ?_, ?_⟩
  · unfold similarFilesOf getSimilarFiles
    rw [hfound]
    refine combineSimilarityResults_eq similarity fun group hgroup => ?_
    obtain ⟨c, hc, rfl⟩ := hgroups group hgroup
    exact hsplit c hc
  · intro e he
    obtain ⟨group, hgroup, rfl⟩ := List.mem_map.mp he
    obtain ⟨c, hc, rfl⟩ := hgroups group hgroup
    exact ⟨c, hc, hentry c hc⟩
  · intro c hc
    have hmem : c.sort ∈ groups := mem_generateSimilaritySets.mpr ⟨c, (hcongr c).mpr hc, rfl⟩
    exact ⟨_, List.mem_map_of_mem hmem, hentry c hc⟩

/-- Without the hashes the comparison ends with an exception. -/
theorem hashesThere_of_similarFilesOf (h : DistinctObjects foList)
    {result : Dict String SimilarFiles}
    (hresult : similarFilesOf env foList (getExclusiveFiles foList) = some result) :
    HashesThere env foList := by
  rw [← similarFilePairs_isSome_iff h]
  unfold similarFilesOf getSimilarFiles at hresult
  cases hfound : similarFilePairs env foList (getExclusiveFiles foList) with
  | none =>
    rw [hfound] at hresult
    cases hresult
  | some found => rfl

/-- Exactly when the comparison is total and complete. -/
theorem similarFiles_iff (h : DistinctObjects foList) (hcolon : UidsWithoutColon foList) :
    (∃ result, similarFilesOf env foList (getExclusiveFiles foList) = some result ∧
      SimilarityComplete env foList result) ↔
    HashesThere env foList ∧ GroupIdsDistinct env foList := by
  constructor
  · intro htotal
    obtain ⟨result, hresult, hcomplete⟩ := htotal
    have hthere := hashesThere_of_similarFilesOf h hresult
    refine ⟨hthere, fun c c' hc hc' hsame => ?_⟩
    obtain ⟨es, hes, hback, -⟩ := similarFilesOf_eq h hcolon hthere
    obtain rfl := Option.some.inj (hresult.symm.trans hes)
    -- the entry of a group is under its own id
    have hkey : ∀ c, Cliques.MaximalClique (similarityEdges env foList) c → ∃ key entry,
        (Dict.ofList es).get? key = some entry ∧ getSimilarFileGroupId c.sort = some key ∧
          EntryOf foList c entry := by
      intro c hc
      obtain ⟨key, entry, hget, hentry⟩ := hcomplete.groups c hc
      obtain ⟨c'', hc'', hid, hentry''⟩ := hback _ (Dict.mem_of_get?_ofList hget)
      obtain rfl := eq_of_entryOf hcolon hc hc'' hentry hentry''
      exact ⟨key, entry, hget, hid, hentry⟩
    obtain ⟨key, entry, hget, hid, hentry⟩ := hkey c hc
    obtain ⟨key', entry', hget', hid', hentry'⟩ := hkey c' hc'
    obtain rfl := Option.some.inj ((hid.symm.trans hsame).trans hid')
    obtain rfl := Option.some.inj (hget.symm.trans hget')
    exact eq_of_entryOf hcolon hc hc' hentry hentry'
  · intro hcondition
    obtain ⟨hthere, hdistinct⟩ := hcondition
    obtain ⟨es, hes, hback, hforth⟩ := similarFilesOf_eq h hcolon hthere
    have hgroups : ∀ c, Cliques.MaximalClique (similarityEdges env foList) c →
        ∃ key entry, (Dict.ofList es).get? key = some entry ∧ EntryOf foList c entry := by
      intro c hc
      obtain ⟨e, he, hid, -⟩ := hforth c hc
      obtain ⟨entry, hget, hmem⟩ := Dict.exists_get?_ofList (List.mem_map_of_mem he)
      obtain ⟨c', hc', hid', hentry⟩ := hback _ hmem
      obtain rfl := hdistinct c c' hc hc' (hid.trans hid'.symm)
      exact ⟨e.1, entry, hget, hentry⟩
    refine ⟨_, hes, fun parents file file' hpair => ?_, hgroups⟩
    obtain ⟨c, hc, hone, htwo⟩ := Cliques.exists_maximalClique
      (mem_similarityEdges.mpr ⟨parents, file, file', hpair, rfl⟩)
    obtain ⟨key, entry, hget, hentry⟩ := hgroups c hc
    obtain ⟨hmem, hmem'⟩ := mem_of_mem_combinationsTwo hpair.objects
    exact ⟨key, entry, hget, (hentry.file _ hmem file).mpr hone,
      (hentry.file _ hmem' file').mpr htwo⟩

end Complete

/-! ## 10. A file without a hash -/

/-- Two objects with one file each. -/
def twoObjects : List ComparedObject :=
  [⟨"parent1", ["file1"], ["file1"], false⟩, ⟨"parent2", ["file2"], ["file2"], false⟩]

/-- All files have the same hash. -/
def sameHashes : SimilarityEnv String where
  fileHashes _ := .ssdeep "3:abc:abc"
  compare hash hash' := if hash = hash' then 100 else 0
  ssdeepIgnoreThreshold := 80
  cliques := Cliques.bruteForce

theorem similarFiles_twoObjects : ∃ result,
    similarFilesOf sameHashes twoObjects (getExclusiveFiles twoObjects) = some result ∧
      SimilarityComplete sameHashes twoObjects result := by
  have hclique : Cliques.Clique (similarityEdges sameHashes twoObjects)
      (Cliques.nodes (similarityEdges sameHashes twoObjects)).toFinset := by decide
  refine (similarFiles_iff (by decide) (by decide)).mpr ⟨?_, fun c c' hc hc' _ => ?_⟩
  · exact fun _ _ _ _ => ⟨nofun, fun _ _ _ _ => ⟨_, rfl⟩⟩
  · rw [Cliques.eq_nodes_of_clique hclique hc, Cliques.eq_nodes_of_clique hclique hc']

/-- The file of the second object has not been analyzed. -/
def hashOfFirstFile : SimilarityEnv String where
  fileHashes file := if file = "file1" then .ssdeep "3:abc:abc" else .noEntry
  compare hash hash' := if hash = hash' then 100 else 0
  ssdeepIgnoreThreshold := 80
  cliques := Cliques.bruteForce

/-- A file without a hash ends the comparison. -/
theorem missing_hash : ¬ ∀ (env : SimilarityEnv String) (foList : List ComparedObject),
    2 ≤ foList.length → DistinctObjects foList → UidsWithoutColon foList →
    ∃ result, similarFilesOf env foList (getExclusiveFiles foList) = some result ∧
      SimilarityComplete env foList result := by
  intro h
  obtain ⟨result, hresult, -⟩ := h hashOfFirstFile twoObjects (by decide) (by decide) (by decide)
  have hnone : similarFilesOf hashOfFirstFile twoObjects (getExclusiveFiles twoObjects) = none := rfl
  rw [hnone] at hresult
  cases hresult

end FactCore
