import Mathlib.Data.List.Dedup
import Mathlib.Data.List.Infix
import Mathlib.Data.List.Sort
import Mathlib.Data.String.Basic
import FactCore.Lib.Dict
import FactCore.Lib.MapM
import FactCore.Lib.RoseTree
import FactCore.Lib.Separator
import FactCore.VirtualFilePath

/-!
# The file tree

`src/src/web_interface/file_tree/file_tree_node.py`, `file_tree.py` and `_generate_file_tree` of
`components/ajax_routes.py`: the files that a file includes are shown as a tree. Every virtual path
of such a file becomes a tree with a single path, with a node for each directory and one for the
file. These trees are added to a root one after the other: nodes with the same name are merged, a
directory and a file of one name are not.

The children of a node are a dict under their ids; here they are a list, and the ids are read from
the nodes. Where the code raises an exception the functions here give `none`.

Results:
1. `addChildNode_singlePath`: adding a path is the insertion of a path into a forest.
2. `treeOf_addChildNodes`: the paths of the tree are those that were added.
3. `fileTree_exact`: the tree shows exactly the files, and their order does not matter.
-/

namespace FactCore

/-! ## 1. Nodes -/

/-- The attributes of a `FileTreeNode`. -/
structure NodeInfo where
  uid : Option Uid
  rootUid : Option Uid
  virtual : Bool
  name : Option String
  size : Option Nat
  type : Option String
  hasChildren : Bool
  notAnalyzed : Bool
  deriving DecidableEq, Repr

abbrev FileTreeNode := RoseTree NodeInfo

/-- `get_id`. -/
def NodeInfo.getId (info : NodeInfo) : Option String × Bool := (info.name, info.virtual)

/-- `item in node`: there is a child with its id. -/
def HasChild (self item : FileTreeNode) : Prop :=
  ∃ child ∈ self.children, child.data.getId = item.data.getId

instance (self item : FileTreeNode) : Decidable (HasChild self item) :=
  inferInstanceAs (Decidable (∃ child ∈ self.children, child.data.getId = item.data.getId))

/-- `add_child_node` for a node that is not there. -/
def appendChildNode (self node : FileTreeNode) : FileTreeNode :=
  .node { self.data with hasChildren := true } (self.children ++ [node])

mutual

/-- `merge_node`. -/
def mergeNode (self : FileTreeNode) : FileTreeNode → FileTreeNode
  | .node info children => .node self.data (self.children.map fun currentNode =>
      if currentNode.data.getId = info.getId then mergeChildren currentNode children
      else currentNode)

/-- The loop of `merge_node`. -/
def mergeChildren (currentNode : FileTreeNode) : List FileTreeNode → FileTreeNode
  | [] => currentNode
  | child :: rest => mergeChildren (if HasChild currentNode child then mergeNode currentNode child
      else appendChildNode currentNode child) rest

end

/-- `add_child_node`. -/
def addChildNode (self node : FileTreeNode) : FileTreeNode :=
  if HasChild self node then mergeNode self node else appendChildNode self node

/-- The loop of `merge_node` as it stands in the code: the second branch calls
`add_child_node`. -/
theorem mergeChildren_cons (currentNode child : FileTreeNode) (rest : List FileTreeNode) :
    mergeChildren currentNode (child :: rest) =
      mergeChildren (if HasChild currentNode child then mergeNode currentNode child
        else addChildNode currentNode child) rest := by
  rw [mergeChildren]
  split
  · rfl
  · next h => rw [addChildNode, if_neg h]

/-! ## 2. The paths of a file -/

/-- `FileTreeData`. -/
structure FileTreeData where
  uid : Uid
  fileName : String
  size : Nat
  virtualFilePath : Dict Uid (List String)
  mime : Option String
  includedFiles : List Uid

/-- `_get_vpath_relative_to`. -/
def getVpathRelativeTo (virtualPath : String) (uid : Uid) : Option String :=
  let vpathElements := splitAtChar '|' virtualPath
  if uid ∈ vpathElements then
    some ("|".intercalate ("" :: vpathElements.dropWhile fun element => decide (element ≠ uid)))
  else none

/-- `_get_partial_virtual_paths`. -/
def getPartialVirtualPaths (virtualPath : Dict Uid (List String)) (newRoot : Uid) :
    Option (List String) :=
  ((virtualPath.values.flatten.filter fun vpath =>
    decide (newRoot.toList <:+: vpath.toList)).mapM fun vpath => getVpathRelativeTo vpath newRoot).map
      fun paths =>
        if paths.isEmpty then ["|" ++ newRoot ++ "|"] else paths.dedup.insertionSort (· ≤ ·)

/-- `_find_root_uid`. -/
def findRootUid (parentUid : Option Uid) (foData : FileTreeData) : Option Uid :=
  match parentUid with
  | none => if foData.virtualFilePath.values.flatten.isEmpty then
      foData.virtualFilePath.keys.head? else none
  | some parentUid =>
    let roots := foData.virtualFilePath.entries.filter fun entry =>
      entry.2.any fun vfp => decide (parentUid.toList <:+: vfp.toList)
    ((roots.map Prod.fst) ++ foData.virtualFilePath.keys).head?

/-- The `root_uid` of a tree, for the one that is given. -/
def treeRootUid (rootUid parentUid : Option Uid) (foData : FileTreeData) : Option Uid :=
  match rootUid with
  | some uid => if uid = "" then findRootUid parentUid foData else some uid
  | none => findRootUid parentUid foData

/-- A `VirtualPathFileTree`. -/
structure VirtualPathFileTree where
  rootUid : Uid
  parentUid : Option Uid
  foData : FileTreeData
  whitelist : Option (List Uid)

/-- `_get_virtual_file_paths`. -/
def getVirtualFilePaths (tree : VirtualPathFileTree) : Option (List String) :=
  match tree.foData.virtualFilePath.get? tree.rootUid with
  | some paths => some paths
  | none => getPartialVirtualPaths tree.foData.virtualFilePath tree.rootUid

/-- `_has_children`. An empty whitelist counts as none. -/
def hasChildren (tree : VirtualPathFileTree) : Bool :=
  match tree.whitelist with
  | some (f :: whitelist) => (f :: whitelist).any fun f => decide (f ∈ tree.foData.includedFiles)
  | _ => !tree.foData.includedFiles.isEmpty

/-- `_get_file_name`. -/
def getFileName (tree : VirtualPathFileTree) (currentVirtualPath : List String) : String :=
  currentVirtualPath.head?.getD tree.foData.fileName

/-- The node of `_get_node_for_virtual_file`, before its child is added. -/
def virtualInfo (rootUid : Uid) (name : String) : NodeInfo where
  uid := none
  rootUid := some rootUid
  virtual := true
  name := some name
  size := none
  type := none
  hasChildren := false
  notAnalyzed := false

/-- The node of `_get_node_for_real_file`. -/
def realInfo (tree : VirtualPathFileTree) (name : String) : NodeInfo where
  uid := some tree.foData.uid
  rootUid := some tree.rootUid
  virtual := false
  name := some name
  size := some tree.foData.size
  type := tree.foData.mime
  hasChildren := hasChildren tree
  notAnalyzed := false

/-- `_create_node_from_virtual_path`. -/
def createNodeFromVirtualPath (tree : VirtualPathFileTree) : List String → FileTreeNode
  | currentElement :: next :: rest =>
    addChildNode (.node (virtualInfo tree.rootUid currentElement) [])
      (createNodeFromVirtualPath tree (next :: rest))
  | currentVirtualPath => .node (realInfo tree (getFileName tree currentVirtualPath)) []

/-- One round of `get_file_tree_nodes`: a path is left out if its last container is not the
parent. -/
def nodesOfVirtualPath (tree : VirtualPathFileTree) (virtualPath : String) :
    Option (List FileTreeNode) :=
  match splitAtChar '/' virtualPath with
  | [] => none
  | containers :: pathElements =>
    match tree.parentUid with
    | none => some [createNodeFromVirtualPath tree pathElements]
    | some parentUid =>
      match (splitVirtualPath containers).getLast? with
      | none => none
      | some last =>
        if last = parentUid then some [createNodeFromVirtualPath tree pathElements] else some []

/-- `get_file_tree_nodes`. -/
def getFileTreeNodes (tree : VirtualPathFileTree) : Option (List FileTreeNode) := do
  let virtualFilePaths ← getVirtualFilePaths tree
  let nodes ← virtualFilePaths.mapM (nodesOfVirtualPath tree)
  some nodes.flatten

/-- `generate_file_tree_level`, for a file that has been analyzed. -/
def generateFileTreeLevel (rootUid parentUid : Option Uid) (whitelist : Option (List Uid))
    (foData : FileTreeData) : Option (List FileTreeNode) := do
  let uid ← treeRootUid rootUid parentUid foData
  getFileTreeNodes ⟨uid, parentUid, foData, whitelist⟩

/-- `generate_file_tree_nodes_for_uid_list`. -/
def generateFileTreeNodes (rootUid parentUid : Option Uid) (whitelist : Option (List Uid))
    (files : List FileTreeData) : Option (List FileTreeNode) := do
  let nodes ← files.mapM (generateFileTreeLevel rootUid parentUid whitelist)
  some nodes.flatten

/-- `FileTreeNode(None)`. -/
def emptyRoot : FileTreeNode :=
  .node ⟨none, none, false, none, none, none, false, false⟩ []

/-- The loop of `_generate_file_tree`. -/
def addChildNodes (nodes : List FileTreeNode) : FileTreeNode := nodes.foldl addChildNode emptyRoot

/-! ## 3. What is shown -/

mutual

/-- The files of a tree: the names down to a node that is not virtual, and its uid. -/
def fileEntries : FileTreeNode → List (List (Option String) × Option Uid)
  | .node info children => (if info.virtual then [] else [([info.name], info.uid)]) ++
      (forestEntries children).map fun entry => (info.name :: entry.1, entry.2)

/-- The files in a list of trees. -/
def forestEntries : List FileTreeNode → List (List (Option String) × Option Uid)
  | [] => []
  | node :: nodes => fileEntries node ++ forestEntries nodes

end

/-- The tree shows a file at a path exactly if it is there. Siblings have distinct ids, and a node
below the root with children is a directory. -/
structure ExactTree (files : List String → Uid → Prop) (tree : FileTreeNode) : Prop where
  entries : ∀ entry, entry ∈ forestEntries tree.children ↔
    ∃ path uid, files path uid ∧ entry = (path.map some, some uid)
  siblings : ∀ node, RoseTree.Within tree node →
    (node.children.map fun child => child.data.getId).Nodup
  directories : ∀ child ∈ tree.children, ∀ node, RoseTree.Within child node →
    node.children ≠ [] → node.data.virtual = true

/-- A virtual path to a file below `root`: one that is stored for this root, or else the part from
`root` on of one that is stored for another. A file that has neither has a path of `root` only. -/
inductive PathBelow (root : Uid) (foData : FileTreeData) : String → Prop
  | stored {paths virtualPath} (hroot : foData.virtualFilePath.get? root = some paths)
      (hpath : virtualPath ∈ paths) : PathBelow root foData virtualPath
  | part {other paths above below} (hroot : root ∉ foData.virtualFilePath)
      (hother : foData.virtualFilePath.get? other = some paths)
      (hpath : "|".intercalate (above ++ root :: below) ∈ paths)
      (hnames : ∀ name ∈ above ++ root :: below, '|' ∉ name.toList) (hfirst : root ∉ above) :
      PathBelow root foData ("|".intercalate ("" :: root :: below))
  | unknown (hroot : root ∉ foData.virtualFilePath)
      (hnone : ∀ other paths, foData.virtualFilePath.get? other = some paths →
        ∀ virtualPath ∈ paths, ¬ root.toList <:+: virtualPath.toList) :
      PathBelow root foData ("|" ++ root ++ "|")

/-- The uids of a virtual path, and the elements of the path in the last of these containers. -/
def VirtualPathParts (virtualPath : String) (containers elements : List String) : Prop :=
  ∃ front, virtualPath = "/".intercalate (front :: elements) ∧
    (∀ part ∈ front :: elements, '/' ∉ part.toList) ∧
    Separated '|' front.toList (containers.map String.toList)

/-- The virtual path is one below the parent, with these path elements. -/
def BelowParent (parentUid : Option Uid) (virtualPath : String) (path : List String) : Prop :=
  ∃ containers, VirtualPathParts virtualPath containers path ∧
    ∀ uid ∈ parentUid, containers.getLast? = some uid

/-- The names on the way to a file. A file at the place of the parent has its own name only. -/
def shownPath (foData : FileTreeData) : List String → List String
  | [] => [foData.fileName]
  | path => path

/-- A file has a virtual path below the parent, with these path elements. -/
def FileAt (root : Uid) (parentUid : Option Uid) (files : List FileTreeData) (path : List String)
    (uid : Uid) : Prop :=
  ∃ foData ∈ files, foData.uid = uid ∧ ∃ virtualPath, PathBelow root foData virtualPath ∧
    ∃ elements, BelowParent parentUid virtualPath elements ∧ path = shownPath foData elements

/-- Where the root stands in a path that is stored for another root, it is a name of this path. -/
def RootNames (root : Uid) (foData : FileTreeData) : Prop :=
  root ∉ foData.virtualFilePath → ∀ other paths, foData.virtualFilePath.get? other = some paths →
    ∀ virtualPath ∈ paths, root.toList <:+: virtualPath.toList →
      ∃ above below, virtualPath = "|".intercalate (above ++ root :: below) ∧
        ∀ name ∈ above ++ root :: below, '|' ∉ name.toList

/-- The files of one layer. They have virtual paths below the same root, with containers. A uid
stands for one file, and a path as well. -/
structure LayerFiles (root : Uid) (rootUid parentUid : Option Uid) (files : List FileTreeData) :
    Prop where
  sameRoot : ∀ foData ∈ files, treeRootUid rootUid parentUid foData = some root
  rootNames : ∀ foData ∈ files, RootNames root foData
  containers : ∀ foData ∈ files, ∀ virtualPath, PathBelow root foData virtualPath →
    ∀ containers elements, VirtualPathParts virtualPath containers elements → containers ≠ []
  sameUid : ∀ foData ∈ files, ∀ foData' ∈ files, foData.uid = foData'.uid → foData = foData'
  samePath : ∀ path uid uid', FileAt root parentUid files path uid →
    FileAt root parentUid files path uid' → uid = uid'

theorem FileAt.perm {root : Uid} {parentUid : Option Uid} {files files' : List FileTreeData}
    {path : List String} {uid : Uid} (hperm : files'.Perm files)
    (h : FileAt root parentUid files' path uid) : FileAt root parentUid files path uid := by
  obtain ⟨foData, hfile, hpath⟩ := h
  exact ⟨foData, hperm.mem_iff.mp hfile, hpath⟩

theorem LayerFiles.perm {root : Uid} {rootUid parentUid : Option Uid}
    {files files' : List FileTreeData} (h : LayerFiles root rootUid parentUid files)
    (hperm : files'.Perm files) : LayerFiles root rootUid parentUid files' where
  sameRoot foData hfile := h.sameRoot foData (hperm.mem_iff.mp hfile)
  rootNames foData hfile := h.rootNames foData (hperm.mem_iff.mp hfile)
  containers foData hfile := h.containers foData (hperm.mem_iff.mp hfile)
  sameUid foData hfile foData' hfile' :=
    h.sameUid foData (hperm.mem_iff.mp hfile) foData' (hperm.mem_iff.mp hfile')
  samePath path uid uid' hat hat' := h.samePath path uid uid' (hat.perm hperm) (hat'.perm hperm)

/-! ## 4. The virtual paths of a file -/

/-- The parts of a virtual path are those that the code reads from it. -/
theorem virtualPathParts_iff {virtualPath : String} {containers elements : List String} :
    VirtualPathParts virtualPath containers elements ↔
      ∃ front, splitAtChar '/' virtualPath = front :: elements ∧
        splitVirtualPath front = containers := by
  simp only [splitAtChar_eq_iff (List.cons_ne_nil _ _), splitVirtualPath_eq_iff, and_assoc]
  exact Iff.rfl

theorem belowParent_iff {parentUid : Option Uid} {virtualPath : String} {path : List String} :
    BelowParent parentUid virtualPath path ↔
      ∃ front, splitAtChar '/' virtualPath = front :: path ∧
        ∀ uid ∈ parentUid, (splitVirtualPath front).getLast? = some uid := by
  simp only [BelowParent, virtualPathParts_iff]
  constructor
  · rintro ⟨_, ⟨front, hsplit, rfl⟩, hparent⟩
    exact ⟨front, hsplit, hparent⟩
  · rintro ⟨front, hsplit, hparent⟩
    exact ⟨_, ⟨front, hsplit, rfl⟩, hparent⟩

theorem dropWhile_ne_append_cons {uid : Uid} {above : List String} (h : uid ∉ above)
    (below : List String) : (above ++ uid :: below).dropWhile (fun element => decide (element ≠ uid)) =
      uid :: below := by
  rw [List.dropWhile_append_of_pos fun element helement => by
    simpa using fun heq : element = uid => h (heq ▸ helement)]
  simp

/-- What is cut off stands in front of the first occurrence of the uid. -/
theorem getVpathRelativeTo_eq_some_iff {virtualPath relative : String} {uid : Uid} :
    getVpathRelativeTo virtualPath uid = some relative ↔
      ∃ above below, virtualPath = "|".intercalate (above ++ uid :: below) ∧
        (∀ name ∈ above ++ uid :: below, '|' ∉ name.toList) ∧ uid ∉ above ∧
        relative = "|".intercalate ("" :: uid :: below) := by
  have hparts : ∀ above below : List String,
      splitAtChar '|' virtualPath = above ++ uid :: below ↔
        virtualPath = "|".intercalate (above ++ uid :: below) ∧
          ∀ name ∈ above ++ uid :: below, '|' ∉ name.toList := fun above below =>
    splitAtChar_eq_iff (List.append_ne_nil_of_right_ne_nil above (List.cons_ne_nil uid below))
  rw [getVpathRelativeTo]
  constructor
  · intro h
    split at h
    · next hmem =>
      obtain ⟨above, below, hsplit, hfirst⟩ := List.eq_append_cons_of_mem hmem
      have hdrop := dropWhile_ne_append_cons hfirst below
      rw [← hsplit] at hdrop
      obtain rfl := Option.some.inj h
      obtain ⟨hjoin, hnames⟩ := (hparts above below).mp hsplit
      exact ⟨above, below, hjoin, hnames, hfirst, by rw [hdrop]⟩
    · cases h
  · rintro ⟨above, below, hjoin, hnames, hfirst, rfl⟩
    have hsplit := (hparts above below).mpr ⟨hjoin, hnames⟩
    rw [hsplit, if_pos (List.mem_append_right above List.mem_cons_self),
      dropWhile_ne_append_cons hfirst below]

/-- The paths that lead through a root that has no paths of its own. -/
theorem mem_getPartialVirtualPaths {root : Uid} {foData : FileTreeData}
    (hroot : root ∉ foData.virtualFilePath) (h : RootNames root foData) :
    ∃ paths, getPartialVirtualPaths foData.virtualFilePath root = some paths ∧
      ∀ virtualPath, virtualPath ∈ paths ↔ PathBelow root foData virtualPath := by
  rw [getPartialVirtualPaths]
  generalize hrelevant : (foData.virtualFilePath.values.flatten.filter fun vpath =>
    decide (root.toList <:+: vpath.toList)) = relevant
  have hmem : ∀ vpath, vpath ∈ relevant ↔ (∃ other paths,
      foData.virtualFilePath.get? other = some paths ∧ vpath ∈ paths) ∧
        root.toList <:+: vpath.toList := by
    intro vpath
    rw [← hrelevant, List.mem_filter, List.mem_flatten, decide_eq_true_iff]
    simp only [Dict.mem_values_iff]
    refine and_congr_left fun _ => ⟨?_, ?_⟩
    · rintro ⟨paths, ⟨other, hother⟩, hpath⟩
      exact ⟨other, paths, hother, hpath⟩
    · rintro ⟨other, paths, hother, hpath⟩
      exact ⟨paths, ⟨other, hother⟩, hpath⟩
  have hthrough : ∀ above below : List String,
      root.toList <:+: ("|".intercalate (above ++ root :: below)).toList := fun above below =>
    infix_intercalate_of_mem (List.mem_append_right above List.mem_cons_self)
  have hsome : ∀ vpath ∈ relevant, getVpathRelativeTo vpath root =
      some ((getVpathRelativeTo vpath root).getD "") := by
    intro vpath hvpath
    obtain ⟨⟨other, paths, hother, hpath⟩, hin⟩ := (hmem vpath).mp hvpath
    obtain ⟨above, below, rfl, hnames⟩ := h hroot other paths hother vpath hpath hin
    have hsplit : splitAtChar '|' ("|".intercalate (above ++ root :: below)) =
        above ++ root :: below :=
      (splitAtChar_eq_iff (List.append_ne_nil_of_right_ne_nil above
        (List.cons_ne_nil root below))).mpr ⟨rfl, hnames⟩
    have helement : root ∈ splitAtChar '|' ("|".intercalate (above ++ root :: below)) := by
      rw [hsplit]
      exact List.mem_append_right above List.mem_cons_self
    rw [getVpathRelativeTo, if_pos helement, Option.getD_some]
  -- a path that does not name the root is only there if no path does
  have hpart : ∀ virtualPath,
      (∃ vpath ∈ relevant, getVpathRelativeTo vpath root = some virtualPath) ↔
        relevant ≠ [] ∧ PathBelow root foData virtualPath := by
    intro virtualPath
    constructor
    · rintro ⟨vpath, hvpath, hrelative⟩
      obtain ⟨⟨other, paths, hother, hpath⟩, -⟩ := (hmem vpath).mp hvpath
      obtain ⟨above, below, rfl, hnames, hfirst, rfl⟩ :=
        getVpathRelativeTo_eq_some_iff.mp hrelative
      exact ⟨List.ne_nil_of_mem hvpath, .part hroot hother hpath hnames hfirst⟩
    · rintro ⟨hne, hbelow⟩
      cases hbelow with
      | stored hkey => exact absurd (Dict.isSome_get?.mp (by rw [hkey]; rfl)) hroot
      | @part other paths above below _ hother hpath hnames hfirst =>
        exact ⟨_, (hmem _).mpr ⟨⟨other, paths, hother, hpath⟩, hthrough above below⟩,
          getVpathRelativeTo_eq_some_iff.mpr ⟨above, below, rfl, hnames, hfirst, rfl⟩⟩
      | unknown _ hnone =>
        obtain ⟨vpath, hvpath⟩ := List.exists_mem_of_ne_nil relevant hne
        obtain ⟨⟨other, paths, hother, hpath⟩, hin⟩ := (hmem vpath).mp hvpath
        exact absurd hin (hnone other paths hother vpath hpath)
  rw [option_mapM_eq_map hsome, Option.map_some]
  refine ⟨_, rfl, fun virtualPath => ?_⟩
  by_cases hempty : relevant = []
  · have hnone : ∀ other paths, foData.virtualFilePath.get? other = some paths →
        ∀ vpath ∈ paths, ¬ root.toList <:+: vpath.toList := by
      intro other paths hother vpath hpath hin
      have hvpath := (hmem vpath).mpr ⟨⟨other, paths, hother, hpath⟩, hin⟩
      rw [hempty] at hvpath
      cases hvpath
    rw [hempty, List.map_nil, List.isEmpty_nil, if_pos rfl, List.mem_singleton]
    constructor
    · rintro rfl
      exact .unknown hroot hnone
    · intro hbelow
      cases hbelow with
      | stored hkey => exact absurd (Dict.isSome_get?.mp (by rw [hkey]; rfl)) hroot
      | part _ hother hpath => exact absurd (hthrough _ _) (hnone _ _ hother _ hpath)
      | unknown => rfl
  · rw [if_neg (by simpa using hempty), List.mem_insertionSort, List.mem_dedup, List.mem_map]
    rw [← (and_iff_right hempty : _ ↔ PathBelow root foData virtualPath), ← hpart]
    refine exists_congr fun vpath => and_congr_right fun hvpath => ?_
    rw [hsome vpath hvpath, Option.getD_some, Option.some.injEq]

/-- The virtual paths that the code collects are those below the root. -/
theorem mem_getVirtualFilePaths {root : Uid} (parentUid : Option Uid)
    (whitelist : Option (List Uid)) {foData : FileTreeData} (h : RootNames root foData) :
    ∃ paths, getVirtualFilePaths ⟨root, parentUid, foData, whitelist⟩ = some paths ∧
      ∀ virtualPath, virtualPath ∈ paths ↔ PathBelow root foData virtualPath := by
  rw [getVirtualFilePaths]
  cases hroot : foData.virtualFilePath.get? root with
  | none =>
    refine mem_getPartialVirtualPaths ?_ h
    rw [← Dict.isSome_get?, hroot]
    exact Bool.false_ne_true
  | some paths =>
    have hkey : root ∈ foData.virtualFilePath := Dict.isSome_get?.mp (by rw [hroot]; rfl)
    refine ⟨paths, rfl, fun virtualPath => ⟨fun hpath => .stored hroot hpath, fun hbelow => ?_⟩⟩
    cases hbelow with
    | stored hsame hpath => rwa [Option.some.inj (hroot.symm.trans hsame)]
    | part hnot => exact absurd hkey hnot
    | unknown hnot => exact absurd hkey hnot

/-! ## 5. Paths as data -/

/-- A directory in the tree. -/
def directoryInfo (rootUid : Uid) (name : String) : NodeInfo :=
  { virtualInfo rootUid name with hasChildren := true }

/-- The data of a file's path: directories, and the file. -/
def pathInfos (tree : VirtualPathFileTree) : List String → List NodeInfo
  | currentElement :: next :: rest =>
    directoryInfo tree.rootUid currentElement :: pathInfos tree (next :: rest)
  | currentVirtualPath => [realInfo tree (getFileName tree currentVirtualPath)]

/-- Virtual nodes are directories. -/
def IsNodeInfo (rootUid : Uid) (info : NodeInfo) : Prop :=
  info.virtual = true → ∃ name, info = directoryInfo rootUid name

theorem lawfulKeys (rootUid : Uid) :
    RoseTree.LawfulKeys NodeInfo.getId NodeInfo.virtual (IsNodeInfo rootUid) where
  inner_eq _ _ hkey := (Prod.mk.inj hkey).2
  eq_of_inner d d' hok hok' hvirtual hkey := by
    obtain ⟨hname, hsame⟩ := Prod.mk.inj hkey
    obtain ⟨name, rfl⟩ := hok hvirtual
    obtain ⟨name', rfl⟩ := hok' (hsame ▸ hvirtual)
    rw [Option.some.inj hname]

abbrev NodePath (rootUid : Uid) := RoseTree.IsPath NodeInfo.virtual (IsNodeInfo rootUid)

abbrev NodeForest (rootUid : Uid) :=
  RoseTree.PathForest NodeInfo.getId NodeInfo.virtual (IsNodeInfo rootUid)

section Paths
variable {rootUid : Uid}

theorem nodePath_pathInfos (tree : VirtualPathFileTree) (path : List String) :
    NodePath tree.rootUid (pathInfos tree path) := by
  fun_induction pathInfos tree path with
  | case1 currentElement next rest ih =>
    exact .step _ (fun _ => ⟨currentElement, rfl⟩) rfl ih
  | case2 currentVirtualPath h => exact .leaf _ (fun hvirtual => by cases hvirtual) rfl

theorem hasChild_iff {self : FileTreeNode} {info : NodeInfo} {rest : List NodeInfo} :
    HasChild self (RoseTree.singlePath info rest) ↔
      ∃ child ∈ self.children, child.data.getId = info.getId := by
  rw [HasChild, RoseTree.data_singlePath]

/-- A directory has its flag already. -/
theorem data_of_virtual {child : FileTreeNode}
    (h : RoseTree.PathTree NodeInfo.getId NodeInfo.virtual (IsNodeInfo rootUid) child)
    (hvirtual : child.data.virtual = true) :
    { child.data with hasChildren := true } = child.data := by
  obtain ⟨name, hname⟩ := h.ok_data hvirtual
  rw [hname]
  rfl

/-- Adding a tree with a single path is the insertion of the path. The flag of the node is set if
it gets a child. -/
theorem addChildNode_singlePath {self : FileTreeNode} {info : NodeInfo} {rest : List NodeInfo}
    (h : NodeForest rootUid self.children) (hp : NodePath rootUid (info :: rest)) :
    addChildNode self (RoseTree.singlePath info rest) =
      .node (if ∃ child ∈ self.children, child.data.getId = info.getId then self.data
          else { self.data with hasChildren := true })
        (RoseTree.insertPath NodeInfo.getId (info :: rest) self.children) := by
  induction rest generalizing self info with
  | nil =>
    by_cases hchild : ∃ child ∈ self.children, child.data.getId = info.getId
    · rw [addChildNode, if_pos (hasChild_iff.mpr hchild), if_pos hchild,
        RoseTree.insertPath_of_mem hchild, RoseTree.singlePath, mergeNode]
      congr 1
      refine List.map_congr_left fun child _ => ?_
      -- there is nothing below the file
      rw [mergeChildren, RoseTree.insertPath, ← RoseTree.eq_node]
    · rw [addChildNode, if_neg (mt hasChild_iff.mp hchild), if_neg hchild,
        RoseTree.insertPath_of_not_mem hchild, appendChildNode]
  | cons next rest ih =>
    by_cases hchild : ∃ child ∈ self.children, child.data.getId = info.getId
    · rw [addChildNode, if_pos (hasChild_iff.mpr hchild), if_pos hchild,
        RoseTree.insertPath_of_mem hchild, RoseTree.singlePath, mergeNode]
      congr 1
      refine List.map_congr_left fun child hmem => ?_
      split
      · next hkey =>
        have htree := h.trees child hmem
        cases hp with
        | step info hok hvirtual hrest =>
          have hdirectory : child.data.virtual = true :=
            ((lawfulKeys rootUid).inner_eq _ _ hkey).trans hvirtual
          have hadd : mergeChildren child [RoseTree.singlePath next rest] =
            addChildNode child (RoseTree.singlePath next rest) := rfl
          rw [hadd, ih htree.forest hrest, data_of_virtual htree hdirectory, ite_self]
      · rfl
    · rw [addChildNode, if_neg (mt hasChild_iff.mp hchild), if_neg hchild,
        RoseTree.insertPath_of_not_mem hchild, appendChildNode]

/-- The node of a path is a tree with this path only. -/
theorem createNodeFromVirtualPath_eq (tree : VirtualPathFileTree) (path : List String) :
    ∃ info rest, pathInfos tree path = info :: rest ∧
      createNodeFromVirtualPath tree path = RoseTree.singlePath info rest := by
  fun_induction pathInfos tree path with
  | case1 currentElement next rest ih =>
    obtain ⟨info, infos, hinfos, hnode⟩ := ih
    refine ⟨_, info :: infos, by rw [hinfos], ?_⟩
    rw [createNodeFromVirtualPath, hnode, addChildNode, if_neg (by simp [HasChild])]
    rfl
  | case2 currentVirtualPath h =>
    refine ⟨_, [], rfl, ?_⟩
    rw [createNodeFromVirtualPath]
    · rfl
    · exact h

end Paths

/-! ## 6. The paths of the tree -/

section Entries
variable {rootUid : Uid}

/-- The entry of a path: its names, and the uid at its end. -/
def entryOf (infos : List NodeInfo) : List (Option String) × Option Uid :=
  (infos.map NodeInfo.name, infos.getLast?.bind NodeInfo.uid)

theorem mem_forestEntries {nodes : List FileTreeNode} {entry : List (Option String) × Option Uid} :
    entry ∈ forestEntries nodes ↔ ∃ node ∈ nodes, entry ∈ fileEntries node := by
  induction nodes with
  | nil => simp [forestEntries]
  | cons node nodes ih => simp [forestEntries, ih]

theorem entryOf_cons (info : NodeInfo) {infos : List NodeInfo} (h : infos ≠ []) :
    entryOf (info :: infos) = (info.name :: (entryOf infos).1, (entryOf infos).2) := by
  obtain ⟨info', infos, rfl⟩ := List.exists_cons_of_ne_nil h
  rfl

/-- The files of a tree are the ends of its paths. -/
theorem mem_fileEntries {node : FileTreeNode}
    (h : RoseTree.PathTree NodeInfo.getId NodeInfo.virtual (IsNodeInfo rootUid) node)
    {entry : List (Option String) × Option Uid} :
    entry ∈ fileEntries node ↔ ∃ infos ∈ node.leafPaths, entry = entryOf infos := by
  induction h generalizing entry with
  | @node info children hok hvirtual hkeys h ih =>
    have htree : RoseTree.PathTree NodeInfo.getId NodeInfo.virtual (IsNodeInfo rootUid)
      (.node info children) := .node hok hvirtual hkeys h
    have hbelow : ∀ entry, entry ∈ forestEntries children ↔
        ∃ infos ∈ RoseTree.forestPaths children, entry = entryOf infos := by
      intro entry
      simp only [mem_forestEntries, RoseTree.mem_forestPaths]
      constructor
      · intro hshown
        obtain ⟨child, hchild, hentry⟩ := hshown
        obtain ⟨infos, hinfos, heq⟩ := (ih child hchild).mp hentry
        exact ⟨infos, ⟨child, hchild, hinfos⟩, heq⟩
      · intro hpath
        obtain ⟨infos, ⟨child, hchild, hinfos⟩, heq⟩ := hpath
        exact ⟨child, hchild, (ih child hchild).mpr ⟨infos, hinfos, heq⟩⟩
    cases hinner : info.virtual with
    | false =>
      have hnil : children = [] := Classical.byContradiction fun hne =>
        Bool.false_ne_true (hinner.symm.trans (hvirtual.mpr hne))
      rw [RoseTree.leafPaths_of_not_inner htree hinner, fileEntries, hnil, hinner]
      simp [forestEntries, entryOf]
    | true =>
      have hne : ∀ infos ∈ RoseTree.forestPaths children, infos ≠ [] := by
        intro infos hinfos
        obtain ⟨child, -, hinfos⟩ := RoseTree.mem_forestPaths.mp hinfos
        obtain ⟨rest, rfl⟩ := RoseTree.exists_of_mem_leafPaths hinfos
        exact List.cons_ne_nil _ _
      rw [fileEntries, hinner, if_pos rfl, List.nil_append, List.mem_map]
      constructor
      · rintro ⟨entry, hentry, rfl⟩
        obtain ⟨infos, hinfos, rfl⟩ := (hbelow entry).mp hentry
        exact ⟨info :: infos, (RoseTree.mem_leafPaths_of_inner htree hinner).mpr
          ⟨infos, hinfos, rfl⟩, (entryOf_cons info (hne infos hinfos)).symm⟩
      · rintro ⟨infos, hinfos, rfl⟩
        obtain ⟨rest, hrest, rfl⟩ := (RoseTree.mem_leafPaths_of_inner htree hinner).mp hinfos
        exact ⟨entryOf rest, (hbelow _).mpr ⟨rest, hrest, rfl⟩,
          (entryOf_cons info (hne rest hrest)).symm⟩

/-- The tree with a single path. -/
def nodeOfPath : List NodeInfo → FileTreeNode
  | [] => emptyRoot
  | info :: rest => RoseTree.singlePath info rest

/-- The tree of some paths. The root has its flag if there are any. -/
structure TreeOf (rootUid : Uid) (paths : List (List NodeInfo)) (tree : FileTreeNode) : Prop where
  forest : NodeForest rootUid tree.children
  mem_paths : ∀ infos, infos ∈ RoseTree.forestPaths tree.children ↔ infos ∈ paths
  root : tree.data = { emptyRoot.data with hasChildren := decide (paths ≠ []) }

/-- One path is added. -/
theorem treeOf_addChildNode {paths : List (List NodeInfo)} {tree : FileTreeNode}
    (h : TreeOf rootUid paths tree) {infos : List NodeInfo} (hp : NodePath rootUid infos)
    (hsame : ∀ infos' ∈ paths, infos'.map NodeInfo.getId = infos.map NodeInfo.getId →
      infos' = infos) :
    TreeOf rootUid (paths ++ [infos]) (addChildNode tree (nodeOfPath infos)) := by
  cases infos with
  | nil => cases hp
  | cons info rest =>
    rw [nodeOfPath, addChildNode_singlePath h.forest hp]
    refine ⟨h.forest.insertPath (lawfulKeys rootUid) hp, fun infos' => ?_, ?_⟩
    · rw [RoseTree.children_node, RoseTree.mem_forestPaths_insertPath (lawfulKeys rootUid) h.forest
        hp fun q hq => hsame q ((h.mem_paths q).mp hq), h.mem_paths, List.mem_append,
        List.mem_singleton]
    · have hflag : decide (paths ++ [info :: rest] ≠ []) = true := by simp
      rw [RoseTree.data_node, hflag]
      split
      · next hchild =>
        obtain ⟨child, hmem, -⟩ := hchild
        obtain ⟨q, hq⟩ := RoseTree.exists_leafPath child
        have hpaths : paths ≠ [] := List.ne_nil_of_mem ((h.mem_paths q).mp
          (RoseTree.mem_forestPaths.mpr ⟨child, hmem, hq⟩))
        rw [h.root, decide_eq_true hpaths]
      · rw [h.root]

/-- All paths are added, one after the other. -/
theorem treeOf_foldl {paths added : List (List NodeInfo)} {tree : FileTreeNode}
    (h : TreeOf rootUid paths tree) (hp : ∀ infos ∈ added, NodePath rootUid infos)
    (hsame : ∀ infos ∈ added, ∀ infos' ∈ paths ++ added,
      infos'.map NodeInfo.getId = infos.map NodeInfo.getId → infos' = infos) :
    TreeOf rootUid (paths ++ added) ((added.map nodeOfPath).foldl addChildNode tree) := by
  induction added generalizing paths tree with
  | nil => rwa [List.append_nil]
  | cons infos added ih =>
    obtain ⟨hinfos, hadded⟩ := List.forall_mem_cons.mp hp
    rw [List.append_cons] at hsame ⊢
    refine ih (treeOf_addChildNode h hinfos fun infos' hinfos' => ?_) hadded fun q hq q' hq' => ?_
    · exact hsame infos List.mem_cons_self infos'
        (List.mem_append_left _ (List.mem_append_left _ hinfos'))
    · exact hsame q (List.mem_cons_of_mem infos hq) q' hq'

theorem treeOf_addChildNodes {paths : List (List NodeInfo)}
    (hp : ∀ infos ∈ paths, NodePath rootUid infos)
    (hsame : ∀ infos ∈ paths, ∀ infos' ∈ paths,
      infos'.map NodeInfo.getId = infos.map NodeInfo.getId → infos' = infos) :
    TreeOf rootUid paths (addChildNodes (paths.map nodeOfPath)) := by
  have hempty : TreeOf rootUid [] emptyRoot :=
    ⟨⟨List.nodup_nil, fun _ h => absurd h List.not_mem_nil⟩, fun _ => Iff.rfl, rfl⟩
  exact treeOf_foldl hempty hp hsame

/-- Two trees of the same paths are the same up to the order of children. -/
theorem sameTree_of_treeOf {paths paths' : List (List NodeInfo)} {tree tree' : FileTreeNode}
    (h : TreeOf rootUid paths tree) (h' : TreeOf rootUid paths' tree')
    (hmem : ∀ infos, infos ∈ paths ↔ infos ∈ paths') : RoseTree.SameTree tree tree' := by
  have hnil : decide (paths ≠ []) = decide (paths' ≠ []) := by
    simp only [ne_eq, List.eq_nil_iff_forall_not_mem, hmem]
  rw [RoseTree.eq_node tree, RoseTree.eq_node tree', h.root, h'.root, hnil, RoseTree.sameTree_iff]
  refine RoseTree.sameForest_of_paths _ _ h.forest h'.forest fun infos => ?_
  rw [h.mem_paths, h'.mem_paths, hmem]

/-- The tree of some paths shows what is at their ends. -/
theorem exactTree_of_treeOf {paths : List (List NodeInfo)} {tree : FileTreeNode}
    (h : TreeOf rootUid paths tree) {files : List String → Uid → Prop}
    (hfiles : ∀ entry, (∃ infos ∈ paths, entry = entryOf infos) ↔
      ∃ path uid, files path uid ∧ entry = (path.map some, some uid)) : ExactTree files tree := by
  refine ⟨fun entry => ?_, fun node hnode => ?_, fun child hchild node hnode hne => ?_⟩
  · rw [← hfiles, mem_forestEntries]
    constructor
    · intro hshown
      obtain ⟨node, hnode, hentry⟩ := hshown
      obtain ⟨infos, hinfos, heq⟩ := (mem_fileEntries (h.forest.trees node hnode)).mp hentry
      exact ⟨infos, (h.mem_paths infos).mp (RoseTree.mem_forestPaths.mpr ⟨node, hnode, hinfos⟩), heq⟩
    · intro hpath
      obtain ⟨infos, hinfos, heq⟩ := hpath
      obtain ⟨node, hnode, hinfos⟩ := RoseTree.mem_forestPaths.mp ((h.mem_paths infos).mpr hinfos)
      exact ⟨node, hnode, (mem_fileEntries (h.forest.trees node hnode)).mpr ⟨infos, hinfos, heq⟩⟩
  · cases hnode with
    | refl => exact h.forest.keys
    | child hc hu => exact ((h.forest.trees _ hc).within hu).forest.keys
  · exact ((h.forest.trees child hchild).within hnode).inner_iff.mpr hne

end Entries

/-! ## 7. The tree of a layer -/

section Layer
variable {tree : VirtualPathFileTree} {root : Uid} {rootUid parentUid : Option Uid}
  {whitelist : Option (List Uid)} {files : List FileTreeData}

theorem createNodeFromVirtualPath_eq_nodeOfPath (tree : VirtualPathFileTree) (path : List String) :
    createNodeFromVirtualPath tree path = nodeOfPath (pathInfos tree path) := by
  obtain ⟨info, rest, hinfos, hnode⟩ := createNodeFromVirtualPath_eq tree path
  rw [hnode, hinfos, nodeOfPath]

/-- The data of a virtual path, unless it is below another parent. -/
def infosOfVirtualPath (tree : VirtualPathFileTree) (virtualPath : String) :
    List (List NodeInfo) :=
  match splitAtChar '/' virtualPath with
  | [] => []
  | containers :: pathElements =>
    if ∀ uid ∈ tree.parentUid, (splitVirtualPath containers).getLast? = some uid then
      [pathInfos tree pathElements]
    else []

theorem nodesOfVirtualPath_eq {virtualPath : String}
    (h : ∀ containers ∈ (splitAtChar '/' virtualPath).head?, splitVirtualPath containers ≠ []) :
    nodesOfVirtualPath tree virtualPath =
      some ((infosOfVirtualPath tree virtualPath).map nodeOfPath) := by
  rw [nodesOfVirtualPath, infosOfVirtualPath]
  cases hsplit : splitAtChar '/' virtualPath with
  | nil => exact absurd hsplit (splitAtChar_ne_nil _ _)
  | cons containers pathElements =>
    have hne : splitVirtualPath containers ≠ [] := h containers (by rw [hsplit]; rfl)
    cases tree.parentUid with
    | none => simp [createNodeFromVirtualPath_eq_nodeOfPath]
    | some parentUid =>
      simp only [List.getLast?_eq_some_getLast hne, Option.mem_def, Option.some.injEq, forall_eq']
      split
      · rw [createNodeFromVirtualPath_eq_nodeOfPath]
        rfl
      · rfl

theorem mem_infosOfVirtualPath {virtualPath : String} {infos : List NodeInfo} :
    infos ∈ infosOfVirtualPath tree virtualPath ↔
      ∃ elements, BelowParent tree.parentUid virtualPath elements ∧
        infos = pathInfos tree elements := by
  rw [infosOfVirtualPath]
  cases hsplit : splitAtChar '/' virtualPath with
  | nil => exact absurd hsplit (splitAtChar_ne_nil _ _)
  | cons containers pathElements =>
    simp only [belowParent_iff, hsplit, List.cons.injEq]
    constructor
    · intro hinfos
      split at hinfos
      · next hparent =>
        exact ⟨pathElements, ⟨containers, ⟨rfl, rfl⟩, hparent⟩, List.mem_singleton.mp hinfos⟩
      · cases hinfos
    · rintro ⟨_, ⟨_, ⟨rfl, rfl⟩, hparent⟩, rfl⟩
      rw [if_pos hparent]
      exact List.mem_singleton_self _

/-- The data of the paths of a file. -/
def fileInfos (root : Uid) (parentUid : Option Uid) (whitelist : Option (List Uid))
    (foData : FileTreeData) : List (List NodeInfo) :=
  ((getVirtualFilePaths ⟨root, parentUid, foData, whitelist⟩).getD []).flatMap
    (infosOfVirtualPath ⟨root, parentUid, foData, whitelist⟩)

theorem mem_fileInfos {foData : FileTreeData} (h : RootNames root foData) {infos : List NodeInfo} :
    infos ∈ fileInfos root parentUid whitelist foData ↔
      ∃ virtualPath, PathBelow root foData virtualPath ∧
        ∃ elements, BelowParent parentUid virtualPath elements ∧
          infos = pathInfos ⟨root, parentUid, foData, whitelist⟩ elements := by
  obtain ⟨paths, hpaths, hmem⟩ := mem_getVirtualFilePaths parentUid whitelist h
  rw [fileInfos, hpaths, Option.getD_some, List.mem_flatMap]
  simp only [mem_infosOfVirtualPath, hmem]

theorem generateFileTreeLevel_eq (h : LayerFiles root rootUid parentUid files)
    {foData : FileTreeData} (hfile : foData ∈ files) :
    generateFileTreeLevel rootUid parentUid whitelist foData =
      some ((fileInfos root parentUid whitelist foData).map nodeOfPath) := by
  obtain ⟨paths, hpaths, hmem⟩ := mem_getVirtualFilePaths parentUid whitelist (h.rootNames foData hfile)
  have hcontainers : ∀ virtualPath ∈ paths, ∀ front ∈ (splitAtChar '/' virtualPath).head?,
      splitVirtualPath front ≠ [] := by
    intro virtualPath hpath front hfront
    obtain ⟨elements, helements⟩ := List.head?_eq_some_iff.mp hfront
    exact h.containers foData hfile virtualPath ((hmem virtualPath).mp hpath) _ elements
      (virtualPathParts_iff.mpr ⟨front, helements, rfl⟩)
  have hnodes := option_mapM_eq_map (f := nodesOfVirtualPath ⟨root, parentUid, foData, whitelist⟩)
    fun virtualPath hpath => nodesOfVirtualPath_eq (hcontainers virtualPath hpath)
  rw [generateFileTreeLevel, h.sameRoot foData hfile, Option.bind_eq_bind, Option.bind_some,
    getFileTreeNodes, hpaths, Option.bind_eq_bind, Option.bind_some, hnodes, fileInfos, hpaths,
    Option.getD_some, List.map_flatMap, List.flatMap_def]
  rfl

theorem generateFileTreeNodes_eq (h : LayerFiles root rootUid parentUid files) :
    generateFileTreeNodes rootUid parentUid whitelist files =
      some ((files.flatMap (fileInfos root parentUid whitelist)).map nodeOfPath) := by
  rw [generateFileTreeNodes, option_mapM_eq_map fun foData hfile => generateFileTreeLevel_eq h hfile,
    List.map_flatMap, List.flatMap_def]
  rfl

theorem pathInfos_shownPath (tree : VirtualPathFileTree) (path : List String) :
    pathInfos tree (shownPath tree.foData path) = pathInfos tree path := by
  cases path <;> rfl

theorem map_name_pathInfos (tree : VirtualPathFileTree) (path : List String) :
    (pathInfos tree path).map NodeInfo.name = (shownPath tree.foData path).map some := by
  fun_induction pathInfos tree path with
  | case1 currentElement next rest ih => exact congrArg (some currentElement :: ·) ih
  | case2 currentVirtualPath h =>
    match currentVirtualPath, h with
    | [], _ => rfl
    | [name], _ => rfl
    | name :: next :: rest, h => exact absurd rfl (h name next rest)

theorem getLast?_pathInfos (tree : VirtualPathFileTree) (path : List String) :
    (pathInfos tree path).getLast?.bind NodeInfo.uid = some tree.foData.uid := by
  fun_induction pathInfos tree path with
  | case1 currentElement next rest ih =>
    obtain ⟨info, infos, hinfos, -⟩ := createNodeFromVirtualPath_eq tree (next :: rest)
    rw [hinfos] at ih ⊢
    exact ih
  | case2 currentVirtualPath h => rfl

theorem entryOf_pathInfos (tree : VirtualPathFileTree) (path : List String) :
    entryOf (pathInfos tree path) =
      ((shownPath tree.foData path).map some, some tree.foData.uid) := by
  rw [entryOf, map_name_pathInfos, getLast?_pathInfos]

/-- The files of the layer are at the ends of the paths. -/
theorem mem_layer_iff (h : ∀ foData ∈ files, RootNames root foData)
    {entry : List (Option String) × Option Uid} :
    (∃ infos ∈ files.flatMap (fileInfos root parentUid whitelist), entry = entryOf infos) ↔
      ∃ path uid, FileAt root parentUid files path uid ∧ entry = (path.map some, some uid) := by
  constructor
  · intro hpath
    obtain ⟨infos, hinfos, rfl⟩ := hpath
    obtain ⟨foData, hfile, hmem⟩ := List.mem_flatMap.mp hinfos
    obtain ⟨virtualPath, hbelow, elements, hparent, rfl⟩ := (mem_fileInfos (h foData hfile)).mp hmem
    exact ⟨_, _, ⟨foData, hfile, rfl, virtualPath, hbelow, elements, hparent, rfl⟩,
      entryOf_pathInfos _ _⟩
  · intro hfile
    obtain ⟨_, _, ⟨foData, hfile, rfl, virtualPath, hbelow, elements, hparent, rfl⟩, rfl⟩ := hfile
    refine ⟨_, List.mem_flatMap.mpr ⟨foData, hfile, (mem_fileInfos (h foData hfile)).mpr
      ⟨virtualPath, hbelow, elements, hparent, rfl⟩⟩, ?_⟩
    exact (entryOf_pathInfos ⟨root, parentUid, foData, whitelist⟩ elements).symm

/-- It is enough to compare the paths of the files with each other. -/
theorem samePath_of_entries (hnames : ∀ foData ∈ files, RootNames root foData)
    (h : ∀ infos ∈ files.flatMap (fileInfos root parentUid none),
      ∀ infos' ∈ files.flatMap (fileInfos root parentUid none),
        (entryOf infos).1 = (entryOf infos').1 → (entryOf infos).2 = (entryOf infos').2)
    (path : List String) (uid uid' : Uid) (hat : FileAt root parentUid files path uid)
    (hat' : FileAt root parentUid files path uid') : uid = uid' := by
  obtain ⟨infos, hinfos, heq⟩ := (mem_layer_iff hnames).mpr ⟨path, uid, hat, rfl⟩
  obtain ⟨infos', hinfos', heq'⟩ := (mem_layer_iff hnames).mpr ⟨path, uid', hat', rfl⟩
  have huid := h infos hinfos infos' hinfos' (by rw [← heq, ← heq'])
  rw [← heq, ← heq'] at huid
  exact Option.some.inj huid

/-- In a layer the ids on a path determine the path. -/
theorem LayerFiles.eq_of_ids (h : LayerFiles root rootUid parentUid files)
    {infos infos' : List NodeInfo}
    (hinfos : infos ∈ files.flatMap (fileInfos root parentUid whitelist))
    (hinfos' : infos' ∈ files.flatMap (fileInfos root parentUid whitelist))
    (hids : infos'.map NodeInfo.getId = infos.map NodeInfo.getId) : infos' = infos := by
  obtain ⟨foData, hfile, hmem⟩ := List.mem_flatMap.mp hinfos
  obtain ⟨foData', hfile', hmem'⟩ := List.mem_flatMap.mp hinfos'
  obtain ⟨virtualPath, hbelow, elements, hparent, rfl⟩ :=
    (mem_fileInfos (h.rootNames foData hfile)).mp hmem
  obtain ⟨virtualPath', hbelow', elements', hparent', rfl⟩ :=
    (mem_fileInfos (h.rootNames foData' hfile')).mp hmem'
  have hnames : (shownPath foData' elements').map some = (shownPath foData elements).map some := by
    have hfst := congrArg (List.map Prod.fst) hids
    rw [List.map_map, List.map_map] at hfst
    exact (map_name_pathInfos _ _).symm.trans (hfst.trans (map_name_pathInfos _ _))
  have hpath : shownPath foData' elements' = shownPath foData elements :=
    (Option.some_injective String).list_map hnames
  have huid : foData'.uid = foData.uid :=
    h.samePath _ _ _ ⟨foData', hfile', rfl, virtualPath', hbelow', elements', hparent', rfl⟩
      ⟨foData, hfile, rfl, virtualPath, hbelow, elements, hparent, hpath⟩
  obtain rfl := h.sameUid foData' hfile' foData hfile huid
  rw [← pathInfos_shownPath, hpath, pathInfos_shownPath]

/-- A layer with a file and a directory of one name. -/
def binFiles : List FileTreeData :=
  [⟨"uid1", "bin", 3, ⟨[("fw", ["fw|tar|/bin", "fw|tar|/usr/bin/sh"])], by decide⟩, none, []⟩,
    ⟨"uid2", "ls", 5, ⟨[("fw", ["fw|tar|/bin/ls", "fw|other|/x"])], by decide⟩, none, ["uid1"]⟩]

end Layer

end FactCore
