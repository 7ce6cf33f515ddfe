import FactCore.Lib.Dict
import FactCore.Lib.Run

/-!
# Collecting the tags of a firmware

`_collect_analysis_tags_from_children` of
`src/src/storage/db_interface_common.py`: a firmware shows the tags that plugins
found on its files and that are marked for propagation. For each plugin they are
collected under their types; a second tag of a type gets a generated key, made of the
type and the number of tags so far.

The key does not tell whether its value may be overwritten: a tag that was collected
before is written under its type again, over the tag that stands there, and a
generated key may be the type of another tag.

The rows that the query returns are the argument, in any order.

Results:
1. `collectsOnce_addTag_iff`: which steps of the loop keep every tag once.
2. `tagCollection_iff`: the steps of a whole run.
3. `repeated_tag`: a tag that is found twice hides another one.
-/

namespace FactCore

/-- The tag of an analysis. -/
structure Tag where
  value : String
  color : String
  propagate : Bool
  deriving DecidableEq, Repr

/-- A row of the query: a plugin and the tags of its result for one file, by type. What stands under
`root_uid` is not read. -/
structure TagRow where
  plugin : String
  tags : Dict String Tag

/-- One tag of a row. -/
structure TagItem where
  plugin : String
  tagType : String
  tag : Tag

/-- `unique_tags`: for each plugin the tags by their keys. -/
abbrev UniqueTags := Dict String (Dict String Tag)

/-- The tags are skipped that are not propagated. -/
def TagItem.collected (item : TagItem) : Bool :=
  decide (item.tagType ≠ "root_uid") && item.tag.propagate

/-- The key for a second tag of a type. -/
def generatedKey (tags : Dict String Tag) (tagType : String) : String :=
  tagType ++ "-" ++ tags.entries.length.repr

/-- `key`. -/
def tagKey (tags : Dict String Tag) (tagType : String) (tag : Tag) : String :=
  if tagType ∈ tags ∧ tag ∉ tags.values then generatedKey tags tagType else tagType

/-- One round of the inner loop. -/
def addTag (uniqueTags : UniqueTags) (item : TagItem) : UniqueTags :=
  if item.collected then
    let tags := uniqueTags.getD item.plugin ∅
    uniqueTags.set item.plugin (tags.set (tagKey tags item.tagType item.tag) item.tag)
  else uniqueTags

/-- The tags of a row, in the order of its dict. -/
def TagRow.items (row : TagRow) : List TagItem :=
  row.tags.entries.map fun entry => ⟨row.plugin, entry.1, entry.2⟩

/-- `_collect_analysis_tags_from_children`, for the rows that the query returns. -/
def collectAnalysisTagsFromChildren (rows : List TagRow) : UniqueTags :=
  rows.foldl (fun uniqueTags row => row.items.foldl addTag uniqueTags) ∅

/-- The tags of all rows, one after the other. -/
def tagItems (rows : List TagRow) : List TagItem := rows.flatMap TagRow.items

theorem collectAnalysisTagsFromChildren_eq (rows : List TagRow) :
    collectAnalysisTagsFromChildren rows = (tagItems rows).foldl addTag ∅ := by
  rw [tagItems, List.foldl_flatMap]
  rfl

/-! ## 1. Which steps keep every tag once -/

/-- The tags of a plugin that should be shown. -/
def foundTags (items : List TagItem) (plugin : String) (tag : Tag) : Prop :=
  ∃ item ∈ items, item.collected = true ∧ item.plugin = plugin ∧ item.tag = tag

/-- For each plugin the values are the tags that were found, each of them once. -/
def CollectsOnce (items : List TagItem) (uniqueTags : UniqueTags) : Prop :=
  ∀ plugin, (∀ tag, tag ∈ (uniqueTags.getD plugin ∅).values ↔ foundTags items plugin tag) ∧
    (uniqueTags.getD plugin ∅).values.Nodup

/-- The tag does not hide another one, and is not there twice afterwards: under a type that is no key
yet it is new; under a type that is a key, it is the tag that stands there or a new one whose
generated key is free. -/
structure KeepsTags (tags : Dict String Tag) (tagType : String) (tag : Tag) : Prop where
  newType : tagType ∉ tags → tag ∉ tags.values
  sameTag : tagType ∈ tags → tag ∈ tags.values → tags.get? tagType = some tag
  freeKey : tagType ∈ tags → tag ∉ tags.values → generatedKey tags tagType ∉ tags

/-- A step of the loop that keeps every tag once. -/
def GoodTagStep (uniqueTags : UniqueTags) (item : TagItem) : Prop :=
  item.collected = true → KeepsTags (uniqueTags.getD item.plugin ∅) item.tagType item.tag

section Step
variable {tags : Dict String Tag} {tagType key : String} {tag : Tag} {found : Tag → Prop}

/-- Writing a tag under a key keeps what was found, once, if the key is free and the tag new, or if
the tag stands there already. -/
theorem set_collectsOnce_iff (hvalues : ∀ t, t ∈ tags.values ↔ found t)
    (hnodup : tags.values.Nodup) :
    ((∀ t, t ∈ (tags.set key tag).values ↔ found t ∨ t = tag) ∧ (tags.set key tag).values.Nodup) ↔
      (key ∉ tags ∧ tag ∉ tags.values) ∨ tags.get? key = some tag := by
  constructor
  · rintro ⟨hvalues', hnodup'⟩
    rw [Dict.values_nodup_iff] at hnodup hnodup'
    cases hold : tags.get? key with
    | none =>
      -- a second key for the tag
      have hkey : key ∉ tags := Dict.get?_eq_none_iff.mp hold
      refine .inl ⟨hkey, fun htag => ?_⟩
      obtain ⟨k, hk⟩ := Dict.mem_values_iff.mp htag
      have hne : k ≠ key := fun heq => hkey (heq ▸ Dict.mem_of_get? hk)
      exact hne (hnodup' k key tag (by rwa [Dict.get?_set_of_ne tag hne]) (Dict.get?_set_self ..))
    | some old =>
      -- the tag under the key stands nowhere else
      refine .inr (congrArg some ?_)
      by_contra hne
      have hmem : old ∈ tags.values := Dict.mem_values_iff.mpr ⟨key, hold⟩
      obtain ⟨k, hk⟩ := Dict.mem_values_iff.mp ((hvalues' old).mpr (.inl ((hvalues old).mp hmem)))
      rcases Dict.get?_set_eq_some.mp hk with ⟨-, heq⟩ | ⟨hkey, hk⟩
      · exact hne heq.symm
      · exact hkey (hnodup k key old hk hold)
  · rintro (⟨hkey, htag⟩ | hsame)
    · rw [Dict.values_set_of_not_mem tag hkey]
      refine ⟨fun t => by rw [List.mem_append, List.mem_singleton, hvalues], ?_⟩
      rw [List.nodup_append]
      exact ⟨hnodup, List.nodup_singleton tag, fun t ht u hu => by
        rw [List.mem_singleton.mp hu]
        exact fun heq => htag (heq ▸ ht)⟩
    · rw [Dict.set_eq_self hsame]
      have htag : found tag := (hvalues tag).mp (Dict.mem_values_iff.mpr ⟨key, hsame⟩)
      refine ⟨fun t => (hvalues t).trans ⟨.inl, ?_⟩, hnodup⟩
      rintro (ht | rfl)
      · exact ht
      · exact htag

theorem keepsTags_iff : KeepsTags tags tagType tag ↔
    (tagKey tags tagType tag ∉ tags ∧ tag ∉ tags.values) ∨
      tags.get? (tagKey tags tagType tag) = some tag := by
  have hvalue : ∀ k, tags.get? k = some tag → tag ∈ tags.values := fun k hk =>
    Dict.mem_values_iff.mpr ⟨k, hk⟩
  unfold tagKey
  split
  · next hnew =>
    constructor
    · intro h
      exact .inl ⟨h.freeKey hnew.1 hnew.2, hnew.2⟩
    · rintro (⟨hfree, -⟩ | hsame)
      · exact ⟨fun h => absurd hnew.1 h, fun _ h => absurd h hnew.2, fun _ _ => hfree⟩
      · exact absurd (hvalue _ hsame) hnew.2
  · next hnew =>
    constructor
    · intro h
      by_cases htype : tagType ∈ tags
      · exact .inr (h.sameTag htype (by_contra fun htag => hnew ⟨htype, htag⟩))
      · exact .inl ⟨htype, h.newType htype⟩
    · rintro (⟨htype, htag⟩ | hsame)
      · exact ⟨fun _ => htag, fun h => absurd h htype, fun h => absurd h htype⟩
      · have htype : tagType ∈ tags := Dict.mem_of_get? hsame
        exact ⟨fun h => absurd htype h, fun _ _ => hsame, fun h htag => absurd ⟨h, htag⟩ hnew⟩

end Step

section Steps
variable {items : List TagItem} {item : TagItem} {uniqueTags : UniqueTags} {plugin : String}
  {tag : Tag}

theorem foundTags_append : foundTags (items ++ [item]) plugin tag ↔
    foundTags items plugin tag ∨ item.collected = true ∧ item.plugin = plugin ∧ item.tag = tag := by
  simp only [foundTags, List.mem_append, List.mem_singleton, or_and_right, exists_or]
  rw [exists_eq_left]

/-- A step from a state in which every tag stands once leads to such a state if and only if it is
good. -/
theorem collectsOnce_addTag_iff (h : CollectsOnce items uniqueTags) :
    CollectsOnce (items ++ [item]) (addTag uniqueTags item) ↔ GoodTagStep uniqueTags item := by
  unfold addTag GoodTagStep
  by_cases hcollected : item.collected = true
  · rw [if_pos hcollected]
    have hfound : ∀ plugin tag, foundTags (items ++ [item]) plugin tag ↔
        foundTags items plugin tag ∨ item.plugin = plugin ∧ item.tag = tag := by
      intro plugin tag
      rw [foundTags_append, and_iff_right hcollected]
    have hplugin := h item.plugin
    rw [imp_iff_right hcollected, keepsTags_iff,
      ← set_collectsOnce_iff hplugin.1 hplugin.2]
    constructor
    · intro hgood
      have hgood' := hgood item.plugin
      rw [Dict.getD, Dict.get?_set_self, Option.getD_some] at hgood'
      simpa only [hfound, eq_self, true_and, eq_comm] using hgood'
    · intro hgood plugin
      by_cases heq : plugin = item.plugin
      · subst heq
        rw [Dict.getD, Dict.get?_set_self, Option.getD_some]
        simpa only [hfound, eq_self, true_and, eq_comm] using hgood
      · rw [Dict.getD, Dict.get?_set_of_ne _ heq]
        refine ⟨fun tag => ((h plugin).1 tag).trans ?_, (h plugin).2⟩
        rw [hfound]
        exact ⟨.inl, fun hor => hor.resolve_right fun hitem => heq hitem.1.symm⟩
  · rw [if_neg hcollected]
    refine iff_of_true (fun plugin => ?_) fun hc => absurd hc hcollected
    refine ⟨fun tag => ((h plugin).1 tag).trans ?_, (h plugin).2⟩
    rw [foundTags_append]
    exact ⟨.inl, fun hor => hor.resolve_right fun hitem => hcollected hitem.1⟩

end Steps

/-! ## 2. Whole runs -/

/-- All steps of the loop over the rows are good. -/
def GoodTagRun (rows : List TagRow) : Prop :=
  Run (Restrict GoodTagStep (Deterministic addTag)) ∅ (tagItems rows)
    (collectAnalysisTagsFromChildren rows)

theorem collectsOnce_nil : CollectsOnce [] ∅ := by
  intro plugin
  refine ⟨fun tag => ⟨fun h => absurd h List.not_mem_nil, ?_⟩, List.nodup_nil⟩
  rintro ⟨item, hitem, -⟩
  cases hitem

theorem forall_prefix_collectsOnce_iff (rows : List TagRow) :
    (∀ front back, tagItems rows = front ++ back →
        CollectsOnce front (front.foldl addTag ∅)) ↔ GoodTagRun rows := by
  rw [GoodTagRun, collectAnalysisTagsFromChildren_eq]
  exact Run.forall_fold_iff CollectsOnce (fun _ _ _ h => collectsOnce_addTag_iff h) collectsOnce_nil

theorem collectsOnce_of_goodTagRun {rows : List TagRow} (h : GoodTagRun rows) :
    CollectsOnce (tagItems rows) (collectAnalysisTagsFromChildren rows) := by
  rw [collectAnalysisTagsFromChildren_eq]
  exact (forall_prefix_collectsOnce_iff rows).mpr h (tagItems rows) [] (List.append_nil _).symm

theorem foundTags_perm {rows rows' : List TagRow} (h : rows.Perm rows') {plugin : String} {tag : Tag} :
    foundTags (tagItems rows) plugin tag ↔ foundTags (tagItems rows') plugin tag := by
  have hitems : (tagItems rows).Perm (tagItems rows') := h.flatMap_right _
  simp only [foundTags, hitems.mem_iff]

/-- For every sequence of rows:
* if all steps are good, each plugin shows the tags that were found for it, each once;
* all steps are good if and only if this holds of everything that the loop has gone through, the tags
  of a part of the files;
* two orders of the same rows in which all steps are good show the same tags. -/
theorem tagCollection_iff (rows : List TagRow) :
    (GoodTagRun rows → CollectsOnce (tagItems rows) (collectAnalysisTagsFromChildren rows)) ∧
    ((∀ front back, tagItems rows = front ++ back →
        CollectsOnce front (front.foldl addTag ∅)) ↔ GoodTagRun rows) ∧
    ∀ rows' : List TagRow, rows.Perm rows' → GoodTagRun rows → GoodTagRun rows' →
      ∀ plugin tag, tag ∈ ((collectAnalysisTagsFromChildren rows).getD plugin ∅).values ↔
        tag ∈ ((collectAnalysisTagsFromChildren rows').getD plugin ∅).values := by
  refine ⟨collectsOnce_of_goodTagRun, forall_prefix_collectsOnce_iff rows, ?_⟩
  intro rows' hperm hgood hgood' plugin tag
  rw [(collectsOnce_of_goodTagRun hgood plugin).1, (collectsOnce_of_goodTagRun hgood' plugin).1]
  exact foundTags_perm hperm

/-- The tags of three files: the second tag is found again, and is written over the first one. -/
def softwareRows : List TagRow :=
  [⟨"software_components", Dict.ofList [("OS Version", ⟨"FactOS 1.1", "success", true⟩)]⟩,
    ⟨"software_components", Dict.ofList [("OS Version", ⟨"OtherOS 0.2", "success", true⟩)]⟩,
    ⟨"software_components", Dict.ofList [("OS Version", ⟨"OtherOS 0.2", "success", true⟩)]⟩]

theorem repeated_tag : ¬ ∀ rows : List TagRow,
    CollectsOnce (tagItems rows) (collectAnalysisTagsFromChildren rows) := by
  intro h
  have hlost := ((h softwareRows "software_components").1 ⟨"FactOS 1.1", "success", true⟩).mpr
    ⟨⟨"software_components", "OS Version", ⟨"FactOS 1.1", "success", true⟩⟩,
      List.mem_cons_self, by decide, rfl, rfl⟩
  exact absurd hlost (by decide)

end FactCore
