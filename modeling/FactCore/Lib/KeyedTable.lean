import Mathlib.Data.List.Nodup

/-!
# Tables made of keyed items

Each item has a key and becomes some rows, which carry its key. A table holds the
rows of a list of items. When a newer list of items arrives, every item of the older
list that has a newer one with its key is overridden.

A table can be refreshed in place: delete the rows under some keys, and insert the
rows of the newer items.

Results:
1. `mem_table_override`: the table of the overriding list.
2. `refresh_iff`: a refresh that deletes under keys of newer items leads to the table
   of the overriding list exactly if the old rows it leaves under such keys are rows
   of newer items as well.
3. `left_iff`: if the refresh deletes under the key of every newer row, this means
   that it leaves no old row under the key of a newer item.
-/

/-- How items become rows. -/
structure RowSource (ι ρ κ : Type) where
  key : ι → κ
  rowKey : ρ → κ
  rows : ι → List ρ
  rowKey_eq : ∀ x, ∀ r ∈ rows x, rowKey r = key x

namespace RowSource

variable {ι ρ κ : Type} (src : RowSource ι ρ κ) {new old : List ι} {r : ρ}

/-- The rows of a list of items. -/
def table (items : List ι) : List ρ := items.flatMap src.rows

theorem mem_table {items : List ι} : r ∈ src.table items ↔ ∃ x ∈ items, r ∈ src.rows x :=
  List.mem_flatMap

/-- The key of a row of the table is the key of an item. -/
theorem rowKey_mem {items : List ι} (h : r ∈ src.table items) :
    src.rowKey r ∈ items.map src.key := by
  obtain ⟨x, hx, hr⟩ := src.mem_table.mp h
  exact List.mem_map.mpr ⟨x, hx, (src.rowKey_eq x r hr).symm⟩

/-- If keys are distinct, an item has rows exactly if its key is that of a row. -/
theorem key_mem_iff {items : List ι} (hn : (items.map src.key).Nodup) {x : ι} (hx : x ∈ items) :
    src.key x ∈ (src.table items).map src.rowKey ↔ src.rows x ≠ [] := by
  constructor
  · intro hkey
    obtain ⟨r, hr, heq⟩ := List.mem_map.mp hkey
    obtain ⟨y, hy, hry⟩ := src.mem_table.mp hr
    obtain rfl := List.inj_on_of_nodup_map hn hy hx ((src.rowKey_eq y r hry).symm.trans heq)
    exact List.ne_nil_of_mem hry
  · intro hne
    obtain ⟨r, hr⟩ := List.exists_mem_of_ne_nil _ hne
    exact List.mem_map.mpr ⟨r, src.mem_table.mpr ⟨x, hx, hr⟩, src.rowKey_eq x r hr⟩

variable [DecidableEq κ]

/-- The newer items, and the older ones that none of them overrides. -/
def override (new old : List ι) : List ι :=
  new ++ old.filter fun x => decide (src.key x ∉ new.map src.key)

theorem mem_override {x : ι} :
    x ∈ src.override new old ↔ x ∈ new ∨ (x ∈ old ∧ src.key x ∉ new.map src.key) := by
  rw [override, List.mem_append, List.mem_filter, decide_eq_true_iff]

theorem mem_table_override : r ∈ src.table (src.override new old) ↔
    r ∈ src.table new ∨ (r ∈ src.table old ∧ src.rowKey r ∉ new.map src.key) := by
  simp only [mem_table, mem_override]
  constructor
  · rintro ⟨x, hx | ⟨hx, hkey⟩, hr⟩
    · exact .inl ⟨x, hx, hr⟩
    · exact .inr ⟨⟨x, hx, hr⟩, src.rowKey_eq x r hr ▸ hkey⟩
  · rintro (⟨x, hx, hr⟩ | ⟨⟨x, hx, hr⟩, hkey⟩)
    · exact ⟨x, .inl hx, hr⟩
    · exact ⟨x, .inr ⟨hx, src.rowKey_eq x r hr ▸ hkey⟩, hr⟩

/-- Distinct keys stay distinct. -/
theorem override_nodup (hnew : (new.map src.key).Nodup) (hold : (old.map src.key).Nodup) :
    ((src.override new old).map src.key).Nodup := by
  rw [override, List.map_append]
  refine hnew.append (hold.sublist (List.filter_sublist.map src.key)) fun k hk hk' => ?_
  obtain ⟨x, hx, rfl⟩ := List.mem_map.mp hk'
  exact of_decide_eq_true (List.mem_filter.mp hx).2 hk

/-- Refreshing the rows that `P` selects, with the rows under the keys `D` deleted. -/
theorem refresh_iff {D : κ → Prop} {P : ρ → Prop} (hD : ∀ k, D k → k ∈ new.map src.key) :
    (∀ r, P r → ((r ∈ src.table old ∧ ¬ D (src.rowKey r)) ∨ r ∈ src.table new ↔
        r ∈ src.table (src.override new old))) ↔
      ∀ r ∈ src.table old, P r → src.rowKey r ∈ new.map src.key → ¬ D (src.rowKey r) →
        r ∈ src.table new := by
  simp only [mem_table_override]
  constructor
  · intro h r hr hP hkey hnD
    rcases (h r hP).mp (.inl ⟨hr, hnD⟩) with hnew | ⟨-, hno⟩
    · exact hnew
    · exact absurd hkey hno
  · intro h r hP
    constructor
    · rintro (⟨hr, hnD⟩ | hr)
      · rcases Decidable.em (src.rowKey r ∈ new.map src.key) with hkey | hkey
        · exact .inl (h r hr hP hkey hnD)
        · exact .inr ⟨hr, hkey⟩
      · exact .inl hr
    · rintro (hr | ⟨hr, hkey⟩)
      · exact .inr hr
      · exact .inl ⟨hr, fun hk => hkey (hD _ hk)⟩

omit [DecidableEq κ] in
/-- When the rows of newer items are all under deleted keys, the old rows that are left in place
are no rows of newer items. `Y` says of a key what `P` says of its rows. -/
theorem left_iff {D Y : κ → Prop} {P : ρ → Prop}
    (hP : ∀ r ∈ src.table old, (P r ↔ Y (src.rowKey r)))
    (hD : ∀ r ∈ src.table new, D (src.rowKey r)) :
    (∀ r ∈ src.table old, P r → src.rowKey r ∈ new.map src.key → ¬ D (src.rowKey r) →
        r ∈ src.table new) ↔
      ∀ x ∈ new, Y (src.key x) → ¬ D (src.key x) →
        ∀ r ∈ src.table old, src.rowKey r ≠ src.key x := by
  constructor
  · intro h x hx hY hnD r hr heq
    have hkey : src.rowKey r ∈ new.map src.key := heq ▸ List.mem_map_of_mem hx
    rw [← heq] at hY hnD
    exact hnD (hD r (h r hr ((hP r hr).mpr hY) hkey hnD))
  · intro h r hr hPr hkey hnD
    obtain ⟨x, hx, heq⟩ := List.mem_map.mp hkey
    exact absurd heq.symm (h x hx (heq ▸ (hP r hr).mp hPr) (heq ▸ hnD) r hr)

end RowSource
