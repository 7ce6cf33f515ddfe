import Mathlib.Data.Set.Image

/-!
# Overwriting by key

Every element has a key. Writing a set of new elements over an old set drops the old
elements that share a key with a new one and keeps all others.

Results:
1. `overwrite_idem`: writing the same set again changes nothing.
2. `overwrite_comm`: sets without a common key can be written in either order.
-/

variable {α κ : Type} {key : α → κ} {old new new₁ new₂ : Set α} {a : α}

/-- The elements of `new` written over those of `old` with the same keys. -/
def overwrite (key : α → κ) (old new : Set α) : Set α :=
  new ∪ {a | a ∈ old ∧ key a ∉ Set.image key new}

theorem mem_overwrite : a ∈ overwrite key old new ↔ a ∈ new ∨ a ∈ old ∧ key a ∉ Set.image key new :=
  Iff.rfl

theorem overwrite_idem : overwrite key (overwrite key old new) new = overwrite key old new := by
  ext a
  rw [mem_overwrite, mem_overwrite]
  constructor
  · rintro (hnew | ⟨h, -⟩)
    · exact .inl hnew
    · exact h
  · rintro (hnew | ⟨hold, hkey⟩)
    · exact .inl hnew
    · exact .inr ⟨.inr ⟨hold, hkey⟩, hkey⟩

/-- No element of one set has the key of an element of the other. -/
def KeysApart (key : α → κ) (new₁ new₂ : Set α) : Prop := ∀ a ∈ new₁, ∀ b ∈ new₂, key a ≠ key b

theorem KeysApart.symm (h : KeysApart key new₁ new₂) : KeysApart key new₂ new₁ :=
  fun a ha b hb => (h b hb a ha).symm

/-- An element of one of two sets without a common key survives the other one. -/
theorem KeysApart.not_mem_image (h : KeysApart key new₁ new₂) (ha : a ∈ new₁) :
    key a ∉ Set.image key new₂ :=
  fun ⟨b, hb, heq⟩ => h a ha b hb heq.symm

theorem overwrite_overwrite_of_keysApart (h : KeysApart key new₁ new₂) :
    overwrite key (overwrite key old new₁) new₂ = overwrite key old (new₁ ∪ new₂) := by
  ext a
  rw [mem_overwrite, mem_overwrite, mem_overwrite, Set.image_union, Set.mem_union, Set.mem_union,
    not_or]
  constructor
  · rintro (h₂ | ⟨h₁ | ⟨hold, hk₁⟩, hk₂⟩)
    · exact .inl (.inr h₂)
    · exact .inl (.inl h₁)
    · exact .inr ⟨hold, hk₁, hk₂⟩
  · rintro ((h₁ | h₂) | ⟨hold, hk₁, hk₂⟩)
    · exact .inr ⟨.inl h₁, h.not_mem_image h₁⟩
    · exact .inl h₂
    · exact .inr ⟨.inr ⟨hold, hk₁⟩, hk₂⟩

theorem overwrite_comm (h : KeysApart key new₁ new₂) :
    overwrite key (overwrite key old new₁) new₂ = overwrite key (overwrite key old new₂) new₁ := by
  rw [overwrite_overwrite_of_keysApart h, overwrite_overwrite_of_keysApart h.symm, Set.union_comm]
