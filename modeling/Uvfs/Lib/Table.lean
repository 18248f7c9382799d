import Mathlib.Tactic

/-!
# Tables of shared items

A hash table whose items have an identity: an item is put into a bucket when it is added, and it is
found by a search of one bucket for the first item that a test accepts.  The items may be changed in
place and removed at any time; an identity is never given out twice.

When the test accepts the items with one key, and every item is in the bucket of its key, a search
of that bucket finds what a search of the whole table would find.

* `Table` : the slots and the next identity; `find?`, `add`, `modify`, `remove`.
* `Table.Canonical key bucketOf t` : every item is in the bucket of its key, and no two items have
  the same key or the same identity.
* `Table.Canonical.find?_eq_some_iff` : what a search finds.
* `Table.Since key t t'` : `t'` is a later state of `t`: an item of `t'` whose identity was given
  out before `t` was in `t` already, with the same key.
-/

/-- An item with its identity and the bucket it was put into. -/
structure Slot (β α : Type) where
  /-- The identity. -/
  id : ℕ
  /-- The bucket. -/
  bucket : β
  /-- The item. -/
  item : α

/-- The items of a table, the one added last first, and the next identity. -/
structure Table (β α : Type) where
  /-- The slots. -/
  slots : List (Slot β α)
  /-- The next identity. -/
  next : ℕ

namespace Table

variable {β α κ : Type}

/-- The table without items. -/
def empty : Table β α := ⟨[], 0⟩

/-- The first item of a bucket that the test accepts. -/
def find? [DecidableEq β] (t : Table β α) (b : β) (accept : α → Bool) : Option (Slot β α) :=
  t.slots.find? fun s => s.bucket = b && accept s.item

/-- The item with an identity. -/
def get? (t : Table β α) (id : ℕ) : Option (Slot β α) := t.slots.find? fun s => s.id = id

/-- Add an item at the head of a bucket. -/
def add (t : Table β α) (b : β) (a : α) : Table β α := ⟨⟨t.next, b, a⟩ :: t.slots, t.next + 1⟩

/-- Change the item with an identity. -/
def modify (t : Table β α) (id : ℕ) (f : α → α) : Table β α :=
  { t with slots := t.slots.map fun s => if s.id = id then { s with item := f s.item } else s }

/-- Remove the item with an identity. -/
def remove (t : Table β α) (id : ℕ) : Table β α :=
  { t with slots := t.slots.filter fun s => s.id ≠ id }

variable {key : α → κ} {bucketOf : κ → β} {t t' t'' : Table β α} {s s' : Slot β α} {id : ℕ} {a : α}
  {f : α → α}

theorem id_modified : (if s.id = id then { s with item := f s.item } else s).id = s.id := by
  split <;> rfl

theorem bucket_modified :
    (if s.id = id then { s with item := f s.item } else s).bucket = s.bucket := by
  split <;> rfl

theorem key_modified (hkey : s.id = id → key (f s.item) = key s.item) :
    key (if s.id = id then { s with item := f s.item } else s).item = key s.item := by
  split
  · exact hkey ‹_›
  · rfl

theorem mem_modify : s ∈ (t.modify id f).slots ↔
    ∃ s₀ ∈ t.slots, s = if s₀.id = id then { s₀ with item := f s₀.item } else s₀ := by
  simp only [modify, List.mem_map, eq_comm]

theorem mem_remove : s ∈ (t.remove id).slots ↔ s ∈ t.slots ∧ s.id ≠ id := by
  simp [remove]

theorem mem_of_get?_eq_some (h : t.get? id = some s) : s ∈ t.slots ∧ s.id = id :=
  ⟨List.mem_of_find?_eq_some h, by simpa using List.find?_some h⟩

theorem get?_eq_none_iff : t.get? id = none ↔ ∀ s ∈ t.slots, s.id ≠ id := by
  simp [get?]

/-- Only what the change does to the item itself matters. -/
theorem modify_congr {g : α → α} (h : ∀ s ∈ t.slots, s.id = id → f s.item = g s.item) :
    t.modify id f = t.modify id g := by
  unfold modify
  congr 1
  apply List.map_congr_left
  intro s hs
  split
  · rw [h s hs ‹_›]
  · rfl

/-- A change of no item. -/
theorem modify_of_forall_ne (h : ∀ s ∈ t.slots, s.id ≠ id) : t.modify id f = t := by
  have hmap : (t.slots.map fun s => if s.id = id then { s with item := f s.item } else s) =
      t.slots.map (fun s => s) := List.map_congr_left fun s hs => if_neg (h s hs)
  rw [modify, hmap, List.map_id']

/-- Every item is in the bucket of its key, and no two have a key or an identity in common. -/
structure Canonical (key : α → κ) (bucketOf : κ → β) (t : Table β α) : Prop where
  bucket : ∀ s ∈ t.slots, s.bucket = bucketOf (key s.item)
  keys : (t.slots.map fun s => key s.item).Nodup
  ids : (t.slots.map Slot.id).Nodup
  fresh : ∀ s ∈ t.slots, s.id < t.next

namespace Canonical

theorem empty : Canonical key bucketOf (Table.empty : Table β α) where
  bucket := by simp [Table.empty]
  keys := List.nodup_nil
  ids := List.nodup_nil
  fresh := by simp [Table.empty]

/-- An item is known by its key. -/
theorem eq_of_key (h : Canonical key bucketOf t) (hs : s ∈ t.slots) (hs' : s' ∈ t.slots)
    (hkey : key s.item = key s'.item) : s = s' :=
  List.inj_on_of_nodup_map h.keys hs hs' hkey

/-- An item is known by its identity. -/
theorem eq_of_id (h : Canonical key bucketOf t) (hs : s ∈ t.slots) (hs' : s' ∈ t.slots)
    (hid : s.id = s'.id) : s = s' :=
  List.inj_on_of_nodup_map h.ids hs hs' hid

theorem get?_eq_some_iff (h : Canonical key bucketOf t) :
    t.get? id = some s ↔ s ∈ t.slots ∧ s.id = id := by
  refine ⟨mem_of_get?_eq_some, ?_⟩
  rintro ⟨hs, rfl⟩
  cases hget : t.get? s.id with
  | none => exact absurd rfl (get?_eq_none_iff.mp hget s hs)
  | some s₁ =>
      obtain ⟨hs₁, hid⟩ := mem_of_get?_eq_some hget
      rw [h.eq_of_id hs₁ hs hid]

/-- **What a search finds**: the item with the key, wherever it is in the table. -/
theorem find?_eq_some_iff [DecidableEq β] (h : Canonical key bucketOf t) {accept : α → Bool} {k : κ}
    (haccept : ∀ a, accept a = true ↔ key a = k) :
    t.find? (bucketOf k) accept = some s ↔ s ∈ t.slots ∧ key s.item = k := by
  constructor
  · intro hfind
    refine ⟨List.mem_of_find?_eq_some hfind, ?_⟩
    have htest := List.find?_some hfind
    simp only [Bool.and_eq_true] at htest
    exact (haccept _).mp htest.2
  · rintro ⟨hs, hk⟩
    cases hfind : t.find? (bucketOf k) accept with
    | none =>
        have htest := List.find?_eq_none.mp hfind s hs
        simp only [h.bucket s hs, hk, decide_true, Bool.true_and] at htest
        exact absurd ((haccept _).mpr hk) htest
    | some s₁ =>
        have htest := List.find?_some hfind
        simp only [Bool.and_eq_true] at htest
        have hk₁ : key s₁.item = k := (haccept _).mp htest.2
        rw [h.eq_of_key (List.mem_of_find?_eq_some hfind) hs (hk₁.trans hk.symm)]

/-- A search finds nothing exactly when no item has the key. -/
theorem find?_eq_none_iff [DecidableEq β] (h : Canonical key bucketOf t) {accept : α → Bool} {k : κ}
    (haccept : ∀ a, accept a = true ↔ key a = k) :
    t.find? (bucketOf k) accept = none ↔ ∀ s ∈ t.slots, key s.item ≠ k := by
  constructor
  · intro hnone s hs hk
    have hsome := (h.find?_eq_some_iff haccept).mpr ⟨hs, hk⟩
    rw [hnone] at hsome
    cases hsome
  · intro hne
    cases hfind : t.find? (bucketOf k) accept with
    | none => rfl
    | some s =>
        obtain ⟨hs, hk⟩ := (h.find?_eq_some_iff haccept).mp hfind
        exact absurd hk (hne s hs)

/-- An item with a new key may be added to the bucket of its key. -/
theorem add (h : Canonical key bucketOf t) (hnew : ∀ s ∈ t.slots, key s.item ≠ key a) :
    Canonical key bucketOf (t.add (bucketOf (key a)) a) where
  bucket := by
    rintro s (_ | ⟨_, hs⟩)
    · rfl
    · exact h.bucket s hs
  keys := by
    refine List.nodup_cons.mpr ⟨?_, h.keys⟩
    rw [List.mem_map]
    rintro ⟨s, hs, hkey⟩
    exact hnew s hs hkey
  ids := by
    refine List.nodup_cons.mpr ⟨?_, h.ids⟩
    rw [List.mem_map]
    rintro ⟨s, hs, hid⟩
    exact absurd (h.fresh s hs) (hid ▸ lt_irrefl _)
  fresh := by
    rintro s (_ | ⟨_, hs⟩)
    · exact Nat.lt_succ_self _
    · exact Nat.lt_succ_of_lt (h.fresh s hs)

/-- A change of the item that was added last. -/
theorem modify_add (h : Canonical key bucketOf t) (b : β) :
    (t.add b a).modify t.next f = t.add b (f a) := by
  have hrest : t.modify t.next f = t :=
    modify_of_forall_ne fun s hs => (h.fresh s hs).ne
  have hslots := congrArg Table.slots hrest
  simp only [Table.modify] at hslots
  simp only [Table.modify, Table.add, List.map_cons, if_true, hslots]

/-- An item may be changed as long as its key stays. -/
theorem modify (h : Canonical key bucketOf t)
    (hkey : ∀ s ∈ t.slots, s.id = id → key (f s.item) = key s.item) :
    Canonical key bucketOf (t.modify id f) where
  bucket := by
    intro s hs
    obtain ⟨s₀, hs₀, rfl⟩ := mem_modify.mp hs
    rw [key_modified (hkey s₀ hs₀), bucket_modified]
    exact h.bucket s₀ hs₀
  keys := by
    have hmap : (t.modify id f).slots.map (fun s => key s.item) =
        t.slots.map fun s => key s.item := by
      rw [Table.modify, List.map_map]
      exact List.map_congr_left fun s hs => key_modified (hkey s hs)
    rw [hmap]
    exact h.keys
  ids := by
    simp only [Table.modify, List.map_map, Function.comp_def, id_modified]
    exact h.ids
  fresh := by
    intro s hs
    obtain ⟨s₀, hs₀, rfl⟩ := mem_modify.mp hs
    rw [id_modified]
    exact h.fresh s₀ hs₀

/-- An item may be removed. -/
theorem remove (h : Canonical key bucketOf t) : Canonical key bucketOf (t.remove id) where
  bucket s hs := h.bucket s (mem_remove.mp hs).1
  keys := h.keys.sublist (List.filter_sublist.map _)
  ids := h.ids.sublist (List.filter_sublist.map _)
  fresh s hs := h.fresh s (mem_remove.mp hs).1

end Canonical

/-- `t'` is a later state of `t`. -/
structure Since (key : α → κ) (t t' : Table β α) : Prop where
  next_le : t.next ≤ t'.next
  kept : ∀ s' ∈ t'.slots, s'.id < t.next → ∃ s ∈ t.slots, s.id = s'.id ∧ key s.item = key s'.item

namespace Since

theorem refl (t : Table β α) : Since key t t := ⟨le_rfl, fun s hs _ => ⟨s, hs, rfl, rfl⟩⟩

theorem trans (h : Since key t t') (h' : Since key t' t'') : Since key t t'' := by
  refine ⟨h.next_le.trans h'.next_le, ?_⟩
  intro s'' hs'' hlt
  obtain ⟨s', hs', hid', hkey'⟩ := h'.kept s'' hs'' (lt_of_lt_of_le hlt h.next_le)
  obtain ⟨s, hs, hid, hkey⟩ := h.kept s' hs' (hid' ▸ hlt)
  exact ⟨s, hs, hid.trans hid', hkey.trans hkey'⟩

/-- An item that is still there has kept its key. -/
theorem key_eq (h : Since key t t') (hc : Canonical key bucketOf t) (hs : s ∈ t.slots)
    (hs' : s' ∈ t'.slots) (hid : s'.id = s.id) : key s'.item = key s.item := by
  obtain ⟨s₀, hs₀, hid₀, hkey⟩ := h.kept s' hs' (hid ▸ hc.fresh s hs)
  rw [← hkey, hc.eq_of_id hs₀ hs (hid₀.trans hid)]

theorem add (b : β) : Since key t (t.add b a) := by
  refine ⟨Nat.le_succ _, ?_⟩
  rintro s (_ | ⟨_, hs⟩) hlt
  · exact absurd hlt (lt_irrefl _)
  · exact ⟨s, hs, rfl, rfl⟩

theorem modify (hkey : ∀ s ∈ t.slots, s.id = id → key (f s.item) = key s.item) :
    Since key t (t.modify id f) := by
  refine ⟨le_rfl, ?_⟩
  intro s hs _
  obtain ⟨s₀, hs₀, rfl⟩ := mem_modify.mp hs
  exact ⟨s₀, hs₀, id_modified.symm, (key_modified (hkey s₀ hs₀)).symm⟩

theorem remove : Since key t (t.remove id) :=
  ⟨le_rfl, fun s hs _ => ⟨s, (mem_remove.mp hs).1, rfl, rfl⟩⟩

end Since

end Table
