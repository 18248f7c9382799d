import Mathlib.Tactic

/-!
# Directory trees and link counts

A file system is a set of entries, each of which names a node in a directory.  A node that is no
directory may be named many times, a directory only once, and an entry stands only in a directory
that is itself named or the root.  The link count of a file is the number of its names; that of a
directory is 2 for its name and its `.`, and one for the `..` of each of its subdirectories.

* `DirTree` : the entries with these rules; `add`, `remove` and `move` keep them.
* `DirTree.nlink` : the link count; a directory that has been removed has none.
* `DirTree.nlink_add_of_ne`, `nlink_remove`, `nlink_move` : what each operation does to the link
  counts.
* `DirTree.Leads`, `DirTree.Followed` : where a path leads in a tree, and in one that changes while
  the path is followed.
-/

section Card

variable {α : Type} [DecidableEq α] {s : Finset α} {a : α} (p : α → Prop) [DecidablePred p]

theorem Finset.card_filter_insert_of_notMem (ha : a ∉ s) :
    ((insert a s).filter p).card = (s.filter p).card + if p a then 1 else 0 := by
  rw [Finset.filter_insert]
  split
  · exact Finset.card_insert_of_notMem fun h => ha (Finset.mem_of_mem_filter a h)
  · rfl

theorem Finset.card_filter_erase_add (ha : a ∈ s) :
    ((s.erase a).filter p).card + (if p a then 1 else 0) = (s.filter p).card := by
  rw [← Finset.card_filter_insert_of_notMem p (Finset.notMem_erase a s), Finset.insert_erase ha]

end Card

/-- A name for a node in a directory. -/
structure DirEntry (ν κ : Type) where
  /-- The directory. -/
  parent : ν
  /-- The name. -/
  name : κ
  /-- The node. -/
  child : ν
  deriving DecidableEq

/-- A directory tree. -/
structure DirTree (ν κ : Type) where
  /-- The root directory. -/
  root : ν
  /-- Whether a node is, or was last, a directory. -/
  isDir : ν → Bool
  /-- The entries. -/
  entries : Finset (DirEntry ν κ)
  /-- A name names one node. -/
  name_unique : ∀ e ∈ entries, ∀ e' ∈ entries, e.parent = e'.parent → e.name = e'.name → e = e'
  /-- Entries are in directories. -/
  parent_isDir : ∀ e ∈ entries, isDir e.parent = true
  /-- Entries are in directories that are there. -/
  parent_alive : ∀ e ∈ entries, e.parent = root ∨ ∃ e' ∈ entries, e'.child = e.parent
  /-- A directory has one name. -/
  dir_unique : ∀ e ∈ entries, ∀ e' ∈ entries, isDir e.child = true → e.child = e'.child → e = e'
  /-- The root is a directory. -/
  root_isDir : isDir root = true
  /-- The root has no name. -/
  root_unnamed : ∀ e ∈ entries, e.child ≠ root

namespace DirTree

variable {ν κ : Type} (t : DirTree ν κ)

/-- The node is in the tree. -/
def Alive (n : ν) : Prop := n = t.root ∨ ∃ e ∈ t.entries, e.child = n

variable {t} {e : DirEntry ν κ} {n : ν}

theorem alive_child (he : e ∈ t.entries) : t.Alive e.child := .inr ⟨e, he, rfl⟩

theorem notMem_of_not_alive (hnew : ¬ t.Alive e.child) : e ∉ t.entries := fun he =>
  hnew (alive_child he)

section Counts

variable [DecidableEq ν] (t)

instance (n : ν) : Decidable (t.Alive n) := inferInstanceAs (Decidable (_ ∨ _))

/-- How many names a node has. -/
def links (n : ν) : ℕ := (t.entries.filter fun e => e.child = n).card

/-- How many subdirectories a directory has. -/
def subdirs (n : ν) : ℕ := (t.entries.filter fun e => e.parent = n ∧ t.isDir e.child = true).card

/-- The link count. -/
def nlink (n : ν) : ℕ :=
  if t.isDir n then if t.Alive n then 2 + t.subdirs n else 0 else t.links n

variable {t}

theorem subdirs_eq_zero (h : ∀ e ∈ t.entries, e.parent ≠ n) : t.subdirs n = 0 := by
  rw [subdirs, Finset.card_eq_zero, Finset.filter_eq_empty_iff]
  rintro e he ⟨hparent, -⟩
  exact h e he hparent

theorem links_eq_zero (h : ∀ e ∈ t.entries, e.child ≠ n) : t.links n = 0 := by
  rw [links, Finset.card_eq_zero, Finset.filter_eq_empty_iff]
  exact h

/-- What is not in the tree has no links. -/
theorem nlink_eq_zero (h : ¬ t.Alive n) : t.nlink n = 0 := by
  by_cases hdir : t.isDir n = true
  · rw [nlink, if_pos hdir, if_neg h]
  · rw [nlink, if_neg hdir]
    exact links_eq_zero fun e he hchild => h (.inr ⟨e, he, hchild⟩)

theorem nlink_le_card (n : ν) : t.nlink n ≤ 2 + t.entries.card := by
  have hsub : t.subdirs n ≤ t.entries.card := Finset.card_filter_le _ _
  have hlinks : t.links n ≤ t.entries.card := Finset.card_filter_le _ _
  unfold nlink
  split_ifs <;> omega

end Counts

variable [DecidableEq ν] [DecidableEq κ]

/-! ## A new entry -/

/-- Name a new node in a directory of the tree. -/
def add (t : DirTree ν κ) (e : DirEntry ν κ) (dir : Bool) (hdir : t.isDir e.parent = true)
    (halive : t.Alive e.parent) (hfree : ∀ e' ∈ t.entries, e'.parent = e.parent → e'.name ≠ e.name)
    (hnew : ¬ t.Alive e.child) : DirTree ν κ where
  root := t.root
  isDir := Function.update t.isDir e.child dir
  entries := insert e t.entries
  name_unique := by
    intro e₁ h₁ e₂ h₂ hparent hname
    rw [Finset.mem_insert] at h₁ h₂
    rcases h₁ with rfl | h₁ <;> rcases h₂ with rfl | h₂
    · rfl
    · exact absurd hname.symm (hfree e₂ h₂ hparent.symm)
    · exact absurd hname (hfree e₁ h₁ hparent)
    · exact t.name_unique e₁ h₁ e₂ h₂ hparent hname
  parent_isDir := by
    have hne : ∀ m, t.Alive m → m ≠ e.child := by
      rintro m hm rfl
      exact hnew hm
    intro e₁ h₁
    rcases Finset.mem_insert.mp h₁ with rfl | h₁
    · rw [Function.update_of_ne (hne _ halive)]
      exact hdir
    · rw [Function.update_of_ne (hne _ (t.parent_alive e₁ h₁))]
      exact t.parent_isDir e₁ h₁
  parent_alive := by
    intro e₁ h₁
    have h : t.Alive e₁.parent := by
      rcases Finset.mem_insert.mp h₁ with rfl | h₁
      · exact halive
      · exact t.parent_alive e₁ h₁
    rcases h with hroot | ⟨e', he', hchild⟩
    · exact .inl hroot
    · exact .inr ⟨e', Finset.mem_insert_of_mem he', hchild⟩
  dir_unique := by
    intro e₁ h₁ e₂ h₂ hisDir hchild
    rw [Finset.mem_insert] at h₁ h₂
    rcases h₁ with rfl | h₁ <;> rcases h₂ with rfl | h₂
    · rfl
    · exact absurd (.inr ⟨e₂, h₂, hchild.symm⟩) hnew
    · exact absurd (.inr ⟨e₁, h₁, hchild⟩) hnew
    · have hne : e₁.child ≠ e.child := by
        intro heq
        exact hnew (heq ▸ alive_child h₁)
      rw [Function.update_of_ne hne] at hisDir
      exact t.dir_unique e₁ h₁ e₂ h₂ hisDir hchild
  root_isDir := by
    have hne : t.root ≠ e.child := by
      intro heq
      exact hnew (.inl heq.symm)
    rw [Function.update_of_ne hne]
    exact t.root_isDir
  root_unnamed := by
    intro e₁ h₁
    rcases Finset.mem_insert.mp h₁ with rfl | h₁
    · intro heq
      exact hnew (.inl heq)
    · exact t.root_unnamed e₁ h₁

section Add

variable {dir : Bool} {hdir : t.isDir e.parent = true} {halive : t.Alive e.parent}
  {hfree : ∀ e' ∈ t.entries, e'.parent = e.parent → e'.name ≠ e.name} {hnew : ¬ t.Alive e.child}

/-- The subdirectories of a directory after an entry was added. -/
theorem subdirs_add : (t.add e dir hdir halive hfree hnew).subdirs n =
    t.subdirs n + if e.parent = n ∧ dir = true then 1 else 0 := by
  have hsame : t.entries.filter (fun e' => e'.parent = n ∧
      (t.add e dir hdir halive hfree hnew).isDir e'.child = true) =
      t.entries.filter fun e' => e'.parent = n ∧ t.isDir e'.child = true := by
    apply Finset.filter_congr
    intro e' he'
    have hne : e'.child ≠ e.child := by
      intro heq
      exact hnew (heq ▸ alive_child he')
    simp only [add, Function.update_of_ne hne]
  have hself : (t.add e dir hdir halive hfree hnew).isDir e.child = dir := Function.update_self ..
  refine (Finset.card_filter_insert_of_notMem _ (notMem_of_not_alive hnew)).trans ?_
  rw [hsame, hself]
  rfl

theorem links_add : (t.add e dir hdir halive hfree hnew).links n =
    t.links n + if e.child = n then 1 else 0 :=
  Finset.card_filter_insert_of_notMem _ (notMem_of_not_alive hnew)

theorem alive_add_of_ne (hn : n ≠ e.child) :
    (t.add e dir hdir halive hfree hnew).Alive n ↔ t.Alive n := by
  constructor
  · rintro (hroot | ⟨e', he', hchild⟩)
    · exact .inl hroot
    · rcases Finset.mem_insert.mp he' with rfl | he'
      · exact absurd hchild.symm hn
      · exact .inr ⟨e', he', hchild⟩
  · rintro (hroot | ⟨e', he', hchild⟩)
    · exact .inl hroot
    · exact .inr ⟨e', Finset.mem_insert_of_mem he', hchild⟩

/-- What a new entry does to the link counts of the other nodes: a subdirectory is a link to its
parent. -/
theorem nlink_add_of_ne (hn : n ≠ e.child) : (t.add e dir hdir halive hfree hnew).nlink n =
    t.nlink n + if e.parent = n ∧ dir = true then 1 else 0 := by
  have hisDir : (t.add e dir hdir halive hfree hnew).isDir n = t.isDir n :=
    Function.update_of_ne hn ..
  simp only [nlink, hisDir, alive_add_of_ne hn, subdirs_add, links_add]
  by_cases hparent : e.parent = n ∧ dir = true
  · obtain ⟨rfl, -⟩ := id hparent
    simp only [hdir, halive, hparent, if_true]
    rfl
  · simp [hparent, hn.symm]

end Add

/-! ## Taking an entry away -/

/-- Take away an entry whose node has no entries of its own. -/
def remove (t : DirTree ν κ) (e : DirEntry ν κ) (hempty : ∀ e' ∈ t.entries, e'.parent ≠ e.child) :
    DirTree ν κ where
  root := t.root
  isDir := t.isDir
  entries := t.entries.erase e
  name_unique e₁ h₁ e₂ h₂ :=
    t.name_unique e₁ (Finset.mem_of_mem_erase h₁) e₂ (Finset.mem_of_mem_erase h₂)
  parent_isDir e₁ h₁ := t.parent_isDir e₁ (Finset.mem_of_mem_erase h₁)
  parent_alive := by
    intro e₁ h₁
    rcases t.parent_alive e₁ (Finset.mem_of_mem_erase h₁) with hroot | ⟨e', he', hchild⟩
    · exact .inl hroot
    · refine .inr ⟨e', Finset.mem_erase.mpr ⟨?_, he'⟩, hchild⟩
      rintro rfl
      exact hempty e₁ (Finset.mem_of_mem_erase h₁) hchild.symm
  dir_unique e₁ h₁ e₂ h₂ :=
    t.dir_unique e₁ (Finset.mem_of_mem_erase h₁) e₂ (Finset.mem_of_mem_erase h₂)
  root_isDir := t.root_isDir
  root_unnamed e₁ h₁ := t.root_unnamed e₁ (Finset.mem_of_mem_erase h₁)

section Remove

variable {hempty : ∀ e' ∈ t.entries, e'.parent ≠ e.child}

theorem alive_of_alive_remove (h : (t.remove e hempty).Alive n) : t.Alive n := by
  rcases h with hroot | ⟨e', he', hchild⟩
  · exact .inl hroot
  · exact .inr ⟨e', Finset.mem_of_mem_erase he', hchild⟩

/-- The other nodes stay. -/
theorem alive_remove_of_ne (hn : n ≠ e.child) : (t.remove e hempty).Alive n ↔ t.Alive n := by
  refine ⟨alive_of_alive_remove, ?_⟩
  rintro (hroot | ⟨e', he', hchild⟩)
  · exact .inl hroot
  · refine .inr ⟨e', Finset.mem_erase.mpr ⟨?_, he'⟩, hchild⟩
    rintro rfl
    exact hn hchild.symm

/-- A removed directory is gone. -/
theorem not_alive_remove_dir (he : e ∈ t.entries) (hdir : t.isDir e.child = true) :
    ¬ (t.remove e hempty).Alive e.child := by
  rintro (hroot | ⟨e', he', hchild⟩)
  · exact t.root_unnamed e he hroot
  · obtain ⟨hne, hmem⟩ := Finset.mem_erase.mp he'
    exact hne (t.dir_unique e he e' hmem hdir hchild.symm).symm

/-- What a removal does to the link count of every node. -/
theorem nlink_remove (he : e ∈ t.entries) (hempty : ∀ e' ∈ t.entries, e'.parent ≠ e.child) (n : ν) :
    (t.remove e hempty).nlink n +
      (if e.child = n then if t.isDir e.child then 2 else 1 else 0) +
      (if e.parent = n ∧ t.isDir e.child = true then 1 else 0) = t.nlink n := by
  have hsub : (t.remove e hempty).subdirs n +
      (if e.parent = n ∧ t.isDir e.child = true then 1 else 0) = t.subdirs n :=
    Finset.card_filter_erase_add _ he
  have hlinks : (t.remove e hempty).links n + (if e.child = n then 1 else 0) = t.links n :=
    Finset.card_filter_erase_add _ he
  have hisDir : (t.remove e hempty).isDir n = t.isDir n := rfl
  by_cases hchild : e.child = n
  · subst hchild
    have hparent : ¬ (e.parent = e.child ∧ t.isDir e.child = true) := fun h => hempty e he h.1
    rw [if_pos rfl, if_neg hparent, nlink, nlink, hisDir]
    cases hdir : t.isDir e.child with
    | true =>
        rw [if_pos rfl, if_pos rfl, if_pos rfl, if_neg (not_alive_remove_dir he hdir),
          if_pos (alive_child he), subdirs_eq_zero hempty]
    | false => simpa using hlinks
  · rw [if_neg hchild, nlink, nlink, hisDir, Nat.add_zero]
    simp only [alive_remove_of_ne (Ne.symm hchild)]
    by_cases hparent : e.parent = n ∧ t.isDir e.child = true
    · obtain ⟨rfl, -⟩ := id hparent
      have halive : t.Alive e.parent := t.parent_alive e he
      rw [if_pos hparent] at hsub ⊢
      rw [t.parent_isDir e he, if_pos rfl, if_pos rfl, if_pos halive, if_pos halive]
      omega
    · rw [if_neg hparent, Nat.add_zero] at hsub
      rw [if_neg hparent, Nat.add_zero, hsub]
      simp only [hchild, if_false, Nat.add_zero] at hlinks
      rw [hlinks]

end Remove

/-! ## Moving an entry -/

/-- Give the node of an entry another name, in a directory of the tree. -/
def move (t : DirTree ν κ) (e : DirEntry ν κ) (he : e ∈ t.entries) (p : ν) (k : κ)
    (hdir : t.isDir p = true) (halive : t.Alive p)
    (hfree : ∀ e' ∈ t.entries, e'.parent = p → e'.name ≠ k) : DirTree ν κ where
  root := t.root
  isDir := t.isDir
  entries := insert ⟨p, k, e.child⟩ (t.entries.erase e)
  name_unique := by
    intro e₁ h₁ e₂ h₂ hparent hname
    rw [Finset.mem_insert, Finset.mem_erase] at h₁ h₂
    rcases h₁ with rfl | ⟨-, h₁⟩ <;> rcases h₂ with rfl | ⟨-, h₂⟩
    · rfl
    · exact absurd hname.symm (hfree e₂ h₂ hparent.symm)
    · exact absurd hname (hfree e₁ h₁ hparent)
    · exact t.name_unique e₁ h₁ e₂ h₂ hparent hname
  parent_isDir := by
    intro e₁ h₁
    rw [Finset.mem_insert, Finset.mem_erase] at h₁
    rcases h₁ with rfl | ⟨-, h₁⟩
    · exact hdir
    · exact t.parent_isDir e₁ h₁
  parent_alive := by
    intro e₁ h₁
    have h : t.Alive e₁.parent := by
      rw [Finset.mem_insert, Finset.mem_erase] at h₁
      rcases h₁ with rfl | ⟨-, h₁⟩
      · exact halive
      · exact t.parent_alive e₁ h₁
    rcases h with hroot | ⟨e', he', hchild⟩
    · exact .inl hroot
    · by_cases heq : e' = e
      · exact .inr ⟨_, Finset.mem_insert_self _ _, heq ▸ hchild⟩
      · exact .inr ⟨e', Finset.mem_insert_of_mem (Finset.mem_erase.mpr ⟨heq, he'⟩), hchild⟩
  dir_unique := by
    intro e₁ h₁ e₂ h₂ hisDir hchild
    rw [Finset.mem_insert, Finset.mem_erase] at h₁ h₂
    rcases h₁ with rfl | ⟨hne, h₁⟩ <;> rcases h₂ with rfl | ⟨hne', h₂⟩
    · rfl
    · exact absurd (t.dir_unique e he e₂ h₂ hisDir hchild).symm hne'
    · exact absurd (t.dir_unique e₁ h₁ e he hisDir hchild) hne
    · exact t.dir_unique e₁ h₁ e₂ h₂ hisDir hchild
  root_isDir := t.root_isDir
  root_unnamed := by
    intro e₁ h₁
    rw [Finset.mem_insert, Finset.mem_erase] at h₁
    rcases h₁ with rfl | ⟨-, h₁⟩
    · exact t.root_unnamed e he
    · exact t.root_unnamed e₁ h₁

section Move

variable {he : e ∈ t.entries} {p : ν} {k : κ} {hdir : t.isDir p = true} {halive : t.Alive p}
  {hfree : ∀ e' ∈ t.entries, e'.parent = p → e'.name ≠ k}

theorem alive_move : (t.move e he p k hdir halive hfree).Alive n ↔ t.Alive n := by
  constructor
  · rintro (hroot | ⟨e', he', hchild⟩)
    · exact .inl hroot
    · simp only [move, Finset.mem_insert, Finset.mem_erase] at he'
      rcases he' with rfl | ⟨-, he'⟩
      · exact .inr ⟨e, he, hchild⟩
      · exact .inr ⟨e', he', hchild⟩
  · rintro (hroot | ⟨e', he', hchild⟩)
    · exact .inl hroot
    · by_cases heq : e' = e
      · exact .inr ⟨_, Finset.mem_insert_self _ _, heq ▸ hchild⟩
      · exact .inr ⟨e', Finset.mem_insert_of_mem (Finset.mem_erase.mpr ⟨heq, he'⟩), hchild⟩

/-- What a move does to the link count of every node. -/
theorem nlink_move (he : e ∈ t.entries) (hdir : t.isDir p = true) (halive : t.Alive p)
    (hfree : ∀ e' ∈ t.entries, e'.parent = p → e'.name ≠ k) (n : ν) :
    (t.move e he p k hdir halive hfree).nlink n +
      (if e.parent = n ∧ t.isDir e.child = true then 1 else 0) =
    t.nlink n + if p = n ∧ t.isDir e.child = true then 1 else 0 := by
  have hnot : (⟨p, k, e.child⟩ : DirEntry ν κ) ∉ t.entries.erase e := fun h =>
    hfree _ (Finset.mem_of_mem_erase h) rfl rfl
  have hsub : (t.move e he p k hdir halive hfree).subdirs n +
      (if e.parent = n ∧ t.isDir e.child = true then 1 else 0) =
      t.subdirs n + if p = n ∧ t.isDir e.child = true then 1 else 0 := by
    have hinsert : (t.move e he p k hdir halive hfree).subdirs n =
        ((t.entries.erase e).filter fun e' => e'.parent = n ∧ t.isDir e'.child = true).card +
          if p = n ∧ t.isDir e.child = true then 1 else 0 :=
      Finset.card_filter_insert_of_notMem _ hnot
    have herase := Finset.card_filter_erase_add
      (fun e' : DirEntry ν κ => e'.parent = n ∧ t.isDir e'.child = true) he
    rw [hinsert, subdirs, ← herase]
    omega
  have hlinks : (t.move e he p k hdir halive hfree).links n = t.links n := by
    have hinsert : (t.move e he p k hdir halive hfree).links n =
        ((t.entries.erase e).filter fun e' => e'.child = n).card + if e.child = n then 1 else 0 :=
      Finset.card_filter_insert_of_notMem _ hnot
    rw [hinsert, links, ← Finset.card_filter_erase_add (fun e' : DirEntry ν κ => e'.child = n) he]
  have hisDir : (t.move e he p k hdir halive hfree).isDir n = t.isDir n := rfl
  have hparent : e.parent = n ∧ t.isDir e.child = true → t.isDir n = true ∧ t.Alive n := by
    rintro ⟨rfl, -⟩
    exact ⟨t.parent_isDir e he, t.parent_alive e he⟩
  have hp : p = n ∧ t.isDir e.child = true → t.isDir n = true ∧ t.Alive n := by
    rintro ⟨rfl, -⟩
    exact ⟨hdir, halive⟩
  simp only [nlink, hisDir, alive_move, hlinks]
  by_cases hn : t.isDir n = true ∧ t.Alive n
  · rw [if_pos hn.1, if_pos hn.1, if_pos hn.2, if_pos hn.2]
    omega
  · rw [if_neg fun h => hn (hparent h), if_neg fun h => hn (hp h)]
    by_cases hd : t.isDir n = true
    · rw [if_pos hd, if_pos hd, if_neg fun h => hn ⟨hd, h⟩, if_neg fun h => hn ⟨hd, h⟩]
    · rw [if_neg hd, if_neg hd]

end Move

/-! ## Paths -/

section Paths

variable {ν κ : Type} {t : DirTree ν κ} {tree : ℕ → DirTree ν κ} {n m : ν} {path : List κ}
  {i j : ℕ}

/-- The names of a path lead from `n` to `m`. -/
def Leads (t : DirTree ν κ) : ν → List κ → ν → Prop
  | n, [], m => n = m
  | n, k :: ks, m => ∃ c, ⟨n, k, c⟩ ∈ t.entries ∧ Leads t c ks m

/-- A path leads to one node. -/
theorem Leads.unique {m' : ν} (h : t.Leads n path m) (h' : t.Leads n path m') : m = m' := by
  induction path generalizing n with
  | nil => exact h.symm.trans h'
  | cons k ks ih =>
      obtain ⟨c, hc, h⟩ := h
      obtain ⟨c', hc', h'⟩ := h'
      obtain rfl : c = c' := congrArg DirEntry.child (t.name_unique _ hc _ hc' rfl rfl)
      exact ih h h'

/-- A path goes on with one more name. -/
theorem Leads.snoc {k : κ} {c : ν} (h : t.Leads n path m) (hc : ⟨m, k, c⟩ ∈ t.entries) :
    t.Leads n (path ++ [k]) c := by
  induction path generalizing n with
  | nil =>
      cases h
      exact ⟨c, hc, rfl⟩
  | cons k' ks ih =>
      obtain ⟨c', hc', h⟩ := h
      exact ⟨c', hc', ih h⟩

/-- The last name of a path. -/
theorem Leads.of_snoc {k : κ} {c : ν} (h : t.Leads n (path ++ [k]) c) :
    ∃ m, t.Leads n path m ∧ ⟨m, k, c⟩ ∈ t.entries := by
  induction path generalizing n with
  | nil =>
      obtain ⟨c', hc', rfl⟩ := h
      exact ⟨n, rfl, hc'⟩
  | cons k' ks ih =>
      obtain ⟨c', hc', h⟩ := h
      obtain ⟨m, hm, hc⟩ := ih h
      exact ⟨m, ⟨c', hc', hm⟩, hc⟩

/-- A path is followed in a tree that changes: it is begun at the time `i`, and each name is looked
up in the tree as it is at some later time; this is how far one has come at the time `j`. -/
inductive Followed (tree : ℕ → DirTree ν κ) (i : ℕ) (n : ν) : ℕ → List κ → ν → Prop
  /-- The start. -/
  | start : Followed tree i n i [] n
  /-- Nothing is looked up. -/
  | wait {j : ℕ} {path : List κ} {m : ν} (h : Followed tree i n j path m) :
      Followed tree i n (j + 1) path m
  /-- A name is looked up. -/
  | enter {j : ℕ} {path : List κ} {m : ν} {k : κ} {c : ν} (h : Followed tree i n j path m)
      (hc : ⟨m, k, c⟩ ∈ (tree j).entries) : Followed tree i n (j + 1) (path ++ [k]) c

/-- In a tree that does not change it leads where the names lead. -/
theorem Followed.leads (h : Followed tree i n j path m) (hsame : ∀ k, i ≤ k → k < j → tree k = t) :
    t.Leads n path m := by
  have hle : ∀ {j path m}, Followed tree i n j path m → i ≤ j := by
    intro j path m h
    induction h with
    | start => exact le_rfl
    | wait _ ih => omega
    | enter _ _ ih => omega
  induction h with
  | start => exact rfl
  | wait h ih => exact ih fun k hik hk => hsame k hik (by omega)
  | @enter j path m k c h hc ih =>
      rw [hsame j (hle h) (Nat.lt_succ_self j)] at hc
      exact (ih fun k hik hk => hsame k hik (by omega)).snoc hc

end Paths

end DirTree
