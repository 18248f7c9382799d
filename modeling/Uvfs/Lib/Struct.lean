import Uvfs.Lib.Bytes

/-!
# Structs in memory

A struct is laid out by the sizes of its members, in order and without padding.  A program fills it
member by member; a member that is an array may be filled only in part, and one that is never
assigned is filled with nothing.

* `Mem.toList m n` : the first `n` bytes of a region.
* `Word.bytes`, `Word.ofList` : a word as four bytes, the low one first, and back.
* `Struct.store off layout values m` : the region `m` after the values have been stored, each at the
  start of its member.
* `Struct.Filled off layout values i` : the byte at `i` belongs to one of the values; such a byte
  does not depend on what was in the region before, and every other byte is what it was.
* `Struct.Fits layout values` : no value is longer than its member.
* `Struct.members layout bs` : a message cut into members again; a value that fits is found at the
  start of its member (`Struct.values_prefix_members`).
-/

/-- The first `n` bytes of a region. -/
def Mem.toList (m : Mem) (n : ℕ) : List Byte := (List.range n).map m

namespace Mem

@[simp] theorem length_toList (m : Mem) (n : ℕ) : (m.toList n).length = n := by
  simp [toList]

theorem getElem?_toList {m : Mem} {n i : ℕ} (h : i < n) : (m.toList n)[i]? = some (m i) := by
  simp [toList, h]

/-- Two regions have the same first bytes. -/
theorem toList_eq_iff {m m' : Mem} {n : ℕ} : m.toList n = m'.toList n ↔ ∀ i < n, m i = m' i := by
  simp [toList]

/-- A slice of the first bytes. -/
theorem take_drop_toList (m : Mem) {n off len : ℕ} (h : off + len ≤ n) :
    ((m.toList n).drop off).take len = Mem.toList (fun i => m (off + i)) len := by
  apply List.ext_getElem?
  intro i
  by_cases hi : i < len
  · rw [getElem?_toList hi, List.getElem?_take_of_lt hi, List.getElem?_drop,
      getElem?_toList (by omega)]
  · rw [List.getElem?_eq_none (by simp; omega), List.getElem?_eq_none (by simp; omega)]

end Mem

namespace Word

/-- The bytes of a word, the low one first. -/
def bytes (w : Word) : List Byte := [w.byte 0, w.byte 1, w.byte 2, w.byte 3]

/-- The word at the start of a list of bytes. -/
def ofList (bs : List Byte) : Word := ofBytes fun k => bs.getD k 0

@[simp] theorem length_bytes (w : Word) : w.bytes.length = 4 := rfl

theorem getD_bytes (w : Word) {k : ℕ} (hk : k < 4) : w.bytes.getD k 0 = w.byte k := by
  interval_cases k <;> rfl

@[simp] theorem ofList_bytes_append (w : Word) (bs : List Byte) : ofList (w.bytes ++ bs) = w := by
  conv_rhs => rw [← ofBytes_byte w]
  apply ofBytes_congr
  intro k hk
  rw [List.getD_eq_getElem?_getD, List.getElem?_append_left (by simpa using hk),
    ← List.getD_eq_getElem?_getD, getD_bytes w hk]

@[simp] theorem drop_bytes_append (w : Word) (bs : List Byte) (n : ℕ) :
    (w.bytes ++ bs).drop (n + 4) = bs.drop n := rfl

/-- A word is found at the start of whatever begins with its bytes. -/
theorem ofList_of_prefix {w : Word} {bs : List Byte} (h : w.bytes <+: bs) : ofList bs = w := by
  obtain ⟨rest, rfl⟩ := h
  exact ofList_bytes_append w rest

/-- The word at an offset, from the list of the first bytes. -/
theorem ofList_drop_toList {m : Mem} {n off : ℕ} (h : off + 4 ≤ n) :
    ofList ((m.toList n).drop off) = m.word off := by
  apply ofBytes_congr
  intro k hk
  rw [List.getD_eq_getElem?_getD, List.getElem?_drop, Mem.getElem?_toList (by omega)]
  rfl

end Word

namespace Struct

/-- Store the values, each at the start of its member; the first member starts at `off`. -/
def store : ℕ → List ℕ → List (List Byte) → Mem → Mem
  | off, n :: ns, v :: vs, m =>
      store (off + n) ns vs (m.overlay off v.length fun i => v.getD i 0)
  | _, _, _, m => m

/-- The byte at `i` belongs to one of the values. -/
def Filled : ℕ → List ℕ → List (List Byte) → ℕ → Prop
  | off, n :: ns, v :: vs, i => (off ≤ i ∧ i < off + v.length) ∨ Filled (off + n) ns vs i
  | _, _, _, _ => False

instance decidableFilled : (off : ℕ) → (ns : List ℕ) → (vs : List (List Byte)) → (i : ℕ) →
    Decidable (Filled off ns vs i)
  | off, n :: ns, v :: vs, i =>
      have := decidableFilled (off + n) ns vs i
      inferInstanceAs (Decidable ((off ≤ i ∧ i < off + v.length) ∨ Filled (off + n) ns vs i))
  | _, [], _, _ => isFalse id
  | _, _ :: _, [], _ => isFalse id

/-- No value is longer than its member, and there is one for each. -/
def Fits (layout : List ℕ) (values : List (List Byte)) : Prop :=
  List.Forall₂ (fun n v => v.length ≤ n) layout values

instance (layout : List ℕ) (values : List (List Byte)) : Decidable (Fits layout values) :=
  inferInstanceAs (Decidable (List.Forall₂ _ _ _))

/-- A message cut into the members of a struct; the last ones may be cut short or missing. -/
def members : List ℕ → List Byte → List (List Byte)
  | [], _ => []
  | n :: ns, bs => bs.take n :: members ns (bs.drop n)

variable {off i : ℕ} {layout : List ℕ} {values : List (List Byte)} {m m' : Mem}

/-- A byte in front of the struct is not filled. -/
theorem not_filled_of_lt (h : i < off) : ¬ Filled off layout values i := by
  induction layout generalizing off values with
  | nil => exact id
  | cons n ns ih =>
      cases values with
      | nil => exact id
      | cons v vs =>
          rintro (⟨hle, _⟩ | hrest)
          · omega
          · exact ih (by omega) hrest

/-- A byte that no value fills is left as it was. -/
theorem store_of_not_filled (h : ¬ Filled off layout values i) :
    store off layout values m i = m i := by
  induction layout generalizing off values m with
  | nil => rfl
  | cons n ns ih =>
      cases values with
      | nil => rfl
      | cons v vs =>
          obtain ⟨hfirst, hrest⟩ := not_or.mp h
          rw [store, ih hrest]
          exact Mem.overlay_of_not_mem (by omega)

/-- A byte that a value fills does not depend on what was there. -/
theorem store_congr_of_filled (h : Filled off layout values i) :
    store off layout values m i = store off layout values m' i := by
  induction layout generalizing off values m m' with
  | nil => exact h.elim
  | cons n ns ih =>
      cases values with
      | nil => exact h.elim
      | cons v vs =>
          unfold store
          by_cases hrest : Filled (off + n) ns vs i
          · exact ih hrest
          · obtain ⟨hle, hlt⟩ := h.resolve_right hrest
            rw [store_of_not_filled hrest, store_of_not_filled hrest,
              Mem.overlay_of_mem hle hlt, Mem.overlay_of_mem hle hlt]

/-- What is stored behind a byte does not matter for it. -/
theorem store_append_of_lt {ns : List ℕ} {vs : List (List Byte)} (hlen : ns.length = vs.length)
    (hi : i < off + ns.sum) :
    store off (ns ++ layout) (vs ++ values) m i = store off ns vs m i := by
  induction ns generalizing off vs m with
  | nil =>
      obtain rfl := List.length_eq_zero_iff.mp hlen.symm
      exact store_of_not_filled (not_filled_of_lt (by simpa using hi))
  | cons n ns ih =>
      cases vs with
      | nil => cases hlen
      | cons v vs =>
          rw [List.sum_cons] at hi
          exact ih (Nat.succ.inj hlen) (by omega)

/-- **What a stored struct shows of the memory under it**: the first `n` bytes are the same whatever
was there before exactly when the values fill them all. -/
theorem toList_store_congr_iff {n : ℕ} :
    (∀ m m', (store off layout values m).toList n = (store off layout values m').toList n) ↔
      ∀ i < n, Filled off layout values i := by
  constructor
  · intro h i hi
    by_contra hfill
    have heq := Mem.toList_eq_iff.mp (h (fun _ => 0) fun _ => 1) i hi
    rw [store_of_not_filled hfill, store_of_not_filled hfill] at heq
    exact absurd heq (by decide)
  · intro h m m'
    rw [Mem.toList_eq_iff]
    intro i hi
    exact store_congr_of_filled (h i hi)

/-- The first value is at the start of the struct; nothing behind it is stored over it. -/
theorem store_cons_of_lt {n : ℕ} {v : List Byte} (hv : v.length ≤ n) {k : ℕ} (hk : k < v.length) :
    store off (n :: layout) (v :: values) m (off + k) = v.getD k 0 := by
  have hnot : ¬ Filled (off + n) layout values (off + k) := not_filled_of_lt (by omega)
  rw [store, store_of_not_filled hnot, Mem.overlay_of_mem (by omega) (by omega)]
  congr 1
  omega

/-- The first value, when it is a word. -/
theorem word_store {w : Word} {n : ℕ} (hn : 4 ≤ n) :
    (store off (n :: layout) (w.bytes :: values) m).word off = w := by
  conv_rhs => rw [← Word.ofBytes_byte w]
  apply Word.ofBytes_congr
  intro k hk
  rw [store_cons_of_lt hn (by simpa using hk), Word.getD_bytes w hk]

/-- How far the values reach from the start of the struct. -/
def extent : List ℕ → List (List Byte) → ℕ
  | n :: ns, v :: vs => max v.length (if vs.isEmpty then 0 else n + extent ns vs)
  | _, _ => 0

/-- Values that fit reach to the end of the last one. -/
theorem extent_of_fits (h : Fits layout values) :
    extent layout values = layout.dropLast.sum + (values.getLastD []).length := by
  unfold Fits at h
  induction h with
  | nil => rfl
  | @cons n v ns vs hle htail ih =>
      rw [extent]
      cases htail with
      | nil => simp
      | cons hle' htail' =>
          rw [if_neg (by simp), ih, max_eq_right (by omega)]
          simp only [List.dropLast_cons_cons, List.sum_cons, List.getLastD_cons]
          omega

/-- **Reading a struct back**: in a message that reaches to the end of every value, each member
begins with its value. -/
theorem values_prefix_members (hfits : Fits layout values) {n : ℕ}
    (hn : off + extent layout values ≤ n) :
    List.Forall₂ (· <+: ·) values
      (members layout (((store off layout values m).toList n).drop off)) := by
  induction layout generalizing off values m with
  | nil =>
      cases hfits
      exact .nil
  | cons len ns ih =>
      cases hfits with
      | @cons _ v _ vs hv hvs =>
          have hext : off + v.length ≤ n := by
            unfold extent at hn
            omega
          refine .cons ?_ ?_
          · rw [List.prefix_iff_eq_take, List.take_take, min_eq_left hv,
              Mem.take_drop_toList _ hext]
            apply List.ext_getElem?
            intro k
            by_cases hk : k < v.length
            · rw [Mem.getElem?_toList hk, store_cons_of_lt hv hk, List.getD_eq_getElem?_getD,
                List.getElem?_eq_getElem hk]
              rfl
            · rw [List.getElem?_eq_none (by omega), List.getElem?_eq_none (by simp; omega)]
          · rw [List.drop_drop]
            cases vs with
            | nil =>
                cases hvs
                exact .nil
            | cons v' vs' =>
                refine ih hvs ?_
                simp only [extent, List.isEmpty_cons, Bool.false_eq_true, if_false] at hn ⊢
                omega

end Struct
