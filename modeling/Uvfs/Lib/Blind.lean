import Uvfs.Lib.Struct

/-!
# What a program shows of memory

Of a region of memory some bytes are known, and the others hold whatever was there before.  A
program that reads the region is blind to the others when its result is the same for all of them.

* `Mem.patch K m stale` : the known bytes of `m`, and `stale` around them.
* `Blind K m f` : the result of `f` does not depend on what is stale.
* `blind_of_reads`, `Blind.known_of_shows` : a program is blind when it reads only known bytes; a
  byte that it shows is known.
* `blind_iff_of_struct` : the two together, for a program that reads a struct to its last byte.
* `cstring g n` : the bytes up to the first NUL; `take_cstring_congr`, `lt_length_cstring` and
  `length_cstring_le` are what a string shows.
-/

/-- The known bytes of `m`, and `stale` around them. -/
def Mem.patch (K : ℕ → Prop) [DecidablePred K] (m stale : Mem) : Mem :=
  fun i => if K i then m i else stale i

/-- The result does not depend on what is stale. -/
def Blind {α : Type} (K : ℕ → Prop) [DecidablePred K] (m : Mem) (f : Mem → α) : Prop :=
  ∀ stale stale', f (m.patch K stale) = f (m.patch K stale')

section Blind

variable {α : Type} {K : ℕ → Prop} [DecidablePred K] {m stale stale' : Mem} {f : Mem → α} {i j : ℕ}

theorem Mem.patch_of_known (h : K i) : m.patch K stale i = m i := if_pos h

theorem Mem.patch_of_not_known (h : ¬ K i) : m.patch K stale i = stale i := if_neg h

/-- A program that reads only known bytes. -/
theorem blind_of_reads {S : ℕ → Prop} (hknown : ∀ i, S i → K i)
    (hreads : ∀ m₁ m₂ : Mem, (∀ i, K i → m₁ i = m i) → (∀ i, S i → m₁ i = m₂ i) → f m₁ = f m₂) :
    Blind K m f := by
  intro stale stale'
  apply hreads
  · intro i hi
    exact Mem.patch_of_known hi
  · intro i hi
    rw [Mem.patch_of_known (hknown i hi), Mem.patch_of_known (hknown i hi)]

/-- A byte that the program shows is known. -/
theorem Blind.known_of_shows (h : Blind K m f)
    (hshows : ∀ m₁ m₂ : Mem, (∀ i, K i → m₁ i = m i) → (∀ i, i ≠ j → m₁ i = m₂ i) → f m₁ = f m₂ →
      m₁ j = m₂ j) : K j := by
  by_contra hj
  have heq : m.patch K (fun _ => 0) j = m.patch K (Function.update (fun _ => 0) j 1) j := by
    refine hshows _ _ (fun i hi => Mem.patch_of_known hi) ?_ (h _ _)
    intro i hij
    simp only [Mem.patch, Function.update_of_ne hij]
  rw [Mem.patch_of_not_known hj, Mem.patch_of_not_known hj, Function.update_self] at heq
  exact absurd heq (by decide)

/-- **A struct that is read to its last byte**: the program is blind exactly when the whole struct
is known. -/
theorem blind_iff_of_struct {n : ℕ}
    (hreads : ∀ m₁ m₂ : Mem, (∀ i, K i → m₁ i = m i) → (∀ i < n, m₁ i = m₂ i) → f m₁ = f m₂)
    (hshows : ∀ m₁ m₂ : Mem, (∀ i, K i → m₁ i = m i) → (∀ i, i ≠ n - 1 → m₁ i = m₂ i) →
      f m₁ = f m₂ → m₁ (n - 1) = m₂ (n - 1))
    (hlast : K (n - 1) → ∀ i < n, K i) : Blind K m f ↔ ∀ i < n, K i := by
  constructor
  · intro h
    exact hlast (h.known_of_shows hshows)
  · intro h
    exact blind_of_reads h hreads

/-- A program whose result is known. -/
theorem blind_of_const {a : α} (h : ∀ m₁ : Mem, (∀ i, K i → m₁ i = m i) → f m₁ = a) :
    Blind K m f := by
  intro stale stale'
  rw [h _ fun i hi => Mem.patch_of_known hi, h _ fun i hi => Mem.patch_of_known hi]

/-- Only what the program does with the known bytes matters. -/
theorem blind_congr {β : Type} {g : Mem → β}
    (h : ∀ m₁ m₂ : Mem, (∀ i, K i → m₁ i = m i) → (∀ i, K i → m₂ i = m i) →
      (f m₁ = f m₂ ↔ g m₁ = g m₂)) : Blind K m f ↔ Blind K m g :=
  forall₂_congr fun _ _ =>
    h _ _ (fun _ hi => Mem.patch_of_known hi) fun _ hi => Mem.patch_of_known hi

end Blind

/-! ## Strings -/

/-- The bytes up to the first NUL, at most `n`. -/
def cstring (g : Mem) (n : ℕ) : List Byte := (g.toList n).takeWhile fun b => b ≠ 0

section cstring

variable {g g' : Mem} {n k i : ℕ}

theorem Mem.toList_succ (g : Mem) (n : ℕ) :
    g.toList (n + 1) = g 0 :: Mem.toList (fun i => g (i + 1)) n := by
  simp only [toList, List.range_succ_eq_map, List.map_cons, List.map_map]
  rfl

theorem cstring_succ (g : Mem) (n : ℕ) :
    cstring g (n + 1) = if g 0 = 0 then [] else g 0 :: cstring (fun i => g (i + 1)) n := by
  rw [cstring, Mem.toList_succ, List.takeWhile_cons]
  by_cases h : g 0 = 0 <;> simp [h, cstring]

/-- A string in front of a NUL. -/
theorem cstring_eq_of_toList {bs : List Byte} (hbs : g.toList bs.length = bs) (hnul : 0 ∉ bs)
    (hend : g bs.length = 0) (hlt : bs.length < n) : cstring g n = bs := by
  induction bs generalizing g n with
  | nil =>
      obtain ⟨n, rfl⟩ := Nat.exists_eq_succ_of_ne_zero (Nat.ne_of_gt hlt)
      rw [cstring_succ]
      exact if_pos hend
  | cons b bs ih =>
      obtain ⟨n, rfl⟩ := Nat.exists_eq_succ_of_ne_zero (Nat.ne_of_gt (Nat.zero_lt_of_lt hlt))
      rw [List.length_cons, Mem.toList_succ, List.cons.injEq] at hbs
      rw [cstring_succ, if_neg fun h => hnul (by simp [← hbs.1, h]), hbs.1]
      congr 1
      exact ih hbs.2 (fun h => hnul (List.mem_cons_of_mem _ h)) hend (Nat.lt_of_succ_lt_succ hlt)

/-- The beginning of a string, up to a place where it ends at the latest. -/
theorem take_cstring_congr (hsame : ∀ j < i, g j = g' j) (hend : k ≤ i ∨ g i = 0 ∧ g' i = 0) :
    (cstring g n).take k = (cstring g' n).take k := by
  induction i generalizing g g' n k with
  | zero =>
      rcases hend with hk | ⟨hg, hg'⟩
      · rw [Nat.le_zero.mp hk, List.take_zero, List.take_zero]
      · cases n with
        | zero => rfl
        | succ n => rw [cstring_succ, cstring_succ, if_pos hg, if_pos hg']
  | succ i ih =>
      cases n with
      | zero => rfl
      | succ n =>
          rw [cstring_succ, cstring_succ, hsame 0 (Nat.succ_pos i)]
          split
          · rfl
          · cases k with
            | zero => rfl
            | succ k =>
                rw [List.take_succ_cons, List.take_succ_cons]
                congr 1
                refine ih (fun j hj => hsame (j + 1) (by omega)) ?_
                rcases hend with hk | hzero
                · exact .inl (by omega)
                · exact .inr hzero

/-- A string goes on over bytes that are no NUL. -/
theorem lt_length_cstring (h : ∀ j ≤ i, g j ≠ 0) (hi : i < n) : i < (cstring g n).length := by
  induction i generalizing g n with
  | zero =>
      obtain ⟨n, rfl⟩ := Nat.exists_eq_succ_of_ne_zero (Nat.ne_of_gt hi)
      rw [cstring_succ, if_neg (h 0 le_rfl), List.length_cons]
      omega
  | succ i ih =>
      obtain ⟨n, rfl⟩ := Nat.exists_eq_succ_of_ne_zero (Nat.ne_of_gt (Nat.zero_lt_of_lt hi))
      rw [cstring_succ, if_neg (h 0 (Nat.zero_le _)), List.length_cons]
      have hrest := @ih (fun j => g (j + 1)) n (fun j hj => h (j + 1) (by omega)) (by omega)
      omega

/-- A string ends at a NUL. -/
theorem length_cstring_le (h : g i = 0) : (cstring g n).length ≤ i := by
  induction i generalizing g n with
  | zero =>
      cases n with
      | zero => rfl
      | succ n => rw [cstring_succ, if_pos h, List.length_nil]
  | succ i ih =>
      cases n with
      | zero => exact Nat.zero_le _
      | succ n =>
          rw [cstring_succ]
          split
          · exact Nat.zero_le _
          · rw [List.length_cons]
            exact Nat.succ_le_succ (ih h)

end cstring
