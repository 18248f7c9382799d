import Mathlib.Tactic

/-!
# Byte images and little-endian words

A region of memory is a function from offsets to bytes.  Copies into a region are `overlay`s of an
interval; a 32-bit field is four consecutive bytes, the low one first.

* `Mem.overlay m off n data` : the bytes `[off, off + n)` of `m` replaced by `data 0 .. data (n-1)`.
* `Mem.word m off` / `Mem.setWord m off w` : the 32-bit word at `off`; `Mem.ofWords` : a region of
  words, one after the other.
* `Word.overlay w off n data` : the word whose bytes lie at the offsets `off .. off + 3` of a region
  that is overwritten by `n` bytes of `data` from its start; the part of the word that the copy does
  not reach is kept.
-/

/-- A byte. -/
abbrev Byte := BitVec 8

/-- A 32-bit machine word. -/
abbrev Word := BitVec 32

/-- A region of memory: the byte at each offset. -/
abbrev Mem := ℕ → Byte

namespace Word

/-- Byte `k` of a word, the low byte first. -/
def byte (w : Word) (k : ℕ) : Byte := w.extractLsb' (8 * k) 8

/-- The word with the given bytes, the low byte first. -/
def ofBytes (b : ℕ → Byte) : Word := b 3 ++ b 2 ++ b 1 ++ b 0

/-- A word is put together from its bytes. -/
@[simp] theorem ofBytes_byte (w : Word) : ofBytes w.byte = w := by
  unfold ofBytes byte
  ext i hi
  simp only [BitVec.getElem_append, BitVec.getElem_extractLsb']
  rw [← BitVec.getLsbD_eq_getElem hi]
  split_ifs
  all_goals
    congr 1
    omega

/-- The bytes of a word that was put together from bytes. -/
theorem byte_ofBytes (b : ℕ → Byte) {k : ℕ} (hk : k < 4) : (ofBytes b).byte k = b k := by
  unfold ofBytes byte
  ext i hi
  simp only [BitVec.getElem_extractLsb', BitVec.getLsbD_append]
  rw [← BitVec.getLsbD_eq_getElem hi]
  interval_cases k
  all_goals
    split_ifs
    all_goals first
      | omega
      | (congr 1; omega)

/-- Only the four bytes matter. -/
theorem ofBytes_congr {b b' : ℕ → Byte} (h : ∀ k < 4, b k = b' k) : ofBytes b = ofBytes b' := by
  simp only [ofBytes, h 0 (by omega), h 1 (by omega), h 2 (by omega), h 3 (by omega)]

/-- The word at the offsets `off .. off + 3` of a region overwritten by `n` bytes of `data` from its
start. -/
def overlay (w : Word) (off n : ℕ) (data : Mem) : Word :=
  ofBytes fun k => if off + k < n then data (off + k) else w.byte k

/-- A copy that ends before the word leaves it alone. -/
theorem overlay_of_le {w : Word} {off n : ℕ} {data : Mem} (h : n ≤ off) :
    w.overlay off n data = w := by
  have hk : ∀ k, (if off + k < n then data (off + k) else w.byte k) = w.byte k := by
    intro k
    rw [if_neg (by omega)]
  simp [overlay, hk]

end Word

namespace Mem

/-- The bytes `[off, off + n)` replaced by `data`. -/
def overlay (m : Mem) (off n : ℕ) (data : Mem) : Mem :=
  fun i => if off ≤ i ∧ i < off + n then data (i - off) else m i

/-- The 32-bit word at `off`. -/
def word (m : Mem) (off : ℕ) : Word := Word.ofBytes fun k => m (off + k)

/-- Store a 32-bit word at `off`. -/
def setWord (m : Mem) (off : ℕ) (w : Word) : Mem := m.overlay off 4 w.byte

/-- A region of words, zero behind them. -/
def ofWords (ws : List Word) : Mem := fun i => (ws.getD (i / 4) 0).byte (i % 4)

/-- A byte outside the interval survives the copy. -/
theorem overlay_of_not_mem {m : Mem} {off n i : ℕ} {data : Mem} (h : i < off ∨ off + n ≤ i) :
    m.overlay off n data i = m i := by
  unfold overlay
  rw [if_neg (by omega)]

/-- A byte inside the interval is the copied one. -/
theorem overlay_of_mem {m : Mem} {off n i : ℕ} {data : Mem} (h : off ≤ i) (h' : i < off + n) :
    m.overlay off n data i = data (i - off) := by
  simp [overlay, h, h']

/-- Reading back a stored word. -/
@[simp] theorem word_setWord (m : Mem) (off : ℕ) (w : Word) : (m.setWord off w).word off = w := by
  conv_rhs => rw [← Word.ofBytes_byte w]
  refine Word.ofBytes_congr fun k hk => ?_
  rw [setWord, overlay_of_mem (by omega) (by omega)]
  congr 1
  omega

/-- Of two words stored at one place the last one stays. -/
theorem setWord_setWord (m : Mem) (off : ℕ) (x y : Word) :
    (m.setWord off x).setWord off y = m.setWord off y := by
  funext i
  simp only [setWord, overlay]
  split_ifs <;> rfl

/-- A word of a region of words. -/
theorem word_ofWords {ws : List Word} {off : ℕ} (h : off % 4 = 0) :
    (ofWords ws).word off = ws.getD (off / 4) 0 := by
  conv_rhs => rw [← Word.ofBytes_byte (ws.getD (off / 4) 0)]
  refine Word.ofBytes_congr fun k hk => ?_
  have hdiv : (off + k) / 4 = off / 4 := by omega
  have hmod : (off + k) % 4 = k := by omega
  rw [ofWords, hdiv, hmod]

/-- A word that does not overlap the stored one survives. -/
theorem word_setWord_of_disjoint {m : Mem} {off off' : ℕ} {w : Word}
    (h : off' + 4 ≤ off ∨ off + 4 ≤ off') : (m.setWord off w).word off' = m.word off' := by
  refine Word.ofBytes_congr fun k hk => ?_
  rw [setWord, overlay_of_not_mem (by omega)]

end Mem
