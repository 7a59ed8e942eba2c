import Mathlib.Algebra.Group.Nat.Defs
import Mathlib.Data.List.GetD
import Mathlib.Logic.Function.Basic

/-! # Byte-addressed memory

A memory maps `w`-bit addresses to bytes; the address space wraps around. `write m a bs` lays the bytes
`bs` down from address `a`. Words are little-endian: byte `i` of a word is its bits `8 * i` to
`8 * i + 7`, `ofBytes` builds a word from its bytes, and `peek` and `poke` read and write a word of `k`
bytes. -/

namespace ByteMemory

abbrev Byte := BitVec 8

/-- A byte at each `w`-bit address. -/
abbrev Memory (w : Nat) := BitVec w → Byte

/-! ## Words and their bytes -/

section Words
variable {n : Nat}

/-- Byte `i` of a word, the least significant first. -/
def byteAt (v : BitVec n) (i : Nat) : Byte := v.extractLsb' (8 * i) 8

/-- The word of `n` bits whose bytes, the least significant first, are `bs`. -/
def ofBytes (n : Nat) : List Byte → BitVec n
  | [] => 0
  | b :: bs => (ofBytes n bs <<< 8) ||| b.setWidth n

theorem byteAt_and (u v : BitVec n) (i : Nat) : byteAt (u &&& v) i = byteAt u i &&& byteAt v i :=
  BitVec.extractLsb'_and

theorem byteAt_or (u v : BitVec n) (i : Nat) : byteAt (u ||| v) i = byteAt u i ||| byteAt v i :=
  BitVec.extractLsb'_or

theorem byteAt_not (v : BitVec n) {i : Nat} (hi : 8 * i + 8 ≤ n) : byteAt (~~~v) i = ~~~byteAt v i := by
  ext j hj
  simp only [byteAt, BitVec.getElem_extractLsb', BitVec.getLsbD_not, BitVec.getElem_not]
  have : 8 * i + j < n := by omega
  simp [this]

/-- A byte widened to a word has that byte lowest, and zeros above. -/
theorem byteAt_setWidth (b : Byte) {i : Nat} (hi : 8 * i + 8 ≤ n) :
    byteAt (b.setWidth n) i = if i = 0 then b else 0 := by
  ext j hj
  simp only [byteAt, BitVec.getElem_extractLsb', BitVec.getLsbD_setWidth]
  split
  · rename_i h
    subst h
    have : j < n := by omega
    simp [this, BitVec.getLsbD_eq_getElem hj]
  · have : 8 ≤ 8 * i + j := by omega
    simp [BitVec.getLsbD_of_ge b _ this]

theorem byteAt_shiftLeft (v : BitVec n) {i : Nat} (hi : 8 * i + 8 ≤ n) :
    byteAt (v <<< 8) i = if i = 0 then 0 else byteAt v (i - 1) := by
  ext j hj
  simp only [byteAt, BitVec.getElem_extractLsb', BitVec.getLsbD_shiftLeft]
  have hlt : 8 * i + j < n := by omega
  split
  · rename_i h
    subst h
    simp [hj]
  · have hge : ¬8 * i + j < 8 := by omega
    have hsub : 8 * i + j - 8 = 8 * (i - 1) + j := by omega
    simp [hlt, hge, hsub]

/-- The word of a list of bytes has these bytes. -/
theorem byteAt_ofBytes (bs : List Byte) {i : Nat} (hi : 8 * i + 8 ≤ n) : byteAt (ofBytes n bs) i = bs.getD i 0 := by
  induction bs generalizing i with
  | nil =>
    ext j hj
    simp [ofBytes, byteAt]
  | cons b bs ih =>
    rw [ofBytes, byteAt_or, byteAt_shiftLeft _ hi, byteAt_setWidth _ hi]
    cases i with
    | zero => simp
    | succ i => simpa using @ih i (by omega)

/-- The mask of the `r` lowest bytes. -/
theorem byteAt_mask {r i : Nat} (hr : 8 * r < n) (hi : 8 * i + 8 ≤ n) :
    byteAt ((1#n <<< (8 * r)) - 1#n) i = if i < r then BitVec.allOnes 8 else 0 := by
  have hmask : (1#n <<< (8 * r)) - 1#n = (BitVec.allOnes (8 * r)).setWidth n := by
    apply BitVec.eq_of_toNat_eq
    have hpow : 2 ^ (8 * r) < 2 ^ n := Nat.pow_lt_pow_right (by decide) hr
    have hpos : 1 ≤ 2 ^ (8 * r) := Nat.one_le_two_pow
    have h1 : (1 : Nat) % 2 ^ n = 1 := Nat.mod_eq_of_lt (by omega)
    simp only [BitVec.toNat_sub, BitVec.toNat_shiftLeft, BitVec.toNat_ofNat, BitVec.toNat_setWidth,
      BitVec.toNat_allOnes, h1, Nat.shiftLeft_eq, Nat.one_mul]
    rw [Nat.mod_eq_of_lt hpow, Nat.mod_eq_of_lt (show 2 ^ (8 * r) - 1 < 2 ^ n by omega)]
    have : 2 ^ n - 1 + 2 ^ (8 * r) = 2 ^ (8 * r) - 1 + 2 ^ n := by omega
    rw [this, Nat.add_mod_right, Nat.mod_eq_of_lt (by omega)]
  rw [hmask]
  ext j hj
  have hlt : 8 * i + j < n := by omega
  simp only [byteAt, BitVec.getElem_extractLsb', BitVec.getLsbD_setWidth, BitVec.getLsbD_allOnes, hlt, decide_true,
    Bool.true_and]
  split
  · have : 8 * i + j < 8 * r := by omega
    simp only [this, decide_true, BitVec.getElem_allOnes]
  · have : ¬8 * i + j < 8 * r := by omega
    simp [this]

end Words

/-! ## Reading and writing -/

section Access
variable {w n : Nat} {m : Memory w} {a x : BitVec w}

/-- The `k` bytes from address `a` on. -/
def read (m : Memory w) (a : BitVec w) (k : Nat) : List Byte := (List.range k).map fun i => m (a + BitVec.ofNat w i)

/-- `m` with the bytes `bs` laid down from address `a`. -/
def write (m : Memory w) (a : BitVec w) (bs : List Byte) : Memory w := fun x => bs.getD (x - a).toNat (m x)

/-- The little-endian word of `k` bytes at `a`. -/
def peek (n : Nat) (m : Memory w) (a : BitVec w) : BitVec n := ofBytes n (read m a (n / 8))

/-- `m` with the little-endian word `v` written at `a`. -/
def poke (m : Memory w) (a : BitVec w) (v : BitVec n) : Memory w := write m a ((List.range (n / 8)).map (byteAt v))

theorem add_sub_toNat {i : Nat} (hi : i < 2 ^ w) : (a + BitVec.ofNat w i - a).toNat = i := by
  rw [BitVec.add_comm, BitVec.add_sub_cancel, BitVec.toNat_ofNat, Nat.mod_eq_of_lt hi]

theorem add_ofNat_sub : a + BitVec.ofNat w (x - a).toNat = x := by
  rw [BitVec.ofNat_toNat, BitVec.setWidth_eq, BitVec.add_comm, BitVec.sub_add_cancel]

/-- The distance from `a + k` to `a + i`, around the address space where `i` comes first. -/
theorem add_sub_add_toNat {i k : Nat} (hi : i < k) (hk : k ≤ 2 ^ w) :
    (a + BitVec.ofNat w i - (a + BitVec.ofNat w k)).toNat = 2 ^ w + i - k := by
  have h : a + BitVec.ofNat w i = a + BitVec.ofNat w k + BitVec.ofNat w (2 ^ w + i - k) := by
    rw [BitVec.add_assoc, ← BitVec.ofNat_add, show k + (2 ^ w + i - k) = i + 2 ^ w by omega, BitVec.ofNat_add]
    have hwrap : BitVec.ofNat w (2 ^ w) = 0#w :=
      BitVec.eq_of_toNat_eq (by rw [BitVec.toNat_ofNat, Nat.mod_self, BitVec.toNat_zero])
    rw [hwrap, BitVec.add_zero]
  rw [h]
  exact add_sub_toNat (by omega)

theorem write_of_lt {bs : List Byte} (h : (x - a).toNat < bs.length) : write m a bs x = bs[(x - a).toNat] := by
  unfold write
  rw [List.getD_eq_getElem _ _ h]

theorem write_of_ge {bs : List Byte} (h : bs.length ≤ (x - a).toNat) : write m a bs x = m x := by
  unfold write
  rw [List.getD_eq_default _ _ h]

@[simp] theorem write_nil : write m a [] = m := by
  funext x
  exact write_of_ge (Nat.zero_le _)

/-- Where a write laid byte `i`. -/
theorem write_apply {bs : List Byte} {i : Nat} (hi : i < bs.length) (hw : bs.length ≤ 2 ^ w) :
    write m a bs (a + BitVec.ofNat w i) = bs[i] := by
  have hx : (a + BitVec.ofNat w i - a).toNat = i := add_sub_toNat (by omega)
  rw [write_of_lt (by rw [hx]; exact hi)]
  simp only [hx]

theorem write_singleton {b : Byte} : write m a [b] = Function.update m a b := by
  funext x
  by_cases hx : x = a
  · subst hx
    rw [Function.update_self, write_of_lt (by simp)]
    simp
  · rw [Function.update_of_ne hx, write_of_ge]
    have : (x - a).toNat ≠ 0 := fun h => hx <| by
      have hsum := @add_ofNat_sub w a x
      rw [h] at hsum
      simpa using hsum.symm
    simp only [List.length_singleton]
    omega

/-- Bytes laid down after others extend them. -/
theorem write_write {bs cs : List Byte} (h : bs.length + cs.length ≤ 2 ^ w) :
    write (write m a bs) (a + BitVec.ofNat w bs.length) cs = write m a (bs ++ cs) := by
  funext x
  -- Write `x` as `a + i`; both sides depend on `i` only.
  obtain ⟨i, hi, hx⟩ : ∃ i, i < 2 ^ w ∧ x = a + BitVec.ofNat w i :=
    ⟨(x - a).toNat, BitVec.isLt _, add_ofNat_sub.symm⟩
  have hxa : (x - a).toNat = i := by rw [hx]; exact add_sub_toNat hi
  by_cases h1 : i < bs.length
  · have hge : cs.length ≤ (x - (a + BitVec.ofNat w bs.length)).toNat := by
      rw [hx, add_sub_add_toNat h1 (by omega)]
      omega
    rw [write_of_ge hge, write_of_lt (by omega), write_of_lt (by rw [List.length_append]; omega)]
    rw [List.getElem_append_left]
  · have hsub : (x - (a + BitVec.ofNat w bs.length)).toNat = i - bs.length := by
      have hx' : x = a + BitVec.ofNat w bs.length + BitVec.ofNat w (i - bs.length) := by
        rw [hx, BitVec.add_assoc, ← BitVec.ofNat_add]
        congr 2
        omega
      rw [hx']
      exact add_sub_toNat (by omega)
    by_cases h2 : i < bs.length + cs.length
    · rw [write_of_lt (by omega), write_of_lt (by rw [List.length_append]; omega)]
      rw [List.getElem_append_right (by omega)]
      simp only [hsub, hxa]
    · rw [write_of_ge (by omega), write_of_ge (by omega), write_of_ge (by rw [List.length_append]; omega)]

/-- What a write laid down is read back. -/
theorem read_write {bs : List Byte} {i k : Nat} (hi : i + k ≤ bs.length) (hw : bs.length ≤ 2 ^ w) :
    read (write m a bs) (a + BitVec.ofNat w i) k = (bs.drop i).take k := by
  refine List.ext_getElem (by simp [read]; omega) fun j hj hj' => ?_
  have hlt : j < k := by simpa [read] using hj
  have haddr : a + BitVec.ofNat w i + BitVec.ofNat w j = a + BitVec.ofNat w (i + j) := by
    rw [BitVec.add_assoc, ← BitVec.ofNat_add]
  simp only [read, List.getElem_map, List.getElem_range, List.getElem_take, List.getElem_drop]
  rw [haddr, write_apply (by omega) hw]

theorem byteAt_peek {i : Nat} (hi : 8 * i + 8 ≤ n) : byteAt (peek n m a) i = m (a + BitVec.ofNat w i) := by
  have : i < n / 8 := by omega
  rw [peek, byteAt_ofBytes _ hi]
  simp [read, List.getD_eq_getElem?_getD, this]

/-- A word is written as its bytes. -/
theorem poke_eq_write {v : BitVec n} {bs : List Byte} (hlen : bs.length = n / 8)
    (hbs : ∀ i, i < n / 8 → byteAt v i = bs.getD i 0) : poke m a v = write m a bs := by
  unfold poke
  congr 1
  apply List.ext_getElem (by simp [hlen])
  intro i h₁ h₂
  have hi : i < n / 8 := by simpa using h₁
  rw [List.getElem_map, List.getElem_range, hbs i hi, List.getD_eq_getElem _ _ h₂]

/-- A word that agrees with what the memory holds past its `k` lowest bytes writes only those. -/
theorem poke_eq_write_prefix {v : BitVec n} {bs : List Byte} (hlen : bs.length ≤ n / 8)
    (hlow : ∀ i, i < bs.length → byteAt v i = bs.getD i 0)
    (hhigh : ∀ i, bs.length ≤ i → i < n / 8 → byteAt v i = m (a + BitVec.ofNat w i)) :
    poke m a v = write m a bs := by
  funext x
  obtain ⟨i, hi, hx⟩ : ∃ i, i < 2 ^ w ∧ x = a + BitVec.ofNat w i :=
    ⟨(x - a).toNat, BitVec.isLt _, add_ofNat_sub.symm⟩
  have hxa : (x - a).toNat = i := by rw [hx]; exact add_sub_toNat hi
  unfold poke
  by_cases h : i < n / 8
  · rw [write_of_lt (by simpa [hxa] using h)]
    simp only [List.getElem_map, List.getElem_range, hxa]
    by_cases hk : i < bs.length
    · rw [hlow i hk, write_of_lt (by omega), List.getD_eq_getElem _ _ hk]
      simp only [hxa]
    · rw [hhigh i (by omega) h, write_of_ge (by omega), hx]
  · rw [write_of_ge (by rw [hxa]; simpa using h), write_of_ge (by omega)]

/-- A word read from memory, and written back with its `k` lowest bytes replaced, writes those only. -/
theorem poke_masked {bs : List Byte} (hlen : 8 * bs.length < n) :
    poke m a ((peek n m a &&& ~~~((1#n <<< (8 * bs.length)) - 1#n)) |||
      (ofBytes n bs &&& ((1#n <<< (8 * bs.length)) - 1#n))) = write m a bs := by
  refine poke_eq_write_prefix (by omega) (fun i hi => ?_) fun i hi hin => ?_
  · rw [byteAt_or, byteAt_and, byteAt_and, byteAt_not _ (by omega), byteAt_mask hlen (by omega), if_pos hi,
      byteAt_ofBytes _ (by omega), BitVec.and_allOnes, BitVec.not_allOnes, BitVec.and_zero, BitVec.zero_or]
  · rw [byteAt_or, byteAt_and, byteAt_and, byteAt_not _ (by omega), byteAt_mask hlen (by omega), if_neg (by omega),
      byteAt_peek (by omega), show ~~~(0 : Byte) = BitVec.allOnes 8 from rfl, BitVec.and_allOnes]
    simp

/-! ## The lowest byte of a word -/

theorem byteAt_255 {i : Nat} (hi : 8 * i + 8 ≤ n) : byteAt (255#n) i = if i = 0 then BitVec.allOnes 8 else 0 := by
  have h : (255#n) = (255#8).setWidth n := BitVec.eq_of_toNat_eq (by simp)
  rw [h, byteAt_setWidth _ hi]
  rfl

theorem byteAt_low {v : BitVec n} (hn : 8 ≤ n) : (v &&& 255#n).setWidth 8 = byteAt v 0 := by
  have hlow : (v &&& 255#n).setWidth 8 = byteAt (v &&& 255#n) 0 := by
    ext j hj
    simp [byteAt]
  rw [hlow, byteAt_and, byteAt_255 (by omega), if_pos rfl, BitVec.and_allOnes]

/-- A word read from memory, and written back with its lowest byte replaced, writes that byte only. -/
theorem poke_low (hn : 8 ≤ n) {b : Byte} :
    poke m a ((peek n m a &&& ~~~255#n) ||| b.setWidth n) = Function.update m a b := by
  rw [← write_singleton]
  refine poke_eq_write_prefix (by simp; omega) (fun i hi => ?_) fun i hi hin => ?_
  · obtain rfl : i = 0 := by simpa using hi
    rw [byteAt_or, byteAt_and, byteAt_not _ (by omega), byteAt_255 (by omega), byteAt_setWidth _ (by omega)]
    simp
  · have hne : i ≠ 0 := by simpa [Nat.one_le_iff_ne_zero] using hi
    rw [byteAt_or, byteAt_and, byteAt_not _ (by omega), byteAt_255 (by omega), byteAt_setWidth _ (by omega),
      if_neg hne, if_neg hne, byteAt_peek (by omega), show ~~~(0 : Byte) = BitVec.allOnes 8 from rfl,
      BitVec.and_allOnes]
    exact BitVec.or_zero

end Access

/-! ## Bytes of a buffer -/

/-- A field that a buffer holds completely does not depend on what is behind the buffer. -/
theorem take_drop_append {data beyond : List Byte} {pos n : Nat} (h : pos + n ≤ data.length) :
    ((data ++ beyond).drop pos).take n = (data.drop pos).take n := by
  rw [List.drop_append_of_le_length (by omega), List.take_append_of_le_length (by rw [List.length_drop]; omega)]

end ByteMemory
