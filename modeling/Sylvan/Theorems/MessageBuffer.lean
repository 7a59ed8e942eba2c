import Sylvan.Stores

/-! The stores of `sylvan_set_errno_msg`: whatever the lengths, they stay inside the buffer, and what they leave there is the
    message of `errnoText`. -/

namespace Sylvan

/-! ### Sizes -/

theorem count_eq {n : Nat} (h : n ≤ INT_MAX) : (BitVec.ofNat 32 n).signExtend 64 = BitVec.ofNat 64 n := by
  have hn : n < 2 ^ 31 := by
    have : (INT_MAX : Nat) < 2 ^ 31 := by decide
    exact Nat.lt_of_le_of_lt h this
  have hmsb : (BitVec.ofNat 32 n).msb = false := by
    rw [BitVec.msb_eq_false_iff_two_mul_lt, BitVec.toNat_ofNat]
    omega
  rw [BitVec.signExtend_eq_setWidth_of_msb_false hmsb]
  refine BitVec.eq_of_toNat_eq ?_
  simp only [BitVec.toNat_setWidth, BitVec.toNat_ofNat]
  omega

theorem count_lt_iff {n : Nat} (h : n ≤ INT_MAX) :
    BitVec.ofNat 64 n < BitVec.ofNat 64 errmsgBufferSize - 3 ↔ n < errmsgBufferSize - 3 := by
  have hrem : BitVec.ofNat 64 errmsgBufferSize - 3 = BitVec.ofNat 64 2045 := rfl
  have hmax : INT_MAX < 2 ^ 64 := by decide
  rw [hrem, BitVec.lt_def, BitVec.toNat_ofNat, BitVec.toNat_ofNat, Nat.mod_eq_of_lt (Nat.lt_of_le_of_lt h hmax)]
  exact Iff.rfl

/-- `rem` does not go below zero. -/
theorem rem_sub_count {n : Nat} (h : n < errmsgBufferSize - 3) :
    (BitVec.ofNat 64 errmsgBufferSize - BitVec.ofNat 64 n).toNat = errmsgBufferSize - n := by
  have hsize : errmsgBufferSize = 2048 := rfl
  rw [BitVec.toNat_sub_of_le, BitVec.toNat_ofNat, BitVec.toNat_ofNat, hsize]
  · omega
  · rw [BitVec.le_def, BitVec.toNat_ofNat, BitVec.toNat_ofNat, hsize]
    omega

/-! ### Stores -/

section
variable {buffer : Vector Char errmsgBufferSize} {text description : List Char}

theorem store_last {m q : List Char} (hm : m.length ≤ errmsgBufferSize - 1) (hlen : (m ++ '\x00' :: q).length = errmsgBufferSize) :
    ∃ q', Block.store (m ++ '\x00' :: q) (errmsgBufferSize - 1) ['\x00'] = some (m ++ '\x00' :: q') :=
  Block.exists_store_nul hm (by rw [hlen]; decide)

/-- The expansion is printed, up to the room there is. -/
theorem print_expansion : Block.print '\x00' buffer.toList 0 errmsgBufferSize text =
    some (text.take (errmsgBufferSize - 1) ++ '\x00' :: buffer.toList.drop ((text.take (errmsgBufferSize - 1)).length + 1)) := by
  rw [Block.print_eq (by decide), Block.store_start]
  · simp
  · have hsize : errmsgBufferSize = 2048 := rfl
    simp
    omega

/-- What the stores leave, for an expansion of at most `INT_MAX` characters -/
theorem errnoMsgStores_eq (h : text.length ≤ INT_MAX) : ∃ q rem,
    errnoMsgStores buffer text description =
      some ((if text.length < errmsgBufferSize - 3 then (text ++ ':' :: ' ' :: description).take (errmsgBufferSize - 1)
        else text.take (errmsgBufferSize - 1)) ++ '\x00' :: q, rem) ∧
    rem.toNat = if text.length < errmsgBufferSize - 3 then errmsgBufferSize - text.length else errmsgBufferSize := by
  have hsize : errmsgBufferSize = 2048 := rfl
  have hrem : (BitVec.ofNat 64 errmsgBufferSize).toNat = errmsgBufferSize := rfl
  unfold errnoMsgStores
  simp only [count_eq h, count_lt_iff h, hrem, print_expansion, Option.bind_eq_bind, Option.bind_some]
  by_cases hlt : text.length < errmsgBufferSize - 3
  · have hcount : (BitVec.ofNat 64 text.length).toNat = text.length := by
      rw [BitVec.toNat_ofNat]
      omega
    have htake : text.take (errmsgBufferSize - 1) = text := List.take_of_length_le (by omega)
    have hroom : ((':' :: ' ' :: description).take (errmsgBufferSize - text.length - 1)).length < errmsgBufferSize - text.length := by
      rw [List.length_take]
      omega
    obtain ⟨q, hq⟩ : ∃ q, Block.print '\x00' (text ++ '\x00' :: buffer.toList.drop (text.length + 1)) text.length
        (errmsgBufferSize - text.length) (':' :: ' ' :: description) =
          some ((text ++ ':' :: ' ' :: description).take (errmsgBufferSize - 1) ++ '\x00' :: q) := by
      rw [Block.print_eq (by omega), Block.store_behind (by simp at hroom ⊢; omega), List.take_append, htake]
      rw [Nat.sub_right_comm]
      generalize (':' :: ' ' :: description).take (errmsgBufferSize - 1 - text.length) = shown
      exact ⟨(buffer.toList.drop (text.length + 1)).drop shown.length, by simp⟩
    obtain ⟨q', hq'⟩ := store_last (List.length_take_le _ _) (q := q) (by
      rw [Block.length_print hq]
      simp
      omega)
    simp only [if_pos hlt, rem_sub_count hlt, hcount, htake, hq, hq', Option.bind_some, Option.pure_def]
    exact ⟨_, _, rfl, rem_sub_count hlt⟩
  · obtain ⟨q, hq⟩ := @store_last (text.take (errmsgBufferSize - 1)) (buffer.toList.drop ((text.take (errmsgBufferSize - 1)).length + 1))
      (List.length_take_le _ _) (by simp; omega)
    simp only [if_neg hlt, hq, Option.bind_some, Option.pure_def]
    exact ⟨_, _, rfl, hrem⟩

end

/-! ### The message -/

section
variable {text description : CStr}

theorem toList_errnoText : (errnoText text.text description.text).toList =
    if text.text.length < errmsgBufferSize - 3 then
      (text.text.toList ++ ':' :: ' ' :: description.text.toList).take (errmsgBufferSize - 1)
    else text.text.toList.take (errmsgBufferSize - 1) := by
  unfold errnoText
  split <;> simp [cut]

theorem errnoText_start : (errnoText text.text description.text).toList <+: text.text.toList ++ ':' :: ' ' :: description.text.toList := by
  rw [toList_errnoText]
  split
  · exact List.take_prefix _ _
  · exact (List.take_prefix _ _).trans (List.prefix_append _ _)

theorem length_errnoText : (errnoText text.text description.text).toList.length ≤ errmsgBufferSize - 1 := by
  rw [toList_errnoText]
  split <;> exact List.length_take_le _ _

theorem nonul_errnoText : '\x00' ∉ (errnoText text.text description.text).toList := by
  intro hmem
  rcases List.mem_append.mp (errnoText_start.subset hmem) with h | h
  · exact text.nonul h
  · simp [description.nonul] at h

/-- Where there is room for it, a colon follows the expansion. -/
theorem errnoText_within_iff :
    (errnoText text.text description.text).toList <+: text.text.toList ↔ errmsgBufferSize - 3 ≤ text.text.length := by
  have hsize : errmsgBufferSize = 2048 := rfl
  rw [toList_errnoText]
  constructor
  · intro hprefix
    by_contra hlt
    rw [if_pos (by omega)] at hprefix
    have hlen := hprefix.length_le
    simp only [List.length_take, List.length_append, List.length_cons, String.length_toList] at hlen
    omega
  · intro hge
    rw [if_neg (by omega)]
    exact List.take_prefix _ _

end

/-- The stores stay inside the buffer, and they leave a string of at most 2047 characters there, which starts as the expansion
    and the description do. It ends within the expansion if and only if that has 2045 characters or more. -/
theorem error_message_fits (buffer : Vector Char errmsgBufferSize) (text description : CStr) (h : text.text.length ≤ INT_MAX) :
    ∃ block rem message, errnoMsgStores buffer text.text.toList description.text.toList = some (block, rem) ∧
      Block.string '\x00' block 0 = some message ∧ message = (errnoText text.text description.text).toList ∧
      message.length ≤ 2047 ∧ message <+: text.text.toList ++ ": ".toList ++ description.text.toList ∧
      (message <+: text.text.toList ↔ 2045 ≤ text.text.length) ∧
      rem.toNat = if text.text.length < 2045 then 2048 - text.text.length else 2048 := by
  obtain ⟨q, rem, hstores, hrem⟩ := @errnoMsgStores_eq buffer text.text.toList description.text.toList (by rwa [String.length_toList])
  rw [String.length_toList, ← toList_errnoText] at hstores
  refine ⟨_, rem, _, hstores, Block.string_start nonul_errnoText, rfl, length_errnoText, ?_, errnoText_within_iff, ?_⟩
  · simpa using errnoText_start
  · rwa [String.length_toList] at hrem

theorem error_message_fits_kill : ∃ block rem message,
    errnoMsgStores (Vector.replicate errmsgBufferSize 'x') "kill".toList "No such process".toList = some (block, rem) ∧
      Block.string '\x00' block 0 = some message ∧ message = (errnoText "kill" "No such process").toList ∧
      message.length ≤ 2047 ∧ message <+: "kill".toList ++ ": ".toList ++ "No such process".toList ∧
      (message <+: "kill".toList ↔ 2045 ≤ "kill".length) ∧ rem.toNat = if "kill".length < 2045 then 2048 - "kill".length else 2048 :=
  error_message_fits _ ⟨"kill", by decide, []⟩ ⟨"No such process", by decide, []⟩ (by decide)

end Sylvan
