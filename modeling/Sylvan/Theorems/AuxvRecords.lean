import Mathlib.Data.List.TakeWhile
import Sylvan.Theorems.Commands

/-! Whether `parse_auxv` decodes the bytes that it is given, and no others. The memory that it may read is the buffer alone: a
    read behind the end of the buffer is a fault, and so is a store behind the end of the array. -/

namespace Sylvan
open Exec

/-- The size of a record -/
def entrySize (is64bit : Bool) : Nat := if is64bit then 16 else 8

/-- The complete records of `data` before the first of type `AT_NULL`, and the entry that ends them -/
def decodedAuxv (data : List Byte) (size : Nat) : List AuxvEntry :=
  (((List.range (data.length / size)).map (auxvRecord data size)).takeWhile fun entry => entry.type ≠ AT_NULL) ++ [⟨AT_NULL, 0⟩]

/-- `parse_auxv` decodes `data`, whatever is behind it, and if nothing may be read there. -/
def ParsesBuffer (data : List Byte) (is64bit : Bool) : Prop :=
  ∀ (beyond : List Byte) (env : UiEnv) (s : Session),
    wp (fun _ _ => False) (parseAuxv env (data ++ beyond) data.length is64bit)
      (fun r _ => r = if data.length < entrySize is64bit ∨ env.malloc s.state.scratch.clock = false then none
        else some (decodedAuxv data (entrySize is64bit))) (fun _ _ => False) s

/-- The bytes end with a record, or a type that they hold completely is `AT_NULL`. -/
def RecordsClosed (data : List Byte) (size : Nat) : Prop :=
  size ∣ data.length ∨ ∃ i, i * size + size / 2 ≤ data.length ∧ (auxvRecord data size i).type = AT_NULL

section
variable {data beyond : List Byte} {size maxEntries fuel i : Nat} {s : Session} {E : Int → Session → Prop}

theorem auxvRecord_type (h : i * size + size / 2 ≤ data.length) :
    (auxvRecord (data ++ beyond) size i).type = (auxvRecord data size i).type := by
  unfold auxvRecord
  rw [ByteMemory.take_drop_append h]

theorem auxvRecord_append (h : i * size + size ≤ data.length) :
    auxvRecord (data ++ beyond) size i = auxvRecord data size i := by
  unfold auxvRecord
  rw [ByteMemory.take_drop_append (by omega), ByteMemory.take_drop_append (by omega)]

theorem readBefore_within {n : Nat} (h : n ≤ data.length) : readBefore (data ++ beyond) n = pure () := by
  unfold readBefore
  refine when_false ?_
  rw [List.length_append]
  omega

theorem readBefore_outside {n : Nat} (h : data.length < n) : readBefore data n = Exec.fault .outOfBounds := when_true h

/-- The records are complete up to `data.length / size`. -/
theorem record_le (h : i < data.length / size) : i * size + size ≤ data.length := by
  have := Nat.mul_le_of_le_div _ _ _ (Nat.succ_le_of_lt h)
  rwa [Nat.succ_mul] at this

/-- The session after the allocation -/
def Session.ticked (s : Session) : Session := { s with state := s.state.withScratch s.state.scratch.tick }

theorem wp_parseAuxv {F : Fault → Session → Prop} {env : UiEnv} {buffer : List Byte} {len : Nat} {is64bit : Bool}
    {Q : Option (List AuxvEntry) → Session → Prop} :
    wp F (parseAuxv env buffer len is64bit) Q E s ↔
      if len < entrySize is64bit then Q none s
      else if env.malloc s.state.scratch.clock = false then Q none s.ticked
      else wp F (parseRecords buffer len (entrySize is64bit) (len / entrySize is64bit + 1) (len + 1) 0)
        (fun entries => wp F (Exec.when (len / entrySize is64bit + 1 ≤ entries.length) (Exec.fault .outOfBounds))
          (fun _ => Q (some (entries ++ [⟨AT_NULL, 0⟩]))) E) E s.ticked := by
  unfold parseAuxv
  show wp F (if len < entrySize is64bit then _ else _) Q E s ↔ _
  split
  · exact Iff.rfl
  · rw [wp_bind, wp_sys, wp_malloc_iff]
    split
    · exact Iff.rfl
    · rw [wp_bind]
      simp only [wp_bind, wp_pure]
      exact Iff.rfl

/-! ### Records that are closed -/

/-- What is left of the records at turn `i`. -/
theorem wp_parseRecords (hsize : 0 < size) (hmax : data.length / size < maxEntries) (hi : i ≤ data.length / size)
    (hfuel : data.length / size < fuel + i)
    (hclosed : size ∣ data.length ∨ ∃ j, i ≤ j ∧ j * size + size / 2 ≤ data.length ∧ (auxvRecord data size j).type = AT_NULL) :
    wp (fun _ _ => False) (parseRecords (data ++ beyond) data.length size maxEntries fuel i)
      (fun r _ => r = ((List.range' i (data.length / size - i)).map (auxvRecord data size)).takeWhile
        fun entry => entry.type ≠ AT_NULL) E s := by
  induction fuel generalizing i with
  | zero => omega
  | succ fuel ih =>
    unfold parseRecords
    by_cases hend : data.length ≤ i * size
    · have hlast : data.length / size - i = 0 := by
        have hle := Nat.div_le_of_le_mul (Nat.mul_comm i size ▸ hend)
        exact Nat.sub_eq_zero_of_le hle
      rw [if_pos hend, hlast]
      exact rfl
    rw [if_neg hend]
    by_cases hlt : i < data.length / size
    · have hrecord := record_le hlt
      have hrest : data.length / size - i = (data.length / size - (i + 1)) + 1 := by omega
      rw [readBefore_within (by omega), pure_bind, auxvRecord_append hrecord, hrest, List.range'_succ, List.map_cons]
      by_cases hnull : (auxvRecord data size i).type = AT_NULL
      · rw [if_pos hnull, List.takeWhile_cons_of_neg (by simp [hnull])]
        exact rfl
      · have hstored : ¬maxEntries ≤ i := by omega
        rw [if_neg hnull, when_false hstored, pure_bind, readBefore_within hrecord, pure_bind, wp_bind,
          List.takeWhile_cons_of_pos (by simp [hnull])]
        refine (ih hlt (by omega) ?_).imp (fun r t hr => ?_) fun _ _ => id
        · refine hclosed.imp_right fun ⟨j, hij, hj, htype⟩ => ⟨j, Nat.lt_of_le_of_ne hij ?_, hj, htype⟩
          rintro rfl
          exact hnull htype
        · subst hr
          rfl
    · -- the bytes that are left are no complete record
      have hlast : data.length / size = i := by omega
      rcases hclosed with hdvd | ⟨j, hij, hj, htype⟩
      · rw [← hlast, Nat.div_mul_cancel hdvd] at hend
        exact absurd (Nat.le_refl _) hend
      · have hji : j = i := by
          have : j ≤ data.length / size := (Nat.le_div_iff_mul_le hsize).mpr (by omega)
          omega
        subst hji
        rw [readBefore_within hj, pure_bind, auxvRecord_type hj, if_pos htype, hlast, Nat.sub_self]
        exact rfl

theorem parsesBuffer_of_closed {is64bit : Bool} (h : data.length < entrySize is64bit ∨ RecordsClosed data (entrySize is64bit)) :
    ParsesBuffer data is64bit := by
  intro beyond env s
  rw [wp_parseAuxv]
  split
  · rename_i hshort
    rw [if_pos (Or.inl hshort)]
  rename_i hshort
  split
  · rename_i halloc
    rw [if_pos (Or.inr halloc)]
  rename_i halloc
  have hsize : 0 < entrySize is64bit := by cases is64bit <;> decide
  have hcount := Nat.div_le_self data.length (entrySize is64bit)
  have hclosed : entrySize is64bit ∣ data.length ∨ ∃ j, 0 ≤ j ∧ j * entrySize is64bit + entrySize is64bit / 2 ≤ data.length ∧
      (auxvRecord data (entrySize is64bit) j).type = AT_NULL :=
    (h.resolve_left hshort).imp_right fun ⟨j, hj⟩ => ⟨j, Nat.zero_le j, hj⟩
  refine (wp_parseRecords hsize (Nat.lt_succ_self _) (Nat.zero_le _) (by omega) hclosed).imp (fun r t hr => ?_) fun _ _ => id
  rw [Nat.sub_zero, ← List.range_eq_range'] at hr
  subst hr
  have hstored : ¬data.length / entrySize is64bit + 1 ≤ (((List.range (data.length / entrySize is64bit)).map
      (auxvRecord data (entrySize is64bit))).takeWhile fun entry => entry.type ≠ AT_NULL).length := by
    refine Nat.not_le.mpr (Nat.lt_succ_of_le (Nat.le_trans (List.takeWhile_sublist _).length_le ?_))
    rw [List.length_map, List.length_range]
  rw [when_false hstored, wp_pure, if_neg (not_or.mpr ⟨hshort, halloc⟩)]
  rfl

/-! ### Records that are not closed -/

/-- The loop comes to the incomplete record and reads behind the end. -/
theorem not_wp_parseRecords {Q : List AuxvEntry → Session → Prop} (hsize : 0 < size) (hmax : data.length / size < maxEntries)
    (hi : i ≤ data.length / size) (hfuel : data.length / size < fuel + i) (hopen : ¬RecordsClosed data size) :
    ¬wp (fun _ _ => False) (parseRecords data data.length size maxEntries fuel i) Q E s := by
  have hdvd : ¬size ∣ data.length := fun h => hopen (Or.inl h)
  have htype : ∀ {j}, j * size + size / 2 ≤ data.length → (auxvRecord data size j).type ≠ AT_NULL := fun {j} hj hnull =>
    hopen (Or.inr ⟨j, hj, hnull⟩)
  have hmod : 0 < data.length % size := Nat.pos_of_ne_zero fun h => hdvd (Nat.dvd_of_mod_eq_zero h)
  have hlen := Nat.div_add_mod' data.length size
  have hwithin : ∀ {n}, n ≤ data.length → readBefore data n = pure () := fun {n} hn => by
    have := @readBefore_within data [] n hn
    rwa [List.append_nil] at this
  induction fuel generalizing i Q with
  | zero => omega
  | succ fuel ih =>
    have hle := Nat.mul_le_mul_right size hi
    have hend : ¬data.length ≤ i * size := by omega
    have hstored : ¬maxEntries ≤ i := by omega
    unfold parseRecords
    rw [if_neg hend]
    by_cases hlt : i < data.length / size
    · have hrecord := record_le hlt
      rw [hwithin (by omega), pure_bind, if_neg (htype (by omega)), when_false hstored, pure_bind, hwithin hrecord, pure_bind, wp_bind]
      exact ih hlt (by omega)
    · obtain rfl : i = data.length / size := by omega
      have hshort : data.length < data.length / size * size + size := by
        have := Nat.mod_lt data.length hsize
        omega
      by_cases hhalf : data.length / size * size + size / 2 ≤ data.length
      · rw [hwithin hhalf, pure_bind, if_neg (htype hhalf), when_false hstored, pure_bind, readBefore_outside hshort]
        exact id
      · rw [readBefore_outside (Nat.lt_of_not_le hhalf)]
        exact id

theorem closed_of_parsesBuffer {is64bit : Bool} (h : ParsesBuffer data is64bit) :
    data.length < entrySize is64bit ∨ RecordsClosed data (entrySize is64bit) := by
  by_contra hall
  rw [not_or] at hall
  obtain ⟨hshort, hopen⟩ := hall
  have hsize : 0 < entrySize is64bit := by cases is64bit <;> decide
  have hcount := Nat.div_le_self data.length (entrySize is64bit)
  have hrun := h [] (UiEnv.on .compliant) (Session.on State.blank)
  have halloc : ¬(UiEnv.on Env.compliant).malloc (Session.on State.blank).state.scratch.clock = false := Bool.noConfusion
  rw [wp_parseAuxv, if_neg hshort, if_neg halloc, List.append_nil] at hrun
  exact not_wp_parseRecords hsize (Nat.lt_succ_self _) (Nat.zero_le _) (by omega) hopen hrun

end

/-- `parse_auxv` decodes its bytes, reading and storing only where it may, if and only if there are fewer bytes than a record has,
    or the bytes end with a record, or a type that they hold completely is `AT_NULL`. -/
theorem auxv_decoded_iff (data : List Byte) (is64bit : Bool) :
    ParsesBuffer data is64bit ↔ data.length < entrySize is64bit ∨ RecordsClosed data (entrySize is64bit) :=
  ⟨closed_of_parsesBuffer, parsesBuffer_of_closed⟩

/-- A record and one byte of another -/
theorem auxv_overrun : ¬ParsesBuffer (List.replicate 17 1) true := by
  intro h
  rcases closed_of_parsesBuffer h with hshort | hdvd | ⟨i, hi, hnull⟩
  · exact absurd hshort (by decide)
  · exact absurd hdvd (by decide)
  · obtain rfl : i = 0 := by
      have : i * 16 + 8 ≤ 17 := hi
      omega
    exact absurd hnull (by decide)

end Sylvan
