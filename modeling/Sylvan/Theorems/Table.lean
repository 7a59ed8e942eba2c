import Sylvan.Breakpoint

/-! The breakpoint table. It is well formed (`TableOk`) when its entries fit the array and have distinct
    addresses; then it is a finite map from addresses to logical states (`logMap`). The edits that the
    functions of `breakpoint.c` make of it keep it well formed. -/

namespace Sylvan

namespace Inferior

def setLog (inf : Inferior) (i : Nat) (v : Bool) : Inferior := inf.setSlot i { inf.slot i with isEnabledLog := v }

def clearPhy (inf : Inferior) (i : Nat) : Inferior := inf.setSlot i { inf.slot i with isEnabledPhy := false }

/-- The slot after the last entry becomes an entry for `addr`. -/
def append (inf : Inferior) (addr : Addr) : Inferior :=
  { inf.setSlot inf.count { inf.slot inf.count with addr, isEnabledLog := true } with
    breakpointCount := inf.breakpointCount + 1 }

/-- Entry `i` is replaced by the last one. -/
def drop (inf : Inferior) (i : Nat) : Inferior :=
  { (if inf.count - 1 = 0 then inf else inf.setSlot i (inf.slot (inf.count - 1))) with
    breakpointCount := inf.breakpointCount - 1 }

/-- The entries fit the array and have distinct addresses. -/
structure TableOk (inf : Inferior) : Prop where
  nonneg : 0 ≤ inf.breakpointCount
  le : inf.breakpointCount ≤ maxBreakpoints
  distinct : SlotTable.Distinct Breakpoint.addr inf.slot inf.count

instance (inf : Inferior) : Decidable inf.TableOk :=
  decidable_of_iff (0 ≤ inf.breakpointCount ∧ inf.breakpointCount ≤ maxBreakpoints ∧
    SlotTable.Distinct Breakpoint.addr inf.slot inf.count) ⟨fun ⟨h0, h1, h2⟩ => ⟨h0, h1, h2⟩, fun ⟨h0, h1, h2⟩ => ⟨h0, h1, h2⟩⟩

/-- Whether the breakpoint at an address is enabled, for each address that has one. -/
def logMap (inf : Inferior) : Addr → Option Bool :=
  SlotTable.lookup Breakpoint.addr Breakpoint.isEnabledLog inf.slot inf.count

section
variable {inf inf' : Inferior} {i j : Nat} {addr : Addr} {v : Bool} {b : Breakpoint}

theorem TableOk.count_eq (h : inf.TableOk) : (inf.count : Int) = inf.breakpointCount := Int.toNat_of_nonneg h.nonneg

theorem TableOk.count_le (h : inf.TableOk) : inf.count ≤ maxBreakpoints := by
  have := h.count_eq
  have := h.le
  omega

theorem TableOk.lt (h : inf.TableOk) (hi : i < inf.count) : i < maxBreakpoints := Nat.lt_of_lt_of_le hi h.count_le

theorem tableOk_of_empty (h : inf.breakpointCount = 0) : inf.TableOk where
  nonneg := Int.le_of_eq h.symm
  le := by
    rw [h]
    exact Int.natCast_nonneg _
  distinct := by
    rw [count, h]
    exact SlotTable.Distinct.zero

/-- A table with as many entries, for the same addresses, is well formed too. -/
theorem TableOk.congr (h : inf.TableOk) (hn : inf'.breakpointCount = inf.breakpointCount)
    (ha : ∀ i, i < inf.count → (inf'.slot i).addr = (inf.slot i).addr) : inf'.TableOk where
  nonneg := hn ▸ h.nonneg
  le := hn ▸ h.le
  distinct := by
    have hc : inf'.count = inf.count := by rw [count, hn, count]
    rw [hc]
    exact h.distinct.congr ha

theorem slot_setSlot_self (hi : i < maxBreakpoints) : (inf.setSlot i b).slot i = b := by
  rw [slot_setSlot hi, Function.update_self]

theorem slot_setSlot_ne (hi : i < maxBreakpoints) (hj : j ≠ i) : (inf.setSlot i b).slot j = inf.slot j := by
  rw [slot_setSlot hi, Function.update_of_ne hj]

theorem setSlot_addr (hi : i < maxBreakpoints) (ha : b.addr = (inf.slot i).addr) (j : Nat) :
    ((inf.setSlot i b).slot j).addr = (inf.slot j).addr := by
  by_cases hj : j = i
  · rw [hj, slot_setSlot_self hi, ha]
  · rw [slot_setSlot_ne hi hj]

/-- An entry that keeps its address keeps the table well formed. -/
theorem TableOk.setSlot (h : inf.TableOk) (hi : i < maxBreakpoints) (ha : b.addr = (inf.slot i).addr) :
    (inf.setSlot i b).TableOk := h.congr rfl fun j _ => setSlot_addr hi ha j

/-! ### The map -/

theorem TableOk.find_iff (h : inf.TableOk) :
    breakpointFindByAddr inf addr = some i ↔ i < inf.count ∧ (inf.slot i).addr = addr := h.distinct.find_iff

theorem find_none : breakpointFindByAddr inf addr = none ↔ ∀ i, i < inf.count → (inf.slot i).addr ≠ addr :=
  SlotTable.find_eq_none

theorem find_some (h : breakpointFindByAddr inf addr = some i) : i < inf.count ∧ (inf.slot i).addr = addr :=
  SlotTable.find_eq_some h

theorem count_congr (hn : inf'.breakpointCount = inf.breakpointCount) : inf'.count = inf.count := by
  rw [count, hn, count]

theorem logMap_congr (hn : inf'.breakpointCount = inf.breakpointCount)
    (hs : ∀ i, i < inf.count → (inf'.slot i).addr = (inf.slot i).addr ∧
      (inf'.slot i).isEnabledLog = (inf.slot i).isEnabledLog) : inf'.logMap = inf.logMap := by
  funext addr
  rw [logMap, logMap, count_congr hn]
  exact SlotTable.lookup_congr hs

theorem logMap_eq_none : inf.logMap addr = none ↔ breakpointFindByAddr inf addr = none :=
  SlotTable.lookup_eq_none.trans find_none.symm

theorem logMap_ne_none (hfind : breakpointFindByAddr inf addr = some i) : inf.logMap addr ≠ none := fun hnone => by
  rw [logMap_eq_none, hfind] at hnone
  cases hnone

theorem TableOk.logMap_eq_some (h : inf.TableOk) :
    inf.logMap addr = some v ↔ ∃ i, i < inf.count ∧ (inf.slot i).addr = addr ∧ (inf.slot i).isEnabledLog = v :=
  h.distinct.lookup_iff

/-! ### Edits -/

@[simp] theorem setLog_status : (inf.setLog i v).status = inf.status := rfl
@[simp] theorem setLog_pid : (inf.setLog i v).pid = inf.pid := rfl
@[simp] theorem setLog_count : (inf.setLog i v).count = inf.count := rfl
@[simp] theorem setLog_isActive : (inf.setLog i v).IsActive = inf.IsActive := rfl
@[simp] theorem append_pid : (inf.append addr).pid = inf.pid := rfl
@[simp] theorem append_isActive : (inf.append addr).IsActive = inf.IsActive := rfl

theorem TableOk.append_count (h : inf.TableOk) : (inf.append addr).count = inf.count + 1 := by
  have := h.nonneg
  simp only [append, count]
  omega

theorem append_slot (hi : inf.count < maxBreakpoints) :
    (inf.append addr).slot =
      Function.update inf.slot inf.count { inf.slot inf.count with addr, isEnabledLog := true } := slot_setSlot hi

theorem TableOk.append (h : inf.TableOk) (hi : inf.count < maxBreakpoints)
    (hnew : breakpointFindByAddr inf addr = none) : (inf.append addr).TableOk where
  nonneg := Int.le_trans h.nonneg (Int.le_add_of_nonneg_right (by decide))
  le := by
    have := h.count_eq
    show inf.breakpointCount + 1 ≤ maxBreakpoints
    omega
  distinct := by
    rw [h.append_count, append_slot hi]
    exact h.distinct.push (SlotTable.find_eq_none.mp hnew)

@[simp] theorem drop_status : (inf.drop i).status = inf.status := by
  simp only [drop]
  split <;> rfl

@[simp] theorem drop_pid : (inf.drop i).pid = inf.pid := by
  simp only [drop]
  split <;> rfl

theorem drop_count : (inf.drop i).count = inf.count - 1 := by
  simp only [drop, count]
  omega

/-- The slots that `drop` leaves in use. -/
theorem drop_slot (hi : i < maxBreakpoints) (hj : j < inf.count - 1) :
    (inf.drop i).slot j = Function.update inf.slot i (inf.slot (inf.count - 1)) j := by
  have hslot : ∀ n, Inferior.slot { inf.setSlot i (inf.slot (inf.count - 1)) with breakpointCount := n } =
      (inf.setSlot i (inf.slot (inf.count - 1))).slot := fun _ => rfl
  have hne : ¬inf.count - 1 = 0 := by omega
  rw [drop, if_neg hne, hslot, slot_setSlot hi]

theorem TableOk.drop (h : inf.TableOk) (hi : i < inf.count) : (inf.drop i).TableOk where
  nonneg := by
    have := h.count_eq
    show 0 ≤ inf.breakpointCount - 1
    omega
  le := by
    have := h.le
    show inf.breakpointCount - 1 ≤ maxBreakpoints
    omega
  distinct := by
    rw [drop_count]
    exact (h.distinct.swapRemove hi).congr fun j hj => by rw [drop_slot (h.lt hi) hj]

/-- The first `k` entries alone. -/
theorem TableOk.truncate (h : inf.TableOk) {k : Nat} (hk : k ≤ inf.count) :
    TableOk { inf with breakpointCount := (k : Int) } where
  nonneg := Int.natCast_nonneg k
  le := by
    have := h.count_le
    show (k : Int) ≤ maxBreakpoints
    omega
  distinct i j hi hj := h.distinct i j (Nat.lt_of_lt_of_le hi hk) (Nat.lt_of_lt_of_le hj hk)

/-! ### Tables with the same entries -/

/-- `inf'` has the entries of `inf`, with the same logical states. -/
structure SameEntries (inf inf' : Inferior) : Prop where
  count : inf'.breakpointCount = inf.breakpointCount
  entry : ∀ i, (inf'.slot i).addr = (inf.slot i).addr ∧ (inf'.slot i).isEnabledLog = (inf.slot i).isEnabledLog

theorem SameEntries.refl (inf : Inferior) : SameEntries inf inf := ⟨rfl, fun _ => ⟨rfl, rfl⟩⟩

theorem SameEntries.trans {inf'' : Inferior} (h : SameEntries inf inf') (h' : SameEntries inf' inf'') :
    SameEntries inf inf'' :=
  ⟨h'.count.trans h.count, fun i => ⟨(h'.entry i).1.trans (h.entry i).1, (h'.entry i).2.trans (h.entry i).2⟩⟩

theorem SameEntries.tableOk (h : SameEntries inf inf') (ht : inf.TableOk) : inf'.TableOk :=
  ht.congr h.count fun i _ => (h.entry i).1

theorem SameEntries.logMap (h : SameEntries inf inf') : inf'.logMap = inf.logMap :=
  logMap_congr h.count fun i _ => h.entry i

/-! ### The map after an edit -/

theorem TableOk.logMap_setLog (h : inf.TableOk) (hi : i < inf.count) :
    (inf.setLog i v).logMap = Function.update inf.logMap (inf.slot i).addr (some v) := by
  rw [logMap, setLog_count, setLog, slot_setSlot (h.lt hi)]
  exact h.distinct.lookup_update hi rfl

theorem TableOk.logMap_append (h : inf.TableOk) (hi : inf.count < maxBreakpoints)
    (hnew : breakpointFindByAddr inf addr = none) :
    (inf.append addr).logMap = Function.update inf.logMap addr (some true) := by
  rw [logMap, h.append_count, append_slot hi]
  exact h.distinct.lookup_push (find_none.mp hnew)

theorem TableOk.logMap_drop (h : inf.TableOk) (hi : i < inf.count) :
    (inf.drop i).logMap = Function.update inf.logMap (inf.slot i).addr none := by
  refine Eq.trans ?_ (h.distinct.lookup_swapRemove hi)
  funext k
  rw [logMap, drop_count]
  exact SlotTable.lookup_congr fun j hj => by rw [drop_slot (h.lt hi) hj]; exact ⟨rfl, rfl⟩

end

end Inferior

end Sylvan
