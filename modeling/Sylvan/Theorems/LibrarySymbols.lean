import Sylvan.Theorems.LibraryObjects
import Sylvan.Theorems.TableCounts

/-! # Symbol tables in memory

The functions of `symbol.c` do to the arrays and the names in memory what their models do to the tables. A table is rebuilt by
freeing its names and its array first, so a load leaves nothing of the table that was there before. -/

namespace Sylvan
open Exec Heap SymbolEntry

/-- `x` does in memory what `y` does, and leaves the other blocks alone. -/
def Agrees {α : Type} (rest : LibraryBlocks) (x : LibraryM α) (y : SylvanM α) : Prop :=
  ∀ m s, Owns rest m s → rwp .lib x y (fun a b m' s' => a = b ∧ Owns rest m' s') (Owns rest) m s

/-- It does so in states where `P` holds. -/
def AgreesWhere {α : Type} (P : State → Prop) (rest : LibraryBlocks) (x : LibraryM α) (y : SylvanM α) : Prop :=
  ∀ m s, Owns rest m s → P s → rwp .lib x y (fun a b m' s' => a = b ∧ Owns rest m' s') (Owns rest) m s

/-- A step before it leaves `P` as it was. -/
theorem Agrees.bind_where {α β : Type} {P : State → Prop} {rest : LibraryBlocks} {x : LibraryM α} {y : SylvanM α} {f : α → LibraryM β}
    {g : α → SylvanM β} (h : Agrees rest x y) (hy : ∀ s, P s → wp (fun _ _ => True) y (fun _ t => P t) (fun _ _ => True) s)
    (hfg : ∀ a, AgreesWhere P rest (f a) (g a)) : AgreesWhere P rest (x >>= f) (y >>= g) := fun m s hm hs =>
  ((h m s hm).and_wp (hy s hs)).bind (fun a _ m' s' h => h.1.1 ▸ hfg a m' s' h.1.2 h.2) fun _ _ => And.left

theorem Agrees.anywhere {α : Type} {P : State → Prop} {rest : LibraryBlocks} {x : LibraryM α} {y : SylvanM α} (h : Agrees rest x y) :
    AgreesWhere P rest x y := fun m s hm _ => h m s hm

namespace Agrees
variable {α β : Type} {rest : LibraryBlocks} {x : LibraryM α} {y : SylvanM α}

theorem reading (hy : Keeps SameOwned y) : Agrees rest (Library.reading y) y := fun _ _ hm =>
  (rwp_reading hy hm).mono (fun _ _ _ _ h => ⟨h.1, h.2.2⟩) fun _ _ => And.right

protected theorem pure (a : α) : Agrees rest (pure a) (pure a) := fun _ _ hm => ⟨rfl, hm⟩

theorem error {c : Code} : Agrees rest (Exec.error c : LibraryM α) (Exec.error c) := fun _ _ hm => rwp_error.mpr hm

theorem fault {f : Fault} : Agrees rest (Exec.fault (.lib f) : LibraryM α) (Exec.fault f) := fun _ _ _ => rwp_fault

theorem bind {f : α → LibraryM β} {g : α → SylvanM β} (h : Agrees rest x y) (hfg : ∀ a, Agrees rest (f a) (g a)) :
    Agrees rest (x >>= f) (y >>= g) := fun m s hm =>
  (h m s hm).bind (fun a _ m' s' h => h.1 ▸ hfg a m' s' h.2) fun _ _ => id

theorem ite {c : Prop} [Decidable c] {x' : LibraryM α} {y' : SylvanM α} (h : Agrees rest x y) (h' : Agrees rest x' y') :
    Agrees rest (if c then x else x') (if c then y else y') := fun m s hm => rwp.ite (fun _ => h m s hm) fun _ => h' m s hm

theorem when {c : Prop} [Decidable c] {x : LibraryM Unit} {y : SylvanM Unit} (h : Agrees rest x y) :
    Agrees rest (Exec.when c x) (Exec.when c y) := ite h (.pure ())

theorem attempt (h : Agrees rest x y) : Agrees rest (Exec.attempt x) (Exec.attempt y) := fun m s hm => by
  have hbind : rwp .lib (Exec.attempt x >>= pure) (Exec.attempt y >>= pure) (fun a b m' s' => a = b ∧ Owns rest m' s') (Owns rest) m s := by
    refine (h m s hm).attempt_bind (fun _ _ m' s' hab => ?_) fun e m' s' hm' => ⟨rfl, hm'⟩
    obtain ⟨rfl, hm'⟩ := hab
    exact ⟨rfl, hm'⟩
  rwa [bind_pure, bind_pure] at hbind

theorem catching {f : Code → LibraryM α} {g : Code → SylvanM α} (h : Agrees rest x y) (hfg : ∀ c, Agrees rest (f c) (g c)) :
    Agrees rest (Exec.catching x f) (Exec.catching y g) := fun m s hm => (h m s hm).catching fun c m' s' => hfg c m' s'

theorem each {f : α → LibraryM Unit} {g : α → SylvanM Unit} (h : ∀ a, Agrees rest (f a) (g a)) (l : List α) :
    Agrees rest (Exec.each l f) (Exec.each l g) := fun m s hm =>
  (rwp_each (R := Owns rest) (fun a m s hm => (h a m s hm).mono (fun _ _ _ _ h => h.2) fun _ _ => id) l m s hm).mono
    (fun _ _ _ _ h => ⟨rfl, h⟩) fun _ _ => id

end Agrees

section
variable {env : LibraryEnv} {rest B F : LibraryBlocks} {m : Library} {s : State} {which : TableId} {entries : List SymbolEntry}

/-! ### Tables and their pointers -/

theorem TableAt.count {ptrs : SymTablePtrs} {table : SymTable} (h : TableAt ptrs table B) : ptrs.count = table.symbols.length := by
  cases h with
  | null => rfl
  | block => exact (List.length_map ..).symm

theorem TableAt.capacity {ptrs : SymTablePtrs} {table : SymTable} (h : TableAt ptrs table B) : ptrs.capacity = table.capacity := by
  cases h <;> rfl

/-- No element of the array was written. -/
theorem TableAt.unwritten {ptrs : SymTablePtrs} {table : SymTable} {p : Nat} (h : TableAt ptrs table B) (hp : ptrs.symbols = some p)
    (hcount : ptrs.count = 0) : ∃ n, B = single p (.symbols (List.replicate n none)) := by
  cases h with
  | null => cases hp
  | block p entries capacity allocated fits =>
    cases hp
    obtain rfl := List.eq_nil_of_length_eq_zero hcount
    exact ⟨allocated, add_zero _⟩

theorem TextAt.eq_zero {text : Option String} (h : TextAt none text B) : B = 0 := by
  cases h with
  | null => rfl

theorem TableAt.eq_zero {ptrs : SymTablePtrs} {table : SymTable} (h : TableAt ptrs table B) (hnull : ptrs.symbols = none) : B = 0 := by
  cases h with
  | null => rfl
  | block => cases hnull

@[simp] theorem setTable_setTable {ptrs : InferiorPtrs} {table table' : SymTablePtrs} :
    (ptrs.setTable which table).setTable which table' = ptrs.setTable which table' := by
  cases which <;> rfl

@[simp] theorem ptrs_setTable_table {ptrs : InferiorPtrs} : ptrs.setTable which (ptrs.table which) = ptrs := by
  cases which <;> rfl

theorem owned_setTable {table : SymTable} : (s.setTable which table).inf.owned = s.inf.owned.setTable which table := by
  cases which <;> rfl

theorem alike_setTable {u : State} {table : SymTable} (h : Alike u s) : Alike u (s.setTable which table) := by
  unfold Alike at h ⊢
  rw [← h]
  cases which <;> rfl

theorem names_nil : names [] = 0 := rfl

theorem cells_nil {n : Nat} : cells [] n = List.replicate n none := by
  simp [cells]

/-! ### Allocating a table -/

theorem rwp_setCode {α β : Type} {c : Code} (hm : Owns rest m s) :
    rwp .lib (Library.reading (setCode c) : LibraryM α) (setCode c : SylvanM β) (fun _ _ _ _ => False)
      (fun m' s' => m'.ptrs = m.ptrs ∧ Owns rest m' s') m s := by
  simp only [rwp, Library.reading, hm.view]
  exact ⟨rfl, rfl, hm.sameOwned rfl⟩

theorem rwp_symTableInit (hsane : env.Sane) (hm : Owns rest m s) (hnull : (m.ptrs.table which).symbols = none) :
    rwp .lib (Library.symTableInit env which) (symTableInit env.toEnv which)
      (fun _ _ m' s' => Owns rest m' s' ∧ (env.malloc s.scratch.clock = true ∧ s'.scratch.clock = s.scratch.clock + 1) ∧
        ∃ p, m'.ptrs = m.ptrs.setTable which ⟨some p, 0, 256⟩)
      (fun m' s' => Owns rest m' s' ∧ env.malloc s.scratch.clock = false ∧ m'.ptrs = m.ptrs.setTable which ⟨none, 0, 256⟩) m s := by
  obtain ⟨B, F, ht, hb, hback⟩ := hm.table which
  obtain rfl := ht.eq_zero hnull
  unfold Library.symTableInit symTableInit
  refine rwp_malloc hsane hm.alike.scratch_eq (fun hgranted q heap hheap => ?_) fun hgranted => ?_
  · refine ⟨hback (.block q [] 256 256 (Nat.zero_le _)) (alike_setTable hm.alike.scratch) owned_setTable rfl ?_, ⟨hgranted, rfl⟩, q, rfl⟩
    rw [hheap, hb, zero_add, cells_nil, names_nil, add_zero]
  · refine rwp.bind (Q := fun _ _ m' s' => Owns rest m' s' ∧ m'.ptrs = m.ptrs.setTable which ⟨none, 0, 256⟩) (E := fun _ _ => False)
      ⟨hback (.null 256) (alike_setTable hm.alike.scratch) owned_setTable rfl hb, rfl⟩ (fun _ _ m' s' h => ?_) fun _ _ => False.elim
    exact (rwp_setCode h.1).mono (fun _ _ _ _ => False.elim) fun _ _ h' => ⟨h'.2, hgranted, h'.1.trans h.2⟩

/-! ### Freeing a table -/

theorem textAt_name {e : SymbolEntry} : TextAt e.cell.name e.symbol.name (names [e]) := by
  obtain ⟨name, addr⟩ := e
  cases name with
  | none => exact .null
  | some n => exact .block n.1 n.2

theorem getElem?_cells {n i : Nat} (hi : i < entries.length) : (cells entries n)[i]? = some (some entries[i].cell) := by
  rw [cells, List.getElem?_append_left (by simpa using hi)]
  simp [hi]

theorem names_drop {i : Nat} (hi : i < entries.length) : names (entries.drop i) = names [entries[i]] + names (entries.drop (i + 1)) := by
  rw [List.drop_eq_getElem_cons hi, names_cons]

theorem count_toInt {n : Nat} (hn : n < 2 ^ 31) : (BitVec.ofNat 32 n).toInt.toNat = n := by
  have hmod : (n : Int).bmod (2 ^ 32) = n := Int.bmod_eq_of_le_mul_two (by omega) (by omega)
  rw [BitVec.toInt_eq_toNat_bmod, BitVec.toNat_ofNat, Nat.mod_eq_of_lt (by omega), hmod, Int.toNat_natCast]

/-- The names go one after another, then the array. -/
theorem wp_symTableDestroy {E : Code → Library → Prop} {table : SymTable} (ht : TableAt (m.ptrs.table which) table B)
    (hfits : table.symbols.length < 2 ^ 31) (hb : m.heap.blocks = B + F) :
    wp (fun _ _ => False) (Library.symTableDestroy which)
      (fun _ m' => ∃ heap, Heap.blocks heap = F ∧ m' = { m with ptrs := m.ptrs.setTable which ⟨none, 0, 0⟩, heap }) E m := by
  unfold Library.symTableDestroy
  rw [wp_bind, wp_get]
  dsimp only
  rw [count_toInt (ht.count ▸ hfits)]
  generalize m.ptrs.table which = ptrs at ht
  cases ht with
  | null => exact ⟨m.heap, by rw [hb, zero_add], rfl⟩
  | block p entries capacity allocated fits =>
    let I := fun k m' => ∃ heap, Heap.blocks heap = single p (.symbols (cells entries allocated)) + names (entries.drop k) + F ∧
      m' = { m with heap }
    rw [wp_bind]
    refine (wp_each_range (I := I) ⟨m.heap, hb, rfl⟩ fun k u hk hu => ?_).imp (fun _ u hu => ?_) fun _ _ => id
    · obtain ⟨heap, hheap, rfl⟩ := hu
      rw [names_drop hk] at hheap
      unfold Library.cellAt
      rw [wp_bind, wp_bind]
      refine wp_loadCells (F := names [entries[k]] + names (entries.drop (k + 1)) + F) (by rw [hheap]; abel) ?_
      rw [getElem?_cells hk]
      refine wp_free_text (textAt_name (e := entries[k])) (F := single p (.symbols (cells entries allocated)) +
        names (entries.drop (k + 1)) + F) (by rw [hheap]; abel) fun heap' hheap' => ⟨heap', hheap', rfl⟩
    · obtain ⟨heap, hheap, rfl⟩ := hu
      rw [List.drop_length, names_nil, add_zero] at hheap
      rw [wp_bind]
      exact wp_free_block hheap fun heap' hheap' => ⟨heap', hheap', rfl⟩

theorem rwp_symTableDestroy (hm : Owns rest m s) (hfits : s.CountsFit) :
    rwp .lib (Library.symTableDestroy which) (symTableDestroy which)
      (fun _ _ m' s' => (Owns rest m' s' ∧ m'.ptrs = m.ptrs.setTable which ⟨none, 0, 0⟩) ∧ s'.CountsFit) (Owns rest) m s := by
  obtain ⟨B, F, ht, hb, hback⟩ := hm.table which
  have hleft : (s.setTable which ⟨[], 0, 0⟩).CountsFit := fun id => by
    by_cases hid : id = which
    · subst hid
      rw [setTable_table]
      decide
    · rw [setTable_other hid]
      exact hfits id
  refine rwp.of_wp ((wp_symTableDestroy ht (hfits which) hb).imp (fun _ m' h => ⟨(), _, rfl, ?_⟩) fun _ _ => id)
  obtain ⟨heap, hheap, rfl⟩ := h
  exact ⟨⟨hback (.null 0) (alike_setTable hm.alike) owned_setTable rfl (by rw [hheap, zero_add]), rfl⟩, hleft⟩

theorem rwp_symDestroy (hm : Owns rest m s) (hfits : s.CountsFit) :
    rwp .lib Library.symDestroy symDestroy (fun _ _ m' s' => Owns rest m' s' ∧ m'.ptrs = { m.ptrs with
      elfTable := ⟨none, 0, 0⟩, dwarfTable := ⟨none, 0, 0⟩ }) (Owns rest) m s := by
  refine (rwp_symTableDestroy hm hfits).bind (fun _ _ m' s' h => ?_) fun _ _ => id
  refine (rwp_symTableDestroy h.1.1 h.2).mono (fun _ _ m'' s'' h' => ⟨h'.1.1, ?_⟩) fun _ _ => id
  rw [h'.1.2, h.1.2]
  rfl

/-- Where one array is allocated and the other is not, the error leaves it. -/
theorem rwp_symInit (hsane : env.Sane) (hm : Owns rest m s) (hnull : ∀ which, (m.ptrs.table which).symbols = none) :
    rwp .lib (Library.symInit env) (symInit env.toEnv) (fun _ _ m' s' => Owns rest m' s')
      (fun m' s' => Owns rest m' s' ∧ if env.malloc s.scratch.clock = true then
        ∃ p, m'.ptrs = (m.ptrs.setTable .elf ⟨some p, 0, 256⟩).setTable .dwarf ⟨none, 0, 256⟩
        else m'.ptrs = m.ptrs.setTable .elf ⟨none, 0, 256⟩) m s := by
  refine (rwp_symTableInit hsane hm (hnull .elf)).bind (fun _ _ m' s' h => ?_) fun m' s' h => ⟨h.1, by simpa [h.2.1] using h.2.2⟩
  obtain ⟨hm', hgranted, p, hp⟩ := h
  refine (rwp_symTableInit hsane hm' (by rw [hp]; exact hnull .dwarf)).mono (fun _ _ _ _ h' => h'.1) fun m'' s'' h' => ?_
  exact ⟨h'.1, by simpa [hgranted.1] using ⟨p, by rw [h'.2.2, hp]⟩⟩

/-! ### Adding a symbol -/

/-- The array that `realloc` makes of one -/
theorem cells_grown {n capacity : Nat} (hn : entries.length ≤ n) (hc : entries.length ≤ capacity) :
    (cells entries n).take capacity ++ List.replicate (capacity - (cells entries n).length) none = cells entries capacity := by
  have hmap : (entries.map (some ∘ cell)).length = entries.length := List.length_map ..
  have hsum : min (capacity - entries.length) (n - entries.length) + (capacity - n) = capacity - entries.length := by omega
  rw [length_symbolCells hn, cells, List.take_append, List.take_of_length_le (by omega), List.take_replicate, hmap, List.append_assoc,
    List.replicate_append_replicate, hsum]
  rfl

/-- The first element that was not written is written. -/
theorem cells_set {n : Nat} (hn : entries.length < n) {e : SymbolEntry} :
    (cells entries n).set entries.length (some e.cell) = cells (entries ++ [e]) n := by
  have hmap : (entries.map (some ∘ cell)).length = entries.length := List.length_map ..
  obtain ⟨k, hk⟩ : ∃ k, n - entries.length = k + 1 := ⟨n - entries.length - 1, by omega⟩
  have hlast : n - (entries ++ [e]).length = k := by
    rw [List.length_append, List.length_singleton]
    omega
  rw [cells, cells, hk, hlast, List.set_append_right _ _ (Nat.le_of_eq hmap), hmap, Nat.sub_self, List.replicate_succ, List.set_cons_zero]
  simp

theorem names_append {e : SymbolEntry} : names (entries ++ [e]) = names [e] + names entries := by
  unfold names
  rw [List.filterMap_append, ← Multiset.coe_add, add_comm]

/-- The array moves to a block of `capacity` elements. -/
theorem rwp_reallocCells {α β : Type} {ptrs : SymTablePtrs} {table : SymTable} {capacity : Nat} {f : Option Nat → LibraryM α}
    {g : Bool → SylvanM β} {Q : α → β → Library → State → Prop} {E : Library → State → Prop} (hsane : env.Sane)
    (hscratch : m.state.scratch = s.scratch) (ht : TableAt ptrs table B) (hb : m.heap.blocks = B + F)
    (hc : table.symbols.length ≤ capacity)
    (hyes : ∀ q heap x B', TableAt ⟨some q, ptrs.count, capacity⟩ ⟨table.symbols, capacity, capacity⟩ B' → Heap.blocks heap = B' + F →
      rwp .lib (f (some q)) (g true) Q E { m with state := m.state.withScratch x, heap } (s.withScratch x))
    (hno : ∀ x, rwp .lib (f none) (g false) Q E { m with state := m.state.withScratch x } (s.withScratch x)) :
    rwp .lib (Library.reallocCells env ptrs.symbols capacity >>= f) (Sys.malloc env.toEnv >>= g) Q E m s := by
  unfold Library.reallocCells
  rw [bind_assoc]
  refine rwp_granted hscratch ?_
  generalize s.scratch.tick = x
  cases env.malloc s.scratch.clock with
  | false => exact hno x
  | true =>
    rw [if_pos rfl]
    cases ht with
    | null =>
      rw [bind_assoc]
      refine rwp.left (wp_newBlock hsane fun q heap hheap => hyes q heap x _ (.block q [] capacity capacity (Nat.zero_le _)) ?_)
      rw [hheap, hb, zero_add, cells_nil, names_nil, add_zero]
    | block p entries _ allocated fits =>
      have hlen : entries.length ≤ capacity := by simpa using hc
      simp only [bind_assoc]
      refine rwp.left (wp_loadCells (F := names entries + F) (by rw [hb]; abel) ?_)
      refine rwp.left (wp_zoom.mpr (wp_release (B := names entries + F) (by rw [hb]; abel) fun heap hheap => ?_))
      rw [cells_grown fits hlen]
      refine rwp.left (wp_newBlock hsane fun q heap' hheap' => hyes q heap' x _ (.block q entries capacity capacity hlen) ?_)
      rw [hheap', hheap]
      abel

theorem agrees_symGrow (hsane : env.Sane) : Agrees rest (Library.symGrow env which) (symGrow env.toEnv which) := fun m s hm => by
  obtain ⟨B, F, ht, hb, hback⟩ := hm.table which
  unfold Library.symGrow symGrow
  refine rwp_get.mpr ?_
  dsimp only
  rw [ht.count, ht.capacity]
  generalize hptrs : m.ptrs.table which = ptrs at ht
  generalize htable : s.inf.table which = table at ht
  refine rwp.when (fun hfull => ?_) fun _ => ⟨rfl, hm⟩
  have hgrown : table.symbols.length ≤ table.capacity <<< 1 := by
    rw [hfull, Nat.shiftLeft_eq]
    omega
  have hset : Owns rest { m with ptrs := m.ptrs.setTable which ⟨ptrs.symbols, table.symbols.length, table.capacity <<< 1⟩ }
      (s.setTable which { table with capacity := table.capacity <<< 1 }) := by
    have ht' : TableAt ⟨ptrs.symbols, table.symbols.length, table.capacity <<< 1⟩ { table with capacity := table.capacity <<< 1 } B := by
      cases ht with
      | null => exact .null _
      | block p entries _ allocated fits =>
        rw [List.length_map]
        exact .block p entries _ allocated fits
    exact hback ht' (alike_setTable hm.alike) owned_setTable rfl hb
  refine rwp.bind (Q := fun _ _ m' s' => m' = _ ∧ s' = _) (E := fun _ _ => False) ⟨rfl, rfl⟩ (fun _ _ m' s' h => ?_) fun _ _ => False.elim
  obtain ⟨rfl, rfl⟩ := h
  refine rwp_reallocCells hsane hset.alike.scratch_eq ht hb hgrown (fun q heap x B' ht' hheap => ?_) fun x => ?_
  · rw [ht.count] at ht'
    refine ⟨rfl, hback ht' (alike_setTable (alike_setTable hm.alike).scratch) ?_ setTable_setTable hheap⟩
    cases which <;> rfl
  · exact ((rwp_setCode hset.scratch).mono (fun _ _ _ _ => id) fun _ _ h => h.2).right_fails

/-- The symbol is stored behind the others. -/
theorem wp_storeEntry {p allocated : Nat} (capacity : Nat) {e : SymbolEntry} (hlt : entries.length < allocated)
    (hb : m.heap.blocks = names [e] + (single p (.symbols (cells entries allocated)) + names entries) + F)
    {E : Code → Library → Prop} {Q : Unit → Library → Prop}
    (hQ : ∀ heap B, TableAt ⟨some p, entries.length + 1, capacity⟩ ⟨entries.map symbol ++ [e.symbol], capacity, allocated⟩ B →
      Heap.blocks heap = B + F → Q () { m with heap }) :
    wp (fun _ _ => False) (Library.onHeap (Heap.store p (.symbols ((cells entries allocated).set entries.length (some e.cell))))) Q E m := by
  have ht := TableAt.block p (entries ++ [e]) capacity allocated (by rwa [List.length_append])
  rw [List.length_append, List.map_append] at ht
  refine wp_zoom.mpr (wp_store (B := names [e] + names entries + F) (by rw [hb]; abel) fun heap hheap => hQ heap _ ht ?_)
  rw [hheap, cells_set hlt, names_append]
  abel

theorem agrees_symAdd (hsane : env.Sane) {name : String} {addr : Addr} :
    Agrees rest (Library.symAdd env which name addr) (symAdd env.toEnv which name addr) := by
  refine (agrees_symGrow hsane).bind fun _ m s hm => ?_
  obtain ⟨B, F, ht, hb, hback⟩ := hm.table which
  refine rwp_get.mpr ?_
  dsimp only
  generalize hptrs : m.ptrs.table which = ptrs at ht
  generalize htable : s.inf.table which = table at ht
  cases ht with
  | null => exact rwp_fault (g := Fault.outOfBounds)
  | block p entries capacity allocated fits =>
    unfold Library.storeSymbol
    simp only [bind_assoc]
    refine rwp.left (wp_loadCells (F := names entries + F) (by rw [hb]; abel) ?_)
    rw [length_symbolCells fits, List.length_map]
    by_cases hfull : allocated ≤ entries.length
    · rw [when_true hfull, when_true hfull]
      exact rwp_fault (g := Fault.outOfBounds)
    · rw [when_false hfull, when_false hfull, pure_bind, pure_bind]
      have hlt := Nat.lt_of_not_le hfull
      refine rwp_malloc hsane hm.alike.scratch_eq (fun _ q heap hheap => ?_) fun _ => ?_
      · refine rwp.left (wp_storeEntry capacity (e := ⟨some (q, name), addr⟩) hlt (F := F) ?_ fun heap' B ht' hheap' => ⟨trivial, ?_⟩)
        · rw [hheap, hb, ← add_assoc]
          rfl
        · exact hback ht' (alike_setTable hm.alike.scratch) owned_setTable rfl hheap'
      · refine rwp.left (wp_storeEntry capacity (e := ⟨none, addr⟩) hlt (F := F) ?_ fun heap' B ht' hheap' => ⟨trivial, ?_⟩)
        · rw [hb, ← zero_add (single p _ + _)]
          rfl
        · exact hback ht' (alike_setTable hm.alike.scratch) owned_setTable rfl hheap'

theorem agrees_symTryAdd (hsane : env.Sane) {name : String} {addr : Addr} :
    Agrees rest (Library.symTryAdd env which name addr) (symTryAdd env.toEnv which name addr) :=
  (agrees_symAdd hsane).attempt.bind fun _ => .pure ()

/-! ### Loading a file -/

theorem agrees_symLoadDie (hsane : env.Sane) {tag : Nat} {die : Die} :
    Agrees rest (Library.symLoadDie env which tag die) (symLoadDie env.toEnv which tag die) := by
  unfold Library.symLoadDie symLoadDie
  cases die.name with
  | none => exact .pure ()
  | some name =>
    cases name with
    | none => exact .pure ()
    | some name =>
      cases die.lowpc with
      | none => exact .pure ()
      | some lowpc => exact .when (agrees_symTryAdd hsane)

theorem agrees_symLoadDies (hsane : env.Sane) : ∀ dies,
    Agrees rest (Library.symLoadDies env which dies) (symLoadDies env.toEnv which dies)
  | [] => .pure ()
  | die :: dies => by
    unfold Library.symLoadDies symLoadDies
    cases die.tag with
    | none => exact .pure ()
    | some tag => exact (agrees_symLoadDie hsane).bind fun _ => agrees_symLoadDies hsane dies

theorem agrees_symLoadUnits (hsane : env.Sane) : ∀ units,
    Agrees rest (Library.symLoadUnits env which units) (symLoadUnits env.toEnv which units)
  | [] | .error :: _ => .pure ()
  | .unit none :: units => agrees_symLoadUnits hsane units
  | .unit (some dies) :: units => (agrees_symLoadDies hsane dies).bind fun _ => agrees_symLoadUnits hsane units

theorem agrees_symLoadDwarf (hsane : env.Sane) {path : Option String} :
    Agrees rest (Library.symLoadDwarf env path which) (symLoadDwarf env.toEnv path which) := by
  refine .bind (.reading keeps_tick) fun t => ?_
  cases env.dwarf t path with
  | none => exact .error
  | some units => exact agrees_symLoadUnits hsane units

theorem agrees_symLoadElfSymbol (hsane : env.Sane) {file : ElfFile} {sym : Option ElfSym} :
    Agrees rest (Library.symLoadElfSymbol env file which sym) (symLoadElfSymbol env.toEnv file which sym) := by
  unfold Library.symLoadElfSymbol symLoadElfSymbol
  cases sym with
  | none => exact .pure ()
  | some sym =>
    dsimp only
    cases file.section? sym.stShndx with
    | none => exact .pure ()
    | some target =>
      refine .ite ?_ (.pure ())
      cases sym.name with
      | none => exact .pure ()
      | some name => exact .when (agrees_symTryAdd hsane)

theorem agrees_symLoadElfSection (hsane : env.Sane) {file : ElfFile} {scn : ElfSection} :
    Agrees rest (Library.symLoadElfSection env file which scn) (symLoadElfSection env.toEnv file which scn) := by
  unfold Library.symLoadElfSection symLoadElfSection
  refine .ite (.pure ()) (.ite (.pure ()) ?_)
  cases scn.data with
  | none => exact .pure ()
  | some getsym => exact .bind (.when .fault) fun _ => .each (fun _ => agrees_symLoadElfSymbol hsane) _

theorem agrees_symLoadElf (hsane : env.Sane) {path : Option String} :
    Agrees rest (Library.symLoadElf env path which) (symLoadElf env.toEnv path which) := by
  refine .bind (.reading keeps_tick) fun t => .bind (.when (.reading keeps_setCode)) fun _ =>
    .bind (.reading (keeps_checked keeps_plain)) fun _ => .bind (.reading keeps_tick) fun t => ?_
  cases env.elf t path with
  | none => exact .reading keeps_setCode
  | some file => exact .bind (.when (.reading keeps_setCode)) fun _ => .each (fun _ => agrees_symLoadElfSection hsane) _

/-! ### Sorting -/

theorem permuted_map {α β : Type} {order : List Nat} {l : List α} {f : α → β} :
    Library.permuted order (l.map f) = (Library.permuted order l).map f := by
  simp only [Library.permuted, List.map_filterMap, List.getElem?_map]

theorem permuted_range {α : Type} {l : List α} : Library.permuted (List.range l.length) l = l := by
  have hmap : (List.range l.length).map (fun i => l[i]?) = l.map some := List.ext_getElem (by simp) (by simp)
  simpa [Library.permuted, List.filterMap_map, Function.comp_def] using congrArg (List.filterMap id) hmap

/-- The elements are put in another order. -/
theorem permuted_perm {α : Type} {order : List Nat} {l : List α} (h : order.Perm (List.range l.length)) :
    (Library.permuted order l).Perm l :=
  (h.filterMap _).trans (.of_eq permuted_range)

theorem drop_cells {n : Nat} : (cells entries n).drop entries.length = List.replicate (n - entries.length) none := by
  have hmap : (entries.map (some ∘ cell)).length = entries.length := List.length_map ..
  rw [cells, List.drop_append_of_le_length (Nat.le_of_eq hmap.symm), List.drop_of_length_le (Nat.le_of_eq hmap), List.nil_append]

theorem names_perm {entries' : List SymbolEntry} (h : entries'.Perm entries) : names entries' = names entries :=
  Multiset.coe_eq_coe.mpr (h.filterMap _)

theorem rwp_reading_tick {α β : Type} {f : Nat → LibraryM α} {g : Nat → SylvanM β} {Q : α → β → Library → State → Prop}
    {E : Library → State → Prop} (hm : Owns rest m s)
    (h : ∀ t x, rwp .lib (f t) (g t) Q E { m with state := s.withScratch x } (s.withScratch x)) :
    rwp .lib (Library.reading Sys.tick >>= f) (Sys.tick >>= g) Q E m s := by
  have htick : Library.reading Sys.tick m = .ok s.scratch.clock { m with state := s.withScratch s.scratch.tick } := by
    simp only [Library.reading, hm.view]
    rfl
  unfold rwp
  rw [bind_of_ok htick, bind_of_ok (rfl : Sys.tick s = _)]
  exact h s.scratch.clock s.scratch.tick

theorem agrees_symSort (hsane : env.Sane) : Agrees rest (Library.symSort env which) (symSort env.toEnv which) := fun m s hm => by
  obtain ⟨B, F, ht, hb, hback⟩ := hm.table which
  refine rwp_get.mpr (rwp.left (wp_reading_get (g := fun s => (s.inf.table which).symbols) hm fun hm' => ?_))
  refine rwp.bind (Q := fun _ _ m' s' => m' = { m with state := s } ∧ s' = s) (E := fun _ _ => False)
    (rwp.when (fun _ => rwp_fault (g := Fault.nullDereference)) fun _ => ⟨rfl, rfl⟩) (fun _ _ m' s' h => ?_) fun _ _ => False.elim
  obtain ⟨rfl, rfl⟩ := h
  refine rwp_reading_tick hm' fun t x => ?_
  have halike : Alike (s'.withScratch x) (s'.withScratch x) := rfl
  dsimp only
  generalize hptrs : m.ptrs.table which = ptrs at ht
  generalize htable : s'.inf.table which = table at ht
  cases ht with
  | null capacity =>
    have hempty : env.qsort t [] = [] := by
      rw [hsane.qsort]
      exact List.perm_nil.mp (permuted_perm (hsane.order t []))
    refine ⟨rfl, hback (.null capacity) (alike_setTable halike) ?_ ?_ hb⟩
    · rw [hempty]
      exact owned_setTable
    · rw [← hptrs, ptrs_setTable_table]
  | block p entries capacity allocated fits =>
    have horder := hsane.order t (entries.map symbol)
    rw [List.length_map] at horder
    have hperm := permuted_perm horder
    have hlen := hperm.length_eq
    have hcells : Library.permuted (env.order t (entries.map symbol)) ((cells entries allocated).take entries.length) ++
        (cells entries allocated).drop entries.length = cells (Library.permuted (env.order t (entries.map symbol)) entries) allocated := by
      rw [take_cells, drop_cells, permuted_map, cells, hlen]
    have ht' := TableAt.block p _ capacity allocated (Nat.le_trans (Nat.le_of_eq hlen) fits)
    rw [← permuted_map, ← hsane.qsort, hlen] at ht'
    refine rwp.left (wp_loadCells (F := names entries + F) (by rw [hb]; abel) ?_)
    rw [hcells]
    refine rwp.of_wp (wp_zoom.mpr (wp_store (B := names entries + F) (by rw [hb]; abel) fun heap hheap => ⟨(), _, rfl, rfl, ?_⟩))
    refine hback ht' (alike_setTable halike) owned_setTable ?_ ?_
    · rw [← hptrs, ptrs_setTable_table]
    · rw [hheap, names_perm hperm]
      abel

/-! ### The tables of a file -/

/-- The tables are emptied, and allocated as far as there is memory. -/
theorem agrees_symReset {α : Type} (hsane : env.Sane) {f : Unit → LibraryM α} {g : Unit → SylvanM α} (hfg : Agrees rest (f ()) (g ())) :
    AgreesWhere State.CountsFit rest (do
      Library.symDestroy
      let _ ← Exec.attempt (Library.symInit env)
      f ()) (do
      symDestroy
      let _ ← Exec.attempt (symInit env.toEnv)
      g ()) := fun m s hm hfits => by
  refine (rwp_symDestroy hm hfits).bind (fun _ _ m' s' h => ?_) fun _ _ => id
  have hnull : ∀ which, (m'.ptrs.table which).symbols = none := fun which => by
    rw [h.2]
    cases which <;> rfl
  exact (rwp_symInit hsane h.1 hnull).attempt_bind (fun _ _ m' s' hm' => hfg m' s' hm') fun _ m' s' h' => hfg m' s' h'.1

theorem agrees_symLoadTables (hsane : env.Sane) : AgreesWhere State.CountsFit rest (Library.symLoadTables env) (symLoadTables env.toEnv) := by
  refine agrees_symReset hsane (f := fun _ => _) (g := fun _ => _) fun m s hm => ?_
  refine rwp.left (wp_reading_get (g := fun s => s.inf.realpath) hm fun hm' => ?_)
  refine rwp.right ?_
  refine (Agrees.catching (agrees_symLoadDwarf hsane) fun _ => .when .error).bind (fun _ => (agrees_symLoadElf hsane).bind fun _ =>
    (agrees_symSort hsane).bind fun _ => agrees_symSort hsane) _ _ hm'

end

end Sylvan
