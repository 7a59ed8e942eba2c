import Sylvan.Theorems.SortedTables

/-! How many symbols the tables of an inferior have. A load empties them first and then adds the labels of one file, so where
    the labels of each file are fewer than `2 ^ 31` the counts of both tables fit an `int`, whatever calls are made. -/

namespace Sylvan
open Exec

/-- The counts of the tables are what they are as an `int`. -/
def State.CountsFit (s : State) : Prop := ∀ id, (s.inf.table id).symbols.length < 2 ^ 31

/-- Each file has fewer than `2 ^ 31` labels. -/
structure Env.LabelsFit (env : Env) : Prop where
  dwarf : ∀ n path units, env.dwarf n path = some units → (dwarfLabels units).length < 2 ^ 31
  elf : ∀ n path file, env.elf n path = some file → file.labels.length < 2 ^ 31

/-- Only the table `id` changes, and it has at most `n` more symbols. -/
structure GrowsBy (id : TableId) (n : Nat) (s t : State) : Prop where
  length_le : (t.inf.table id).symbols.length ≤ (s.inf.table id).symbols.length + n
  others : ∀ id', id' ≠ id → t.inf.table id' = s.inf.table id'

section
variable {env : Env} {s t : State} {id : TableId} {F : Fault → State → Prop} {m n : Nat}

namespace GrowsBy

theorem refl : GrowsBy id 0 s s := ⟨Nat.le_refl _, fun _ _ => rfl⟩

theorem trans {u : State} (h : GrowsBy id m s t) (h' : GrowsBy id n t u) : GrowsBy id (m + n) s u := by
  refine ⟨?_, fun id' hid => (h'.others id' hid).trans (h.others id' hid)⟩
  have hlen := h.length_le
  have hlen' := h'.length_le
  omega

theorem mono (h : GrowsBy id m s t) (hmn : m ≤ n) : GrowsBy id n s t := ⟨by have := h.length_le; omega, h.others⟩

theorem setTable {table : SymTable} {x : Scratch} (h : table.symbols.length ≤ (s.inf.table id).symbols.length + n) :
    GrowsBy id n s ((s.setTable id table).withScratch x) :=
  ⟨by simpa only [withScratch_inf, setTable_table] using h, fun _ hid => setTable_other hid⟩

end GrowsBy

/-! ### The loaders -/

/-- Each label is one symbol, or none. -/
theorem wp_symStore_grows {E : Code → State → Prop} (hF : ∀ t, F .outOfBounds t) (labels : List Label) :
    wp F (symStore env id labels) (fun _ t => GrowsBy id labels.length s t) E s := by
  unfold symStore
  induction labels generalizing s with
  | nil => exact .refl
  | cons label labels ih =>
    rw [wp_each_cons, List.length_cons, Nat.add_comm]
    have hnext : ∀ u, GrowsBy id 1 s u → wp F (Exec.each labels fun label => symTryAdd env id label.1 label.2)
        (fun _ t => GrowsBy id (1 + labels.length) s t) E u := fun u hu => ih.imp (fun _ t ht => hu.trans ht) fun _ _ h => h
    exact wp_symTryAdd hF (fun _ _ _ x _ _ _ => hnext _ (.setTable (by simp))) fun _ _ x => hnext _ (.setTable (Nat.le_succ _))

theorem wp_symLoadElfSections_grows {E : Code → State → Prop} {file : ElfFile} (hF : ∀ f t, F f t) (scns : List ElfSection) :
    wp F (Exec.each scns (symLoadElfSection env file id))
      (fun _ t => GrowsBy id (scns.flatMap file.sectionLabels).length s t) E s := by
  induction scns generalizing s with
  | nil => exact .refl
  | cons scn scns ih =>
    rw [wp_each_cons, List.flatMap_cons, List.length_append]
    by_cases hdiv : scn.IsSymbols → scn.shEntsize ≠ 0
    · rw [symLoadElfSection_eq hdiv]
      exact (wp_symStore_grows (hF _) _).imp (fun _ u hu => ih.imp (fun _ t ht => hu.trans ht) fun _ _ h => h) fun _ _ h => h
    · exact wp_symLoadElfSection_zero (hF _) hdiv

theorem wp_symWalk_grows (hfit : env.LabelsFit) (hF : ∀ t, F .outOfBounds t) (path : Option String) :
    wp F (symWalk env path) (fun _ t => GrowsBy .dwarf (2 ^ 31 - 1) s t) (fun _ _ => False) s := by
  unfold symWalk symLoadDwarf
  rw [wp_catching, wp_bind, wp_tick]
  cases hunits : env.dwarf s.scratch.clock path with
  | none => exact ⟨Nat.le_add_right _ _, fun _ _ => rfl⟩
  | some units =>
    dsimp only
    rw [symLoadUnits_eq]
    refine (wp_symStore_grows hF _).imp (fun _ t ht => ?_) fun _ _ h => h
    exact .mono ⟨ht.length_le, ht.others⟩ (Nat.le_pred_of_lt (hfit.dwarf _ _ _ hunits))

theorem wp_symSort_fits {E : Code → State → Prop} (hq : ∀ n l, (env.qsort n l).length = l.length) (hF : ∀ f t, F f t) (hs : s.CountsFit) :
    wp F (symSort env id) (fun _ t => t.CountsFit) E s := by
  unfold symSort
  rw [wp_bind, wp_get, wp_bind, wp_when]
  split
  · exact hF _ _
  · rw [wp_bind, wp_tick, wp_modify]
    intro id'
    by_cases hid : id' = id
    · subst hid
      rw [setTable_table]
      exact (hq _ _).trans_lt (hs id')
    · rw [setTable_other hid]
      exact hs id'

/-- A load empties the tables before it adds the labels of the file. -/
theorem wp_symLoadTables_fits (hfit : env.LabelsFit) (hq : ∀ n l, (env.qsort n l).length = l.length) :
    wp (fun _ _ => True) (symLoadTables env) (fun _ t => t.CountsFit) (fun _ t => t.CountsFit) s := by
  rw [symLoadTables_eq, wp_bind]
  have hreset : wp (fun _ _ => True) (symReset env) (fun _ t => t.Empty) (fun _ _ => False) s := wp_symReset
  refine hreset.imp (fun _ u hu => ?_) fun _ _ => False.elim
  rw [wp_bind, wp_get, wp_bind]
  refine (wp_symWalk_grows hfit (fun _ => trivial) _).imp (fun _ v hv => ?_) fun _ _ => False.elim
  have hlen : ∀ id, (u.inf.table id).symbols.length = 0 := fun id => by rw [hu id]; rfl
  have helf : (v.inf.table .elf).symbols.length = 0 := by
    rw [hv.others .elf (by decide)]
    exact hlen .elf
  have hdwarf : (v.inf.table .dwarf).symbols.length < 2 ^ 31 := by
    have hle := hv.length_le
    rw [hlen .dwarf] at hle
    omega
  rw [wp_bind]
  refine wp_symLoadElf (fun _ file hfile _ => ?_) fun _ _ x => ?_
  · refine (wp_symLoadElfSections_grows (fun _ _ => trivial) _).imp (fun _ w hw => ?_) fun _ _ h => h
    have hle : (w.inf.table .elf).symbols.length ≤ (v.inf.table .elf).symbols.length + file.labels.length := hw.length_le
    have hw' : w.CountsFit := fun id => by
      cases id with
      | elf =>
        rw [helf, Nat.zero_add] at hle
        exact hle.trans_lt (hfit.elf _ _ _ hfile)
      | dwarf =>
        rw [hw.others .dwarf (by decide)]
        exact hdwarf
    rw [wp_bind]
    exact (wp_symSort_fits hq (fun _ _ => trivial) hw').imp (fun _ _ h => wp_symSort_fits hq (fun _ _ => trivial) h) fun _ _ h => h
  · intro id
    cases id with
    | elf =>
      show (v.inf.table .elf).symbols.length < 2 ^ 31
      rw [helf]
      decide
    | dwarf => exact hdwarf

/-! ### The calls -/

theorem SameTables.countsFit (h : SameTables s t) (hs : s.CountsFit) : t.CountsFit := fun id => by
  cases id with
  | elf => exact (congrArg (fun table : SymTable => table.symbols.length) h.elf).trans_lt (hs .elf)
  | dwarf => exact (congrArg (fun table : SymTable => table.symbols.length) h.dwarf).trans_lt (hs .dwarf)

theorem State.Empty.countsFit (h : s.Empty) : s.CountsFit := fun id => by
  rw [h id]
  decide

/-- Every call leaves counts that fit, also one that fails. -/
theorem Op.countsFit (hfit : env.LabelsFit) (hq : ∀ n l, (env.qsort n l).length = l.length) (op : Op) (hs : s.CountsFit) :
    wp (fun _ _ => True) (op.call env) (fun _ t => t.CountsFit) (fun _ t => t.CountsFit) s :=
  op.wp_tables (fun hsame => hsame.countsFit) (fun _ => State.Empty.countsFit) hs fun _ _ => wp_symLoadTables_fits hfit hq

end

end Sylvan
