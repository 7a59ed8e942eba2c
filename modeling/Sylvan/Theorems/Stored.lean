import Mathlib.Algebra.Group.Nat.Defs
import Sylvan.Theorems.SortedTables

/-! What a load leaves in the symbol tables: the labels that it met, all of them, or all but the last one, where a full table
    could not grow for it. After a table could not grow, the next label would be written behind its block. -/

namespace Sylvan
open Exec

/-- The entry for a label. -/
def Label.symbol (label : Label) : Symbol := ⟨some label.1, label.2⟩

/-- A table of `n` symbols grew to this capacity: it is doubled when it is full. -/
def Room (n capacity : Nat) : Prop := ∃ j, capacity = 256 * 2 ^ j ∧ n ≤ capacity ∧ (j = 0 ∨ capacity < 2 * n)

/-- A table that the labels were added to. -/
inductive Stored (labels : List Label) (table : SymTable) : Prop where
  | all (symbols : table.symbols = labels.map Label.symbol) (room : Room labels.length table.capacity)
    (allocated : table.allocated = table.capacity)
  | dropped (init : List Label) (last : Label) (labels_eq : labels = init ++ [last])
    (symbols : table.symbols = init.map Label.symbol) (full : ∃ k, init.length = 256 * 2 ^ k)
    (capacity : table.symbols.length ≠ table.capacity) (allocated : table.allocated ≤ table.symbols.length)
  | nameless (sym : Symbol) (mem : sym ∈ table.symbols) (name_eq : sym.name = none)

/-! ### Growing -/

section Room
variable {n k capacity : Nat}

theorem Room.next (h : Room n capacity) (hne : n ≠ capacity) : Room (n + 1) capacity := by
  obtain ⟨j, hj, hle, hlow⟩ := h
  refine ⟨j, hj, by omega, ?_⟩
  rcases hlow with hlow | hlow
  · exact Or.inl hlow
  · exact Or.inr (by omega)

theorem Room.double (h : Room n n) : Room (n + 1) (n <<< 1) := by
  obtain ⟨j, hj, -, -⟩ := h
  have hpos : 0 < 2 ^ j := Nat.two_pow_pos j
  refine ⟨j + 1, ?_, ?_, Or.inr ?_⟩
  · rw [Nat.shiftLeft_eq, hj, Nat.pow_succ]
    omega
  · rw [Nat.shiftLeft_eq]
    omega
  · rw [Nat.shiftLeft_eq]
    omega

/-- A table of this many symbols is full. -/
theorem Room.full (h : Room (256 * 2 ^ k) capacity) : capacity = 256 * 2 ^ k := by
  obtain ⟨j, rfl, hle, hlow⟩ := h
  have hkj : k ≤ j := (Nat.pow_le_pow_iff_right (by decide : 1 < 2)).mp (by omega)
  rcases hlow with rfl | hlow
  · obtain rfl : k = 0 := by omega
    rfl
  · have hjk : j < k + 1 := by
      refine (Nat.pow_lt_pow_iff_right (by decide : 1 < 2)).mp ?_
      rw [Nat.pow_succ]
      omega
    obtain rfl : k = j := by omega
    rfl

end Room

/-! ### Adding labels -/

section Add
variable {env : Env} {id : TableId} {F : Fault → State → Prop} {E : Code → State → Prop} {s : State} {labels before : List Label}
  {label : Label}

/-- Only the table `id` changes. -/
structure OnlyTable (id : TableId) (s t : State) : Prop where
  others : ∀ id', id' ≠ id → t.inf.table id' = s.inf.table id'
  realpath : t.inf.realpath = s.inf.realpath

theorem OnlyTable.refl : OnlyTable id s s := ⟨fun _ _ => rfl, rfl⟩

theorem OnlyTable.trans {t u : State} (h : OnlyTable id s t) (h' : OnlyTable id t u) : OnlyTable id s u :=
  ⟨fun id' hid => (h'.others id' hid).trans (h.others id' hid), h'.realpath.trans h.realpath⟩

theorem onlyTable_setTable {table : SymTable} {x : Scratch} : OnlyTable id s ((s.setTable id table).withScratch x) :=
  ⟨fun _ hid => setTable_other hid, setTable_realpath⟩

/-- One more label -/
theorem wp_symTryAdd_stored (hF : ∀ t, F .outOfBounds t) (h : Stored before (s.inf.table id)) :
    wp F (symTryAdd env id label.1 label.2)
      (fun _ t => Stored (before ++ [label]) (t.inf.table id) ∧ OnlyTable id s t) E s := by
  have hpost : ∀ {table : SymTable} {x : Scratch}, Stored (before ++ [label]) table →
      Stored (before ++ [label]) (((s.setTable id table).withScratch x).inf.table id) ∧
        OnlyTable id s ((s.setTable id table).withScratch x) := fun {table x} hstored => by
    refine ⟨?_, onlyTable_setTable⟩
    simpa only [withScratch_inf, setTable_table] using hstored
  refine wp_symTryAdd hF (fun capacity allocated copied x hgrown hlt _ => hpost ?_) fun _ hfull x => hpost ?_
  · cases h with
    | all symbols room hallocated =>
      have hlen : (s.inf.table id).symbols.length = before.length := by rw [symbols, List.length_map]
      cases copied with
      | false => exact .nameless ⟨none, label.2⟩ (List.mem_append_right _ (List.mem_singleton_self _)) rfl
      | true =>
        have hsymbols : (s.inf.table id).symbols ++ [⟨some label.1, label.2⟩] = (before ++ [label]).map Label.symbol := by
          rw [symbols, List.map_append]
          rfl
        have hlength : (before ++ [label]).length = before.length + 1 := List.length_append
        rcases hgrown with ⟨hroom, rfl, rfl⟩ | ⟨hfull, rfl, rfl⟩
        · exact .all hsymbols (by rw [hlength]; exact room.next (hlen ▸ hroom)) hallocated
        · refine .all hsymbols ?_ rfl
          rw [← hfull, hlen] at room
          rw [hlength, ← hfull, hlen]
          exact room.double
    | dropped init last labels_eq symbols full hcapacity hallocated =>
      -- the next label does not fit
      rcases hgrown with ⟨-, -, rfl⟩ | ⟨hfull, -, -⟩
      · exact absurd hlt (Nat.not_lt.mpr hallocated)
      · exact absurd hfull hcapacity
    | nameless sym mem name_eq => exact .nameless sym (List.mem_append_left _ mem) name_eq
  · cases h with
    | all symbols room hallocated =>
      have hlen : (s.inf.table id).symbols.length = before.length := by rw [symbols, List.length_map]
      obtain ⟨j, hj, -, -⟩ := room
      have hpos : 0 < 2 ^ j := Nat.two_pow_pos j
      refine .dropped before label rfl symbols ⟨j, by rw [← hlen, hfull, hj]⟩ ?_ ?_
      · show (s.inf.table id).symbols.length ≠ (s.inf.table id).capacity <<< 1
        rw [hfull, hj, Nat.shiftLeft_eq]
        omega
      · show (s.inf.table id).allocated ≤ (s.inf.table id).symbols.length
        rw [hallocated, hfull]
    | dropped init last labels_eq symbols full hcapacity hallocated => exact absurd hfull hcapacity
    | nameless sym mem name_eq => exact .nameless sym mem name_eq

/-- The walk adds its labels. -/
theorem wp_symStore_stored (hF : ∀ t, F .outOfBounds t) (h : Stored before (s.inf.table id)) :
    wp F (symStore env id labels) (fun _ t => Stored (before ++ labels) (t.inf.table id) ∧ OnlyTable id s t) E s := by
  unfold symStore
  induction labels generalizing before s with
  | nil => exact ⟨(List.append_nil before).symm ▸ h, OnlyTable.refl⟩
  | cons label labels ih =>
    rw [wp_each_cons]
    refine (wp_symTryAdd_stored hF h).imp (fun _ t ht => ?_) fun _ _ h => h
    refine (ih ht.1).imp (fun _ u hu => ?_) fun _ _ h => h
    rw [List.append_assoc] at hu
    exact ⟨hu.1, ht.2.trans hu.2⟩

/-- A table without a block takes no label. -/
theorem wp_symStore_unallocated (hF : ∀ t, F .outOfBounds t) (h : s.inf.table id = ⟨[], 256, 0⟩) :
    wp F (symStore env id labels) (fun _ t => labels = [] ∧ t = s) E s := by
  cases labels with
  | nil => exact ⟨rfl, rfl⟩
  | cons label labels =>
    unfold symStore
    rw [wp_each_cons]
    refine wp_symTryAdd hF (fun capacity allocated copied x hgrown hlt _ => ?_) fun _ hfull x => ?_
    · rw [h] at hgrown hlt
      rcases hgrown with ⟨-, -, rfl⟩ | ⟨hfull, -, -⟩
      · exact absurd hlt (Nat.lt_irrefl 0)
      · exact absurd hfull (by decide)
    · rw [h] at hfull
      exact absurd hfull (by decide)

/-- A table that was only destroyed stays empty. -/
theorem wp_symStore_destroyed (hF : ∀ t, F .outOfBounds t) (h : s.inf.table id = ⟨[], 0, 0⟩) :
    wp F (symStore env id labels) (fun _ t => t.inf.table id = ⟨[], 0, 0⟩ ∧ OnlyTable id s t) E s := by
  unfold symStore
  induction labels generalizing s with
  | nil => exact ⟨h, OnlyTable.refl⟩
  | cons label labels ih =>
    rw [wp_each_cons]
    refine wp_symTryAdd hF (fun capacity allocated copied x hgrown hlt _ => ?_) fun _ hfull x => ?_
    · rw [h] at hgrown hlt
      rcases hgrown with ⟨-, -, rfl⟩ | ⟨-, rfl, rfl⟩
      · exact absurd hlt (Nat.lt_irrefl 0)
      · exact absurd hlt (Nat.lt_irrefl 0)
    · have hkept : ((s.setTable id { s.inf.table id with capacity := (s.inf.table id).capacity <<< 1 }).withScratch x).inf.table id =
          ⟨[], 0, 0⟩ := by
        simp only [withScratch_inf, setTable_table, h]
        rfl
      exact (ih hkept).imp (fun _ u hu => ⟨hu.1, onlyTable_setTable.trans hu.2⟩) fun _ _ h => h

end Add

/-! ### A load -/

/-- The symbols of a loaded table, in any order. -/
inductive Carries (labels : List Label) (symbols : List Symbol) : Prop where
  | all (perm : symbols.Perm (labels.map Label.symbol))
  | dropped (init : List Label) (last : Label) (labels_eq : labels = init ++ [last]) (full : ∃ k, init.length = 256 * 2 ^ k)
    (perm : symbols.Perm (init.map Label.symbol))
  | nameless (sym : Symbol) (mem : sym ∈ symbols) (name_eq : sym.name = none)

theorem Stored.carries {labels : List Label} {table : SymTable} (h : Stored labels table) : Carries labels table.symbols := by
  cases h with
  | all symbols _ _ => exact .all (symbols ▸ List.Perm.refl _)
  | dropped init last labels_eq symbols full _ _ => exact .dropped init last labels_eq full (symbols ▸ List.Perm.refl _)
  | nameless sym mem name_eq => exact .nameless sym mem name_eq

theorem Carries.perm {labels : List Label} {symbols symbols' : List Symbol} (h : Carries labels symbols) (hp : symbols'.Perm symbols) :
    Carries labels symbols' := by
  cases h with
  | all perm => exact .all (hp.trans perm)
  | dropped init last labels_eq full perm => exact .dropped init last labels_eq full (hp.trans perm)
  | nameless sym mem name_eq => exact .nameless sym (hp.mem_iff.mpr mem) name_eq

/-- What a load leaves: where there was no memory for the ELF table, the DWARF table has no block, and both are empty. -/
inductive Loaded (described defined : List Label) (t : State) : Prop where
  | empty (dwarf : t.inf.dwarfTable.symbols = []) (elf : t.inf.elfTable.symbols = [])
  | filled (dwarf : Carries described t.inf.dwarfTable.symbols) (elf : Carries defined t.inf.elfTable.symbols)

theorem Loaded.perm {described defined : List Label} {t u : State} (h : Loaded described defined t)
    (hdwarf : u.inf.dwarfTable.symbols.Perm t.inf.dwarfTable.symbols) (helf : u.inf.elfTable.symbols.Perm t.inf.elfTable.symbols) :
    Loaded described defined u := by
  cases h with
  | empty dwarf elf => exact .empty (List.perm_nil.mp (dwarf ▸ hdwarf)) (List.perm_nil.mp (elf ▸ helf))
  | filled dwarf elf => exact .filled (dwarf.perm hdwarf) (elf.perm helf)

section Load
variable {env : Env} {F : Fault → State → Prop} {E : Code → State → Prop} {s : State} {file : ElfFile} {units : Option (List DwarfUnit)}

/-- What is at `path`, as long as it can be opened. -/
structure Env.Shows (env : Env) (path : Option String) (file : ElfFile) (units : Option (List DwarfUnit)) : Prop where
  elf : ∀ n file', env.elf n path = some file' → file' = file
  dwarf : ∀ n, env.dwarf n path = units

/-- The labels of the DWARF information, if there is some. -/
def describedLabels (units : Option (List DwarfUnit)) : List Label := units.elim [] dwarfLabels

theorem stored_nil : Stored [] ⟨[], 256, 256⟩ := .all rfl ⟨0, rfl, Nat.zero_le _, Or.inl rfl⟩ rfl

/-- The DWARF table was there to store labels in, or there was no memory for it, and no label either. -/
theorem wp_symStore_dwarf {labels : List Label} {allocated : Nat} (hF : ∀ t, F .outOfBounds t)
    (hallocated : allocated = 256 ∨ allocated = 0) (h : s.inf.table .dwarf = ⟨[], 256, allocated⟩) :
    wp F (symStore env .dwarf labels) (fun _ t => Carries labels (t.inf.table .dwarf).symbols ∧ OnlyTable .dwarf s t) E s := by
  rcases hallocated with rfl | rfl
  · have hfresh : Stored [] (s.inf.table .dwarf) := h ▸ stored_nil
    exact (wp_symStore_stored hF hfresh).imp (fun _ t ht => ⟨ht.1.carries, ht.2⟩) fun _ _ h => h
  · refine (wp_symStore_unallocated hF h).imp (fun _ t ht => ?_) fun _ _ h => h
    obtain ⟨rfl, rfl⟩ := ht
    exact ⟨.all (by rw [h]; exact List.Perm.refl _), OnlyTable.refl⟩

/-- The walk over the DWARF information returns no error. -/
theorem wp_symWalk_store {Q : Unit → State → Prop} {path : Option String} (hshows : env.Shows path file units)
    (h : wp F (symStore env .dwarf (describedLabels units)) Q (fun _ _ => False) (s.withScratch s.scratch.tick)) :
    wp F (symWalk env path) Q E s := by
  unfold symWalk symLoadDwarf
  rw [wp_catching, wp_bind, wp_tick, hshows.dwarf]
  cases units with
  | none => exact h
  | some units =>
    dsimp only
    rw [symLoadUnits_eq]
    exact h.imp (fun _ _ h => h) fun _ _ h => h.elim

theorem wp_symLoadElf_store {Q : Unit → State → Prop} {path : Option String} (hshows : env.Shows path file units)
    (hdiv : file.Divides) (h : wp F (symStore env .elf file.labels) Q E (s.withScratch s.scratch.tick.tick.tick))
    (herr : ¬env.Opens s.scratch.clock path → ∀ c x, E c (s.withScratch x)) : wp F (symLoadElf env path .elf) Q E s := by
  refine wp_symLoadElf (fun _ file' hfile _ => ?_) herr
  rw [hshows.elf _ _ hfile, symLoadElfSections_eq hdiv]
  exact h

/-- The names of the table can be compared. -/
def SymTable.Comparable (table : SymTable) : Prop := table.symbols.length < 2 ∨ table.Named

theorem SymTable.Comparable.perm {table table' : SymTable} (h : table.Comparable) (hp : table'.symbols.Perm table.symbols) :
    table'.Comparable := by
  rcases h with h | h
  · exact Or.inl (hp.length_eq ▸ h)
  · exact Or.inr fun sym hsym => h sym (hp.mem_iff.mp hsym)

/-- A load that returned `SYLVANC_OK` leaves tables to look names up in. -/
structure Searchable (described defined : List Label) (t : State) : Prop where
  loaded : Loaded described defined t
  dwarf : t.inf.dwarfTable.Comparable ∧ t.inf.dwarfTable.Sorted
  elf : t.inf.elfTable.Comparable ∧ t.inf.elfTable.Sorted

theorem wp_symSort_searchable {described defined : List Label} (hq : env.Sorts) (h : Loaded described defined s) :
    wp (fun _ _ => True) (symSort env .dwarf >>= fun _ => symSort env .elf) (fun _ t => Searchable described defined t)
      (fun _ _ => True) s := by
  rw [wp_bind]
  refine wp_symSort hq (fun _ _ => trivial) fun dwarf x hcomp hperm hsorted => ?_
  refine wp_symSort hq (fun _ _ => trivial) fun elf y hcomp' hperm' hsorted' => ?_
  exact ⟨h.perm hperm hperm', ⟨SymTable.Comparable.perm hcomp hperm, hsorted⟩, ⟨SymTable.Comparable.perm hcomp' hperm', hsorted'⟩⟩

theorem wp_symLoadTables_searchable (hq : env.Sorts) (hshows : env.Shows s.inf.realpath file units) (hdiv : file.Divides) :
    wp (fun _ _ => True) (symLoadTables env) (fun _ t => Searchable (describedLabels units) file.labels t) (fun _ _ => True) s := by
  rw [symLoadTables_eq, wp_bind]
  refine wp_symReset_blocks (fun allocated x hallocated => ?_) fun x => ?_
  · rw [wp_bind, wp_get, wp_bind]
    refine wp_symWalk_store hshows ((wp_symStore_dwarf (fun _ => trivial) hallocated rfl).imp (fun _ u hu => ?_) fun _ _ h => h)
    have helf : u.inf.table .elf = ⟨[], 256, 256⟩ := hu.2.others .elf (by decide)
    rw [wp_bind]
    refine wp_symLoadElf_store hshows hdiv ?_ fun _ _ _ => trivial
    have hfresh : Stored [] ((u.withScratch u.scratch.tick.tick.tick).inf.table .elf) := by
      rw [withScratch_inf, helf]
      exact stored_nil
    refine (wp_symStore_stored (fun _ => trivial) hfresh).imp (fun _ v hv => ?_) fun _ _ h => h
    have hdwarf : v.inf.table .dwarf = u.inf.table .dwarf := hv.2.others .dwarf (by decide)
    exact wp_symSort_searchable hq (.filled (congrArg SymTable.symbols hdwarf ▸ hu.1) hv.1.carries)
  · rw [wp_bind, wp_get, wp_bind]
    refine wp_symWalk_store hshows ((wp_symStore_destroyed (fun _ => trivial) rfl).imp (fun _ u hu => ?_) fun _ _ h => h)
    have helf : u.inf.table .elf = ⟨[], 256, 0⟩ := hu.2.others .elf (by decide)
    rw [wp_bind]
    refine wp_symLoadElf_store hshows hdiv ?_ fun _ _ _ => trivial
    refine (wp_symStore_unallocated (s := u.withScratch u.scratch.tick.tick.tick) (fun _ => trivial) helf).imp (fun _ v hv => ?_) fun _ _ h => h
    obtain ⟨-, rfl⟩ := hv
    exact wp_symSort_searchable hq (.empty (congrArg SymTable.symbols hu.1) (congrArg SymTable.symbols helf))

theorem wp_symLoadElfSections_divides {id : TableId} (scns : List ElfSection) :
    wp (fun _ _ => True) (Exec.each scns (symLoadElfSection env file id))
      (fun _ _ => ∀ scn ∈ scns, scn.IsSymbols → scn.shEntsize ≠ 0) (fun _ _ => True) s := by
  induction scns generalizing s with
  | nil => exact fun _ h => nomatch h
  | cons scn scns ih =>
    rw [wp_each_cons]
    by_cases hdiv : scn.IsSymbols → scn.shEntsize ≠ 0
    · refine wp_of (fun _ t _ => ih.imp (fun _ u hu => ?_) fun _ _ h => h) (fun _ _ _ => trivial) fun _ _ _ => trivial
      exact List.forall_mem_cons.mpr ⟨hdiv, hu⟩
    · exact wp_symLoadElfSection_zero (fun _ => trivial) hdiv

/-- A load does not return from a division by zero. -/
theorem divides_of_load {t : State} (hshows : env.Shows s.inf.realpath file units) (h : symLoadTables env s = .ok () t) :
    file.Divides := by
  suffices hwp : wp (fun _ _ => True) (symLoadTables env) (fun _ _ => file.Divides) (fun _ _ => True) s from hwp.ok h
  have hkept : wp (fun _ _ => True) (symReset env) (fun _ u => u.inf.realpath = s.inf.realpath) (fun _ _ => True) s :=
    wp_symReset_blocks (fun _ _ _ => by simp) fun _ => by simp
  rw [symLoadTables_eq, wp_bind]
  refine hkept.imp (fun _ u hu => ?_) fun _ _ h => h
  rw [wp_bind, wp_get, wp_bind, hu]
  refine wp_of (fun _ v _ => ?_) (fun _ _ _ => trivial) fun _ _ _ => trivial
  rw [wp_bind]
  refine wp_symLoadElf (fun _ file' hfile _ => ?_) fun _ _ _ => trivial
  rw [hshows.elf _ _ hfile]
  refine (wp_symLoadElfSections_divides file.sections).imp (fun _ w hw => ?_) fun _ _ h => h
  exact wp_of (fun _ _ _ => hw) (fun _ _ _ => trivial) fun _ _ _ => trivial

end Load

end Sylvan
