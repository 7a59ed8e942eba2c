import Sylvan.Theorems.Growth
import Sylvan.Theorems.OneAddress

/-! What a name is resolved to after a load for which there was memory: to an address that the DWARF information gives for it,
    and if it gives none, to one that the ELF file gives. -/

namespace Sylvan
open Exec

/-- The tables hold the labels that the two loaders added, in order. -/
structure Filled (described defined : List Label) (t : State) : Prop where
  dwarf : t.inf.dwarfTable.symbols.Perm (described.map Label.symbol)
  elf : t.inf.elfTable.symbols.Perm (defined.map Label.symbol)
  sorted : t.Sorted

/-- What `sylvan_get_label_addr` answers: there are three cases, and only in the last one no address is stored. -/
structure Resolves (described defined : List Label) (name : String) (t : State) : Prop where
  first : ∀ addr, (name, addr) ∈ described → ∃ addr', (name, addr') ∈ described ∧ getLabelAddr name t = .ok addr' t
  second : (∀ addr, (name, addr) ∉ described) → ∀ addr, (name, addr) ∈ defined →
    ∃ addr', (name, addr') ∈ defined ∧ getLabelAddr name t = .ok addr' t
  neither : (∀ addr, (name, addr) ∉ described) → (∀ addr, (name, addr) ∉ defined) →
    ∃ x, getLabelAddr name t = .error .symbolNotFound (t.withScratch x)

section
variable {env : Env} {s t : State} {F : Fault → State → Prop} {E : Code → State → Prop} {described defined labels : List Label}
  {name : String} {addr : Addr} {table : SymTable} {r : Option Symbol}

/-! ### Lookups -/

/-- A table that holds labels resolves the names that they have. -/
theorem looked_labels (hperm : table.symbols.Perm (labels.map Label.symbol)) (hlooked : table.Looked name r) :
    (∃ addr, r = some ⟨some name, addr⟩ ∧ (name, addr) ∈ labels) ∨ (r = none ∧ ∀ addr, (name, addr) ∉ labels) := by
  cases hlooked with
  | found sym mem name_eq =>
    obtain ⟨name', addr⟩ := sym
    cases name_eq
    exact Or.inl ⟨addr, rfl, mem_map_symbol (hperm.mem_iff.mp mem)⟩
  | missing absent =>
    refine Or.inr ⟨rfl, fun addr hmem => absent ?_⟩
    exact List.mem_filterMap.mpr ⟨_, hperm.mem_iff.mpr (List.mem_map_of_mem hmem), rfl⟩

theorem named_of_perm (hperm : table.symbols.Perm (labels.map Label.symbol)) : table.Named := by
  intro sym hsym hname
  obtain ⟨label, -, rfl⟩ := List.mem_map.mp (hperm.mem_iff.mp hsym)
  cases hname

/-- The name is in neither table. -/
theorem getLabelAddr_none (h : symLookup t.inf.dwarfTable name t = .ok none t) (h' : symLookup t.inf.elfTable name t = .ok none t) :
    getLabelAddr name t = setMessage .symbolNotFound (cut 256 name ++ " not found") t := by
  unfold getLabelAddr
  rw [bind_of_ok (show Exec.get t = .ok t t from rfl), bind_of_ok h]
  dsimp only
  rw [bind_of_ok h']

theorem Filled.resolves (h : Filled described defined t) (name : String) : Resolves described defined name t := by
  obtain ⟨r, hr, hlook⟩ := @symLookup_eq _ name h.sorted.1 (named_of_perm h.dwarf)
  obtain ⟨r', hr', hlook'⟩ := @symLookup_eq _ name h.sorted.2 (named_of_perm h.elf)
  rcases looked_labels h.dwarf hr with ⟨addr, rfl, hmem⟩ | ⟨rfl, habsent⟩
  · refine ⟨fun _ _ => ⟨addr, hmem, getLabelAddr_dwarf _ (hlook t)⟩, fun hnone => ?_, fun hnone => ?_⟩
    · exact absurd hmem (hnone addr)
    · exact absurd hmem (hnone addr)
  refine ⟨fun addr hmem => absurd hmem (habsent addr), fun _ addr hmem => ?_, fun _ hnone => ?_⟩
  · rcases looked_labels h.elf hr' with ⟨addr', rfl, hmem'⟩ | ⟨rfl, habsent'⟩
    · exact ⟨addr', hmem', getLabelAddr_elf _ (hlook t) (hlook' t)⟩
    · exact absurd hmem (habsent' addr)
  · rcases looked_labels h.elf hr' with ⟨addr', rfl, hmem'⟩ | ⟨rfl, -⟩
    · exact absurd hmem' (hnone addr')
    · exact ⟨_, getLabelAddr_none (hlook t) (hlook' t)⟩

/-! ### A load with memory -/

theorem ready_empty : SymTable.Ready ⟨[], 256, 256⟩ := ⟨rfl, by decide, kept_empty.safe⟩

theorem Stores.aside {id : TableId} {x : Scratch} (h : Stores id labels (s.withScratch x) t) : Stores id labels s t :=
  ⟨h.ready, h.symbols, h.only.others, h.only.realpath⟩

/-- Both tables are empty, and can be added to. -/
theorem wp_symReset_ready (hmem : ¬env.Scarce) :
    wp F (symReset env) (fun _ t => (∀ id, (t.inf.table id).Ready ∧ (t.inf.table id).symbols = []) ∧ t.inf.realpath = s.inf.realpath)
      E s := by
  have hmalloc := granted_of_not_scarce hmem
  unfold symReset symDestroy symInit symTableInit symTableDestroy
  simp only [wp_bind, wp_modify, wp_attempt, wp_ite, wp_malloc_iff, hmalloc, if_true]
  refine ⟨fun id => ?_, rfl⟩
  cases id <;> exact ⟨ready_empty, rfl⟩

/-- The walk over the DWARF information, if there is some -/
theorem wp_symWalk_ready {path : Option String} (hmem : ¬env.Scarce) (h : (s.inf.table .dwarf).Ready) :
    wp F (symWalk env path) (fun _ t => ∃ n, Stores .dwarf (describedLabels (env.dwarf n path)) s t) E s := by
  unfold symWalk symLoadDwarf
  rw [wp_catching, wp_bind, wp_tick]
  cases hunits : env.dwarf s.scratch.clock path with
  | none =>
    refine ⟨s.scratch.clock, Stores.aside (x := s.scratch.tick) ?_⟩
    rw [hunits]
    exact ⟨h, (List.append_nil _).symm, OnlyTable.refl⟩
  | some units =>
    dsimp only
    rw [symLoadUnits_eq]
    refine (wp_symStore_ready (s := s.withScratch s.scratch.tick) hmem h).imp (fun _ t ht => ?_) fun _ _ => False.elim
    refine ⟨s.scratch.clock, ?_⟩
    rw [hunits]
    exact ht.aside

/-- The walk over the ELF file, if that does not divide by zero -/
theorem wp_symLoadElf_ready {path : Option String} (hmem : ¬env.Scarce) (h : (s.inf.table .elf).Ready) :
    wp (fun _ _ => True) (symLoadElf env path .elf)
      (fun _ t => ∃ n file, env.elf n path = some file ∧ Stores .elf file.labels s t) (fun _ _ => True) s := by
  refine wp_symLoadElf (fun _ file hfile _ => ?_) fun _ _ _ => trivial
  by_cases hdiv : file.Divides
  · rw [symLoadElfSections_eq hdiv]
    refine (wp_symStore_ready (s := s.withScratch s.scratch.tick.tick.tick) hmem h).imp (fun _ t ht => ?_) fun _ _ => id
    exact ⟨_, file, hfile, ht.aside⟩
  · refine wp_of (fun _ t hrun => ?_) (fun _ _ _ => trivial) fun _ _ _ => trivial
    exact absurd ((wp_symLoadElfSections_divides file.sections).ok hrun) hdiv

/-- A load that returns `SYLVANC_OK` leaves the labels of the two files that it opened. -/
theorem wp_symLoadTables_filled (hq : env.Sorts) (hmem : ¬env.Scarce) :
    wp (fun _ _ => True) (symLoadTables env)
      (fun _ t => ∃ n m file, env.elf m s.inf.realpath = some file ∧
        Filled (describedLabels (env.dwarf n s.inf.realpath)) file.labels t) (fun _ _ => True) s := by
  rw [symLoadTables_eq, wp_bind]
  refine (wp_symReset_ready hmem).imp (fun _ u hu => ?_) fun _ _ => id
  obtain ⟨hready, hpath⟩ := hu
  rw [wp_bind, wp_get, wp_bind, hpath]
  refine (wp_symWalk_ready hmem (hready .dwarf).1).imp (fun _ v hv => ?_) fun _ _ => id
  obtain ⟨n, hdwarf⟩ := hv
  have helf : v.inf.table .elf = u.inf.table .elf := hdwarf.only.others .elf (by decide)
  rw [wp_bind]
  refine (wp_symLoadElf_ready hmem (helf ▸ (hready .elf).1)).imp (fun _ w hw => ?_) fun _ _ => id
  obtain ⟨m, file, hfile, hstores⟩ := hw
  have hsymbols : w.inf.dwarfTable.symbols = (describedLabels (env.dwarf n s.inf.realpath)).map Label.symbol := by
    have hkept : w.inf.table .dwarf = v.inf.table .dwarf := hstores.only.others .dwarf (by decide)
    have := hdwarf.symbols
    rwa [← hkept, (hready .dwarf).2, List.nil_append] at this
  have hsymbols' : w.inf.elfTable.symbols = file.labels.map Label.symbol := by
    have := hstores.symbols
    rwa [helf, (hready .elf).2, List.nil_append] at this
  rw [wp_bind]
  refine wp_symSort hq (fun _ _ => trivial) fun dwarf x _ hperm hsorted => ?_
  refine wp_symSort hq (fun _ _ => trivial) fun elf y _ hperm' hsorted' => ?_
  exact ⟨n, m, file, hfile, hsymbols ▸ hperm, hsymbols' ▸ hperm', hsorted, hsorted'⟩

end

/-- After a load that returned `SYLVANC_OK`, with memory for all it added, each name is resolved by the labels that the loaders added,
    those of the DWARF information first. -/
theorem names_resolved (env : Env) (hq : env.Sorts) (hmem : ¬env.Scarce) (s t : State) (h : symLoadTables env s = .ok () t) :
    ∃ n m file, env.elf m s.inf.realpath = some file ∧
      ∀ name, Resolves (describedLabels (env.dwarf n s.inf.realpath)) file.labels name t := by
  obtain ⟨n, m, file, hfile, hfilled⟩ := (wp_symLoadTables_filled hq hmem).ok h
  exact ⟨n, m, file, hfile, hfilled.resolves⟩

/-- Two subprograms of one name, one of which is a symbol of the ELF file too -/
def Env.labelled : Env :=
  { Env.compliant with
    qsort := fun _ symbols => symbols.insertionSort SymbolLe
    dwarf := fun _ _ => some [.unit (some [⟨some DW_TAG_subprogram, some (some "main"), some 0x1130⟩,
      ⟨some DW_TAG_subprogram, some (some "main"), some 0x1140⟩])]
    elf := fun _ _ => some .twice }

theorem names_resolved_main : ∃ n m file, Env.labelled.elf m State.blank.inf.realpath = some file ∧
    ∀ name, Resolves (describedLabels (Env.labelled.dwarf n State.blank.inf.realpath)) file.labels name
      (State.blank.after (symLoadTables .labelled)) :=
  names_resolved .labelled (fun _ symbols _ => ⟨List.perm_insertionSort SymbolLe symbols, insertionSort_names symbols⟩)
    (fun ⟨_, hfailed⟩ => Bool.noConfusion hfailed) .blank _ (State.after_ok (by decide +kernel))

end Sylvan
