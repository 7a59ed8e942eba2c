import Sylvan.Theorems.Commands
import Sylvan.Theorems.Stored

/-! One name and two resolvers. A breakpoint is set at the address that the loaded tables give for the name, the DWARF table
    before the ELF table; the disassembly starts at the first symbol of the name in the file. -/

namespace Sylvan
open Exec

/-! ### The address of a breakpoint -/

/-- A load may leave no symbol of the name: it is no label's name, or only that of the last label, which a full table
    may drop. -/
def Missable (labels : List Label) (name : String) : Prop :=
  name ∉ labels.map Prod.fst ∨ (∃ k, labels.length = 256 * 2 ^ k + 1) ∧ name ∉ labels.dropLast.map Prod.fst

section Lookup
variable {labels described defined : List Label} {symbols : List Symbol} {table : SymTable} {name : String} {addr : Addr} {s t : State}

theorem mem_map_symbol (h : ⟨some name, addr⟩ ∈ labels.map Label.symbol) : (name, addr) ∈ labels := by
  obtain ⟨label, hmem, heq⟩ := List.mem_map.mp h
  cases heq
  exact hmem

theorem names_map_symbol : (labels.map Label.symbol).filterMap Symbol.name = labels.map Prod.fst := by
  rw [List.filterMap_map]
  exact congrFun List.filterMap_eq_map labels

theorem Carries.label (h : Carries labels symbols) (hnamed : ∀ sym ∈ symbols, sym.name ≠ none) (hmem : ⟨some name, addr⟩ ∈ symbols) :
    (name, addr) ∈ labels := by
  cases h with
  | all perm => exact mem_map_symbol (perm.mem_iff.mp hmem)
  | dropped init last labels_eq full perm =>
    rw [labels_eq]
    exact List.mem_append_left _ (mem_map_symbol (perm.mem_iff.mp hmem))
  | nameless sym mem name_eq => exact absurd name_eq (hnamed sym mem)

theorem Carries.missable (h : Carries labels symbols) (hnamed : ∀ sym ∈ symbols, sym.name ≠ none)
    (habsent : name ∉ symbols.filterMap Symbol.name) : Missable labels name := by
  cases h with
  | all perm =>
    rw [(perm.filterMap Symbol.name).mem_iff, names_map_symbol] at habsent
    exact Or.inl habsent
  | dropped init last labels_eq full perm =>
    rw [(perm.filterMap Symbol.name).mem_iff, names_map_symbol] at habsent
    obtain ⟨k, hk⟩ := full
    refine Or.inr ⟨⟨k, ?_⟩, ?_⟩
    · rw [labels_eq, List.length_append, hk, List.length_singleton]
    · rwa [labels_eq, List.dropLast_concat]
  | nameless sym mem name_eq => exact absurd name_eq (hnamed sym mem)

/-- A lookup that returns compared names only. -/
theorem symLookup_ok {r : Option Symbol} (hc : table.Comparable) (hs : table.Sorted) (h : symLookup table name s = .ok r t) :
    table.Named ∧ t = s ∧ table.Looked name r := by
  have hnamed : table.Named := by
    rcases hc with hlen | hnamed
    · intro sym hsym hname
      obtain ⟨sym', hsymbols⟩ := List.length_eq_one_iff.mp (Nat.le_antisymm (Nat.lt_succ_iff.mp hlen) (List.length_pos_of_mem hsym))
      rw [hsymbols, List.mem_singleton] at hsym
      subst hsym
      unfold symLookup at h
      rw [hsymbols] at h
      simp [bsearch, hname, Exec.fault] at h
    · exact hnamed
  obtain ⟨r', hlooked, hrun⟩ := symLookup_eq hs hnamed
  cases (hrun s).symm.trans h
  exact ⟨hnamed, rfl, hlooked⟩

/-- The address is that of a label of the DWARF information, or of a symbol in the file where the DWARF table may miss the name. -/
theorem Searchable.label (h : Searchable described defined s) (hrun : getLabelAddr name s = .ok addr t) :
    (name, addr) ∈ described ∨ Missable described name ∧ (name, addr) ∈ defined := by
  suffices hwp : wp (fun _ _ => True) (getLabelAddr name)
      (fun addr _ => (name, addr) ∈ described ∨ Missable described name ∧ (name, addr) ∈ defined) (fun _ _ => True) s from hwp.ok hrun
  unfold getLabelAddr
  rw [wp_bind, wp_get, wp_bind]
  refine wp_of (fun r u hr => ?_) (fun _ _ _ => trivial) fun _ _ _ => trivial
  obtain ⟨hnamed, rfl, hlooked⟩ := symLookup_ok h.dwarf.1 h.dwarf.2 hr
  cases hlooked with
  | found sym mem name_eq =>
    cases h.loaded with
    | empty dwarf _ => rw [dwarf] at mem; cases mem
    | filled dwarf _ => exact Or.inl (dwarf.label hnamed (name_eq ▸ mem))
  | missing absent =>
    dsimp only
    rw [wp_bind]
    refine wp_of (fun r' v hr' => ?_) (fun _ _ _ => trivial) fun _ _ _ => trivial
    obtain ⟨hnamed', rfl, hlooked'⟩ := symLookup_ok h.elf.1 h.elf.2 hr'
    cases hlooked' with
    | found sym mem name_eq =>
      cases h.loaded with
      | empty _ elf => rw [elf] at mem; cases mem
      | filled dwarf elf => exact Or.inr ⟨dwarf.missable hnamed absent, elf.label hnamed' (name_eq ▸ mem)⟩
    | missing _ => trivial

end Lookup

/-! ### The start of a disassembly -/

/-- The symbols of a section, as the loop of `get_function_bounds` meets them. -/
def ElfSection.syms (scn : ElfSection) : List ElfSym := (List.range (scn.shSize / scn.shEntsize).toNat).filterMap scn.sym?

/-- The symbols of the sections of type `SHT_SYMTAB`, up to a division by zero. -/
def symtabSyms : List ElfSection → List ElfSym
  | [] => []
  | scn :: scns =>
    if scn.header = true ∧ scn.shType = SHT_SYMTAB then
      if scn.shEntsize = 0 then [] else scn.syms ++ symtabSyms scns
    else symtabSyms scns

/-- The first of them with the name. -/
def ElfFile.first (file : ElfFile) (name : String) : Option ElfSym :=
  (symtabSyms file.sections).find? fun sym => sym.name = some name

section Bounds
variable {env : UiEnv} {file : ElfFile} {units : Option (List DwarfUnit)} {name : String} {path : Option String} {s t : Session}

theorem findSym_eq {scn : ElfSection} : scn.findSym name = scn.syms.find? fun sym => sym.name = some name := by
  unfold ElfSection.findSym ElfSection.syms
  induction List.range (scn.shSize / scn.shEntsize).toNat with
  | nil => rfl
  | cons i l ih =>
    cases hsym : scn.sym? i with
    | none => rw [List.findSome?_cons, List.filterMap_cons_none hsym, hsym, ← ih]; rfl
    | some sym =>
      rw [List.findSome?_cons, List.filterMap_cons_some hsym, hsym, List.find?_cons, Option.filter_some, ← ih]
      by_cases hname : sym.name = some name <;> simp [hname]

theorem wp_findSymbol {F : Fault → Session → Prop} {E : Int → Session → Prop} {scns : List ElfSection}
    (hF : ∀ scn ∈ scns, scn.header = true → scn.shType = SHT_SYMTAB → scn.shEntsize = 0 →
      (symtabSyms scns).find? (fun sym => sym.name = some name) = none → ∀ t, F .divisionByZero t) :
    wp F (findSymbol name scns) (fun r t => r = (symtabSyms scns).find? (fun sym => sym.name = some name) ∧ t = s) E s := by
  induction scns with
  | nil => exact ⟨rfl, rfl⟩
  | cons scn scns ih =>
    have hrest := fun scn' hscn' => hF scn' (List.mem_cons_of_mem scn hscn')
    unfold findSymbol
    by_cases hheader : scn.header = true
    · rw [if_neg (by simp [hheader])]
      by_cases htype : scn.shType = SHT_SYMTAB
      · have hsyms : symtabSyms (scn :: scns) = if scn.shEntsize = 0 then [] else scn.syms ++ symtabSyms scns :=
          if_pos ⟨hheader, htype⟩
        rw [if_pos htype, wp_bind, wp_when]
        by_cases hzero : scn.shEntsize = 0
        · rw [if_pos hzero] at hsyms ⊢
          exact hF scn (List.mem_cons_self ..) hheader htype hzero (by rw [hsyms]; rfl) _
        · rw [if_neg hzero] at hsyms ⊢
          rw [hsyms, List.find?_append, findSym_eq]
          rw [hsyms, List.find?_append] at hrest
          cases hfind : scn.syms.find? fun sym => sym.name = some name with
          | some sym => exact ⟨rfl, rfl⟩
          | none =>
            rw [hfind] at hrest
            exact ih hrest
      · have hsyms : symtabSyms (scn :: scns) = symtabSyms scns := if_neg fun h => htype h.2
        rw [hsyms] at hrest ⊢
        rw [if_neg htype]
        exact ih hrest
    · have hsyms : symtabSyms (scn :: scns) = symtabSyms scns := if_neg fun h => hheader h.1
      rw [hsyms] at hrest ⊢
      rw [if_pos (by simpa using hheader)]
      exact ih hrest

/-- What `get_function_bounds` gives is the first symbol of the file with the name. -/
theorem getFunctionBounds_first {start : Addr} {size : BitVec 64} (hshows : env.Shows path file units)
    (h : getFunctionBounds env path name s = .ok (some (start, size)) t) :
    file.shstrndx = true ∧ ∃ sym, file.first name = some sym ∧ sym.stValue = start := by
  suffices hwp : wp (fun _ _ => True) (getFunctionBounds env path name)
      (fun r _ => ∀ start size, r = some (start, size) → file.shstrndx = true ∧ ∃ sym, file.first name = some sym ∧ sym.stValue = start)
      (fun _ _ => True) s from hwp.ok h start size rfl
  unfold getFunctionBounds
  rw [wp_bind, wp_sys, wp_tick, wp_ite]
  split
  · rintro start size ⟨⟩
  rw [wp_bind, wp_sys]
  refine wp_plain fun r x => ?_
  cases r with
  | error e => rintro start size ⟨⟩
  | ok _ =>
    dsimp only
    rw [wp_bind, wp_sys, wp_tick]
    split
    · rintro start size ⟨⟩
    · rename_i file' hfile
      obtain rfl := hshows.elf _ _ hfile
      split
      · rintro start size ⟨⟩
      · rename_i hstr
        rw [wp_bind]
        refine (wp_findSymbol fun _ _ _ _ _ _ _ => trivial).imp (fun r t hr => ?_) fun _ _ h => h
        cases r with
        | none => rintro start size ⟨⟩
        | some sym =>
          rintro start size ⟨⟩
          exact ⟨by simpa using hstr, sym, hr.1.symm, rfl⟩

/-- It finds that symbol, where the file can be opened. -/
theorem getFunctionBounds_finds {sym : ElfSym} (hversion : ∀ n, env.elfVersion n = true) (hopen : ∀ n, env.openFile n path = none)
    (helf : ∀ n, env.elf n path = some file) (hstr : file.shstrndx = true) (hfirst : file.first name = some sym) :
    ∃ t, getFunctionBounds env path name s = .ok (some (sym.stValue, sym.stSize)) t := by
  suffices hwp : wp (fun _ _ => False) (getFunctionBounds env path name) (fun r _ => r = some (sym.stValue, sym.stSize))
      (fun _ _ => False) s by
    obtain ⟨r, t, hrun, rfl⟩ := hwp.exists_ok
    exact ⟨t, hrun⟩
  unfold getFunctionBounds
  rw [wp_bind, wp_sys, wp_tick, hversion, wp_ite, if_neg (by decide), wp_bind, wp_sys]
  refine wp_plain_answer (fun _ => ?_) fun e herr => ?_
  · dsimp only
    rw [wp_bind, wp_sys, wp_tick, helf]
    dsimp only
    rw [wp_ite, if_neg (by simp [hstr]), wp_bind]
    refine (wp_findSymbol fun _ _ _ _ _ hnone => ?_).imp (fun r t hr => ?_) fun _ _ h => h
    · rw [ElfFile.first, hnone] at hfirst
      cases hfirst
    · obtain ⟨rfl, -⟩ := hr
      rw [ElfFile.first] at hfirst
      rw [hfirst]
      rfl
  · cases (hopen _).symm.trans herr

end Bounds

/-! ### The symbol that a search hits -/

section Choice
variable {table table' : SymTable} {symbols : List Symbol} {name : String} {addr : Addr} {s : State}

theorem order_congr (h : table'.symbols.map Symbol.name = table.symbols.map Symbol.name) : table'.order name = table.order name := by
  funext i
  have hname : (table'.symbols[i]?).map Symbol.name = (table.symbols[i]?).map Symbol.name := by
    rw [← List.getElem?_map, ← List.getElem?_map, h]
  unfold SymTable.order
  cases hsym : table.symbols[i]? with
  | none =>
    rw [hsym] at hname
    rw [Option.map_eq_none_iff.mp hname]
  | some sym =>
    rw [hsym] at hname
    obtain ⟨sym', hsym', heq⟩ := Option.map_eq_some_iff.mp hname
    obtain ⟨n, a⟩ := sym
    obtain ⟨n', a'⟩ := sym'
    cases heq
    rw [hsym']
    cases n <;> rfl

theorem filterMap_name : symbols.filterMap Symbol.name = (symbols.map Symbol.name).filterMap id := by
  rw [List.filterMap_map]
  rfl

/-- Two symbols of one name can be exchanged. -/
theorem map_name_swap {i j : Nat} (hi : i < symbols.length) (hj : j < symbols.length) (h : symbols[j].name = symbols[i].name) :
    ((symbols.set i symbols[j]).set j symbols[i]).map Symbol.name = symbols.map Symbol.name := by
  have hkept : ∀ (k : Nat) (hk : k < symbols.length), (symbols.map Symbol.name).set k symbols[k].name = symbols.map Symbol.name := by
    intro k hk
    have hk' : k < (symbols.map Symbol.name).length := (List.length_map _).symm ▸ hk
    have hname : (symbols.map Symbol.name)[k] = symbols[k].name := List.getElem_map _
    rw [← hname, List.set_getElem_self]
  rw [List.map_set, List.map_set, h, hkept i hi, ← h, hkept j hj]

/-- Symbols of one name are in any order: each of them can be the one that the search hits. -/
theorem exists_order (hnamed : ∀ sym ∈ symbols, sym.name ≠ none) (hmem : ⟨some name, addr⟩ ∈ symbols) :
    ∃ after : List Symbol, after.Perm symbols ∧ (after.filterMap Symbol.name).Pairwise NameLe ∧
      ∀ (table : SymTable) s, table.symbols = after → symLookup table name s = .ok (some ⟨some name, addr⟩) s := by
  have hperm := List.perm_insertionSort SymbolLe symbols
  have hsorted : (SymTable.mk (symbols.insertionSort SymbolLe) 0 0).Sorted := insertionSort_names symbols
  generalize symbols.insertionSort SymbolLe = sorted at hperm hsorted
  have hnamed' : (SymTable.mk sorted 0 0).Named := fun sym hsym => hnamed sym (hperm.mem_iff.mp hsym)
  obtain ⟨j, hj, htarget⟩ := List.getElem_of_mem (hperm.mem_iff.mpr hmem)
  -- the index that the search ends at
  have hsome : (Search.index ((SymTable.mk sorted 0 0).order name) (sorted.length + 1) 0 sorted.length).isSome := by
    refine (Search.index_isSome_iff (hsorted.falls hnamed')).mpr (hnamed'.mem_names_iff.mp ?_)
    exact List.mem_filterMap.mpr ⟨_, hperm.mem_iff.mpr hmem, rfl⟩
  obtain ⟨i, hi⟩ := Option.isSome_iff_exists.mp hsome
  obtain ⟨-, hlt, horder⟩ := Search.index_some hi
  obtain ⟨other, hother, horder'⟩ := hnamed'.order_eq name hlt
  obtain rfl := strcmp_eq_iff.mp (horder'.symm.trans horder)
  have hnames : ((sorted.set i sorted[j]).set j sorted[i]).map Symbol.name = sorted.map Symbol.name :=
    map_name_swap hlt hj (by rw [htarget]; exact hother.symm)
  have hafter := List.set_set_perm hlt hj
  refine ⟨(sorted.set i sorted[j]).set j sorted[i], hafter.trans hperm, ?_, fun table s hsymbols => ?_⟩
  · rw [filterMap_name, hnames, ← filterMap_name]
    exact hsorted
  · have htable : table.Named := fun sym hsym => hnamed' sym (hafter.mem_iff.mp (hsymbols ▸ hsym))
    have hlength : table.symbols.length = sorted.length := by rw [hsymbols, hafter.length_eq]
    have horder : table.order name = (SymTable.mk sorted 0 0).order name := order_congr (hsymbols ▸ hnames)
    have hmoved : ((sorted.set i sorted[j]).set j sorted[i])[i]? = some sorted[j] := by
      by_cases hij : j = i
      · subst hij
        rw [List.getElem?_set_self (by simpa using hj)]
      · rw [List.getElem?_set_ne hij, List.getElem?_set_self hlt]
    unfold symLookup
    rw [bsearch_eq htable _ _ _ (Nat.le_refl _), horder, hlength, hi, Option.bind_some, hsymbols, hmoved, htarget]

end Choice

/-! ### A load of all labels -/

section Runs
variable {env : Env} {id : TableId} {F : Fault → State → Prop} {E : Code → State → Prop} {s : State} {symbols : List Symbol}
  {capacity : Nat} {label : Label} {labels : List Label}

/-- Memory is there from time `n` on, until time `m`. -/
def Env.Grants (env : Env) (n m : Nat) : Prop := ∀ k, n ≤ k → k < m → env.malloc k = true

/-- A label is added, wherever there is memory for it. -/
theorem symTryAdd_runs (htable : s.inf.table id = ⟨symbols, capacity, capacity⟩) (hroom : Room symbols.length capacity) :
    ∃ capacity' x, Room (symbols.length + 1) capacity' ∧ s.scratch.clock ≤ x.clock ∧
      ∀ env : Env, env.Grants s.scratch.clock x.clock → symTryAdd env id label.1 label.2 s =
        .ok () ((s.setTable id ⟨symbols ++ [label.symbol], capacity', capacity'⟩).withScratch x) := by
  by_cases hfull : symbols.length = capacity
  · have hdouble : Room (symbols.length + 1) (capacity <<< 1) := by
      subst hfull
      exact hroom.double
    have hlt : ¬capacity <<< 1 ≤ symbols.length := by
      obtain ⟨-, -, hle, -⟩ := hdouble
      omega
    refine ⟨capacity <<< 1, s.scratch.tick.tick, hdouble, Nat.le_add_right _ 2, fun env hgrants => wp.eq_ok ?_⟩
    have hmalloc := hgrants s.scratch.clock (Nat.le_refl _) (Nat.lt_add_of_pos_right (by decide : 0 < 2))
    have hmalloc' := hgrants (s.scratch.clock + 1) (Nat.le_succ _) (Nat.lt_succ_self _)
    unfold symTryAdd symAdd symGrow
    simp only [wp_bind, wp_attempt, wp_get, htable, wp_when, if_pos hfull, wp_modify, wp_malloc_iff, setTable_table, setTable_scratch,
      hmalloc, withScratch_scratch, Scratch.tick_clock, hmalloc', Bool.true_eq_false, if_false, if_neg hlt]
    cases id <;> rfl
  · have hlt : ¬capacity ≤ symbols.length := by
      obtain ⟨-, -, hle, -⟩ := hroom
      omega
    refine ⟨capacity, s.scratch.tick, hroom.next hfull, Nat.le_succ _, fun env hgrants => wp.eq_ok ?_⟩
    have hmalloc := hgrants s.scratch.clock (Nat.le_refl _) (Nat.lt_succ_self _)
    unfold symTryAdd symAdd symGrow
    simp only [wp_bind, wp_attempt, wp_get, htable, wp_when, if_neg hfull, if_neg hlt, wp_malloc_iff, hmalloc, wp_modify]
    cases id <;> rfl

theorem symStore_runs (htable : s.inf.table id = ⟨symbols, capacity, capacity⟩) (hroom : Room symbols.length capacity) :
    ∃ capacity' x, Room (symbols.length + labels.length) capacity' ∧ s.scratch.clock ≤ x.clock ∧
      ∀ env : Env, env.Grants s.scratch.clock x.clock → symStore env id labels s =
        .ok () ((s.setTable id ⟨symbols ++ labels.map Label.symbol, capacity', capacity'⟩).withScratch x) := by
  induction labels generalizing s symbols capacity with
  | nil =>
    refine ⟨capacity, s.scratch, hroom, Nat.le_refl _, fun env _ => ?_⟩
    rw [List.map_nil, List.append_nil, ← htable, setTable_self]
    rfl
  | cons label labels ih =>
    obtain ⟨capacity₁, x, hroom₁, hx, hadd⟩ := @symTryAdd_runs id s symbols capacity label htable hroom
    obtain ⟨capacity₂, y, hroom₂, hy, hstore⟩ := @ih ((s.setTable id ⟨symbols ++ [label.symbol], capacity₁, capacity₁⟩).withScratch x)
      (symbols ++ [label.symbol]) capacity₁ (by simp) (by rwa [List.length_append])
    refine ⟨capacity₂, y, ?_, Nat.le_trans hx hy, fun env hgrants => ?_⟩
    · rw [List.length_append, List.length_singleton, Nat.add_assoc, Nat.add_comm 1] at hroom₂
      exact hroom₂
    · have hfirst := hadd env fun k hk hlt => hgrants k hk (Nat.lt_of_lt_of_le hlt hy)
      have hrest := hstore env fun k hk hlt => hgrants k (Nat.le_trans hx hk) hlt
      show (symTryAdd env id label.1 label.2 >>= fun _ => symStore env id labels) s = _
      rw [bind_of_ok hfirst, hrest, setTable_again, List.append_assoc, List.map_cons]
      rfl

theorem symStore_append {labels' : List Label} :
    symStore env id (labels ++ labels') = symStore env id labels >>= fun _ => symStore env id labels' := each_append

/-- A label is dropped, where there is no memory for a larger table. -/
theorem symTryAdd_drops (htable : s.inf.table id = ⟨symbols, capacity, capacity⟩) (hfull : symbols.length = capacity)
    (hmalloc : env.malloc s.scratch.clock = false) :
    symTryAdd env id label.1 label.2 s = .ok () ((s.setTable id ⟨symbols, capacity <<< 1, capacity⟩).withScratch
      (s.scratch.tick.withError .outOfMemory (strerror .outOfMemory))) := by
  refine wp.eq_ok ?_
  unfold symTryAdd symAdd symGrow
  simp only [wp_bind, wp_attempt, wp_get, htable, wp_when, if_pos hfull, wp_modify, wp_malloc_iff, setTable_scratch, hmalloc, if_true,
    wp_setCode]
  cases id <;> rfl

end Runs

/-- A system that opens the file and allocates memory at the times that `malloc` says. `qsort` gives `after` for `before`,
    and sorts other lists by insertion. -/
def Env.opening (file : ElfFile) (units : Option (List DwarfUnit)) (malloc : Nat → Bool) (before after : List Symbol) : Env :=
  { Env.compliant with
    malloc
    dwarf := fun _ _ => units
    elf := fun _ _ => some file
    qsort := fun _ symbols => if symbols = before then after else symbols.insertionSort SymbolLe }

section Opening
variable {file : ElfFile} {units : Option (List DwarfUnit)} {malloc : Nat → Bool} {before after : List Symbol} {path : Option String}
  {s : State}

theorem opening_qsort (n : Nat) : (Env.opening file units malloc before after).qsort n before = after := if_pos rfl

theorem opening_sorts (hperm : after.Perm before) (hsorted : (after.filterMap Symbol.name).Pairwise NameLe) :
    (Env.opening file units malloc before after).Sorts := by
  intro n symbols _
  by_cases h : symbols = before
  · subst h
    rw [opening_qsort]
    exact ⟨hperm, hsorted⟩
  · rw [show (Env.opening file units malloc before after).qsort n symbols = symbols.insertionSort SymbolLe from if_neg h]
    exact ⟨List.perm_insertionSort SymbolLe symbols, insertionSort_names symbols⟩

theorem opening_shows : (Env.opening file units malloc before after).Shows path file units :=
  ⟨fun _ _ h => (Option.some.inj h).symm, fun _ => rfl⟩

/-- Both tables are empty and have a block. -/
def State.emptied (s : State) (x : Scratch) : State :=
  ((s.setTable .elf ⟨[], 256, 256⟩).setTable .dwarf ⟨[], 256, 256⟩).withScratch x

theorem wp_symSort_named {env : Env} {id : TableId} {F : Fault → State → Prop} {Q : Unit → State → Prop} {E : Code → State → Prop}
    (hnamed : (s.inf.table id).Named)
    (h : Q () ((s.setTable id { s.inf.table id with symbols := env.qsort s.scratch.clock (s.inf.table id).symbols }).withScratch
      s.scratch.tick)) : wp F (symSort env id) Q E s := by
  unfold symSort
  rw [wp_bind, wp_get, wp_bind, wp_when, if_neg fun hnameless => ?_, wp_bind, wp_tick, wp_modify]
  · cases id <;> exact h
  · obtain ⟨-, sym, hsym, hname⟩ := hnameless
    exact hnamed sym hsym hname

theorem named_map_symbol {labels : List Label} {capacity allocated : Nat} :
    (SymTable.mk (labels.map Label.symbol) capacity allocated).Named := by
  intro sym hsym hname
  obtain ⟨label, -, rfl⟩ := List.mem_map.mp hsym
  cases hname

/-- The load of the file, after the walk over the DWARF information left the table `dwarf`. -/
theorem opening_loads {dwarf : SymTable} {x : Scratch} (hstr : file.shstrndx = true) (hdiv : file.Divides)
    (hmalloc : malloc s.scratch.clock = true) (hmalloc' : malloc (s.scratch.clock + 1) = true)
    (hafter : ∀ n, x.clock ≤ n → malloc n = true) (hnamed : dwarf.Named)
    (hwalk : symStore (Env.opening file units malloc before after) .dwarf (describedLabels units) (s.emptied s.scratch.tick.tick.tick) =
      .ok () (((s.emptied x).setTable .dwarf dwarf).withScratch x)) :
    ∃ t, symLoadTables (Env.opening file units malloc before after) s = .ok () t ∧
      t.inf.dwarfTable.symbols = (Env.opening file units malloc before after).qsort 0 dwarf.symbols ∧
      t.inf.elfTable.symbols = (Env.opening file units malloc before after).qsort 0 (file.labels.map Label.symbol) := by
  have hreset : symReset (Env.opening file units malloc before after) s = .ok () (s.emptied s.scratch.tick.tick) := by
    refine wp.eq_ok ?_
    unfold symReset symDestroy symInit symTableInit symTableDestroy
    have hgrants : ∀ n, (Env.opening file units malloc before after).malloc n = malloc n := fun _ => rfl
    simp only [wp_bind, wp_modify, wp_attempt, wp_ite, wp_malloc_iff, setTable_scratch, withScratch_scratch, Scratch.tick_clock, hgrants,
      hmalloc, hmalloc', if_true]
    rfl
  suffices hwp : wp (fun _ _ => False) (symLoadTables (Env.opening file units malloc before after))
      (fun _ t => t.inf.dwarfTable.symbols = (Env.opening file units malloc before after).qsort 0 dwarf.symbols ∧
        t.inf.elfTable.symbols = (Env.opening file units malloc before after).qsort 0 (file.labels.map Label.symbol))
      (fun _ _ => False) s by
    obtain ⟨⟨⟩, t, hrun, hsymbols⟩ := hwp.exists_ok
    exact ⟨t, hrun, hsymbols⟩
  rw [symLoadTables_eq, wp_bind]
  refine wp_of_eq_ok hreset ?_
  rw [wp_bind, wp_get, wp_bind]
  refine wp_symWalk_store opening_shows (wp_of_eq_ok hwalk ?_)
  rw [wp_bind]
  refine wp_symLoadElf_store opening_shows hdiv ?_ fun hfailed => absurd ⟨rfl, rfl, file, rfl, hstr⟩ hfailed
  obtain ⟨capacity, y, -, hy, hstore⟩ := @symStore_runs .elf ((((s.emptied x).setTable .dwarf dwarf).withScratch x).withScratch
    x.tick.tick.tick) [] 256 file.labels rfl ⟨0, rfl, Nat.zero_le _, Or.inl rfl⟩
  refine wp_of_eq_ok (hstore _ fun n hn _ => hafter n (Nat.le_trans (Nat.le_add_right _ 3) hn)) ?_
  rw [wp_bind]
  refine wp_symSort_named hnamed (wp_symSort_named ?_ ⟨rfl, rfl⟩)
  exact named_map_symbol

theorem getLabelAddr_dwarf {name : String} (sym : Symbol) (h : symLookup s.inf.dwarfTable name s = .ok (some sym) s) :
    getLabelAddr name s = .ok sym.addr s := by
  unfold getLabelAddr
  rw [bind_of_ok (show Exec.get s = .ok s s from rfl), bind_of_ok h]
  rfl

theorem getLabelAddr_elf {name : String} (sym : Symbol) (h : symLookup s.inf.dwarfTable name s = .ok none s)
    (h' : symLookup s.inf.elfTable name s = .ok (some sym) s) : getLabelAddr name s = .ok sym.addr s := by
  unfold getLabelAddr
  rw [bind_of_ok (show Exec.get s = .ok s s from rfl), bind_of_ok h]
  dsimp only
  rw [bind_of_ok h']
  rfl

/-- A load of the file after which a breakpoint on the name is placed at the address. -/
def Places (file : ElfFile) (units : Option (List DwarfUnit)) (name : String) (addr : Addr) (s : State) : Prop :=
  ∃ malloc before after t t', (Env.opening file units malloc before after).Sorts ∧
    symLoadTables (Env.opening file units malloc before after) s = .ok () t ∧ getLabelAddr name t = .ok addr t'

variable {name : String} {addr : Addr}

theorem places_described (hstr : file.shstrndx = true) (hdiv : file.Divides) (h : (name, addr) ∈ describedLabels units) :
    Places file units name addr s := by
  obtain ⟨capacity, x, -, -, hstore⟩ := @symStore_runs .dwarf (s.emptied s.scratch.tick.tick.tick) [] 256 (describedLabels units) rfl
    ⟨0, rfl, Nat.zero_le _, Or.inl rfl⟩
  have hmem : (⟨some name, addr⟩ : Symbol) ∈ (describedLabels units).map Label.symbol := List.mem_map.mpr ⟨_, h, rfl⟩
  have hnamed : (SymTable.mk ((describedLabels units).map Label.symbol) capacity capacity).Named := named_map_symbol
  obtain ⟨after, hperm, hsorted, hlookup⟩ := exists_order hnamed hmem
  obtain ⟨t, hrun, hdwarf, -⟩ := @opening_loads file units (fun _ => true) ((describedLabels units).map Label.symbol) after s
    ⟨(describedLabels units).map Label.symbol, capacity, capacity⟩ x hstr hdiv rfl rfl (fun _ _ => rfl) hnamed
    (hstore _ fun _ _ _ => rfl)
  refine ⟨_, _, after, t, t, opening_sorts hperm hsorted, hrun, getLabelAddr_dwarf ⟨some name, addr⟩ ?_⟩
  exact hlookup _ _ (hdwarf.trans (opening_qsort 0))

/-- The address of a symbol in the file, after a walk that left a table without the name. -/
theorem places_missed {dwarf : SymTable} {x : Scratch} (hstr : file.shstrndx = true) (hdiv : file.Divides)
    (hmalloc : malloc s.scratch.clock = true) (hmalloc' : malloc (s.scratch.clock + 1) = true)
    (hafter : ∀ n, x.clock ≤ n → malloc n = true) (hnamed : dwarf.Named) (habsent : name ∉ dwarf.names)
    (hwalk : ∀ before after, symStore (Env.opening file units malloc before after) .dwarf (describedLabels units)
      (s.emptied s.scratch.tick.tick.tick) = .ok () (((s.emptied x).setTable .dwarf dwarf).withScratch x))
    (h : (name, addr) ∈ file.labels) : Places file units name addr s := by
  have hmem : (⟨some name, addr⟩ : Symbol) ∈ file.labels.map Label.symbol := List.mem_map.mpr ⟨_, h, rfl⟩
  obtain ⟨after, hperm, hsorted, hlookup⟩ := exists_order
    (show (SymTable.mk (file.labels.map Label.symbol) 0 0).Named from named_map_symbol) hmem
  obtain ⟨t, hrun, hdwarf, helf⟩ := opening_loads hstr hdiv hmalloc hmalloc' hafter hnamed (hwalk (file.labels.map Label.symbol) after)
  have hsorts : (Env.opening file units malloc (file.labels.map Label.symbol) after).Sorts := opening_sorts hperm hsorted
  obtain ⟨hperm', hsorted'⟩ := hsorts 0 dwarf.symbols (Or.inr hnamed)
  rw [← hdwarf] at hperm' hsorted'
  obtain ⟨r, hlooked, hmiss⟩ := @symLookup_eq t.inf.dwarfTable name hsorted' fun sym hsym =>
    hnamed sym (hperm'.mem_iff.mp hsym)
  refine ⟨_, _, after, t, t, hsorts, hrun, getLabelAddr_elf ⟨some name, addr⟩ ?_ (hlookup _ _ (helf.trans (opening_qsort 0)))⟩
  cases hlooked with
  | found sym mem name_eq => exact absurd (List.mem_filterMap.mpr ⟨sym, hperm'.mem_iff.mp mem, name_eq⟩) habsent
  | missing _ => exact hmiss t

theorem places_defined (hstr : file.shstrndx = true) (hdiv : file.Divides) (hmiss : Missable (describedLabels units) name)
    (h : (name, addr) ∈ file.labels) : Places file units name addr s := by
  rcases hmiss with habsent | ⟨⟨k, hlength⟩, habsent⟩
  · obtain ⟨capacity, x, -, -, hstore⟩ := @symStore_runs .dwarf (s.emptied s.scratch.tick.tick.tick) [] 256 (describedLabels units) rfl
      ⟨0, rfl, Nat.zero_le _, Or.inl rfl⟩
    refine @places_missed file units (fun _ => true) s name addr ⟨(describedLabels units).map Label.symbol, capacity, capacity⟩ x hstr
      hdiv rfl rfl (fun _ _ => rfl) named_map_symbol ?_ (fun _ _ => hstore _ fun _ _ _ => rfl) h
    rwa [SymTable.names, names_map_symbol]
  · -- the table is full before the last label
    have hne : describedLabels units ≠ [] := List.ne_nil_of_length_pos (by omega)
    have hsplit := List.dropLast_append_getLast hne
    generalize (describedLabels units).getLast hne = last at hsplit
    have hinit : (describedLabels units).dropLast.length = 256 * 2 ^ k := by rw [List.length_dropLast, hlength]; rfl
    generalize (describedLabels units).dropLast = init at hsplit hinit habsent
    obtain ⟨capacity, x, hroom, hx, hstore⟩ := @symStore_runs .dwarf (s.emptied s.scratch.tick.tick.tick) [] 256 init rfl
      ⟨0, rfl, Nat.zero_le _, Or.inl rfl⟩
    have hfull : (init.map Label.symbol).length = capacity := by
      rw [show [].length + init.length = init.length from Nat.zero_add _, hinit] at hroom
      rw [List.length_map, hinit, hroom.full]
    have hlt : s.scratch.clock + 3 ≤ x.clock := hx
    refine @places_missed file units (fun n => decide (n ≠ x.clock)) s name addr ⟨init.map Label.symbol, capacity <<< 1, capacity⟩
      (x.tick.withError .outOfMemory (strerror .outOfMemory)) hstr hdiv (decide_eq_true (by omega)) (decide_eq_true (by omega))
      (fun n hn => decide_eq_true (Nat.ne_of_gt hn)) named_map_symbol ?_ (fun before after => ?_) h
    · rwa [SymTable.names, names_map_symbol]
    · have hstored := hstore (Env.opening file units (fun n => decide (n ≠ x.clock)) before after) fun n _ hn =>
        decide_eq_true (Nat.ne_of_lt hn)
      rw [← hsplit, symStore_append, bind_of_ok hstored]
      have hmalloc : (Env.opening file units (fun n => decide (n ≠ x.clock)) before after).malloc x.clock = false :=
        decide_eq_false (not_not.mpr rfl)
      have hdrop := @symTryAdd_drops (Env.opening file units (fun n => decide (n ≠ x.clock)) before after) .dwarf
        (((s.emptied s.scratch.tick.tick.tick).setTable .dwarf ⟨init.map Label.symbol, capacity, capacity⟩).withScratch x)
        (init.map Label.symbol) capacity last rfl hfull hmalloc
      exact (bind_of_ok hdrop).trans rfl

end Opening

/-! ### One address -/

/-- Wherever both resolve the name, the breakpoint is placed where the disassembly starts. -/
def OneAddress (file : ElfFile) (units : Option (List DwarfUnit)) (name : String) : Prop :=
  ∀ (env : UiEnv) (path : Option String) (s t t' : State) (u u' : Session) (addr start : Addr) (size : BitVec 64),
    env.Sorts → env.Shows path file units → s.inf.realpath = path → symLoadTables env.toEnv s = .ok () t →
    getLabelAddr name t = .ok addr t' → getFunctionBounds env path name u = .ok (some (start, size)) u' → addr = start

/-- Each label of the name that a load may look up is at the first symbol of the name. -/
def ElfFile.Agrees (file : ElfFile) (units : Option (List DwarfUnit)) (name : String) : Prop :=
  ∀ sym, file.first name = some sym → file.shstrndx = true → file.Divides →
    (∀ addr, (name, addr) ∈ describedLabels units → addr = sym.stValue) ∧
    (Missable (describedLabels units) name → ∀ addr, (name, addr) ∈ file.labels → addr = sym.stValue)

/-- On each system that places the breakpoint, the disassembly starts at the first symbol. -/
theorem OneAddress.places {file : ElfFile} {units : Option (List DwarfUnit)} {name : String} {sym : ElfSym} {addr : Addr} {s : State}
    (h : OneAddress file units name) (hfirst : file.first name = some sym) (hstr : file.shstrndx = true)
    (hplaces : Places file units name addr s) : addr = sym.stValue := by
  obtain ⟨malloc, before, after, t, t', hsorts, hload, hlabel⟩ := hplaces
  obtain ⟨u', hbounds⟩ := @getFunctionBounds_finds (UiEnv.on (Env.opening file units malloc before after)) file name
    s.inf.realpath (Session.on s) sym (fun _ => rfl) (fun _ => rfl) (fun _ => rfl) hstr hfirst
  exact h (UiEnv.on (Env.opening file units malloc before after)) s.inf.realpath s t t' (Session.on s) u' addr sym.stValue sym.stSize
    hsorts opening_shows rfl hload hlabel hbounds

theorem one_address_iff (file : ElfFile) (units : Option (List DwarfUnit)) (name : String) :
    OneAddress file units name ↔ file.Agrees units name := by
  constructor
  · intro h sym hfirst hstr hdiv
    refine ⟨fun addr hmem => ?_, fun hmiss addr hmem => ?_⟩
    · exact h.places hfirst hstr (@places_described file units State.blank name addr hstr hdiv hmem)
    · exact h.places hfirst hstr (@places_defined file units State.blank name addr hstr hdiv hmiss hmem)
  · intro h env path s t t' u u' addr start size hsorts hshows hpath hload hlabel hbounds
    obtain ⟨hstr, sym, hfirst, rfl⟩ := getFunctionBounds_first hshows hbounds
    subst hpath
    have hdiv := divides_of_load hshows hload
    obtain ⟨hdescribed, hdefined⟩ := h sym hfirst hstr hdiv
    rcases ((wp_symLoadTables_searchable hsorts hshows hdiv).ok hload).label hlabel with hmem | ⟨hmiss, hmem⟩
    · exact hdescribed addr hmem
    · exact hdefined hmiss addr hmem

/-- A file with a data section, a section of code, and a symbol table. The name `total` is that of a static variable of one
    source file, and of a function of another. -/
def ElfFile.twice : ElfFile where
  sections := [
    ⟨true, 1, 3, 8, 0, none⟩,
    ⟨true, 1, 6, 64, 0, none⟩,
    ⟨true, SHT_SYMTAB, 0, 48, 24, some fun i =>
      [⟨some "total", 0x4010, 4, 1⟩, ⟨some "total", 0x1130, 21, 2⟩][i]?⟩]
  shstrndx := true

/-- The breakpoint is placed in the function, and the disassembly starts at the variable. -/
theorem variable_hides_function : ¬∀ (file : ElfFile) (units : Option (List DwarfUnit)) (name : String), OneAddress file units name := by
  intro h
  have hplaces : Places .twice none "total" 0x1130 State.blank :=
    places_defined rfl (by simp [ElfFile.Divides, ElfFile.twice, ElfSection.IsSymbols]) (Or.inl (by decide)) (by decide +kernel)
  have hfirst : ElfFile.twice.first "total" = some ⟨some "total", 0x4010, 4, 1⟩ := by decide +kernel
  exact absurd ((h .twice none "total").places hfirst rfl hplaces) (by decide)

end Sylvan
