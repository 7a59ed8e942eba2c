import Mathlib.Data.List.Sort
import Sylvan.Theorems.Loading
import Sylvan.Theorems.Lookup
import Sylvan.Theorems.SameTables

/-! The symbol tables are sorted at the end of `sylvan_sym_load_tables`, after both loaders: a file that `libelf`
    does not open leaves the labels of its DWARF information in the order of the walk. -/

namespace Sylvan
open Exec

/-- `qsort` by `symcmp`: the same symbols in the order of their names, where there are names to compare. -/
def Env.Sorts (env : Env) : Prop :=
  ∀ n symbols, (symbols.length < 2 ∨ ∀ sym ∈ symbols, sym.name ≠ none) →
    (env.qsort n symbols).Perm symbols ∧ ((env.qsort n symbols).filterMap Symbol.name).Pairwise NameLe

namespace State

/-- Both tables are in the order of their names. -/
def Sorted (s : State) : Prop := s.inf.dwarfTable.Sorted ∧ s.inf.elfTable.Sorted

/-- No copy of a name failed. -/
def Named (s : State) : Prop := s.inf.dwarfTable.Named ∧ s.inf.elfTable.Named

/-- One of the tables has a symbol of the name. -/
def HasName (s : State) (name : String) : Prop := name ∈ s.inf.dwarfTable.names ∨ name ∈ s.inf.elfTable.names

/-- One of the tables has a symbol of the name at the address. -/
def HasLabel (s : State) (name : String) (addr : Addr) : Prop :=
  ⟨some name, addr⟩ ∈ s.inf.dwarfTable.symbols ∨ ⟨some name, addr⟩ ∈ s.inf.elfTable.symbols

end State

section
variable {env : Env} {s t : State} {id : TableId} {F : Fault → State → Prop}

/-! ### The phases of a load -/

/-- The part of `sylvan_sym_load_tables` that empties the tables. -/
def symReset (env : Env) : SylvanM Unit := do
  symDestroy
  let _ ← Exec.attempt (symInit env)

/-- The part that walks the DWARF information. -/
def symWalk (env : Env) (path : Option String) : SylvanM Unit :=
  Exec.catching (symLoadDwarf env path .dwarf) fun code => Exec.when (code ≠ .dwarfNotFound) (Exec.error code)

theorem symLoadTables_eq : symLoadTables env = (do
    symReset env
    let path := (← Exec.get).inf.realpath
    symWalk env path
    symLoadElf env path .elf
    symSort env .dwarf
    symSort env .elf) := by
  simp only [symLoadTables, symReset, symWalk, bind_assoc, pure_bind]

/-- The part of `sylvan_set_filepath` before the load. -/
def switchPath (env : Env) (filepath : String) : SylvanM Unit := do
  let newpath ← canonicalPath env filepath
  let short := cut 256 filepath
  let text :=
    if filepath.length ≤ 256 then s!"File '{filepath}' is not executable" else s!"File '{short}...' is not executable"
  checked env .notExecutable text (Sys.plain fun t => env.access t newpath)
  setRealpath (some newpath)

theorem setFilepath_eq {filepath : String} : setFilepath env (some filepath) = (do
    switchPath env filepath
    symLoadTables env) := by
  simp only [setFilepath, switchPath, bind_assoc]

/-! ### When a load leaves sorted tables -/

/-- `libelf` opens the file at `path`, from time `n` on. -/
def Env.Opens (env : Env) (n : Nat) (path : Option String) : Prop :=
  env.elfVersion n = true ∧ env.openFile (n + 1) path = none ∧ ∃ file, env.elf (n + 2) path = some file ∧ file.shstrndx = true

/-- The names of the DWARF information that `libdwarf` finds at `path` at time `n`, in the order of the walk. -/
def Env.dwarfNames (env : Env) (n : Nat) (path : Option String) : List String :=
  ((env.dwarf n path).elim [] dwarfLabels).map Prod.fst

/-- In a load from `s`, `libelf` opens the file, or the names of its DWARF information are in order as they are. -/
def Env.Loadable (env : Env) (s : State) : Prop :=
  ∀ u v, symReset env s = .ok () u → symWalk env u.inf.realpath u = .ok () v →
    env.Opens v.scratch.clock u.inf.realpath ∨ (env.dwarfNames u.scratch.clock u.inf.realpath).Pairwise NameLe

/-- The call comes to a load, from the state `u`. -/
inductive Op.Loads (env : Env) (s : State) : Op → State → Prop where
  | attach (pid : Pid) (u : State) (h : attachProcess env pid s = .ok () u) : Op.Loads env s (.attach pid) u
  | setFilepath (filepath : String) (u : State) (h : switchPath env filepath s = .ok () u) :
    Op.Loads env s (.setFilepath (some filepath)) u

def Op.Loadable (env : Env) (s : State) (op : Op) : Prop := ∀ u, op.Loads env s u → env.Loadable u

/-! ### The loaders -/

/-- Only the table `id` changes, and the names that it gets are some of `names`, in their order. -/
structure Collected (id : TableId) (names : List String) (s t : State) : Prop where
  added : ∃ l, (t.inf.table id).names = (s.inf.table id).names ++ l ∧ l.Sublist names
  others : ∀ id', id' ≠ id → t.inf.table id' = s.inf.table id'

theorem Collected.refl : Collected id [] s s := ⟨⟨[], (List.append_nil _).symm, List.Sublist.refl _⟩, fun _ _ => rfl⟩

theorem Collected.append {u : State} {names names' : List String} (h : Collected id names s t) (h' : Collected id names' t u) :
    Collected id (names ++ names') s u := by
  obtain ⟨l, hl, hsub⟩ := h.added
  obtain ⟨l', hl', hsub'⟩ := h'.added
  exact ⟨⟨l ++ l', by rw [hl', hl, List.append_assoc], hsub.append hsub'⟩, fun id' hid => (h'.others id' hid).trans (h.others id' hid)⟩

theorem collected_setTable {table : SymTable} {x : Scratch} {name : String}
    (h : table.names = (s.inf.table id).names ∨ table.names = (s.inf.table id).names ++ [name]) :
    Collected id [name] s ((s.setTable id table).withScratch x) := by
  refine ⟨?_, fun id' hid => setTable_other hid⟩
  simp only [withScratch_inf, setTable_table]
  rcases h with h | h
  · exact ⟨[], by rw [h, List.append_nil], List.nil_sublist _⟩
  · exact ⟨[name], h, List.Sublist.refl _⟩

theorem wp_symStore_names {E : Code → State → Prop} (hF : ∀ t, F .outOfBounds t) (labels : List Label) :
    wp F (symStore env id labels) (fun _ t => Collected id (labels.map Prod.fst) s t) E s := by
  unfold symStore
  induction labels generalizing s with
  | nil => exact Collected.refl
  | cons label labels ih =>
    rw [wp_each_cons]
    have hnext : ∀ u, Collected id [label.1] s u → wp F (Exec.each labels fun label => symTryAdd env id label.1 label.2)
        (fun _ t => Collected id ((label :: labels).map Prod.fst) s t) E u := fun u hu =>
      ih.imp (fun _ t ht => hu.append ht) fun _ _ h => h
    refine wp_symTryAdd hF (fun capacity allocated copied x _ _ _ => hnext _ (collected_setTable ?_))
      fun _ _ x => hnext _ (collected_setTable (Or.inl rfl))
    unfold SymTable.names
    cases copied with
    | true => exact Or.inr (by simp)
    | false => exact Or.inl (by simp)

/-- Both tables are new: the block of the second may be missing, or those of both. -/
theorem wp_symReset_blocks {Q : Unit → State → Prop} {E : Code → State → Prop}
    (hready : ∀ allocated x, allocated = 256 ∨ allocated = 0 →
      Q () (((s.setTable .elf ⟨[], 256, 256⟩).setTable .dwarf ⟨[], 256, allocated⟩).withScratch x))
    (hnone : ∀ x, Q () (((s.setTable .elf ⟨[], 256, 0⟩).setTable .dwarf ⟨[], 0, 0⟩).withScratch x)) :
    wp F (symReset env) Q E s := by
  unfold symReset symDestroy symInit symTableInit symTableDestroy
  simp only [wp_bind, wp_modify, wp_attempt, wp_ite, wp_setCode, wp_pure]
  refine wp_malloc fun b x => ?_
  split
  · refine wp_malloc fun b' y => ?_
    split
    · exact hready 256 _ (Or.inl rfl)
    · exact hready 0 _ (Or.inr rfl)
  · exact hnone _

/-- Both tables are empty. -/
def State.Empty (s : State) : Prop := ∀ id, (s.inf.table id).symbols = []

theorem State.Empty.sorted (h : s.Empty) : s.Sorted := by
  have hnames : ∀ id, (s.inf.table id).Sorted := fun id => by
    unfold SymTable.Sorted SymTable.names
    rw [h id]
    exact List.Pairwise.nil
  exact ⟨hnames .dwarf, hnames .elf⟩

theorem wp_symReset {E : Code → State → Prop} :
    wp F (symReset env) (fun _ t => t.Empty) E s :=
  wp_symReset_blocks (fun _ _ _ id => by cases id <;> rfl) fun _ id => by cases id <;> rfl

theorem wp_symWalk (hF : ∀ t, F .outOfBounds t) (path : Option String) :
    wp F (symWalk env path) (fun _ t => Collected .dwarf (env.dwarfNames s.scratch.clock path) s t) (fun _ _ => False) s := by
  unfold symWalk symLoadDwarf Env.dwarfNames
  rw [wp_catching, wp_bind, wp_tick]
  have hticked : ∀ names u, Collected .dwarf names (s.withScratch s.scratch.tick) u → Collected .dwarf names s u :=
    fun _ _ h => ⟨h.added, h.others⟩
  cases env.dwarf s.scratch.clock path with
  | none => exact hticked _ _ Collected.refl
  | some units =>
    dsimp only
    rw [symLoadUnits_eq]
    exact (wp_symStore_names hF _).imp (fun _ t => hticked _ t) fun _ _ h => h

/-- A division by zero is a fault. -/
theorem wp_symLoadElfSection_zero {Q : Unit → State → Prop} {E : Code → State → Prop} {file : ElfFile} {scn : ElfSection}
    (hF : ∀ t, F .divisionByZero t) (h : ¬(scn.IsSymbols → scn.shEntsize ≠ 0)) : wp F (symLoadElfSection env file id scn) Q E s := by
  obtain ⟨hscn, hzero⟩ := Classical.not_imp.mp h
  obtain ⟨getsym, hdata⟩ := Option.isSome_iff_exists.mp hscn.2.2
  have htype : ¬(scn.shType ≠ SHT_SYMTAB ∧ scn.shType ≠ SHT_DYNSYM) := fun hne => hscn.2.1.elim hne.1 hne.2
  unfold symLoadElfSection
  rw [if_neg (by simp [hscn.1]), if_neg htype, hdata]
  dsimp only
  rw [wp_bind, when_true (not_not.mp hzero)]
  exact hF _

theorem wp_symLoadElfSection_names {E : Code → State → Prop} {file : ElfFile} {scn : ElfSection} (hF : ∀ f t, F f t) :
    wp F (symLoadElfSection env file id scn)
      (fun _ t => Collected id ((file.sectionLabels scn).map Prod.fst) s t) E s := by
  by_cases hdiv : scn.IsSymbols → scn.shEntsize ≠ 0
  · rw [symLoadElfSection_eq hdiv]
    exact wp_symStore_names (hF _) _
  · exact wp_symLoadElfSection_zero (hF _) hdiv

theorem wp_symLoadElfSections_names {E : Code → State → Prop} {file : ElfFile} (hF : ∀ f t, F f t) (scns : List ElfSection) :
    wp F (Exec.each scns (symLoadElfSection env file id))
      (fun _ t => Collected id ((scns.flatMap file.sectionLabels).map Prod.fst) s t) E s := by
  induction scns generalizing s with
  | nil => exact Collected.refl
  | cons scn scns ih =>
    rw [wp_each_cons, List.flatMap_cons, List.map_append]
    exact (wp_symLoadElfSection_names hF).imp (fun _ u hu => ih.imp (fun _ t ht => hu.append ht) fun _ _ h => h) fun _ _ h => h

theorem wp_symLoadElf {Q : Unit → State → Prop} {E : Code → State → Prop} {path : Option String}
    (hopened : env.Opens s.scratch.clock path → ∀ file, env.elf (s.scratch.clock + 2) path = some file → file.shstrndx = true →
      wp F (Exec.each file.sections (symLoadElfSection env file .elf)) Q E (s.withScratch s.scratch.tick.tick.tick))
    (hfailed : ¬env.Opens s.scratch.clock path → ∀ c x, E c (s.withScratch x)) :
    wp F (symLoadElf env path .elf) Q E s := by
  unfold symLoadElf
  rw [wp_bind, wp_tick, wp_bind, wp_when]
  split
  · rename_i hversion
    refine hfailed (fun h => ?_) _ _
    simp [h.1] at hversion
  rw [wp_bind]
  rename_i hversion
  refine wp_checked (wp_plain_answer (fun hopen => ?_) fun e hopen x => ?_)
  · dsimp only
    rw [wp_bind, wp_tick]
    simp only [withScratch_scratch, Scratch.tick_clock]
    cases helf : env.elf (s.scratch.clock + 1 + 1) path with
    | none =>
      refine hfailed (fun h => ?_) _ _
      obtain ⟨file, hfile, -⟩ := h.2.2
      cases helf.symm.trans hfile
    | some file =>
      dsimp only
      rw [wp_bind, wp_when]
      split
      · rename_i hstr
        refine hfailed (fun h => ?_) _ _
        obtain ⟨file', hfile, hstr'⟩ := h.2.2
        cases helf.symm.trans hfile
        simp [hstr] at hstr'
      · rename_i hstr
        have hstr : file.shstrndx = true := by simpa using hstr
        exact hopened ⟨by simpa using hversion, hopen, file, helf, hstr⟩ file helf hstr
  · refine hfailed (fun h => ?_) _ _
    cases h.2.1.symm.trans hopen

theorem wp_symSort {Q : Unit → State → Prop} {E : Code → State → Prop} (hq : env.Sorts) (hF : ∀ f t, F f t)
    (h : ∀ symbols x, ((s.inf.table id).symbols.length < 2 ∨ (s.inf.table id).Named) → symbols.Perm (s.inf.table id).symbols →
      (symbols.filterMap Symbol.name).Pairwise NameLe →
      Q () ((s.setTable id { s.inf.table id with symbols }).withScratch x)) : wp F (symSort env id) Q E s := by
  unfold symSort
  rw [wp_bind, wp_get, wp_bind, wp_when]
  split
  · exact hF _ _
  · rename_i hnamed
    have hcomparable : (s.inf.table id).symbols.length < 2 ∨ (s.inf.table id).Named := by
      by_cases hlen : (s.inf.table id).symbols.length < 2
      · exact Or.inl hlen
      · exact Or.inr fun sym hsym hname => hnamed ⟨Nat.not_lt.mp hlen, sym, hsym, hname⟩
    have hsorted := hq s.scratch.clock (s.inf.table id).symbols hcomparable
    have := h _ s.scratch.tick hcomparable hsorted.1 hsorted.2
    rw [wp_bind, wp_tick, wp_modify]
    cases id <;> exact this

/-! ### Loads -/

theorem wp_symLoadTables_sorted (hq : env.Sorts) (hs : env.Loadable s) :
    wp (fun _ _ => True) (symLoadTables env) (fun _ t => t.Sorted) (fun _ t => t.Sorted) s := by
  rw [symLoadTables_eq, wp_bind]
  have hreset : wp (fun _ _ => True) (symReset env) (fun _ t => t.Empty) (fun _ _ => False) s := wp_symReset
  refine wp_of (fun _ u hu => ?_) (fun _ _ h => (hreset.error h).elim) fun _ _ _ => trivial
  have hempty := hreset.ok hu
  rw [wp_bind, wp_get, wp_bind]
  have hwalk : wp (fun _ _ => True) (symWalk env u.inf.realpath) _ (fun _ _ => False) u := wp_symWalk (fun _ => trivial) _
  refine wp_of (fun _ v hv => ?_) (fun _ _ h => (hwalk.error h).elim) fun _ _ _ => trivial
  have hcollected := hwalk.ok hv
  rw [wp_bind]
  refine wp_symLoadElf (fun _ file _ _ => ?_) fun hfailed c x => ?_
  · refine (wp_symLoadElfSections_names (fun _ _ => trivial) _).imp (fun _ w _ => ?_) fun _ _ h => h
    rw [wp_bind]
    refine wp_symSort hq (fun _ _ => trivial) fun dwarf y _ _ hdwarf => ?_
    exact wp_symSort hq (fun _ _ => trivial) fun elf z _ _ helf => ⟨hdwarf, helf⟩
  · obtain ⟨l, hl, hsub⟩ := hcollected.added
    have hnil : (u.inf.table .dwarf).names = [] := by rw [SymTable.names, hempty .dwarf]; rfl
    have helf : (v.inf.table .elf).names = [] := by
      rw [hcollected.others .elf (by decide), SymTable.names, hempty .elf]
      rfl
    rcases hs u v hu hv with hopens | horder
    · exact absurd hopens hfailed
    · rw [hnil, List.nil_append] at hl
      exact ⟨(congrArg (List.Pairwise NameLe) hl).mpr (horder.sublist hsub), (congrArg (List.Pairwise NameLe) helf).mpr .nil⟩

theorem SameTables.sorted (h : SameTables s t) (hs : s.Sorted) : t.Sorted := by
  unfold State.Sorted
  rw [h.elf, h.dwarf]
  exact hs

/-- What holds of the tables still holds after a call that leaves them alone. -/
theorem wp_of_tables {α : Type} {P : State → Prop} {y : SylvanM α} (hP : ∀ {s t}, SameTables s t → P s → P t) (hy : Keeps SameTables y)
    (hs : P s) : wp (fun _ _ => True) y (fun _ t => P t) (fun _ t => P t) s :=
  (hy s).mono (fun _ _ h => hP h hs) (fun _ _ h => hP h hs) fun _ _ _ => trivial

/-- It holds after a call that loads the tables after `y`, if it holds after the load. -/
theorem wp_load_of_tables {P : State → Prop} {y : SylvanM Unit} {z : Unit → SylvanM Unit} (hP : ∀ {s t}, SameTables s t → P s → P t)
    (hy : Keeps SameTables y) (hz : Keeps SameTables (z ())) (hs : P s)
    (hload : ∀ u, y s = .ok () u → wp (fun _ _ => True) (symLoadTables env) (fun _ t => P t) (fun _ t => P t) u) :
    wp (fun _ _ => True) (y >>= fun _ => symLoadTables env >>= z) (fun _ t => P t) (fun _ t => P t) s := by
  rw [wp_bind]
  refine wp_of (fun _ u hu => ?_) (fun _ _ hu => hP ((hy s).error hu) hs) fun _ _ _ => trivial
  rw [wp_bind]
  exact (hload u hu).imp (fun _ v hv => wp_of_tables hP hz hv) fun _ _ h => h

theorem tables_switchPath {filepath : String} : Keeps SameTables (switchPath env filepath) :=
  Keeps.bind keeps_canonicalPath fun _ => Keeps.bind (keeps_checked keeps_plain) fun _ => keeps_setRealpath

/-- A call that comes to no load, or to loads after which `P` holds. -/
theorem Op.wp_tables {P : State → Prop} (op : Op) (hP : ∀ {s t}, SameTables s t → P s → P t) (hempty : ∀ t : State, t.Empty → P t) (hs : P s)
    (hload : ∀ u, op.Loads env s u → wp (fun _ _ => True) (symLoadTables env) (fun _ t => P t) (fun _ t => P t) u) :
    wp (fun _ _ => True) (op.call env) (fun _ t => P t) (fun _ t => P t) s := by
  have hother : ∀ op : Op, ¬op.IsLoad → op ≠ .destroy → wp (fun _ _ => True) (op.call env) (fun _ t => P t) (fun _ t => P t) s :=
    fun op hload hdestroy => wp_of_tables hP (op.sameTables hload hdestroy) hs
  cases op with
  | attach pid =>
    rw [Op.call, attach_eq]
    exact wp_load_of_tables hP keeps_attachProcess keeps_rebuild hs fun u hu => hload u (.attach pid u hu)
  | setFilepath path =>
    cases path with
    | none => exact wp_of_tables hP keeps_setRealpath hs
    | some filepath =>
      rw [Op.call, setFilepath_eq, ← bind_pure (symLoadTables env)]
      exact wp_load_of_tables hP tables_switchPath (Keeps.pure _) hs fun u hu => hload u (.setFilepath filepath u hu)
  | destroy =>
    unfold Op.call inferiorDestroy
    rw [wp_bind]
    exact (wp_of_tables hP keeps_terminateOrDetach hs).imp (fun _ u _ => hempty _ fun id => by cases id <;> rfl) fun _ _ h => h
  | _ => exact hother _ (by rintro (⟨_, h⟩ | ⟨_, h⟩) <;> cases h) (by simp)

/-- A call leaves sorted tables, if it loads them as it should. -/
theorem Op.sorted (op : Op) (hq : env.Sorts) (hop : op.Loadable env s) (hs : s.Sorted) (h : (op.call env).Returns s t) :
    t.Sorted :=
  (op.wp_tables (fun hsame => hsame.sorted) (fun _ => State.Empty.sorted) hs fun u hu => wp_symLoadTables_sorted hq (hop u hu)).returns h

theorem wp_inferiorCreate_empty :
    wp (fun _ _ => True) (inferiorCreate env) (fun _ t => t.Empty) (fun _ _ => True) s := by
  unfold inferiorCreate symInit symTableInit
  simp only [wp_bind, wp_modify, wp_ite, wp_when, wp_setCode]
  refine wp_malloc fun b x => ?_
  split
  · trivial
  refine wp_malloc fun b x => ?_
  split
  · refine wp_malloc fun b x => ?_
    split
    · exact fun id => by cases id <;> rfl
    · trivial
  · trivial

theorem created_sorted (hs : Created env s) : s.Sorted := by
  obtain ⟨s₀, -, -, h⟩ := hs
  exact (wp_inferiorCreate_empty.ok h).sorted

theorem sorted_of_run (hq : env.Sorts) (hs : Created env s)
    (hrun : Relation.ReflTransGen (Step env fun s op => op.Loadable env s) s t) : t.Sorted := by
  induction hrun with
  | refl => exact created_sorted hs
  | tail _ hstep ih =>
    obtain ⟨-, op, hop, h⟩ := hstep
    exact op.sorted hq hop ih h

/-! ### Lookups in sorted tables -/

/-- `sylvan_get_label_addr` asks for the name in the DWARF table, and then in the ELF table. -/
theorem getLabelAddr_eq (hs : s.Sorted) (hn : s.Named) (name : String) :
    ∃ r r', s.inf.dwarfTable.Looked name r ∧ s.inf.elfTable.Looked name r' ∧
      (∀ sym, r = some sym → getLabelAddr name s = .ok sym.addr s) ∧
      (∀ sym, r = none → r' = some sym → getLabelAddr name s = .ok sym.addr s) ∧
      (r = none → r' = none → (getLabelAddr name s).error? = some .symbolNotFound) := by
  obtain ⟨r, hr, hlook⟩ := symLookup_eq hs.1 hn.1
  obtain ⟨r', hr', hlook'⟩ := symLookup_eq hs.2 hn.2
  refine ⟨r, r', hr, hr', ?_, ?_, ?_⟩
  · rintro sym rfl
    unfold getLabelAddr
    rw [bind_of_ok (show Exec.get s = .ok s s from rfl), bind_of_ok (hlook s)]
    rfl
  · rintro sym rfl rfl
    unfold getLabelAddr
    rw [bind_of_ok (show Exec.get s = .ok s s from rfl), bind_of_ok (hlook s)]
    dsimp only
    rw [bind_of_ok (hlook' s)]
    rfl
  · rintro rfl rfl
    unfold getLabelAddr
    rw [bind_of_ok (show Exec.get s = .ok s s from rfl), bind_of_ok (hlook s)]
    dsimp only
    rw [bind_of_ok (hlook' s)]
    rfl

theorem getLabelAddr_finds (hs : s.Sorted) (hn : s.Named) {name : String} (h : s.HasName name) :
    ∃ addr, s.HasLabel name addr ∧ getLabelAddr name s = .ok addr s := by
  obtain ⟨r, r', hr, hr', hdwarf, helf, -⟩ := getLabelAddr_eq hs hn name
  cases hr with
  | found sym mem name_eq => exact ⟨sym.addr, Or.inl (name_eq ▸ mem), hdwarf sym rfl⟩
  | missing absent =>
    cases hr' with
    | found sym mem name_eq => exact ⟨sym.addr, Or.inr (name_eq ▸ mem), helf sym rfl rfl⟩
    | missing absent' => exact absurd h (not_or.mpr ⟨absent, absent'⟩)

theorem getLabelAddr_misses (hs : s.Sorted) (hn : s.Named) {name : String} (h : ¬s.HasName name) :
    (getLabelAddr name s).error? = some .symbolNotFound := by
  obtain ⟨r, r', hr, hr', -, -, hnone⟩ := getLabelAddr_eq hs hn name
  cases hr with
  | found sym mem name_eq => exact absurd (Or.inl (List.mem_filterMap.mpr ⟨sym, mem, name_eq⟩)) h
  | missing absent =>
    cases hr' with
    | found sym mem name_eq => exact absurd (Or.inr (List.mem_filterMap.mpr ⟨sym, mem, name_eq⟩)) h
    | missing absent' => exact hnone rfl rfl

/-- In every run in which each load that finds names out of order in the DWARF information also opens the ELF file,
    the tables are sorted, and a lookup finds a name if and only if a table has it. -/
theorem tables_sorted_of_run (hq : env.Sorts) (hs : Created env s)
    (hrun : Relation.ReflTransGen (Step env fun s op => op.Loadable env s) s t) :
    t.inf.dwarfTable.Sorted ∧ t.inf.elfTable.Sorted ∧
    (t.Named → ∀ name,
      (t.HasName name → ∃ addr, t.HasLabel name addr ∧ getLabelAddr name t = .ok addr t) ∧
      (¬t.HasName name → (getLabelAddr name t).error? = some .symbolNotFound)) := by
  have hsorted := sorted_of_run hq hs hrun
  exact ⟨hsorted.1, hsorted.2, fun hn name => ⟨getLabelAddr_finds hsorted hn, getLabelAddr_misses hsorted hn⟩⟩

end

/-! ### Systems to load files on -/

/-- The order of `symcmp`, where a symbol without a name comes as if its name were empty. -/
def SymbolLe (a b : Symbol) : Prop := NameLe (a.name.getD "") (b.name.getD "")

instance : DecidableRel SymbolLe := fun _ _ => inferInstanceAs (Decidable (NameLe _ _))

instance : IsTrans Symbol SymbolLe where
  trans _ _ _ h h' hgt := h (strcmp_gt_of_gt h' hgt)

instance : Std.Total SymbolLe where
  total a b := by
    unfold SymbolLe NameLe
    rw [strcmp_eq_compare, strcmp_eq_compare, Std.OrientedOrd.eq_swap]
    cases compare (b.name.getD "").toList (a.name.getD "").toList <;> simp

theorem insertionSort_names (symbols : List Symbol) :
    ((symbols.insertionSort SymbolLe).filterMap Symbol.name).Pairwise NameLe := by
  rw [List.pairwise_filterMap]
  refine (List.pairwise_insertionSort SymbolLe symbols).imp ?_
  intro a b h name ha name' hb
  unfold SymbolLe at h
  rwa [ha, hb] at h

/-- `qsort` sorts by insertion, and the program has subprograms `c`, `b` and `a`, in this order. -/
def Env.sorting : Env :=
  { Env.compliant with
    qsort := fun _ symbols => symbols.insertionSort SymbolLe
    dwarf := fun _ _ => some [.unit (some [⟨some DW_TAG_subprogram, some (some "c"), some 3⟩,
      ⟨some DW_TAG_subprogram, some (some "b"), some 2⟩, ⟨some DW_TAG_subprogram, some (some "a"), some 1⟩])] }

theorem Env.sorting_sorts : Env.sorting.Sorts := fun _ symbols _ =>
  ⟨List.perm_insertionSort SymbolLe symbols, insertionSort_names symbols⟩

/-- The file was loaded. -/
def State.sorted : State := (State.blank.after (inferiorCreate .sorting)).after (setFilepath .sorting (some "a.out"))

theorem tables_sorted_of_run_load :
    State.sorted.inf.dwarfTable.Sorted ∧ State.sorted.inf.elfTable.Sorted ∧
    (State.sorted.Named → ∀ name,
      (State.sorted.HasName name → ∃ addr, State.sorted.HasLabel name addr ∧
        getLabelAddr name State.sorted = .ok addr State.sorted) ∧
      (¬State.sorted.HasName name → (getLabelAddr name State.sorted).error? = some .symbolNotFound)) := by
  refine tables_sorted_of_run Env.sorting_sorts ⟨State.blank, rfl, rfl, State.after_ok (by decide +kernel)⟩
    (Relation.ReflTransGen.single ⟨by decide +kernel, .setFilepath (some "a.out"), ?_, Or.inl ⟨(), State.after_ok (by decide +kernel)⟩⟩)
  intro u _ v w _ _
  exact Or.inl ⟨rfl, rfl, _, rfl, rfl⟩

/-- Besides, `libelf` cannot open the file. -/
def Env.unopened : Env := { Env.sorting with elf := fun _ _ => none }

def State.unsorted : State := (State.blank.after (inferiorCreate .unopened)).after (setFilepath .unopened (some "a.out"))

/-- The load fails, and leaves a table in which the search misses a name. -/
theorem failed_load_leaves_unsorted :
    Env.unopened.Sorts ∧
    (∃ c, Created .unopened c ∧ Relation.ReflTransGen (Step .unopened fun _ op => op.IsLoad) c State.unsorted) ∧
    ¬State.unsorted.inf.dwarfTable.Sorted ∧ State.unsorted.Named ∧ State.unsorted.HasName "a" ∧
    (getLabelAddr "a" State.unsorted).error? = some .symbolNotFound := by
  refine ⟨Env.sorting_sorts, ⟨State.blank.after (inferiorCreate .unopened), ⟨State.blank, rfl, rfl, State.after_ok (by decide +kernel)⟩,
    Relation.ReflTransGen.single ⟨by decide +kernel, .setFilepath (some "a.out"), Or.inr ⟨_, rfl⟩,
      Or.inr ⟨.elfFailed, State.after_error (by decide +kernel)⟩⟩⟩, by decide +kernel, ?_, ?_, by decide +kernel⟩
  · exact ⟨by decide +kernel, by decide +kernel⟩
  · exact Or.inl (by decide +kernel)

end Sylvan
