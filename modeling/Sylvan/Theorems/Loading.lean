import Sylvan.Theorems.Aside

/-! What the loaders of the symbol tables collect: the labels that the DWARF information and the ELF file
    hold, in the order of the walks. A walk is the loop that adds these labels to a table. -/

namespace Sylvan
open Exec

/-- A name and its address. -/
abbrev Label := String × Addr

/-- A subprogram with a name and a first address. -/
def Die.label? (die : Die) : Option Label :=
  match die.tag, die.name, die.lowpc with
  | some tag, some (some name), some lowpc => if tag = DW_TAG_subprogram then some (name, lowpc) else none
  | _, _, _ => none

def diesLabels (dies : List Die) : List Label := (dies.takeWhile fun die => die.tag.isSome).filterMap Die.label?

/-- The labels of the DWARF information, up to the first error. -/
def dwarfLabels : List DwarfUnit → List Label
  | [] => []
  | .error :: _ => []
  | .unit none :: units => dwarfLabels units
  | .unit (some dies) :: units => diesLabels dies ++ dwarfLabels units

/-- A symbol with a name, of a section that holds code. -/
def ElfFile.label? (file : ElfFile) (sym : Option ElfSym) : Option Label :=
  match sym with
  | none => none
  | some sym =>
    match file.section? sym.stShndx, sym.name with
    | some target, some name =>
      if (target.header = true ∧ target.shFlags &&& SHF_EXECINSTR ≠ 0) ∧ name ≠ "" then some (name, sym.stValue) else none
    | _, _ => none

/-- A section that the loader reads the symbols of. -/
def ElfSection.IsSymbols (scn : ElfSection) : Prop :=
  scn.header = true ∧ (scn.shType = SHT_SYMTAB ∨ scn.shType = SHT_DYNSYM) ∧ scn.data.isSome

instance (scn : ElfSection) : Decidable scn.IsSymbols := inferInstanceAs (Decidable (_ ∧ _ ∧ _))

def ElfFile.sectionLabels (file : ElfFile) (scn : ElfSection) : List Label :=
  match scn.data with
  | some getsym => if scn.IsSymbols then (List.range scn.symbolCount.toNat).filterMap fun i => file.label? (getsym i) else []
  | none => []

/-- The labels of the ELF file. -/
def ElfFile.labels (file : ElfFile) : List Label := file.sections.flatMap file.sectionLabels

/-- No division of the loader is by zero. -/
def ElfFile.Divides (file : ElfFile) : Prop := ∀ scn ∈ file.sections, scn.IsSymbols → scn.shEntsize ≠ 0

section
variable {env : Env} {id : TableId} {file : ElfFile}

/-- The labels are added to a table. -/
def symStore (env : Env) (id : TableId) (labels : List Label) : SylvanM Unit :=
  Exec.each labels fun label => symTryAdd env id label.1 label.2

/-! ### The DWARF information -/

theorem symLoadDies_eq : ∀ dies, symLoadDies env id dies = symStore env id (diesLabels dies)
  | [] => rfl
  | die :: dies => by
    have ih := symLoadDies_eq dies
    unfold symLoadDies diesLabels
    cases htag : die.tag with
    | none => simp [htag, symStore, Exec.each, Pure.pure]
    | some tag =>
      have hdie : symLoadDie env id tag die = symStore env id die.label?.toList := by
        unfold symLoadDie Die.label?
        rw [htag]
        split
        · rename_i name lowpc hname hlow
          simp only [hname, hlow]
          by_cases h : tag = DW_TAG_subprogram
          · rw [when_true h, if_pos h]
            exact (bind_pure _).symm
          · rw [when_false h, if_neg h]
            rfl
        · rename_i h
          split
          · rename_i hname hlow
            exact absurd hlow (h _ _ hname)
          · rfl
      dsimp only
      rw [hdie, ih, List.takeWhile_cons_of_pos (by simp [htag])]
      unfold symStore diesLabels
      rw [← each_append]
      congr 1
      cases hl : die.label? with
      | none => rw [List.filterMap_cons_none hl]; rfl
      | some label => rw [List.filterMap_cons_some hl]; rfl

theorem symLoadUnits_eq : ∀ units, symLoadUnits env id units = symStore env id (dwarfLabels units)
  | [] => rfl
  | .error :: _ => rfl
  | .unit none :: units => symLoadUnits_eq units
  | .unit (some dies) :: units => by
    rw [symLoadUnits, dwarfLabels, symLoadDies_eq, symLoadUnits_eq units]
    exact each_append.symm

/-! ### The ELF file -/

theorem symLoadElfSymbol_none {sym : Option ElfSym} (h : file.label? sym = none) :
    symLoadElfSymbol env file id sym = pure () := by
  unfold ElfFile.label? at h
  unfold symLoadElfSymbol
  cases sym with
  | none => rfl
  | some sym =>
    dsimp only at h ⊢
    cases htarget : file.section? sym.stShndx with
    | none => rfl
    | some target =>
      dsimp only
      split
      · rename_i hcode
        cases hname : sym.name with
        | none => rfl
        | some name =>
          simp only [htarget, hname, hcode, ne_eq, not_false_eq_true, and_self, true_and, ite_eq_right_iff, reduceCtorEq, imp_false,
            not_not] at h
          exact when_false (not_not.mpr h)
      · rfl

theorem symLoadElfSymbol_some {sym : Option ElfSym} {label : Label} (h : file.label? sym = some label) :
    symLoadElfSymbol env file id sym = symTryAdd env id label.1 label.2 := by
  unfold ElfFile.label? at h
  unfold symLoadElfSymbol
  cases sym with
  | none => cases h
  | some sym =>
    dsimp only at h ⊢
    cases htarget : file.section? sym.stShndx with
    | none => simp [htarget] at h
    | some target =>
      cases hname : sym.name with
      | none => simp [htarget, hname] at h
      | some name =>
        simp only [htarget, hname] at h
        split at h
        · rename_i hcode
          cases h
          dsimp only
          rw [if_pos hcode.1, when_true hcode.2]
        · cases h

theorem symLoadElfSection_eq {scn : ElfSection} (h : scn.IsSymbols → scn.shEntsize ≠ 0) :
    symLoadElfSection env file id scn = symStore env id (file.sectionLabels scn) := by
  unfold symLoadElfSection ElfFile.sectionLabels
  by_cases hscn : scn.IsSymbols
  · obtain ⟨getsym, hdata⟩ := Option.isSome_iff_exists.mp hscn.2.2
    have htype : ¬(scn.shType ≠ SHT_SYMTAB ∧ scn.shType ≠ SHT_DYNSYM) := fun hne => hscn.2.1.elim hne.1 hne.2
    simp only [hscn.1, hdata, hscn, Bool.true_eq_false, if_false, if_true, if_neg htype, when_false (h hscn), pure_bind]
    exact each_filterMap (fun _ => symLoadElfSymbol_none) fun _ _ => symLoadElfSymbol_some
  · split
    · split <;> rfl
    · rename_i hheader
      split
      · split <;> rfl
      · rename_i htype
        cases hdata : scn.data with
        | none => rfl
        | some getsym =>
          refine absurd ⟨by simpa using hheader, ?_, by simp [hdata]⟩ hscn
          by_cases hsymtab : scn.shType = SHT_SYMTAB
          · exact Or.inl hsymtab
          · exact Or.inr (not_not.mp fun hne => htype ⟨hsymtab, hne⟩)

theorem symLoadElfSections_eq (h : file.Divides) :
    Exec.each file.sections (symLoadElfSection env file id) = symStore env id file.labels := by
  suffices walk : ∀ scns : List ElfSection, (∀ scn ∈ scns, scn.IsSymbols → scn.shEntsize ≠ 0) →
      Exec.each scns (symLoadElfSection env file id) = symStore env id (scns.flatMap file.sectionLabels) from
    walk file.sections h
  intro scns
  induction scns with
  | nil => exact fun _ => rfl
  | cons scn scns ih =>
    intro h
    rw [List.flatMap_cons, symStore, each_append]
    show (symLoadElfSection env file id scn >>= fun _ => Exec.each scns (symLoadElfSection env file id)) = _
    rw [symLoadElfSection_eq (h scn (List.mem_cons_self ..)), ih fun scn' hscn' => h scn' (List.mem_cons_of_mem _ hscn')]
    rfl

/-! ### Adding to a table -/

/-- Some allocation fails. -/
def Env.Scarce (env : Env) : Prop := ∃ n, env.malloc n = false

theorem granted_of_not_scarce {env : Env} (hmem : ¬env.Scarce) (n : Nat) : env.malloc n = true := by
  by_contra hn
  exact hmem ⟨n, (Bool.not_eq_true _).mp hn⟩

@[simp] theorem setTable_table {s : State} {table : SymTable} : (s.setTable id table).inf.table id = table := by
  cases id <;> rfl

theorem setTable_other {s : State} {table : SymTable} {id' : TableId} (h : id' ≠ id) :
    (s.setTable id table).inf.table id' = s.inf.table id' := by
  cases id <;> cases id' <;> first | rfl | exact absurd rfl h

@[simp] theorem setTable_realpath {s : State} {table : SymTable} : (s.setTable id table).inf.realpath = s.inf.realpath := by
  cases id <;> rfl

@[simp] theorem setTable_scratch {s : State} {table : SymTable} : (s.setTable id table).scratch = s.scratch := rfl

theorem setTable_again {s : State} {table table' : SymTable} {x : Scratch} :
    ((s.setTable id table).withScratch x).setTable id table' = (s.setTable id table').withScratch x := by
  cases id <;> rfl

theorem setTable_self {s : State} : (s.setTable id (s.inf.table id)).withScratch s.scratch = s := by
  cases id <;> rfl

/-- The block of a table after `sylvan_sym_add` made room: the same one, or one twice as large for a full table. -/
def SymTable.Grown (table : SymTable) (capacity allocated : Nat) : Prop :=
  table.symbols.length ≠ table.capacity ∧ capacity = table.capacity ∧ allocated = table.allocated ∨
    table.symbols.length = table.capacity ∧ capacity = table.capacity <<< 1 ∧ allocated = capacity

section Rules
variable {α : Type} {F : Fault → State → Prop} {Q : Unit → State → Prop} {E : Code → State → Prop} {s : State}
  {name : String} {addr : Addr}

theorem wp_malloc_scarce {Q : Bool → State → Prop} (h : ∀ b x, (b = false → env.Scarce) → Q b (s.withScratch x)) :
    wp F (Sys.malloc env) Q E s :=
  h _ _ fun hb => ⟨_, hb⟩

theorem wp_symGrow
    (hok : ∀ capacity allocated x, (s.inf.table id).Grown capacity allocated →
      Q () ((s.setTable id ⟨(s.inf.table id).symbols, capacity, allocated⟩).withScratch x))
    (herr : env.Scarce → (s.inf.table id).symbols.length = (s.inf.table id).capacity → ∀ c x,
      E c ((s.setTable id { s.inf.table id with capacity := (s.inf.table id).capacity <<< 1 }).withScratch x)) :
    wp F (symGrow env id) Q E s := by
  unfold symGrow
  rw [wp_bind, wp_get, wp_when]
  split
  · rename_i hfull
    rw [wp_bind, wp_modify, wp_bind]
    refine wp_malloc_scarce fun b x hb => ?_
    rw [wp_bind, wp_when]
    split
    · rename_i hfalse
      exact herr (hb hfalse) hfull _ _
    · rw [wp_modify, setTable_again]
      exact hok _ _ x (Or.inr ⟨hfull, rfl, rfl⟩)
  · rename_i hroom
    have := hok (s.inf.table id).capacity (s.inf.table id).allocated s.scratch (Or.inl ⟨hroom, rfl, rfl⟩)
    rwa [setTable_self] at this

theorem wp_symTryAdd (hF : ∀ t, F .outOfBounds t)
    (hadd : ∀ capacity allocated copied x, (s.inf.table id).Grown capacity allocated →
      (s.inf.table id).symbols.length < allocated → (copied = false → env.Scarce) →
      Q () ((s.setTable id ⟨(s.inf.table id).symbols ++ [⟨if copied then some name else none, addr⟩], capacity, allocated⟩).withScratch x))
    (hskip : env.Scarce → (s.inf.table id).symbols.length = (s.inf.table id).capacity → ∀ x,
      Q () ((s.setTable id { s.inf.table id with capacity := (s.inf.table id).capacity <<< 1 }).withScratch x)) :
    wp F (symTryAdd env id name addr) Q E s := by
  unfold symTryAdd symAdd
  rw [wp_bind, wp_attempt, wp_bind]
  refine wp_symGrow (fun capacity allocated x hgrown => ?_) fun hscarce hfull c x => hskip hscarce hfull x
  rw [wp_bind, wp_get, wp_bind, wp_when]
  simp only [withScratch_inf, setTable_table]
  split
  · exact hF _
  · rename_i hroom
    rw [wp_bind]
    refine wp_malloc_scarce fun copied y hcopied => ?_
    have := hadd capacity allocated copied y hgrown (Nat.not_le.mp hroom) hcopied
    rwa [← setTable_again] at this

end Rules

end

end Sylvan
