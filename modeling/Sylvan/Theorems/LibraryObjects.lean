import Mathlib.Algebra.Order.Group.Multiset
import Mathlib.Tactic.Abel
import Sylvan.Lib.Relate
import Sylvan.Library
import Sylvan.Theorems.OwnedFields

/-! # The objects of an inferior

Which blocks an inferior has: one for itself, for its path and for its arguments, and for each symbol table the array and a block
for each name. `Owns rest m s` says that the memory of `m` is made of the blocks of the inferior of `s` and of `rest`, so that
no two pointers of the inferior share a block, none of them dangles, and nothing else is allocated. The rules here say what a
change to one of the objects leaves. -/

namespace Sylvan
open Exec Heap

abbrev LibraryBlocks : Type := Heap.Blocks Nat HeapBlock

/-- A string and its block -/
inductive TextAt : Option Nat → Option String → LibraryBlocks → Prop where
  | null : TextAt none none 0
  | block (p : Nat) (text : String) : TextAt (some p) (some text) (single p (.text text))

/-- A symbol, with the address of its name -/
structure SymbolEntry where
  name : Option (Nat × String)
  addr : Addr

namespace SymbolEntry

def cell (e : SymbolEntry) : SymbolCell := ⟨e.name.map Prod.fst, e.addr⟩

def symbol (e : SymbolEntry) : Symbol := ⟨e.name.map Prod.snd, e.addr⟩

/-- The block of its name, if it has one -/
def block? (e : SymbolEntry) : Option (Sigma fun _ : Nat => HeapBlock) := e.name.map fun n => ⟨n.1, .text n.2⟩

/-- The blocks of the names -/
def names (entries : List SymbolEntry) : LibraryBlocks := ↑(entries.filterMap block?)

/-- An array of `n` elements, of which the first were written -/
def cells (entries : List SymbolEntry) (n : Nat) : List (Option SymbolCell) :=
  entries.map (some ∘ cell) ++ List.replicate (n - entries.length) none

end SymbolEntry

open SymbolEntry

/-- A symbol table and its blocks -/
inductive TableAt : SymTablePtrs → SymTable → LibraryBlocks → Prop where
  | null (capacity : Nat) : TableAt ⟨none, 0, capacity⟩ ⟨[], capacity, 0⟩ 0
  | block (p : Nat) (entries : List SymbolEntry) (capacity allocated : Nat) (fits : entries.length ≤ allocated) :
    TableAt ⟨some p, entries.length, capacity⟩ ⟨entries.map symbol, capacity, allocated⟩
      (single p (.symbols (cells entries allocated)) + names entries)

def Owned.table (o : Owned) : TableId → SymTable
  | .elf => o.elfTable
  | .dwarf => o.dwarfTable

/-- An inferior and its blocks -/
structure InferiorAt (ptrs : InferiorPtrs) (o : Owned) (base : Nat) (path args : LibraryBlocks) (table : TableId → LibraryBlocks) :
    Prop where
  self : ptrs.self = some base
  realpath : TextAt ptrs.realpath o.realpath path
  args : TextAt ptrs.args o.args args
  table : ∀ id, TableAt (ptrs.table id) (o.table id) (table id)

/-- The state but for what is in memory -/
def Alike (u s : State) : Prop := u.setInf (u.inf.withOwned s.inf.owned) = s

/-- The memory has the blocks of the inferior, and those of `rest`. -/
structure Owns (rest : LibraryBlocks) (m : Library) (s : State) : Prop where
  alike : Alike m.state s
  blocks : ∃ self path args table, InferiorAt m.ptrs s.inf.owned self path args table ∧
    m.heap.blocks = single self .inferior + path + args + table .elf + table .dwarf + rest

section
variable {h : Heap Nat HeapBlock} {p : Option Nat} {text : Option String} {B F rest : LibraryBlocks} {entries : List SymbolEntry}
  {m : Library} {s : State} {id : TableId}

/-! ### What is read -/

theorem TextAt.text? (ht : TextAt p text B) (hb : h.blocks = B + F) : Library.text? h p = some text := by
  cases ht with
  | null => rfl
  | block p text => simp only [Library.text?, lookup_of_blocks hb]

theorem names_cons {e : SymbolEntry} : names (e :: entries) = names [e] + names entries := by
  unfold names
  cases h : e.block? <;> simp [h]

theorem symbol?_cell {e : SymbolEntry} (hb : h.blocks = names [e] + F) : Library.symbol? h (some e.cell) = some e.symbol := by
  obtain ⟨name, addr⟩ := e
  cases name with
  | none => rfl
  | some n =>
    have hlookup : h.lookup n.1 = some (.text n.2) := lookup_of_blocks hb
    simp [Library.symbol?, Library.text?, cell, symbol, hlookup]

theorem mapM_symbol? : ∀ {entries : List SymbolEntry} {F : LibraryBlocks}, h.blocks = names entries + F →
    (entries.map (some ∘ cell)).mapM (Library.symbol? h) = some (entries.map symbol)
  | [], _, _ => rfl
  | e :: entries, F, hb => by
    rw [names_cons, add_assoc] at hb
    have hrest : h.blocks = names entries + (names [e] + F) := by rw [hb]; abel
    rw [List.map_cons, List.mapM_cons, Function.comp_apply, symbol?_cell hb, mapM_symbol? hrest]
    rfl

theorem take_cells {n : Nat} : (cells entries n).take entries.length = entries.map (some ∘ cell) := by
  have hlen : (entries.map (some ∘ cell)).length = entries.length := List.length_map ..
  rw [cells, List.take_append_of_le_length (Nat.le_of_eq hlen.symm), List.take_of_length_le (Nat.le_of_eq hlen)]

theorem length_symbolCells {n : Nat} (hn : entries.length ≤ n) : (cells entries n).length = n := by
  simp only [cells, List.length_append, List.length_map, List.length_replicate]
  omega

theorem TableAt.table? {ptrs : SymTablePtrs} {table : SymTable} (ht : TableAt ptrs table B) (hb : h.blocks = B + F) :
    Library.table? h ptrs = some table := by
  cases ht with
  | null capacity => rfl
  | block p entries capacity allocated fits =>
    rw [add_assoc] at hb
    have hnames : h.blocks = names entries + (single p (.symbols (cells entries allocated)) + F) := by rw [hb]; abel
    simp only [Library.table?, lookup_of_blocks hb, take_cells, mapM_symbol? hnames, length_symbolCells fits, Option.map_some]

/-- What the pointers stand for is the state. -/
theorem Owns.view (hm : Owns rest m s) : m.view = some s := by
  obtain ⟨self, path, args, table, hi, hb⟩ := hm.blocks
  have hself : m.heap.lookup self = some .inferior := lookup_of_blocks (B := path + args + table .elf + table .dwarf + rest) (by
    rw [hb]; abel)
  have hpath := hi.realpath.text? (h := m.heap) (F := single self .inferior + args + table .elf + table .dwarf + rest) (by rw [hb]; abel)
  have hargs := hi.args.text? (h := m.heap) (F := single self .inferior + path + table .elf + table .dwarf + rest) (by rw [hb]; abel)
  have helf := (hi.table .elf).table? (h := m.heap) (F := single self .inferior + path + args + table .dwarf + rest) (by rw [hb]; abel)
  have hdwarf := (hi.table .dwarf).table? (h := m.heap) (F := single self .inferior + path + args + table .elf + rest) (by
    rw [hb]; abel)
  have hstate := hm.alike
  unfold Alike at hstate
  simp only [InferiorPtrs.table] at helf hdwarf
  simp only [Library.view, hi.self, hpath, hargs, helf, hdwarf, hself, guard, if_true, Option.bind_eq_bind, Option.bind_some]
  exact congrArg some hstate

/-! ### What is changed -/

/-- `malloc` gives a block that is not allocated, and `qsort` puts the elements of the array in some order. -/
structure LibraryEnv.Sane (env : LibraryEnv) : Prop where
  place : ∀ m : Library, env.place m ∉ m.heap
  order : ∀ t l, (env.order t l).Perm (List.range l.length)
  qsort : ∀ t l, env.qsort t l = Library.permuted (env.order t l) l

theorem Alike.owned {u : State} (h : Alike u s) {o : Owned} {x : Scratch} :
    Alike (u.withScratch x) ((s.setInf (s.inf.withOwned o)).withScratch x) := by
  unfold Alike at h ⊢
  rw [← h]
  rfl

theorem Alike.scratch {u : State} (h : Alike u s) {x : Scratch} : Alike (u.withScratch x) (s.withScratch x) := h.owned (o := s.inf.owned)

theorem Alike.scratch_eq {u : State} (h : Alike u s) : u.scratch = s.scratch := by
  unfold Alike at h
  rw [← h]
  rfl

theorem Owns.scratch (hm : Owns rest m s) {x : Scratch} : Owns rest { m with state := m.state.withScratch x } (s.withScratch x) :=
  ⟨hm.alike.scratch, hm.blocks⟩

/-- The blocks that are not of the inferior may be changed. -/
theorem Owns.frame (hm : Owns rest m s) : ∃ I, m.heap.blocks = I + rest ∧
    ∀ {heap rest'}, Heap.blocks heap = I + rest' → Owns rest' { m with heap } s := by
  obtain ⟨self, path, args, table, hi, hb⟩ := hm.blocks
  exact ⟨_, hb, fun hb' => ⟨hm.alike, self, path, args, table, hi, hb'⟩⟩

theorem Owns.sameOwned {t : State} (hm : Owns rest m s) (h : SameOwned s t) : Owns rest { m with state := t } t :=
  ⟨rfl, h.symm ▸ hm.blocks⟩

def Owned.setTable (o : Owned) (id : TableId) (table : SymTable) : Owned :=
  match id with
  | .elf => { o with elfTable := table }
  | .dwarf => { o with dwarfTable := table }

/-- A table of the inferior and what is besides it: another table may come in its place. -/
theorem Owns.table (hm : Owns rest m s) (id : TableId) : ∃ B F, TableAt (m.ptrs.table id) (s.inf.table id) B ∧
    m.heap.blocks = B + F ∧ ∀ {m' s' ptrs' table' B'}, TableAt ptrs' table' B' → Alike m'.state s' →
      s'.inf.owned = s.inf.owned.setTable id table' → m'.ptrs = m.ptrs.setTable id ptrs' → m'.heap.blocks = B' + F → Owns rest m' s' := by
  obtain ⟨self, path, args, table, hi, hb⟩ := hm.blocks
  cases id with
  | elf =>
    refine ⟨table .elf, single self .inferior + path + args + table .dwarf + rest, hi.table .elf, by rw [hb]; abel, ?_⟩
    intro m' s' ptrs' table' B' ht ha ho hp hb'
    refine ⟨ha, self, path, args, fun | .elf => B' | .dwarf => table .dwarf, ?_, by rw [hb']; abel⟩
    rw [ho, hp]
    exact ⟨hi.self, hi.realpath, hi.args, fun | .elf => ht | .dwarf => hi.table .dwarf⟩
  | dwarf =>
    refine ⟨table .dwarf, single self .inferior + path + args + table .elf + rest, hi.table .dwarf, by rw [hb]; abel, ?_⟩
    intro m' s' ptrs' table' B' ht ha ho hp hb'
    refine ⟨ha, self, path, args, fun | .elf => table .elf | .dwarf => B', ?_, by rw [hb']; abel⟩
    rw [ho, hp]
    exact ⟨hi.self, hi.realpath, hi.args, fun | .elf => hi.table .elf | .dwarf => ht⟩

theorem Owns.realpath (hm : Owns rest m s) : ∃ B F, TextAt m.ptrs.realpath s.inf.realpath B ∧ m.heap.blocks = B + F ∧
    ∀ {m' s' ptr' path' B' rest'}, TextAt ptr' path' B' → Alike m'.state s' → s'.inf.owned = { s.inf.owned with realpath := path' } →
      m'.ptrs = { m.ptrs with realpath := ptr' } → m'.heap.blocks + rest = B' + F + rest' → Owns rest' m' s' := by
  obtain ⟨self, path, args, table, hi, hb⟩ := hm.blocks
  refine ⟨path, single self .inferior + args + table .elf + table .dwarf + rest, hi.realpath, by rw [hb]; abel, ?_⟩
  intro m' s' ptr' path' B' rest' ht ha ho hp hb'
  refine ⟨ha, self, B', args, table, ?_, ?_⟩
  · rw [ho, hp]
    exact ⟨hi.self, ht, hi.args, hi.table⟩
  · refine add_right_cancel (b := rest) ?_
    rw [hb']
    abel

theorem Owns.args (hm : Owns rest m s) : ∃ B F, TextAt m.ptrs.args s.inf.args B ∧ m.heap.blocks = B + F ∧
    ∀ {m' s' ptr' args' B' rest'}, TextAt ptr' args' B' → Alike m'.state s' → s'.inf.owned = { s.inf.owned with args := args' } →
      m'.ptrs = { m.ptrs with args := ptr' } → m'.heap.blocks + rest = B' + F + rest' → Owns rest' m' s' := by
  obtain ⟨self, path, args, table, hi, hb⟩ := hm.blocks
  refine ⟨args, single self .inferior + path + table .elf + table .dwarf + rest, hi.args, by rw [hb]; abel, ?_⟩
  intro m' s' ptr' args' B' rest' ht ha ho hp hb'
  refine ⟨ha, self, path, B', table, ?_, ?_⟩
  · rw [ho, hp]
    exact ⟨hi.self, hi.realpath, ht, hi.table⟩
  · refine add_right_cancel (b := rest) ?_
    rw [hb']
    abel

/-! ### The accesses -/

section Accesses
variable {α β : Type} {F' : LibraryFault → Library → Prop} {E' : Code → Library → Prop}

theorem wp_free_text {Q : Unit → Library → Prop} (ht : TextAt p text B) (hb : m.heap.blocks = B + F)
    (hQ : ∀ heap, Heap.blocks heap = F → Q () { m with heap }) : wp F' (Library.free p) Q E' m := by
  unfold Library.free Library.onHeap
  rw [wp_zoom]
  cases ht with
  | null => exact hQ m.heap (by rw [hb, zero_add])
  | block p text => exact wp_release hb hQ

theorem wp_free_block {Q : Unit → Library → Prop} {q : Nat} {b : HeapBlock} (hb : m.heap.blocks = single q b + F)
    (hQ : ∀ heap, Heap.blocks heap = F → Q () { m with heap }) : wp F' (Library.free (some q)) Q E' m :=
  wp_zoom.mpr (wp_release hb hQ)

theorem wp_loadCells {Q : List (Option SymbolCell) → Library → Prop} {q : Nat} {cells : List (Option SymbolCell)}
    (hb : m.heap.blocks = single q (.symbols cells) + F) (hQ : Q cells m) : wp F' (Library.loadCells q) Q E' m := by
  unfold Library.loadCells
  exact wp_bind.mpr (wp_zoom.mpr (wp_load hb hQ))

theorem wp_loadText (text : String) {Q : String → Library → Prop} {q : Nat}
    (hb : m.heap.blocks = single q (.text text) + F) (hQ : Q text m) : wp F' (Library.loadText q) Q E' m := by
  unfold Library.loadText
  exact wp_bind.mpr (wp_zoom.mpr (wp_load hb hQ))

theorem wp_newBlock {env : LibraryEnv} {Q : Nat → Library → Prop} {b : HeapBlock} (hsane : env.Sane)
    (hQ : ∀ q heap, Heap.blocks heap = single q b + m.heap.blocks → Q q { m with heap }) : wp F' (Library.newBlock env b) Q E' m := by
  unfold Library.newBlock
  rw [wp_bind, wp_get, wp_bind]
  exact wp_zoom.mpr (wp_place (hsane.place m) fun heap hb => hQ _ heap hb)

/-- Whether there is memory is the same on both sides. -/
theorem rwp_granted {env : LibraryEnv} {f : Bool → LibraryM α} {g : Bool → SylvanM β}
    {Q : α → β → Library → State → Prop} {E : Library → State → Prop} (hscratch : m.state.scratch = s.scratch)
    (h : rwp .lib (f (env.malloc s.scratch.clock)) (g (env.malloc s.scratch.clock)) Q E
      { m with state := m.state.withScratch s.scratch.tick } (s.withScratch s.scratch.tick)) :
    rwp .lib (Library.onState (Sys.malloc env.toEnv) >>= f) (Sys.malloc env.toEnv >>= g) Q E m s := by
  have hleft : Library.onState (Sys.malloc env.toEnv) m =
      .ok (env.malloc s.scratch.clock) { m with state := m.state.withScratch s.scratch.tick } := by
    rw [← hscratch]
    rfl
  unfold rwp
  rw [bind_of_ok hleft, bind_of_ok (rfl : Sys.malloc env.toEnv s = _)]
  exact h

/-- `malloc` on both sides -/
theorem rwp_malloc {env : LibraryEnv} {b : HeapBlock} {f : Option Nat → LibraryM α} {g : Bool → SylvanM β}
    {Q : α → β → Library → State → Prop} {E : Library → State → Prop} (hsane : env.Sane) (hscratch : m.state.scratch = s.scratch)
    (hyes : env.malloc s.scratch.clock = true → ∀ q heap, Heap.blocks heap = single q b + m.heap.blocks →
      rwp .lib (f (some q)) (g true) Q E { m with state := m.state.withScratch s.scratch.tick, heap } (s.withScratch s.scratch.tick))
    (hno : env.malloc s.scratch.clock = false →
      rwp .lib (f none) (g false) Q E { m with state := m.state.withScratch s.scratch.tick } (s.withScratch s.scratch.tick)) :
    rwp .lib (Library.malloc env b >>= f) (Sys.malloc env.toEnv >>= g) Q E m s := by
  unfold Library.malloc
  rw [bind_assoc]
  refine rwp_granted hscratch ?_
  cases hgranted : env.malloc s.scratch.clock with
  | false => exact hno hgranted
  | true =>
    rw [if_pos rfl, bind_assoc]
    exact rwp.left (wp_newBlock hsane fun q heap hb => hyes hgranted q heap hb)

/-- A field of what the pointers stand for -/
theorem wp_reading_get {g : State → α} {Q : α → Library → Prop} (hm : Owns rest m s)
    (hQ : Owns rest { m with state := s } s → Q (g s) { m with state := s }) :
    wp F' (Library.reading do return g (← Exec.get)) Q E' m := by
  simp only [wp, Library.reading, hm.view]
  exact hQ (hm.sameOwned rfl)

theorem rwp_reading {x : SylvanM α} (hx : Keeps SameOwned x) (hm : Owns rest m s) :
    rwp .lib (Library.reading x) x (fun a b m' s' => a = b ∧ m'.ptrs = m.ptrs ∧ Owns rest m' s')
      (fun m' s' => m'.ptrs = m.ptrs ∧ Owns rest m' s') m s := by
  have hkept := hx s
  unfold wp at hkept
  simp only [rwp, Library.reading, hm.view]
  cases hxs : x s <;> rw [hxs] at hkept
  case ok => exact ⟨rfl, rfl, hm.sameOwned hkept⟩
  case error => exact ⟨rfl, rfl, hm.sameOwned hkept⟩

end Accesses

end

end Sylvan
