import Sylvan.Theorems.Stored

/-! Allocations that fail while the symbol tables are filled. A run empties the tables and then adds symbols, by calls whose
    results nobody looks at. -/

namespace Sylvan
open Exec

/-- A call of `sylvan_sym_add` -/
structure SymCall where
  id : TableId
  name : String
  addr : Addr

/-- The call, by a caller that goes on whatever it returns -/
def SymCall.run (env : Env) (call : SymCall) : SylvanM (Except Code Unit) := Exec.attempt (symAdd env call.id call.name call.addr)

/-- All symbols are in the block, and have names. -/
def SymTable.Safe (table : SymTable) : Prop := table.symbols.length ≤ table.allocated ∧ table.Named

/-- The symbols are the same, and if the capacity was that of the block, it is so still. -/
def SymTable.Unspoiled (before after : SymTable) : Prop :=
  after.symbols = before.symbols ∧ (after.capacity = after.allocated ↔ before.capacity = before.allocated)

/-- The call writes only in its block, and leaves safe tables; if it returns `SYLVANC_OUT_OF_MEMORY`, they are not spoiled. -/
def SymCall.Survives (env : Env) (call : SymCall) (s : State) : Prop :=
  wp (fun _ _ => False) (call.run env)
    (fun r t => (∀ id, (t.inf.table id).Safe) ∧
      (r = .error .outOfMemory → ∀ id, (s.inf.table id).Unspoiled (t.inf.table id)))
    (fun _ _ => False) s

/-- A full table gets a block, and the name is copied, or the table has no capacity that could be doubled; one that is not full has
    a block with room for the symbol, and the name is copied. -/
def SymCall.Meets (env : Env) (call : SymCall) (s : State) : Prop :=
  let table := s.inf.table call.id
  if table.symbols.length = table.capacity then
    if env.malloc s.scratch.clock then 0 < table.capacity ∧ env.malloc (s.scratch.clock + 1) else table.capacity = 0
  else table.symbols.length < table.allocated ∧ env.malloc s.scratch.clock

/-- A state in a run of which all steps met the condition. -/
inductive SymRun (env : Env) : State → Prop where
  | reset {s t} (emptied : symReset env s = .ok () t) : SymRun env t
  | aside {s} (x : Scratch) (run : SymRun env s) : SymRun env (s.withScratch x)
  | add {s t r} (call : SymCall) (run : SymRun env s) (meets : call.Meets env s) (added : call.run env s = .ok r t) : SymRun env t

/-- What holds of the tables in such a run: a block has room for as many symbols as its table says, or there was no memory for the
    first one. -/
structure SymTable.Kept (table : SymTable) : Prop where
  block : table.capacity = table.allocated ∨ table = ⟨[], 256, 0⟩
  safe : table.Safe

theorem kept_empty {capacity : Nat} : SymTable.Kept ⟨[], capacity, capacity⟩ :=
  ⟨Or.inl rfl, Nat.zero_le _, fun _ h => nomatch h⟩

theorem kept_unallocated : SymTable.Kept ⟨[], 256, 0⟩ := ⟨Or.inr rfl, Nat.le_refl _, fun _ h => nomatch h⟩

section
variable {env : Env} {s t : State} {id : TableId} {call : SymCall} {F : Fault → State → Prop} {E : Code → State → Prop}

theorem wp_symReset_kept : wp F (symReset env) (fun _ t => ∀ id, (t.inf.table id).Kept) E s := by
  refine wp_symReset_blocks (fun allocated x hallocated id => ?_) fun x id => ?_
  · cases id with
    | elf => exact kept_empty
    | dwarf =>
      rcases hallocated with rfl | rfl
      · exact kept_empty
      · exact kept_unallocated
  · cases id with
    | elf => exact kept_unallocated
    | dwarf => exact kept_empty

theorem wp_symGrow_iff {Q : Unit → State → Prop} :
    wp F (symGrow env id) Q E s ↔
      let table := s.inf.table id
      if table.symbols.length = table.capacity then
        if env.malloc s.scratch.clock then
          Q () ((s.setTable id ⟨table.symbols, table.capacity <<< 1, table.capacity <<< 1⟩).withScratch s.scratch.tick)
        else E .outOfMemory ((s.setTable id { table with capacity := table.capacity <<< 1 }).withScratch
          (s.scratch.tick.withError .outOfMemory (strerror .outOfMemory)))
      else Q () s := by
  unfold symGrow
  rw [wp_bind, wp_get, wp_when]
  dsimp only
  split
  · rw [wp_bind, wp_modify, wp_bind, wp_malloc_iff, wp_bind, wp_when, setTable_scratch]
    cases hmalloc : env.malloc s.scratch.clock with
    | true =>
      rw [if_neg Bool.noConfusion, if_pos rfl, wp_modify, setTable_again]
    | false =>
      rw [if_pos rfl, if_neg Bool.noConfusion, wp_setCode]
      exact Iff.rfl
  · exact Iff.rfl

/-- What a call does: one case for each answer of the allocations. -/
theorem wp_symCall {Q : Except Code Unit → State → Prop} (call : SymCall) :
    wp F (call.run env) Q E s ↔
      let table := s.inf.table call.id
      if table.symbols.length = table.capacity then
        if env.malloc s.scratch.clock then
          if table.capacity <<< 1 ≤ table.symbols.length then
            F .outOfBounds ((s.setTable call.id ⟨table.symbols, table.capacity <<< 1, table.capacity <<< 1⟩).withScratch s.scratch.tick)
          else Q (.ok ()) ((s.setTable call.id ⟨table.symbols ++
            [⟨if env.malloc (s.scratch.clock + 1) then some call.name else none, call.addr⟩], table.capacity <<< 1,
              table.capacity <<< 1⟩).withScratch s.scratch.tick.tick)
        else Q (.error .outOfMemory) ((s.setTable call.id { table with capacity := table.capacity <<< 1 }).withScratch
          (s.scratch.tick.withError .outOfMemory (strerror .outOfMemory)))
      else if table.allocated ≤ table.symbols.length then F .outOfBounds s
      else Q (.ok ()) ((s.setTable call.id { table with symbols := table.symbols ++
        [⟨if env.malloc s.scratch.clock then some call.name else none, call.addr⟩] }).withScratch s.scratch.tick) := by
  obtain ⟨id, name, addr⟩ := call
  unfold SymCall.run symAdd
  rw [wp_attempt, wp_bind, wp_symGrow_iff]
  dsimp only
  by_cases hfull : (s.inf.table id).symbols.length = (s.inf.table id).capacity
  · rw [if_pos hfull, if_pos hfull]
    by_cases hmalloc : env.malloc s.scratch.clock = true
    · rw [if_pos hmalloc, if_pos hmalloc, wp_bind, wp_get, wp_bind, wp_when, withScratch_inf, setTable_table]
      by_cases hroom : (s.inf.table id).capacity <<< 1 ≤ (s.inf.table id).symbols.length
      · rw [if_pos hroom, if_pos hroom]
        rfl
      · rw [if_neg hroom, if_neg hroom, wp_bind, wp_malloc_iff, wp_modify]
        exact iff_of_eq (congrArg (Q (.ok ()))
          (@setTable_again id s ⟨(s.inf.table id).symbols, (s.inf.table id).capacity <<< 1, (s.inf.table id).capacity <<< 1⟩ _
            s.scratch.tick.tick))
    · rw [if_neg hmalloc, if_neg hmalloc]
  · rw [if_neg hfull, if_neg hfull, wp_bind, wp_get, wp_bind, wp_when]
    split <;> rfl

/-- A call leaves the other table alone. -/
theorem forall_table_setTable {P : TableId → SymTable → Prop} {table : SymTable} {x : Scratch}
    (hothers : ∀ id', id' ≠ id → P id' (s.inf.table id')) :
    (∀ id', P id' (((s.setTable id table).withScratch x).inf.table id')) ↔ P id table := by
  constructor
  · intro h
    have := h id
    rwa [withScratch_inf, setTable_table] at this
  · intro h id'
    rw [withScratch_inf]
    by_cases hid : id' = id
    · rw [hid, setTable_table]
      exact h
    · rw [setTable_other hid]
      exact hothers id' hid

theorem unspoiled_self (table : SymTable) : table.Unspoiled table := ⟨rfl, Iff.rfl⟩

/-- A stored symbol has a name if its name could be copied. -/
theorem safe_append {table : SymTable} {capacity allocated : Nat} {copied : Bool} {name : String} {addr : Addr} (h : table.Safe)
    (hroom : table.symbols.length < allocated) :
    SymTable.Safe ⟨table.symbols ++ [⟨if copied then some name else none, addr⟩], capacity, allocated⟩ ↔ copied = true := by
  constructor
  · intro hsafe
    have hname := hsafe.2 ⟨if copied then some name else none, addr⟩ (List.mem_append_right _ (List.mem_singleton_self _))
    by_contra hcopied
    exact hname (if_neg hcopied)
  · intro hcopied
    refine ⟨?_, fun sym hsym => ?_⟩
    · show (table.symbols ++ [_]).length ≤ allocated
      rw [List.length_append, List.length_singleton]
      exact hroom
    · rcases List.mem_append.mp hsym with hsym | hsym
      · exact h.2 sym hsym
      · rw [List.mem_singleton.mp hsym, if_pos hcopied]
        exact Option.some_ne_none _

/-- A call survives in a run if and only if its step meets the condition. -/
theorem survives_iff_of_kept (h : ∀ id, (s.inf.table id).Kept) : call.Survives env s ↔ call.Meets env s := by
  have hsafe := fun id => (h id).safe
  unfold SymCall.Survives SymCall.Meets
  rw [wp_symCall]
  dsimp only
  by_cases hfull : (s.inf.table call.id).symbols.length = (s.inf.table call.id).capacity
  · rw [if_pos hfull, if_pos hfull]
    by_cases hmalloc : env.malloc s.scratch.clock = true
    · rw [if_pos hmalloc, if_pos hmalloc, hfull, Nat.shiftLeft_eq, pow_one]
      by_cases hroom : (s.inf.table call.id).capacity * 2 ≤ (s.inf.table call.id).capacity
      · rw [if_pos hroom]
        exact ⟨False.elim, fun hmeets => by omega⟩
      · rw [if_neg hroom, forall_table_setTable fun id' _ => hsafe id', safe_append (hsafe _) (by omega)]
        constructor
        · exact fun hcopied => ⟨by omega, hcopied.1⟩
        · exact fun hmeets => ⟨hmeets.2, fun hr => nomatch hr⟩
    · rw [if_neg hmalloc, if_neg hmalloc, forall_table_setTable fun id' _ => hsafe id', forall_table_setTable
        (P := fun id table => (s.inf.table id).Unspoiled table) fun id' _ => unspoiled_self _]
      have hblock : (s.inf.table call.id).capacity = (s.inf.table call.id).allocated := by
        refine (h call.id).block.resolve_right fun hnone => ?_
        rw [hnone] at hfull
        exact absurd hfull (by decide)
      rw [Nat.shiftLeft_eq, pow_one]
      constructor
      · intro hkept
        have : (s.inf.table call.id).capacity * 2 = (s.inf.table call.id).allocated := (hkept.2 rfl).2.mpr hblock
        omega
      · intro hzero
        refine ⟨hsafe call.id, fun _ => ⟨rfl, ?_⟩⟩
        show (s.inf.table call.id).capacity * 2 = (s.inf.table call.id).allocated ↔ _
        rw [hzero, Nat.zero_mul]
  · rw [if_neg hfull, if_neg hfull]
    by_cases hroom : (s.inf.table call.id).allocated ≤ (s.inf.table call.id).symbols.length
    · rw [if_pos hroom]
      exact ⟨False.elim, fun hmeets => Nat.not_lt.mpr hroom hmeets.1⟩
    · rw [if_neg hroom, forall_table_setTable fun id' _ => hsafe id', safe_append (hsafe _) (Nat.not_le.mp hroom)]
      constructor
      · exact fun hcopied => ⟨Nat.not_le.mp hroom, hcopied.1⟩
      · exact fun hmeets => ⟨hmeets.2, fun hr => nomatch hr⟩

/-- The capacity of a table is that of its block, or the table is the one that was given no block. -/
def SymTable.Sized (table : SymTable) : Prop := table.capacity = table.allocated ∨ table = ⟨[], 256, 0⟩

theorem forall_sized_setTable {id : TableId} {table : SymTable} {x : Scratch} (h : ∀ id', (s.inf.table id').Sized) :
    (∀ id', (((s.setTable id table).withScratch x).inf.table id').Sized) ↔ table.Sized :=
  @forall_table_setTable s id (fun _ => SymTable.Sized) table x fun id' _ => h id'

/-- A step that meets the condition keeps the tables. -/
theorem kept_of_meets (h : ∀ id, (s.inf.table id).Kept) (hmeets : call.Meets env s) :
    wp (fun _ _ => False) (call.run env) (fun _ t => ∀ id, (t.inf.table id).Kept) (fun _ _ => False) s := by
  have hsurvives := (survives_iff_of_kept h).mpr hmeets
  have hblock : wp (fun _ _ => True) (call.run env)
      (fun _ t => ∀ id, (t.inf.table id).Sized) (fun _ _ => True) s := by
    have hblock : ∀ id, (s.inf.table id).Sized := fun id => (h id).block
    rw [wp_symCall]
    dsimp only
    unfold SymCall.Meets at hmeets
    split
    · rename_i hfull
      rw [if_pos hfull] at hmeets
      split
      · split
        · trivial
        · rw [forall_sized_setTable hblock]
          exact Or.inl rfl
      · rename_i hmalloc
        rw [if_neg hmalloc] at hmeets
        rw [forall_sized_setTable hblock]
        refine Or.inl ?_
        have := (hblock call.id).resolve_right fun hnone => by
          rw [hnone] at hfull
          exact absurd hfull (by decide)
        rw [hmeets] at this ⊢
        exact this
    · rename_i hfull
      rw [if_neg hfull] at hmeets
      split
      · trivial
      · rw [forall_sized_setTable hblock]
        refine Or.inl ((hblock call.id).resolve_right fun hnone => ?_)
        rw [hnone] at hmeets
        exact absurd hmeets.1 (by decide)
  exact (hsurvives.and hblock).imp (fun _ t ht id => ⟨ht.2 id, ht.1.1 id⟩) fun _ _ he => he.1

/-- The tables are kept in the whole run. -/
theorem SymRun.kept (h : SymRun env s) : ∀ id, (s.inf.table id).Kept := by
  induction h with
  | @reset s t emptied =>
    have hreset : wp (fun _ _ => True) (symReset env) (fun _ t => ∀ id, (t.inf.table id).Kept) (fun _ _ => True) s := wp_symReset_kept
    exact hreset.ok emptied
  | aside x run ih => exact ih
  | add call run meets added ih => exact (kept_of_meets ih meets).ok added

/-! ### Where there is memory -/

/-- A table that can be added to -/
structure SymTable.Ready (table : SymTable) : Prop where
  block : table.capacity = table.allocated
  pos : 0 < table.capacity
  safe : table.Safe

/-- These labels are added, and nothing else happens to the tables. -/
structure Stores (id : TableId) (labels : List Label) (s t : State) : Prop where
  ready : (t.inf.table id).Ready
  symbols : (t.inf.table id).symbols = (s.inf.table id).symbols ++ labels.map Label.symbol
  only : OnlyTable id s t

theorem wp_symTryAdd_ready {name : String} {addr : Addr} (hmem : ¬env.Scarce) (h : (s.inf.table id).Ready) :
    wp F (symTryAdd env id name addr) (fun _ t => Stores id [(name, addr)] s t) E s := by
  have hmalloc := granted_of_not_scarce hmem
  have hlen := h.safe.1
  have hpos := h.pos
  have hblock := h.block
  have hpost : ∀ {capacity allocated : Nat} {x : Scratch}, capacity = allocated → 0 < capacity →
      (s.inf.table id).symbols.length < allocated → Stores id [(name, addr)] s
        ((s.setTable id ⟨(s.inf.table id).symbols ++ [⟨some name, addr⟩], capacity, allocated⟩).withScratch x) := by
    intro capacity allocated x heq hcapacity hroom
    have hsafe := (@safe_append _ capacity allocated true name addr h.safe hroom).mpr rfl
    refine ⟨?_, ?_, onlyTable_setTable⟩
    · rw [withScratch_inf, setTable_table]
      exact ⟨heq, hcapacity, hsafe⟩
    · rw [withScratch_inf, setTable_table]
      rfl
  show wp F (SymCall.run env ⟨id, name, addr⟩ >>= fun _ => pure ()) _ _ _
  rw [wp_bind, wp_symCall]
  dsimp only
  split
  · rename_i hfull
    rw [if_pos (hmalloc _), if_pos (hmalloc _), Nat.shiftLeft_eq, pow_one, if_neg (by omega), wp_pure]
    exact hpost rfl (by omega) (by omega)
  · rename_i hroom
    rw [if_pos (hmalloc _), if_neg (by omega), wp_pure]
    exact hpost hblock hpos (by omega)

theorem wp_symStore_ready {labels : List Label} (hmem : ¬env.Scarce) (h : (s.inf.table id).Ready) :
    wp F (symStore env id labels) (fun _ t => Stores id labels s t) E s := by
  unfold symStore
  induction labels generalizing s with
  | nil => exact ⟨h, (List.append_nil _).symm, OnlyTable.refl⟩
  | cons label labels ih =>
    rw [wp_each_cons]
    refine (wp_symTryAdd_ready hmem h).imp (fun _ t ht => ?_) fun _ _ h => h
    refine (ih ht.ready).imp (fun _ u hu => ?_) fun _ _ h => h
    refine ⟨hu.ready, ?_, ht.only.trans hu.only⟩
    rw [hu.symbols, ht.symbols, List.append_assoc]
    rfl

end

/-- In every run of which all steps met the condition the tables are safe, and the next call keeps them so if and only if it meets
    the condition too. -/
theorem tables_survive_iff (env : Env) (s : State) (hs : SymRun env s) :
    (∀ id, (s.inf.table id).Safe) ∧ ∀ call : SymCall, call.Survives env s ↔ call.Meets env s :=
  ⟨fun id => (hs.kept id).safe, fun _ => survives_iff_of_kept hs.kept⟩

def mainCall : SymCall := ⟨.elf, "main", 0x401000⟩

/-- Both tables are empty, and `main` was added. -/
def State.added : State := (State.blank.after (symReset .compliant)).after (mainCall.run .compliant)

theorem tables_survive_iff_added :
    (∀ id, (State.added.inf.table id).Safe) ∧ ∀ call : SymCall, call.Survives .compliant .added ↔ call.Meets .compliant .added :=
  tables_survive_iff .compliant .added
    (.add (r := .ok ()) mainCall (.reset (s := .blank) rfl) (show 0 < 256 ∧ true = true from ⟨by decide, rfl⟩) rfl)

/-- There is memory for nothing. -/
def Env.starved : Env := { Env.compliant with malloc := fun _ => false }

/-- The first call after a table got no block writes outside. -/
theorem add_unallocated_outside : ∃ s, SymRun .starved s ∧ ¬mainCall.Survives .starved s :=
  ⟨State.blank.after (symReset .starved), .reset (s := .blank) rfl, id⟩

end Sylvan
