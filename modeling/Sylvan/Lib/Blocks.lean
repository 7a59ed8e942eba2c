import Mathlib.Data.Multiset.AddSub
import Mathlib.Data.Multiset.MapFold
import Sylvan.Lib.Exec
import Sylvan.Lib.Heap

/-! # Blocks of a heap

A heap as the multiset of its blocks. A sum of multisets says that its parts share no block, so what is known of a part and a
rest is known of each apart: `load`, `store` and `free`, the accesses of a program to a block, need the block among those of
the heap and leave the rest as it is. An access to what is not allocated is a misuse. -/

namespace Heap

/-- Each address with what is in the block there. -/
abbrev Blocks (P C : Type) : Type := Multiset (Sigma fun _ : P => C)

variable {P C : Type} [DecidableEq P] {h : Heap P C} {p : P} {c c' : C} {B : Blocks P C}

def blocks (h : Heap P C) : Blocks P C := h.entries

/-- The block `p` alone -/
def single (p : P) (c : C) : Blocks P C := {⟨p, c⟩}

/-! ## What is in a block -/

/-- A heap with the block `p` and the blocks `B` besides. -/
theorem exists_perm (hb : h.blocks = single p c + B) :
    ∃ l : Heap P C, p ∉ l ∧ l.blocks = B ∧ h.entries.Perm (l.insert p c).entries := by
  obtain ⟨l, rfl⟩ := Quot.exists_rep B
  have hperm : h.entries.Perm (⟨p, c⟩ :: l) := Multiset.coe_eq_coe.mp hb
  have hnodup : (⟨p, c⟩ :: l).NodupKeys := (List.perm_nodupKeys hperm).mp h.nodupKeys
  obtain ⟨hp, hl⟩ := List.nodupKeys_cons.mp hnodup
  refine ⟨⟨l, hl⟩, hp, rfl, ?_⟩
  rwa [AList.entries_insert_of_notMem hp]

theorem blocks_insert (hp : p ∉ h) : blocks (h.insert p c) = single p c + h.blocks := by
  simp only [blocks, single, AList.entries_insert_of_notMem hp, Multiset.singleton_add, Multiset.cons_coe]

theorem lookup_of_blocks (hb : h.blocks = single p c + B) : h.lookup p = some c := by
  obtain ⟨l, -, -, hperm⟩ := exists_perm hb
  rw [AList.perm_lookup hperm, AList.lookup_insert]

theorem lookup_eq_some_iff : h.lookup p = some c ↔ ⟨p, c⟩ ∈ h.blocks := AList.mem_lookup_iff

omit [DecidableEq P] in
/-- No two blocks have one address. -/
theorem nodup_addresses (h : Heap P C) : (Multiset.map Sigma.fst h.blocks).Nodup := h.nodupKeys

theorem mem_of_blocks (hb : h.blocks = single p c + B) : p ∈ h := mem_of_lookup (lookup_of_blocks hb)

theorem blocks_erase (hb : h.blocks = single p c + B) : blocks (h.erase p) = B := by
  obtain ⟨l, hp, rfl, hperm⟩ := exists_perm hb
  have herase : (h.erase p).entries.Perm ((l.insert p c).erase p).entries := AList.perm_erase hperm
  have hback : ((l.insert p c).erase p).entries = l.entries := by
    show List.kerase p (l.insert p c).entries = l.entries
    rw [AList.entries_insert_of_notMem hp]
    exact List.kerase_cons_eq rfl
  rw [hback] at herase
  exact Multiset.coe_eq_coe.mpr herase

theorem blocks_write (hb : h.blocks = single p c + B) : blocks (h.insert p c') = single p c' + B := by
  have hp : p ∉ h.erase p := fun hmem => ((AList.mem_erase).mp hmem).1 rfl
  have hinsert : blocks (h.insert p c') = blocks ((h.erase p).insert p c') := by
    simp only [blocks, AList.entries_insert_of_notMem hp, AList.entries_insert]
    rfl
  rw [hinsert, blocks_insert hp, blocks_erase hb]

/-- Which block is where does not depend on their order. -/
theorem lookup_congr {h' : Heap P C} (hb : h.blocks = h'.blocks) (p : P) : h.lookup p = h'.lookup p :=
  AList.perm_lookup (Multiset.coe_eq_coe.mp hb)

/-- A heap with one block more -/
theorem lookup_of_extra {h' : Heap P C} (hb : h.blocks = single p c + h'.blocks) :
    p ∉ h' ∧ ∀ q, h.lookup q = if q = p then some c else h'.lookup q := by
  obtain ⟨l, hp, hl, hperm⟩ := exists_perm hb
  have hsame := lookup_congr hl
  refine ⟨fun hmem => hp ?_, fun q => ?_⟩
  · rw [← AList.lookup_isSome] at hmem ⊢
    rwa [hsame]
  · rw [AList.perm_lookup hperm, ← hsame]
    split
    · rename_i hq
      rw [hq, AList.lookup_insert]
    · rename_i hq
      rw [AList.lookup_insert_ne hq]

/-! ## Accesses -/

/-- What a program must not do with an address. -/
inductive Misuse where
  /-- An access to what is not allocated, or not any more. -/
  | dangling
  /-- `free` of what is not allocated, or not any more. -/
  | badFree
  deriving DecidableEq, Repr

section Accesses
variable {ε : Type}

/-- What is in the block at `p`. -/
def load (p : P) : Exec (Heap P C) ε Misuse C := fun h =>
  match h.lookup p with
  | some c => .ok c h
  | none => .fault .dangling h

/-- Writes the block at `p`. -/
def store (p : P) (c : C) : Exec (Heap P C) ε Misuse Unit := fun h =>
  if p ∈ h then .ok () (h.insert p c) else .fault .dangling h

/-- `free` -/
def release (p : P) : Exec (Heap P C) ε Misuse Unit := fun h =>
  if p ∈ h then .ok () (h.erase p) else .fault .badFree h

/-- `free`, which takes a null pointer too -/
def free : Option P → Exec (Heap P C) ε Misuse Unit
  | none => pure ()
  | some p => release p

/-- A block is allocated at `p`. -/
def place (p : P) (c : C) : Exec (Heap P C) ε Misuse Unit := Exec.modify fun h => h.insert p c

open Exec
variable {F : Misuse → Heap P C → Prop} {E : ε → Heap P C → Prop}

theorem wp_load {Q : C → Heap P C → Prop} (hb : h.blocks = single p c + B) (hQ : Q c h) : wp F (load p) Q E h := by
  unfold wp load
  rw [lookup_of_blocks hb]
  exact hQ

theorem wp_store {Q : Unit → Heap P C → Prop} (hb : h.blocks = single p c + B)
    (hQ : ∀ h', h'.blocks = single p c' + B → Q () h') : wp F (store p c') Q E h := by
  unfold wp store
  rw [if_pos (mem_of_blocks hb)]
  exact hQ _ (blocks_write hb)

theorem wp_release {Q : Unit → Heap P C → Prop} (hb : h.blocks = single p c + B) (hQ : ∀ h', h'.blocks = B → Q () h') :
    wp F (release p) Q E h := by
  unfold wp release
  rw [if_pos (mem_of_blocks hb)]
  exact hQ _ (blocks_erase hb)

theorem wp_place {Q : Unit → Heap P C → Prop} (hp : p ∉ h) (hQ : ∀ h', h'.blocks = single p c + h.blocks → Q () h') :
    wp F (place p c) Q E h := hQ _ (blocks_insert hp)

end Accesses

end Heap
