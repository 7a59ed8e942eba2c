import Mathlib.Algebra.Order.BigOperators.Group.List
import Mathlib.Algebra.Order.Group.Nat
import Sylvan.Theorems.LibraryCalls

/-! # The life of an inferior in memory

An inferior is created, called on and destroyed, with memory or without at every allocation on the way. In memory the calls end as
their models do: no call frees a block twice, or reads one that was freed or not written, and while the inferior lives its blocks
are the only ones besides those that were there before. Destroying it frees them all. A create that fails frees what it allocated,
but for one array: the one of the ELF table, where there is no memory for that of the DWARF table.

The files have fewer than `2 ^ 31` labels (`Env.LabelsFit`), as the names of a table are counted in an `int` when it is destroyed. -/

namespace Sylvan
open Exec Heap

section
variable {env : LibraryEnv} {rest : LibraryBlocks} {m : Library} {s : State} {q : Nat}

/-! ### Creating an inferior -/

theorem owns_zeroed {u : State} {heap : Heap Nat HeapBlock} (hb : Heap.blocks heap = single q .inferior + rest) :
    Owns rest ⟨u.setInf zeroedInferior, .zeroed (some q), heap⟩ (u.setInf zeroedInferior) :=
  ⟨rfl, q, 0, 0, fun _ => 0, ⟨rfl, .null, .null, fun | .elf | .dwarf => .null 0⟩, by simp [hb]⟩

/-- There was no memory for the first array. -/
theorem blocks_of_elf_failed (hm : Owns rest m s) (hp : m.ptrs = (InferiorPtrs.zeroed (some q)).setTable .elf ⟨none, 0, 256⟩) :
    m.heap.blocks = single q .inferior + rest := by
  obtain ⟨self, path, args, table, hi, hb⟩ := hm.blocks
  rw [hp] at hi
  obtain rfl := Option.some.inj hi.self
  rw [hb, TextAt.eq_zero hi.realpath, TextAt.eq_zero hi.args, (hi.table .elf).eq_zero rfl, (hi.table .dwarf).eq_zero rfl]
  simp

/-- There was no memory for the second array. -/
theorem blocks_of_dwarf_failed {p : Nat} (hm : Owns rest m s)
    (hp : m.ptrs = ((InferiorPtrs.zeroed (some q)).setTable .elf ⟨some p, 0, 256⟩).setTable .dwarf ⟨none, 0, 256⟩) :
    ∃ n, m.heap.blocks = single q .inferior + (single p (.symbols (List.replicate n none)) + rest) := by
  obtain ⟨self, path, args, table, hi, hb⟩ := hm.blocks
  rw [hp] at hi
  obtain rfl := Option.some.inj hi.self
  obtain ⟨n, hn⟩ := (hi.table .elf).unwritten rfl rfl
  refine ⟨n, ?_⟩
  rw [hb, TextAt.eq_zero hi.realpath, TextAt.eq_zero hi.args, hn, (hi.table .dwarf).eq_zero rfl]
  simp [add_assoc]

/-- What a create that fails leaves -/
def Library.Lost (env : LibraryEnv) (m m' : Library) : Prop :=
  if env.malloc m.state.scratch.clock = true ∧ env.malloc (m.state.scratch.clock + 1) = true then
    ∃ p n, m'.heap.blocks = single p (.symbols (List.replicate n none)) + m.heap.blocks
  else m'.heap.blocks = m.heap.blocks

theorem owns_numbered (hm : Owns rest m s) :
    Owns rest { m with
      state := { m.state.setInf { m.state.inf with id := m.state.inferiorIdx } with
        inferiorIdx := m.state.inferiorIdx + 1, inferiorCount := m.state.inferiorCount + 1 } }
      { s.setInf { s.inf with id := s.inferiorIdx } with inferiorIdx := s.inferiorIdx + 1, inferiorCount := s.inferiorCount + 1 } := by
  refine ⟨?_, hm.blocks⟩
  have halike := hm.alike
  unfold Alike at halike ⊢
  rw [← halike]
  rfl

theorem rwp_inferiorCreate (hsane : env.Sane) :
    rwp .lib (Library.inferiorCreate env) (inferiorCreate env.toEnv) (fun _ _ m' s' => Owns m.heap.blocks m' s')
      (fun m' s' => Alike m'.state s' ∧ Library.Lost env m m') m m.state := by
  refine rwp_malloc hsane rfl (fun hgranted q heap hheap => ?_) fun hrefused => ?_
  · rw [when_false (by simp), pure_bind]
    refine rwp.left (wp_get.mpr (rwp.left (wp_modify.mpr (rwp.right (wp_modify.mpr ?_)))))
    have hnull : ∀ which, ((InferiorPtrs.zeroed (some q)).table which).symbols = none := fun which => by cases which <;> rfl
    refine rwp.bind (E := fun m' s' => Alike m'.state s' ∧ Library.Lost env m m')
      ((rwp_symInit hsane (owns_zeroed hheap) hnull).catching_left fun c m' s' h => ?_)
      (fun _ _ m' s' hm' => owns_numbered hm') fun _ _ => id
    obtain ⟨hm', hp⟩ := h
    split at hp
    · rename_i hgranted'
      obtain ⟨p, hp⟩ := hp
      obtain ⟨n, hb⟩ := blocks_of_dwarf_failed hm' hp
      refine wp_bind.mpr (wp_free_block hb fun heap' hheap' => ⟨rfl, hm'.alike, ?_⟩)
      exact (if_pos ⟨hgranted, hgranted'⟩).mpr ⟨p, n, hheap'⟩
    · rename_i hrefused
      refine wp_bind.mpr (wp_free_block (blocks_of_elf_failed hm' hp) fun heap' hheap' => ⟨rfl, hm'.alike, ?_⟩)
      exact (if_neg fun h => hrefused h.2).mpr hheap'
  · rw [when_true rfl]
    refine rwp.right_fails ⟨rfl, rfl, ?_⟩
    exact (if_neg fun h => absurd h.1 (by simp [hrefused])).mpr rfl

/-! ### Destroying it -/

theorem alike_destroyed {u : State} (h : Alike u s) :
    Alike { u.record .freed with freed := true, inferiorCount := u.inferiorCount - 1 }
      { s.record .freed with freed := true, inferiorCount := s.inferiorCount - 1 } := by
  unfold Alike at h ⊢
  rw [← h]
  rfl

theorem rwp_inferiorDestroy (hm : Owns rest m s) (hs : s.CountsFit) :
    rwp .lib (Library.inferiorDestroy env) (inferiorDestroy env.toEnv) (fun _ _ m' s' => Alike m'.state s' ∧ m'.heap.blocks = rest)
      (Owns rest) m s := by
  refine ((Agrees.reading keeps_terminateOrDetach m s hm).and_wp
    (wp_of_tables (fun hsame => hsame.countsFit) keeps_terminateOrDetach hs)).bind (fun _ _ m' s' h => ?_) fun _ _ => And.left
  refine (rwp_symDestroy h.1.2 h.2).bind (fun _ _ m' s' h => ?_) fun _ _ => id
  obtain ⟨hm', hp⟩ := h
  obtain ⟨self, path, args, table, hi, hb⟩ := hm'.blocks
  have helf : table .elf = 0 := (hi.table .elf).eq_zero (by rw [hp]; rfl)
  have hdwarf : table .dwarf = 0 := (hi.table .dwarf).eq_zero (by rw [hp]; rfl)
  have hpath : m'.heap.blocks = path + (args + (single self .inferior + rest)) := by
    rw [hb, helf, hdwarf]
    abel
  refine rwp.of_wp (wp_bind.mpr (wp_get.mpr (wp_bind.mpr (wp_free_text hi.realpath hpath fun heap hheap => ?_))))
  refine wp_bind.mpr (wp_get.mpr (wp_bind.mpr (wp_free_text hi.args hheap fun heap' hheap' => ?_)))
  refine wp_bind.mpr (wp_get.mpr (wp_bind.mpr ?_))
  rw [hi.self]
  exact wp_free_block hheap' fun heap'' hheap'' => ⟨(), _, rfl, alike_destroyed hm'.alike, hheap''⟩

/-! ### Runs -/

/-- `qsort` gives as many symbols as it is given. -/
theorem LibraryEnv.Sane.length_qsort (hsane : env.Sane) (n : Nat) (l : List Symbol) : (env.qsort n l).length = l.length := by
  rw [hsane.qsort]
  exact (permuted_perm (hsane.order n l)).length_eq

theorem rwp_callAll (hsane : env.Sane) (hfit : env.LabelsFit) : ∀ ops m s, Owns rest m s → s.CountsFit →
    rwp .lib (callAll (Library.call env) ops) (callAll (Op.call env.toEnv) ops)
      (fun a b m' s' => a = b ∧ Alike m'.state s' ∧ if a then m'.heap.blocks = rest else Owns rest m' s') (fun _ _ => False) m s
  | [], m, s, hm, _ => ⟨rfl, hm.alike, hm⟩
  | op :: ops, m, s, hm, hs => by
    have hop := op.countsFit hfit hsane.length_qsort hs
    cases hdestroy : op.isDestroy with
    | false =>
      refine ((agrees_call hsane op hdestroy m s hm hs).and_wp hop).attempt_bind (fun _ _ m' s' h => ?_) fun _ m' s' h =>
        rwp_callAll hsane hfit ops m' s' h.1 h.2
      simp only [hdestroy]
      exact rwp_callAll hsane hfit ops m' s' h.1.2 h.2
    | true =>
      cases op with
      | destroy =>
        exact ((rwp_inferiorDestroy hm hs).and_wp hop).attempt_bind (fun _ _ m' s' h => ⟨rfl, h.1⟩) fun _ m' s' h =>
          rwp_callAll hsane hfit ops m' s' h.1 h.2
      | _ => cases hdestroy

theorem rwp_lifetime (hsane : env.Sane) (hfit : env.LabelsFit) (ops : List Op) (m : Library) :
    rwp .lib (Library.lifetime env ops) (lifetime env.toEnv ops)
      (fun a b m' s' => a = b ∧ Alike m'.state s' ∧ if a then m'.heap.blocks = m.heap.blocks else Owns m.heap.blocks m' s')
      (fun m' s' => Alike m'.state s' ∧ Library.Lost env m m') m m.state :=
  ((rwp_inferiorCreate hsane).and_wp wp_inferiorCreate_empty).bind (fun _ _ m' s' h =>
    (rwp_callAll hsane hfit ops m' s' h.1 h.2.countsFit).mono (fun _ _ _ _ => id) fun _ _ => False.elim) fun _ _ => And.left

/-- In memory the calls end as their models do, with the same faults, and while the inferior lives nothing is allocated but it and
    what was there before. -/
theorem lifetime_refines (hsane : env.Sane) (hfit : env.LabelsFit) (ops : List Op) (m : Library) :
    rwp .lib (Library.lifetime env ops) (lifetime env.toEnv ops)
      (fun destroyed destroyed' m' s' => destroyed = destroyed' ∧ Alike m'.state s' ∧ (destroyed = false → Owns m.heap.blocks m' s'))
      (fun m' s' => Alike m'.state s') m m.state := by
  refine (rwp_lifetime hsane hfit ops m).mono (fun a b m' s' h => ⟨h.1, h.2.1, fun ha => ?_⟩) fun _ _ => And.left
  have hlive := h.2.2
  rwa [ha, if_neg Bool.false_ne_true] at hlive

/-- Once it is destroyed, the heap is as it was. Where there was no memory for it, so it is but for the array of the ELF table,
    which is lost where the third of the three allocations is the one that fails. -/
theorem lifetime_frees (hsane : env.Sane) (hfit : env.LabelsFit) (ops : List Op) (m : Library) :
    (∀ m', Library.lifetime env ops m = .ok true m' → ∀ p, m'.heap.lookup p = m.heap.lookup p) ∧
    ∀ c m', Library.lifetime env ops m = .error c m' →
      if env.malloc m.state.scratch.clock = true ∧ env.malloc (m.state.scratch.clock + 1) = true then
        ∃ p n, p ∉ m.heap ∧ ∀ q, m'.heap.lookup q = if q = p then some (.symbols (List.replicate n none)) else m.heap.lookup q
      else ∀ p, m'.heap.lookup p = m.heap.lookup p := by
  have h := rwp_lifetime hsane hfit ops m
  refine ⟨fun m' hok => ?_, fun c m' herror => ?_⟩
  · obtain ⟨b, s', -, hb⟩ := h.ok hok
    exact lookup_congr hb.2.2
  · obtain ⟨s', -, -, hlost⟩ := h.error herror
    unfold Library.Lost at hlost
    split at hlost
    · rename_i hgranted
      obtain ⟨p, n, hb⟩ := hlost
      obtain ⟨hp, hlookup⟩ := lookup_of_extra hb
      exact (if_pos hgranted).mpr ⟨p, n, hp, hlookup⟩
    · rename_i hrefused
      exact (if_neg hrefused).mpr (lookup_congr hlost)

end

/-! ### A system to run them on -/

section Sample

/-- A file with a function -/
def ElfFile.sample : ElfFile :=
  ⟨[⟨true, SHT_SYMTAB, SHF_EXECINSTR, 24, 24, some fun _ => some ⟨some "main", 4096, 0, 1⟩⟩], true⟩

/-- There is memory where `malloc` says so. A new block is behind all others, and `qsort` leaves the elements where they are. -/
def LibraryEnv.sample (malloc : Nat → Bool) : LibraryEnv where
  toEnv := { Env.compliant with malloc, elf := fun _ _ => some .sample, qsort := fun _ symbols => symbols }
  place m := m.heap.keys.sum + 1
  order _ symbols := List.range symbols.length

def Library.blank : Library := ⟨.blank, .zeroed none, ∅⟩

theorem LibraryEnv.sane_sample (malloc : Nat → Bool) : (LibraryEnv.sample malloc).Sane where
  place _ h := Nat.lt_irrefl _ (Nat.lt_succ_of_le (List.le_sum_of_mem (AList.mem_keys.mp h)))
  order _ _ := .refl _
  qsort _ _ := permuted_range.symm

theorem LibraryEnv.labelsFit_sample (malloc : Nat → Bool) : (LibraryEnv.sample malloc).LabelsFit where
  dwarf _ _ _ h := nomatch h
  elf _ _ _ h := by
    cases h
    decide

def sampleOps : List Op := [.setFilepath (some "/bin/a"), .setArgs (some "x"), .run, .setFilepath (some "/bin/b"), .destroy]

theorem lifetime_refines_sample :
    ∃ s, lifetime (LibraryEnv.sample fun _ => true).toEnv sampleOps .blank = .ok true s := by
  have hrun : (Library.lifetime (.sample fun _ => true) sampleOps .blank).value? = some true := by decide +kernel
  obtain ⟨b, s, hs, rfl, -⟩ := (lifetime_refines (LibraryEnv.sane_sample _) (LibraryEnv.labelsFit_sample _) sampleOps .blank).ok (Outcome.eq_ok_of_value? hrun)
  exact ⟨s, hs⟩

theorem lifetime_frees_sample :
    (∃ m', Library.lifetime (.sample fun _ => true) sampleOps .blank = .ok true m' ∧ ∀ p, m'.heap.lookup p = none) ∧
    ∃ c m' p n, Library.lifetime (.sample fun t => t ≠ 2) sampleOps .blank = .error c m' ∧
      m'.heap.lookup p = some (.symbols (List.replicate n none)) := by
  constructor
  · have hrun : (Library.lifetime (.sample fun _ => true) sampleOps .blank).value? = some true := by decide +kernel
    have hok := Outcome.eq_ok_of_value? hrun
    exact ⟨_, hok, fun p => (lifetime_frees (LibraryEnv.sane_sample _) (LibraryEnv.labelsFit_sample _) sampleOps .blank).1 _ hok p⟩
  · have hrun : (Library.lifetime (.sample fun t => t ≠ 2) sampleOps .blank).error? = some .outOfMemory := by decide +kernel
    have herror := Outcome.eq_error_of_error? hrun
    obtain ⟨p, n, -, hlookup⟩ := (lifetime_frees (LibraryEnv.sane_sample _) (LibraryEnv.labelsFit_sample _) sampleOps .blank).2 _ _ herror
    exact ⟨_, _, p, n, herror, (hlookup p).trans (if_pos rfl)⟩

end Sample

end Sylvan
