import Sylvan.Theorems.UserWrites

/-! What a write of the user does to the memory of a process, byte by byte, and what becomes of it where a part of
    the memory is not mapped. -/

namespace Sylvan
open Exec ByteMemory

/-! ### Writes that succeed -/

section Success
variable {env : Env} {s t u : State} {addr : Addr} {data : List Byte} {w : Word}

theorem setMemory_write (hlen : data.length ≤ 2 ^ 64) (h : setMemory env addr data s = .ok () t) :
    t.proc.mem = write s.proc.mem addr data := by
  have hwp : wp (fun _ _ => True) (setMemory env addr data) (fun _ t => t.proc.mem = write s.proc.mem addr data) (fun _ _ => True) s :=
    wp_setMemory hlen (fun x => by rw [withScratch_proc, setMem_proc]) (fun _ _ => trivial) fun _ _ => trivial
  exact hwp.ok h

theorem getMemory_peek (h : getMemory env addr s = .ok w t) : w = peek 64 s.proc.mem addr := by
  have hwp : wp (fun _ _ => True) (getMemory env addr) (fun w _ => w = peek 64 s.proc.mem addr) (fun _ _ => True) s :=
    wp_getMemory (fun _ => rfl) fun _ _ => trivial
  exact hwp.ok h

/-- A write that succeeds writes the bytes of the user and no others, and they are what is read there afterwards. -/
theorem set_memory_writes_bytes (env : Env) (s t : State) (addr : Addr) (data : List Byte) (hwrap : addr.toNat + data.length ≤ 2 ^ 64)
    (h : setMemory env addr data s = .ok () t) :
    (∀ i (hi : i < data.length), t.proc.mem (addr + BitVec.ofNat 64 i) = data[i]) ∧
    (∀ x, (∀ i, i < data.length → x ≠ addr + BitVec.ofNat 64 i) → t.proc.mem x = s.proc.mem x) ∧
    ∀ i w u, i + 8 ≤ data.length → getMemory env (addr + BitVec.ofNat 64 i) t = .ok w u → w = ofBytes 64 ((data.drop i).take 8) := by
  have hlen : data.length ≤ 2 ^ 64 := by omega
  have hmem := setMemory_write hlen h
  refine ⟨fun i hi => ?_, fun x hx => ?_, fun i w u hi hget => ?_⟩
  · rw [hmem, write_apply hi hlen]
  · rw [hmem, write_of_ge (Nat.le_of_not_lt fun hlt => hx _ hlt add_ofNat_sub.symm)]
  · rw [getMemory_peek hget, hmem, peek, read_write hi hlen]

/-- A word and a tail of one byte -/
theorem set_memory_writes_bytes_nine :
    let data : List Byte := [1, 2, 3, 4, 5, 6, 7, 8, 9]
    let t := State.attached.after (setMemory .compliant 8192 data)
    (∀ i (hi : i < data.length), t.proc.mem ((8192 : Addr) + BitVec.ofNat 64 i) = data[i]) ∧
    (∀ x, (∀ i, i < data.length → x ≠ (8192 : Addr) + BitVec.ofNat 64 i) → t.proc.mem x = State.attached.proc.mem x) ∧
    ∀ i w u, i + 8 ≤ data.length → getMemory .compliant ((8192 : Addr) + BitVec.ofNat 64 i) t = .ok w u →
      w = ofBytes 64 ((data.drop i).take 8) :=
  set_memory_writes_bytes .compliant State.attached _ 8192 _ (by decide) (State.after_ok (by decide +kernel))

end Success

/-! ### Memory that is mapped in part -/

/-- The word at `addr` can be accessed: its eight bytes are mapped. -/
def Accessible (mapped : Addr → Prop) (addr : Addr) : Prop := ∀ i, i < 8 → mapped (addr + BitVec.ofNat 64 i)

/-- Where `sylvan_set_memory` accesses the memory, in order: a word is written, and a tail is read and written. -/
def accesses : Addr → List Byte → List Addr
  | addr, _ :: _ :: _ :: _ :: _ :: _ :: _ :: _ :: bytes => addr :: accesses (addr + 8) bytes
  | addr, bytes => if bytes = [] then [] else [addr, addr]

/-- The `k` calls of `ptrace` from time `n` on are granted. -/
def Env.GrantsNext (env : Env) (n k : Nat) : Prop := ∀ i, i < k → env.ptrace (n + i) = none

/-- From time `n` on, the accesses succeed just where the memory is mapped. -/
def Env.Follows (env : Env) (mapped : Addr → Prop) (n : Nat) (l : List Addr) : Prop :=
  ∀ i a, l[i]? = some a → (env.ptrace (n + i) = none ↔ Accessible mapped a)

section Granted
variable {env : Env} {s : State} {addr : Addr} {bytes : List Byte} {w : Word} {n k : Nat}

theorem grants_zero : env.GrantsNext n 0 := fun _ h => absurd h (Nat.not_lt_zero _)

theorem grants_succ : env.GrantsNext n (k + 1) ↔ env.ptrace n = none ∧ env.GrantsNext (n + 1) k := by
  constructor
  · intro h
    refine ⟨h 0 (Nat.succ_pos k), fun i hi => ?_⟩
    rw [Nat.add_assoc, Nat.add_comm 1]
    exact h (i + 1) (Nat.succ_lt_succ hi)
  · rintro ⟨hfirst, hrest⟩ i hi
    cases i with
    | zero => exact hfirst
    | succ i =>
      have := hrest i (Nat.lt_of_succ_lt_succ hi)
      rwa [Nat.add_assoc, Nat.add_comm 1] at this

/-! Accesses that are granted, and accesses that are not -/

theorem getMemory_granted (h : env.ptrace s.scratch.clock = none) :
    ∃ x, x.clock = s.scratch.clock + 1 ∧ getMemory env addr s = .ok (peek 64 s.proc.mem addr) (s.withScratch x) := by
  have hpeek : Sys.ptracePeek env addr (s.withScratch (s.scratch.withErrno 0)) =
      .ok (peek 64 s.proc.mem addr) (s.withScratch ((s.scratch.withErrno 0).tick.withErrno 0)) := by
    rw [Sys.ptracePeek, show env.ptrace (s.withScratch (s.scratch.withErrno 0)).scratch.clock = none from h]
    rfl
  refine ⟨(s.scratch.withErrno 0).tick.withErrno 0, rfl, ?_⟩
  unfold getMemory
  rw [bind_of_ok (show setErrno 0 s = .ok () _ from rfl), bind_of_ok hpeek]
  rfl

theorem getMemory_refused (h : env.ptrace s.scratch.clock ≠ none) :
    ∃ x, getMemory env addr s = .error .ptracePeekdataFailed (s.withScratch x) := by
  obtain ⟨e, he⟩ := Option.ne_none_iff_exists'.mp h
  have hpeek : Sys.ptracePeek env addr (s.withScratch (s.scratch.withErrno 0)) =
      .ok (-1) (s.withScratch ((s.scratch.withErrno 0).fail e)) := by
    rw [Sys.ptracePeek, show env.ptrace (s.withScratch (s.scratch.withErrno 0)).scratch.clock = some e from he]
    rfl
  unfold getMemory
  rw [bind_of_ok (show setErrno 0 s = .ok () _ from rfl), bind_of_ok hpeek,
    bind_of_ok (show getErrno (s.withScratch ((s.scratch.withErrno 0).fail e)) = .ok e.errno _ from rfl), when_true e.nonzero]
  exact ⟨_, rfl⟩

theorem handled_of_granted {onError : Errno → SylvanM Unit} (h : env.ptrace s.scratch.clock = none) :
    handled (Sys.ptracePoke env addr w) onError s = .ok () ((s.setMem (poke s.proc.mem addr w)).withScratch s.scratch.tick) := by
  unfold handled
  rw [bind_of_ok (ptracePoke_granted h)]
  rfl

theorem handled_of_refused (h : env.ptrace s.scratch.clock ≠ none) :
    ∃ t, handled (Sys.ptracePoke env addr w) (fun _ => cannotWrite) s = .fault .missingArgument t := by
  obtain ⟨e, x, hpoke⟩ := @ptracePoke_refused env s addr w h
  unfold handled
  rw [bind_of_ok hpoke]
  exact ⟨_, rfl⟩

/-! The tail and the words -/

theorem setMemoryTail_runs (h : env.GrantsNext s.scratch.clock 2) : ∃ t, setMemoryTail env addr bytes s = .ok () t := by
  obtain ⟨hread, hrest⟩ := grants_succ.mp h
  obtain ⟨x, hx, hget⟩ := @getMemory_granted env s addr hread
  have hpoke : env.ptrace (s.withScratch x).scratch.clock = none := by
    rw [withScratch_scratch, hx]
    exact (grants_succ.mp hrest).1
  unfold setMemoryTail
  rw [bind_of_ok (show Exec.catching (getMemory env addr) _ s = .ok _ _ by rw [Exec.catching, hget])]
  exact ⟨_, handled_of_granted hpoke⟩

theorem setMemoryTail_faults (h : ¬env.GrantsNext s.scratch.clock 2) : ∃ t, setMemoryTail env addr bytes s = .fault .missingArgument t := by
  unfold setMemoryTail
  by_cases hread : env.ptrace s.scratch.clock = none
  · obtain ⟨x, hx, hget⟩ := @getMemory_granted env s addr hread
    rw [bind_of_ok (show Exec.catching (getMemory env addr) _ s = .ok _ _ by rw [Exec.catching, hget])]
    refine handled_of_refused fun hpoke => h (grants_succ.mpr ⟨hread, grants_succ.mpr ⟨?_, grants_zero⟩⟩)
    rwa [withScratch_scratch, hx] at hpoke
  · obtain ⟨x, hget⟩ := @getMemory_refused env s addr hread
    exact ⟨s.withScratch x, bind_of_fault (by rw [Exec.catching, hget]; rfl)⟩

/-- Where all accesses are granted, the bytes are written. -/
theorem setMemoryWords_runs (h : env.GrantsNext s.scratch.clock (accesses addr bytes).length) :
    ∃ t, setMemoryWords env addr bytes s = .ok () t := by
  induction addr, bytes using setMemoryWords.induct generalizing s with
  | case1 addr b0 b1 b2 b3 b4 b5 b6 b7 bytes ih =>
    rw [accesses, List.length_cons] at h
    obtain ⟨hfirst, hrest⟩ := grants_succ.mp h
    rw [setMemoryWords, bind_of_ok (handled_of_granted hfirst)]
    exact ih hrest
  | case2 addr hno =>
    rw [setMemoryWords, if_pos rfl]
    · exact ⟨s, rfl⟩
    · exact hno
  | case3 addr bytes hno hne =>
    rw [accesses, if_neg hne] at h
    · rw [setMemoryWords, if_neg hne]
      · exact setMemoryTail_runs h
      · exact hno
    · exact hno

/-- Where one of them is not, the message of the error lacks an argument. -/
theorem setMemoryWords_faults (h : ¬env.GrantsNext s.scratch.clock (accesses addr bytes).length) :
    ∃ t, setMemoryWords env addr bytes s = .fault .missingArgument t := by
  induction addr, bytes using setMemoryWords.induct generalizing s with
  | case1 addr b0 b1 b2 b3 b4 b5 b6 b7 bytes ih =>
    rw [accesses, List.length_cons] at h
    rw [setMemoryWords]
    by_cases hfirst : env.ptrace s.scratch.clock = none
    · rw [bind_of_ok (handled_of_granted hfirst)]
      exact ih fun hrest => h (grants_succ.mpr ⟨hfirst, hrest⟩)
    · obtain ⟨t, hpoke⟩ := @handled_of_refused env s addr (ofBytes 64 [b0, b1, b2, b3, b4, b5, b6, b7]) hfirst
      exact ⟨t, bind_of_fault hpoke⟩
  | case2 addr hno =>
    rw [accesses, if_pos rfl] at h
    · exact absurd grants_zero h
    · exact hno
  | case3 addr bytes hno hne =>
    rw [accesses, if_neg hne] at h
    · rw [setMemoryWords, if_neg hne]
      · exact setMemoryTail_faults h
      · exact hno
    · exact hno

theorem setMemory_eq (hne : bytes ≠ []) (haddr : addr ≠ 0) : setMemory env addr bytes = setMemoryWords env addr bytes := by
  rw [setMemory, if_neg hne, if_neg haddr]

theorem setMemory_runs (haddr : addr ≠ 0) (h : env.GrantsNext s.scratch.clock (accesses addr bytes).length) :
    ∃ t, setMemory env addr bytes s = .ok () t := by
  by_cases hne : bytes = []
  · subst hne
    exact ⟨_, rfl⟩
  · rw [setMemory_eq hne haddr]
    exact setMemoryWords_runs h

theorem setMemory_faults (haddr : addr ≠ 0) (h : ¬env.GrantsNext s.scratch.clock (accesses addr bytes).length) :
    ∃ t, setMemory env addr bytes s = .fault .missingArgument t := by
  have hne : bytes ≠ [] := by
    rintro rfl
    exact h grants_zero
  rw [setMemory_eq hne haddr]
  exact setMemoryWords_faults h

/-- A call that does not get to the end has no argument for its message. -/
theorem setMemory_fault_grants {f : Fault} {t : State} (h : setMemory env addr bytes s = .fault f t) :
    addr ≠ 0 ∧ ¬env.GrantsNext s.scratch.clock (accesses addr bytes).length := by
  have haddr : addr ≠ 0 := by
    rintro rfl
    unfold setMemory at h
    by_cases hnil : bytes = []
    · rw [if_pos hnil] at h
      cases h
    · rw [if_neg hnil, if_pos rfl] at h
      cases h
  refine ⟨haddr, fun hgrants => ?_⟩
  obtain ⟨u, hu⟩ := setMemory_runs haddr hgrants
  cases hu.symm.trans h

end Granted

section Layout
variable {env : Env} {mapped : Addr → Prop} {addr : Addr} {bytes : List Byte} {n : Nat} {l : List Addr}

theorem Env.Follows.grants_iff (h : env.Follows mapped n l) : env.GrantsNext n l.length ↔ ∀ a ∈ l, Accessible mapped a := by
  constructor
  · intro hgrants a ha
    obtain ⟨i, hi, rfl⟩ := List.mem_iff_getElem.mp ha
    exact (h i _ (List.getElem?_eq_getElem hi)).mp (hgrants i hi)
  · intro hall i hi
    exact (h i _ (List.getElem?_eq_getElem hi)).mpr (hall _ (List.getElem_mem hi))

/-! Which words are accessed -/

theorem mem_accesses {a : Addr} : a ∈ accesses addr bytes ↔ ∃ k, 8 * k < bytes.length ∧ a = addr + BitVec.ofNat 64 (8 * k) := by
  induction addr, bytes using setMemoryWords.induct with
  | case1 addr b0 b1 b2 b3 b4 b5 b6 b7 bytes ih =>
    have hnext : ∀ k, addr + 8 + BitVec.ofNat 64 (8 * k) = addr + BitVec.ofNat 64 (8 * (k + 1)) := fun k => by
      rw [Nat.mul_add, Nat.add_comm (8 * k), BitVec.ofNat_add, ← BitVec.add_assoc]
      rfl
    rw [accesses, List.mem_cons, ih]
    constructor
    · rintro (rfl | ⟨k, hk, rfl⟩)
      · exact ⟨0, by simp, (BitVec.add_zero _).symm⟩
      · refine ⟨k + 1, ?_, hnext k⟩
        simp only [List.length_cons]
        omega
    · rintro ⟨k, hk, rfl⟩
      cases k with
      | zero => exact Or.inl (BitVec.add_zero _)
      | succ k =>
        refine Or.inr ⟨k, ?_, (hnext k).symm⟩
        simp only [List.length_cons] at hk
        omega
  | case2 addr hno =>
    rw [accesses, if_pos rfl]
    · simp
    · exact hno
  | case3 addr bytes hno hne =>
    have hlt := length_lt_of_no_word hno
    have hpos := List.length_pos_iff.mpr hne
    rw [accesses, if_neg hne]
    · constructor
      · intro hmem
        obtain rfl : a = addr := by simpa using hmem
        exact ⟨0, hpos, (BitVec.add_zero _).symm⟩
      · rintro ⟨k, hk, rfl⟩
        obtain rfl : k = 0 := by omega
        rw [Nat.mul_zero, BitVec.add_zero]
        exact List.mem_cons_self ..
    · exact hno

end Layout

/-! ### All or nothing -/

/-- With these addresses mapped, a write of `size` bytes returns; it succeeds if all of them are mapped, and changes nothing
    if it returns an error. -/
def AllOrNothing (mapped : Addr → Prop) (addr : Addr) (size : BitVec 64) : Prop :=
  ∀ (env : Env) (s : State) (data : List Byte), data.length = size.toNat →
    env.Follows mapped s.scratch.clock (accesses addr data) →
    (∀ f t, setMemory env addr data s ≠ .fault f t) ∧
    ((∀ i, i < data.length → mapped (addr + BitVec.ofNat 64 i)) → ∃ t, setMemory env addr data s = .ok () t) ∧
    ∀ c t, setMemory env addr data s = .error c t → t.proc.mem = s.proc.mem

/-- Each word that the range touches can be accessed. -/
def WholeWords (mapped : Addr → Prop) (addr : Addr) (size : BitVec 64) : Prop :=
  ∀ k, 8 * k < size.toNat → Accessible mapped (addr + BitVec.ofNat 64 (8 * k))

section Iff
variable {mapped : Addr → Prop} {addr : Addr} {size : BitVec 64}

open Classical in
/-- A system with this memory, for a write at time 0. -/
noncomputable def Env.mapping (mapped : Addr → Prop) (l : List Addr) : Env :=
  { Env.compliant with
    ptrace := fun n => if ∀ a, l[n]? = some a → Accessible mapped a then none else some ⟨ESRCH, ESRCH_ne_zero⟩ }

theorem mapping_follows (l : List Addr) : (Env.mapping mapped l).Follows mapped 0 l := by
  intro i a hi
  unfold Env.mapping
  dsimp only
  rw [Nat.zero_add]
  constructor
  · intro h
    split at h
    · rename_i hall
      exact hall a hi
    · cases h
  · intro ha
    rw [if_pos]
    intro a' hi'
    cases hi.symm.trans hi'
    exact ha

/-- The accesses of a write are granted just where each word that the range touches is mapped. -/
theorem grants_iff_wholeWords {env : Env} {n : Nat} {data : List Byte} (hlen : data.length = size.toNat)
    (hfollows : env.Follows mapped n (accesses addr data)) :
    env.GrantsNext n (accesses addr data).length ↔ WholeWords mapped addr size := by
  rw [hfollows.grants_iff]
  constructor
  · exact fun h k hk => h _ (mem_accesses.mpr ⟨k, hlen ▸ hk, rfl⟩)
  · intro h a ha
    obtain ⟨k, hk, rfl⟩ := mem_accesses.mp ha
    exact h k (hlen ▸ hk)

theorem WholeWords.allOrNothing (haddr : addr ≠ 0) (h : WholeWords mapped addr size) : AllOrNothing mapped addr size := by
  intro env s data hlen hfollows
  obtain ⟨t, ht⟩ := setMemory_runs haddr ((grants_iff_wholeWords hlen hfollows).mpr h)
  refine ⟨fun f u hu => ?_, fun _ => ⟨t, ht⟩, fun c u hu => ?_⟩
  · cases ht.symm.trans hu
  · cases ht.symm.trans hu

theorem AllOrNothing.wholeWords (haddr : addr ≠ 0) (h : AllOrNothing mapped addr size) : WholeWords mapped addr size := by
  have hlen : (List.replicate size.toNat (0 : Byte)).length = size.toNat := List.length_replicate
  generalize List.replicate size.toNat (0 : Byte) = data at hlen
  have hfollows : (Env.mapping mapped (accesses addr data)).Follows mapped State.blank.scratch.clock (accesses addr data) :=
    mapping_follows _
  refine (grants_iff_wholeWords hlen hfollows).mp (Classical.not_not.mp fun hnot => ?_)
  obtain ⟨t, hfaults⟩ := setMemory_faults haddr hnot
  exact (h _ State.blank data hlen hfollows).1 _ _ hfaults

/-- A write is all or nothing just where each word that it touches is mapped: one that the process refuses is reported with a
    message that lacks an argument. -/
theorem all_or_nothing_iff (mapped : Addr → Prop) (addr : Addr) (size : BitVec 64) (haddr : addr ≠ 0) :
    AllOrNothing mapped addr size ↔ WholeWords mapped addr size :=
  ⟨AllOrNothing.wholeWords haddr, WholeWords.allOrNothing haddr⟩

/-- A page -/
def Page (a : Addr) : Prop := 0x1000 ≤ a ∧ a < 0x2000

instance : DecidablePred Page := fun _ => inferInstanceAs (Decidable (_ ∧ _))

/-- A word in the middle of the page -/
theorem all_or_nothing_iff_page : AllOrNothing Page 0x1800 8 := by
  refine (all_or_nothing_iff Page 0x1800 8 (by decide)).mpr fun k hk => ?_
  obtain rfl : k = 0 := by
    rw [show (8 : BitVec 64).toNat = 8 from rfl] at hk
    omega
  unfold Accessible
  decide

/-- The first `k` calls of `ptrace` are granted. -/
def Env.granting (k : Nat) : Env :=
  { Env.compliant with ptrace := fun n => if n < k then none else some ⟨ESRCH, ESRCH_ne_zero⟩ }

theorem page_end : ¬Accessible Page 0x1FFF ∧ Accessible Page 0x1FF8 ∧ ¬Accessible Page 0x2000 :=
  ⟨fun h => absurd (h 1 (by decide)) (by decide), by unfold Accessible; decide, fun h => absurd (h 0 (by decide)) (by decide)⟩

/-- A write of the last byte of a page is refused, though the byte is mapped, and one that goes past the page is refused
    after it has written the part before its end. -/
theorem page_end_unwritable : ¬AllOrNothing Page 0x1FFF 1 ∧ ¬AllOrNothing Page 0x1FF8 16 := by
  constructor
  · intro h
    have hfollows : (Env.granting 0).Follows Page State.blank.scratch.clock (accesses 0x1FFF [1]) := by
      rintro (_ | _ | i) a hi
      · cases hi
        exact ⟨fun hnone => (nomatch hnone), fun hacc => absurd hacc page_end.1⟩
      · cases hi
        exact ⟨fun hnone => (nomatch hnone), fun hacc => absurd hacc page_end.1⟩
      · cases hi
    obtain ⟨t, ht⟩ := (h (Env.granting 0) State.blank [1] rfl hfollows).2.1 (by decide)
    have hfails : (setMemory (Env.granting 0) 0x1FFF [1] State.blank).isOk = false := by decide +kernel
    rw [ht] at hfails
    cases hfails
  · intro h
    have hfollows : (Env.granting 1).Follows Page State.blank.scratch.clock (accesses 0x1FF8 (List.replicate 16 1)) := by
      rintro (_ | _ | i) a hi
      · cases hi
        exact ⟨fun _ => page_end.2.1, fun _ => rfl⟩
      · cases hi
        exact ⟨fun hnone => (nomatch hnone), fun hacc => absurd hacc page_end.2.2⟩
      · cases hi
    refine (h (Env.granting 1) State.blank (List.replicate 16 1) rfl hfollows).1 .missingArgument _ (Outcome.eq_fault_of_fault? ?_)
    decide +kernel

end Iff

end Sylvan
