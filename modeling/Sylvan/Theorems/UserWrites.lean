import Sylvan.Op
import Sylvan.Theorems.Patches

/-! Writes of the user into the memory of a process, and the breakpoints in it. -/

namespace Sylvan
open Exec ByteMemory

section
variable {env : Env} {F : Fault → State → Prop} {E : Code → State → Prop} {s t : State} {addr : Addr} {bytes : List Byte}
  {Q : Unit → State → Prop} {m m' : Memory} {x y : Scratch}

theorem wp_getMemory {Q : Word → State → Prop} (hok : ∀ x, Q (peek 64 s.proc.mem addr) (s.withScratch x))
    (herr : ∀ c x, E c (s.withScratch x)) : wp F (getMemory env addr) Q E s := by
  unfold getMemory
  rw [wp_bind, wp_setErrno, wp_bind]
  refine wp_ptracePeek (fun x hx => ?_) fun x hx => ?_
  · rw [wp_bind, wp_getErrno, wp_bind, wp_when, withScratch_scratch,
      if_neg (not_not.mpr hx)]
    exact hok x
  · rw [wp_bind, wp_getErrno, wp_bind, wp_when, withScratch_scratch, if_pos hx]
    exact herr _ _

theorem setMem_setMem : ((s.setMem m).withScratch x).setMem m' = (s.setMem m').withScratch x := by
  have hp : ((s.setMem m).withScratch x).proc = { s.proc with mem := m } :=
    withScratch_proc.trans setMem_proc
  unfold State.setMem at hp ⊢
  rw [hp]
  unfold State.setProc State.withScratch
  simp only [Function.update_idem]

theorem setMem_self : s.setMem s.proc.mem = s := by
  unfold State.setMem State.setProc
  rw [show { s.proc with mem := s.proc.mem } = s.procs s.inf.pid from rfl, Function.update_eq_self]

/-- A tail of fewer than eight bytes is written within the word that is read there. -/
theorem wp_setMemoryTail (hlen : bytes.length < 8)
    (hok : ∀ x, Q () ((s.setMem (write s.proc.mem addr bytes)).withScratch x))
    (hfault : ∀ x, F .missingArgument (s.withScratch x)) : wp F (setMemoryTail env addr bytes) Q E s := by
  unfold setMemoryTail
  rw [wp_bind, wp_catching]
  refine wp_getMemory (fun x => ?_) fun c x => hfault x
  refine wp_handled (wp_ptracePoke (fun x => ?_) fun e x => hfault x)
  have hmask : 8 * bytes.length < 64 := by omega
  rw [← poke_masked (a := addr) hmask] at hok
  exact hok x

theorem length_lt_of_no_word (h : ∀ b0 b1 b2 b3 b4 b5 b6 b7 (rest : List Byte),
    bytes = b0 :: b1 :: b2 :: b3 :: b4 :: b5 :: b6 :: b7 :: rest → False) : bytes.length < 8 := by
  match bytes, h with
  | [], _ | [_], _ | [_, _], _ | [_, _, _], _ | [_, _, _, _], _ | [_, _, _, _, _], _ | [_, _, _, _, _, _], _
  | [_, _, _, _, _, _, _], _ => simp
  | b0 :: b1 :: b2 :: b3 :: b4 :: b5 :: b6 :: b7 :: rest, h => exact absurd rfl (h b0 b1 b2 b3 b4 b5 b6 b7 rest)

theorem wp_setMemoryWords (hlen : bytes.length ≤ 2 ^ 64)
    (hok : ∀ x, Q () ((s.setMem (write s.proc.mem addr bytes)).withScratch x))
    (hfault : ∀ m x, F .missingArgument ((s.setMem m).withScratch x)) : wp F (setMemoryWords env addr bytes) Q E s := by
  have hfail : ∀ x, F .missingArgument (s.withScratch x) := fun x => setMem_self (s := s) ▸ hfault s.proc.mem x
  induction addr, bytes using setMemoryWords.induct generalizing s with
  | case1 addr b0 b1 b2 b3 b4 b5 b6 b7 bytes ih =>
    rw [setMemoryWords, wp_bind]
    refine wp_handled (wp_ptracePoke (fun x => ?_) fun e x => hfail x)
    have hword : poke s.proc.mem addr (ofBytes 64 [b0, b1, b2, b3, b4, b5, b6, b7]) =
        write s.proc.mem addr [b0, b1, b2, b3, b4, b5, b6, b7] :=
      poke_eq_write rfl fun i hi => byteAt_ofBytes _ (by omega)
    have hle : 8 + bytes.length ≤ 2 ^ 64 := by
      simp only [List.length_cons] at hlen
      omega
    have hwrite := @write_write 64 s.proc.mem addr [b0, b1, b2, b3, b4, b5, b6, b7] bytes hle
    rw [hword]
    refine ih (by omega) (fun y => ?_) (fun m y => ?_) fun y => hfault _ y
    · rw [setMem_setMem, withScratch_proc, setMem_proc]
      exact hwrite ▸ hok y
    · rw [setMem_setMem]
      exact hfault m y
  | case2 addr h =>
    rw [setMemoryWords, if_pos rfl]
    · have hself : s.setMem (write s.proc.mem addr []) = s := by rw [write_nil, setMem_self]
      exact hself ▸ hok s.scratch
    · exact h
  | case3 addr bytes h hne =>
    rw [setMemoryWords, if_neg hne]
    · exact wp_setMemoryTail (length_lt_of_no_word h) hok hfail
    · exact h

/-- `sylvan_set_memory` writes the bytes, or nothing if it returns an error. Where the process refuses a word, it does not
    return. -/
theorem wp_setMemory (hlen : bytes.length ≤ 2 ^ 64)
    (hok : ∀ x, Q () ((s.setMem (write s.proc.mem addr bytes)).withScratch x)) (herr : ∀ c x, E c (s.withScratch x))
    (hfault : ∀ m x, F .missingArgument ((s.setMem m).withScratch x)) : wp F (setMemory env addr bytes) Q E s := by
  unfold setMemory
  rw [wp_ite]
  split
  · rename_i hnil
    have hself : s.setMem (write s.proc.mem addr bytes) = s := by rw [hnil, write_nil, setMem_self]
    exact wp_returnCode (fun x => hself ▸ hok x) fun x => herr _ x
  · rw [wp_ite]
    split
    · exact herr _ _
    · exact wp_setMemoryWords hlen hok hfault

/-! ### Removing the breakpoints -/

/-- A breakpoint, or all of them, are removed from the process. -/
inductive RemovalStep (env : Env) (s t : State) : Prop where
  | unset (addr : Addr) (ok : breakpointUnset env addr s = .ok () t)
  | unsetall (ok : breakpointUnsetallPhybp env s = .ok () t)

/-- The memory of a live process without its breakpoints is `f`. -/
structure Beneath (f : Memory) (s : State) : Prop where
  tableOk : s.inf.TableOk
  active : s.inf.IsActive
  hides : s.Hides f

theorem Beneath.patched {f : Memory} (h : Beneath f s) (hp : s.Patched t) : Beneath f t :=
  ⟨hp.tableOk h.tableOk, hp.isActive.mpr h.active, hp.hides f h.hides⟩

theorem Beneath.wp_unset {f : Memory} (h : Beneath f s) :
    wp F (breakpointUnset env addr) (fun _ t => Beneath f t) (fun _ _ => True) s := by
  refine wp_breakpointUnset (fun _ _ => trivial) fun i hfind => ?_
  obtain ⟨hi, -⟩ := Inferior.find_some hfind
  have hl : Beneath f (s.setLog i false) :=
    ⟨setLog_tableOk h.tableOk hi, h.active, h.hides.setLog (h.tableOk.lt hi)⟩
  refine (wp_breakpointDisablePtr_patched h.tableOk hi).imp ?_ fun _ _ _ => trivial
  intro _ t hpost
  obtain ⟨hp, hphy⟩ := hpost
  have ht := hl.patched hp
  have hit : i < t.inf.count := by
    rw [Inferior.count_congr hp.count]
    exact hi
  have hoff : (t.inf.slot i).isEnabledPhy = false := by rw [hphy h.active, if_pos rfl]
  have := ht.tableOk.count_eq
  refine wp_breakpointDrop (by omega) ht.tableOk.le (ht.tableOk.lt hit)
    ⟨ht.tableOk.drop hit, ?_, ht.hides.drop ht.tableOk hit hoff⟩
  show (t.inf.drop i).IsActive
  rw [Inferior.IsActive, Inferior.drop_status]
  exact ht.active

theorem Beneath.step {f : Memory} (h : Beneath f s) (hstep : RemovalStep env s t) : Beneath f t := by
  cases hstep with
  | unset addr ok => exact (h.wp_unset (F := fun _ _ => True)).ok ok
  | unsetall ok =>
    exact h.patched ((wp_breakpointUnsetallPhybp (F := fun _ _ => True) h.tableOk h.active).ok ok).1

theorem Beneath.run {f : Memory} (h : Beneath f s) (hrun : Relation.ReflTransGen (RemovalStep env) s t) :
    Beneath f t := by
  induction hrun with
  | refl => exact h
  | tail _ hstep ih => exact ih.step hstep

/-! ### A write and the breakpoints in its range -/

/-- The bytes that the user writes at `addr` meet an installed breakpoint only where they are an `int3`
    over a byte that was one. -/
def WritesBeside (inf : Inferior) (addr : Addr) (data : List Byte) : Prop :=
  ∀ j, j < inf.count → (inf.slot j).isEnabledPhy = true →
    ∀ i (hi : i < data.length), (inf.slot j).addr = addr + BitVec.ofNat 64 i →
      data[i] = 0xCC ∧ (inf.slot j).ogByte = 0xCC

/-- After a write that succeeds, every installed breakpoint is still an `int3`, and the user's bytes are there
    when the breakpoints are removed, just where the write met none of them, or `int3` over `int3`. -/
theorem user_bytes_and_breakpoints_iff {u : State} {data : List Byte} (ht : s.inf.TableOk) (hact : s.inf.IsActive)
    (hshows : ∀ j, j < s.inf.count → (s.inf.slot j).isEnabledPhy = true → s.proc.mem (s.inf.slot j).addr = 0xCC)
    (hlen : data.length < 2 ^ 64) (hset : setMemory env addr data s = .ok () t)
    (hrun : Relation.ReflTransGen (RemovalStep env) t u)
    (hnone : ∀ j, j < u.inf.count → (u.inf.slot j).isEnabledPhy = false) :
    ((∀ j, j < t.inf.count → (t.inf.slot j).isEnabledPhy = true → t.proc.mem (t.inf.slot j).addr = 0xCC) ∧
      ∀ i (hi : i < data.length), u.proc.mem (addr + BitVec.ofNat 64 i) = data[i]) ↔
    WritesBeside s.inf addr data := by
  have hle : data.length ≤ 2 ^ 64 := Nat.le_of_lt hlen
  obtain ⟨x, rfl⟩ : ∃ x, t = (s.setMem (write s.proc.mem addr data)).withScratch x :=
    (wp_setMemory (F := fun _ _ => True) (E := fun _ _ => True)
      (Q := fun _ t => ∃ x, t = (s.setMem (write s.proc.mem addr data)).withScratch x)
      hle (fun x => ⟨x, rfl⟩) (fun _ _ => trivial) fun _ _ => trivial).ok hset
  have hmem : ((s.setMem (write s.proc.mem addr data)).withScratch x).proc.mem = write s.proc.mem addr data := by
    rw [withScratch_proc, setMem_proc]
  obtain ⟨f, hf⟩ : ∃ f, ((s.setMem (write s.proc.mem addr data)).withScratch x).Hides f :=
    ⟨_, Overlay.hides_beneath ht.distinct⟩
  -- Once no breakpoint is left, the process holds `f`.
  have hb : Beneath f ((s.setMem (write s.proc.mem addr data)).withScratch x) := ⟨ht, hact, hf⟩
  have hu : u.proc.mem = f := (hb.run hrun).hides.eq_of_off hnone
  rw [hu, hmem]
  have hsaved : ∀ j, j < s.inf.count → (s.inf.slot j).isEnabledPhy = true →
      (s.inf.slot j).ogByte = f (s.inf.slot j).addr := hf.saved
  constructor
  · rintro ⟨hshown, hbytes⟩ j hj hphy i hi haddr
    have hdata : write s.proc.mem addr data (s.inf.slot j).addr = 0xCC := hshown j hj hphy
    rw [haddr, write_apply hi hle] at hdata
    exact ⟨hdata, by rw [hsaved j hj hphy, haddr, hbytes i hi, hdata]⟩
  · intro hbeside
    constructor
    · intro j hj hphy
      show write s.proc.mem addr data (s.inf.slot j).addr = 0xCC
      by_cases hin : ((s.inf.slot j).addr - addr).toNat < data.length
      · rw [write_of_lt hin]
        exact (hbeside j hj hphy _ hin add_ofNat_sub.symm).1
      · rw [write_of_ge (by omega)]
        exact hshows j hj hphy
    · intro i hi
      by_cases hmeets : ∃ j, j < s.inf.count ∧ (s.inf.slot j).isEnabledPhy = true ∧
          (s.inf.slot j).addr = addr + BitVec.ofNat 64 i
      · obtain ⟨j, hj, hphy, haddr⟩ := hmeets
        obtain ⟨hdata, hog⟩ := hbeside j hj hphy i hi haddr
        rw [← haddr, ← hsaved j hj hphy, hog, hdata]
      · have hclear := hf.clear (addr + BitVec.ofNat 64 i) fun j hj hphy haddr => hmeets ⟨j, hj, hphy, haddr⟩
        rw [← hclear, hmem, write_apply hi hle]

theorem user_bytes_and_breakpoints_iff_beside :
    let t := State.withBreakpoint.after (setMemory .compliant 8192 [1])
    let u := t.after (breakpointUnset .compliant 4096)
    ((∀ j, j < t.inf.count → (t.inf.slot j).isEnabledPhy = true → t.proc.mem (t.inf.slot j).addr = 0xCC) ∧
      ∀ i (hi : i < [(1 : Byte)].length), u.proc.mem ((8192 : Addr) + BitVec.ofNat 64 i) = [(1 : Byte)][i]) ↔
    WritesBeside State.withBreakpoint.inf 8192 [1] :=
  @user_bytes_and_breakpoints_iff .compliant State.withBreakpoint _ 8192 _ [1] (by decide +kernel) (by decide +kernel)
    (by decide +kernel) (by decide) (State.after_ok (by decide +kernel))
    (Relation.ReflTransGen.single (.unset 4096 (State.after_ok (by decide +kernel)))) (by decide +kernel)

/-- A write over a breakpoint removes its `int3`, and is lost when the breakpoint is removed. -/
theorem write_over_breakpoint_lost :
    let calls : SylvanM Unit := do
      setMemory .compliant 4096 [1]
      breakpointUnset .compliant 4096
    (State.withBreakpoint.after (setMemory .compliant 4096 [1])).proc.mem 4096 ≠ 0xCC ∧
      (calls State.withBreakpoint).isOk = true ∧ (State.withBreakpoint.after calls).proc.mem 4096 ≠ 1 := by
  decide +kernel

end

end Sylvan
