import Sylvan.Op
import Sylvan.Theorems.Patches

/-! The memory of a live process under its breakpoints. As long as each new entry is put in a slot that is
    not marked as installed, the process holds an `int3` at each enabled entry and its own bytes elsewhere,
    over any run of calls that succeed (`Armed`). A slot that was left behind marked as installed makes the
    next entry in it an entry that is never installed. -/

namespace Sylvan
open Exec

/-- The process holds `int3` at each installed entry and `m` elsewhere, and the entries other than `i`
    are installed just when they are enabled. -/
structure ArmedBut (m : Memory) (i : Nat) (s : State) : Prop where
  tableOk : s.inf.TableOk
  active : s.inf.IsActive
  hides : s.Hides m
  shows : s.Shows
  follows : ∀ j, j < s.inf.count → j ≠ i → (s.inf.slot j).isEnabledPhy = (s.inf.slot j).isEnabledLog

/-- The physical states follow the logical states. -/
def Armed (m : Memory) (s : State) : Prop := ∀ i, ArmedBut m i s

/-- The slot that a new entry takes is not marked as installed. -/
def BreakpointOp.TakesClearSlot (s : State) : BreakpointOp → Prop
  | set _ => (s.inf.slot s.inf.count).isEnabledPhy = false
  | _ => True

instance (s : State) : (op : BreakpointOp) → Decidable (op.TakesClearSlot s)
  | .set _ => inferInstanceAs (Decidable (_ = _))
  | .unset _ | .enable _ | .disable _ => isTrue trivial

section
variable {env : Env} {F : Fault → State → Prop} {E : Code → State → Prop} {m : Memory} {s t : State} {i : Nat}
  {addr : Addr} {v : Bool}

theorem setLog_isEnabledLog (hi : i < maxBreakpoints) (j : Nat) :
    ((s.setLog i v).inf.slot j).isEnabledLog = if j = i then v else (s.inf.slot j).isEnabledLog := by
  rw [State.setLog_inf, Inferior.setLog]
  split
  · rename_i hj
    rw [hj, Inferior.slot_setSlot_self hi]
  · rename_i hj
    rw [Inferior.slot_setSlot_ne hi hj]

/-- An entry whose two states are made `v` follows. -/
theorem ArmedBut.patched (h : ArmedBut m i s) (hi : i < s.inf.count) (hp : (s.setLog i v).Patched t)
    (hphy : ∀ j, (t.inf.slot j).isEnabledPhy = if j = i then v else (s.inf.slot j).isEnabledPhy) : Armed m t := by
  have hmax := h.tableOk.lt hi
  refine fun _ => ⟨hp.tableOk (setLog_tableOk h.tableOk hi), hp.isActive.mpr h.active,
    hp.hides m (h.hides.setLog hmax), hp.shows (h.shows.setLog hmax), fun j hj _ => ?_⟩
  rw [hphy, (hp.entry j).2, setLog_isEnabledLog hmax]
  split
  · rfl
  · rename_i hji
    have hcount : t.inf.count = s.inf.count := Inferior.count_congr hp.count
    exact h.follows j (hcount ▸ hj) hji

theorem ArmedBut.wp_enablePtr (h : ArmedBut m i s) (hi : i < s.inf.count) :
    wp F (breakpointEnablePtr env i) (fun _ t => Armed m t) (fun _ _ => True) s :=
  (wp_breakpointEnablePtr_patched h.tableOk hi).imp (fun _ _ ⟨hp, hphy⟩ => h.patched hi hp (hphy h.active))
    fun _ _ _ => trivial

theorem ArmedBut.wp_disablePtr (h : ArmedBut m i s) (hi : i < s.inf.count) :
    wp F (breakpointDisablePtr env i)
      (fun _ t => Armed m t ∧ t.inf.breakpointCount = s.inf.breakpointCount ∧ (t.inf.slot i).isEnabledPhy = false)
      (fun _ _ => True) s :=
  (wp_breakpointDisablePtr_patched h.tableOk hi).imp (fun _ _ ⟨hp, hphy⟩ => ⟨h.patched hi hp (hphy h.active), hp.count,
    by rw [hphy h.active, if_pos rfl]⟩) fun _ _ _ => trivial

theorem Armed.drop (h : Armed m s) (hi : i < s.inf.count) (hphy : (s.inf.slot i).isEnabledPhy = false) :
    Armed m (s.setInf (s.inf.drop i)) := by
  have ha := h s.inf.count
  refine fun _ => ⟨ha.tableOk.drop hi, ?_, ha.hides.drop ha.tableOk hi hphy, ha.shows.drop ha.tableOk hi, fun j hj _ => ?_⟩
  · show (s.inf.drop i).IsActive
    rw [Inferior.IsActive, Inferior.drop_status]
    exact ha.active
  · have hj : j < s.inf.count - 1 := by rwa [setInf_inf, Inferior.drop_count] at hj
    obtain ⟨k, hk, -, heq⟩ := SlotTable.swapRemove_slot s.inf.slot hi j hj
    rw [setInf_inf, Inferior.drop_slot (ha.tableOk.lt hi) hj, heq]
    exact ha.follows k hk (by omega)

theorem Armed.append (h : Armed m s) (hlt : s.inf.count < maxBreakpoints)
    (hnew : breakpointFindByAddr s.inf addr = none) (hclear : (s.inf.slot s.inf.count).isEnabledPhy = false) :
    ArmedBut m s.inf.count (s.setInf (s.inf.append addr)) := by
  have ha := h s.inf.count
  refine ⟨ha.tableOk.append hlt hnew, ha.active, ha.hides.append ha.tableOk hlt hclear,
    ha.shows.append ha.tableOk hlt hclear, fun j hj hne => ?_⟩
  rw [setInf_inf, ha.tableOk.append_count] at hj
  rw [setInf_inf, Inferior.append_slot hlt, Function.update_of_ne hne]
  exact ha.follows j (by omega) hne

theorem Armed.wp_call (h : Armed m s) (op : BreakpointOp) (hclear : op.TakesClearSlot s) :
    wp F (op.call env) (fun _ t => Armed m t) (fun _ _ => True) s := by
  have ha := h s.inf.count
  cases op with
  | set addr =>
    refine wp_breakpointSet ha.tableOk.nonneg ha.tableOk.le (fun _ _ => trivial) (fun _ _ => trivial) fun hlt hnew => ?_
    rw [if_pos ha.active]
    have hi : s.inf.count < (s.setInf (s.inf.append addr)).inf.count := by
      rw [setInf_inf, ha.tableOk.append_count]
      exact Nat.lt_succ_self _
    exact (h.append hlt hnew hclear).wp_enablePtr hi
  | unset addr =>
    refine wp_breakpointUnset (fun _ _ => trivial) fun i hfind => ?_
    obtain ⟨hi, -⟩ := Inferior.find_some hfind
    refine ((h i).wp_disablePtr hi).imp ?_ fun _ _ => id
    intro _ t hpost
    obtain ⟨ht, hcount, hphy⟩ := hpost
    have htt := (ht i).tableOk
    have hit : i < t.inf.count := by rwa [Inferior.count_congr hcount]
    have := htt.count_eq
    exact wp_breakpointDrop (by omega) htt.le (htt.lt hit) (ht.drop hit hphy)
  | enable addr =>
    refine wp_breakpointEnable (fun _ _ => trivial) fun i hfind => ?_
    exact (h i).wp_enablePtr (Inferior.find_some hfind).1
  | disable addr =>
    refine wp_breakpointDisable (fun _ _ => trivial) fun i hfind => ?_
    exact ((h i).wp_disablePtr (Inferior.find_some hfind).1).imp (fun _ _ h => h.1) fun _ _ => id

/-! ### Runs -/

/-- A call on a breakpoint succeeds, on a table where a new entry takes a slot not marked as installed. -/
def ClearStep (env : Env) (s t : State) : Prop :=
  ∃ op : BreakpointOp, op.TakesClearSlot s ∧ op.call env s = .ok () t

theorem Armed.run (h : Armed m s) (hrun : Relation.ReflTransGen (ClearStep env) s t) : Armed m t := by
  induction hrun with
  | refl => exact h
  | tail _ hstep ih =>
    obtain ⟨op, hclear, hok⟩ := hstep
    exact (ih.wp_call (F := fun _ _ => True) op hclear).ok hok

theorem Armed.mem (h : Armed m s) (a : Addr) :
    s.proc.mem a = if s.inf.logMap a = some true then 0xCC else m a := by
  have ha := h s.inf.count
  split
  · rename_i hlog
    obtain ⟨i, hi, rfl, hi'⟩ := ha.tableOk.logMap_eq_some.mp hlog
    exact ha.shows i hi ((ha.follows i hi (by omega)).trans hi')
  · rename_i hlog
    refine ha.hides.clear a fun i hi hphy hk => hlog (ha.tableOk.logMap_eq_some.mpr ⟨i, hi, hk, ?_⟩)
    exact (ha.follows i hi (by omega)).symm.trans hphy

/-- From an empty table of a live process, over every run of calls that succeed and that put a new entry
    only in a slot not marked as installed, the process holds `int3` at each enabled entry and the
    bytes it started with elsewhere, and each entry is installed just when it is enabled. -/
theorem breakpoints_armed_of_run (hact : s.inf.IsActive) (hempty : s.inf.breakpointCount = 0)
    (hrun : Relation.ReflTransGen (ClearStep env) s t) :
    (∀ a, t.proc.mem a = if t.inf.logMap a = some true then 0xCC else s.proc.mem a) ∧
      ∀ i, i < t.inf.count → (t.inf.slot i).isEnabledPhy = (t.inf.slot i).isEnabledLog := by
  have hcount : s.inf.count = 0 := by rw [Inferior.count, hempty]; rfl
  have hnone : ∀ i, ¬i < s.inf.count := fun i hi => by omega
  have h : Armed s.proc.mem s := fun _ => ⟨Inferior.tableOk_of_empty hempty, hact,
    Overlay.hides_of_off fun i hi => absurd hi (hnone i), fun i hi => absurd hi (hnone i),
    fun i hi => absurd hi (hnone i)⟩
  have ht := h.run hrun
  exact ⟨ht.mem, fun i hi => (ht t.inf.count).follows i hi (by omega)⟩

theorem breakpoints_armed_of_run_set :
    let u := State.attached.after ((BreakpointOp.set 4096).call .compliant)
    let v := u.after ((BreakpointOp.unset 4096).call .compliant)
    let t := v.after ((BreakpointOp.set 8192).call .compliant)
    (∀ a, t.proc.mem a = if t.inf.logMap a = some true then 0xCC else State.attached.proc.mem a) ∧ t.inf.logMap 8192 = some true := by
  intro u v t
  have hset : ClearStep .compliant State.attached u := ⟨.set 4096, by decide +kernel, State.after_ok (by decide +kernel)⟩
  have hunset : ClearStep .compliant u v := ⟨.unset 4096, trivial, State.after_ok (by decide +kernel)⟩
  have hagain : ClearStep .compliant v t := ⟨.set 8192, by decide +kernel, State.after_ok (by decide +kernel)⟩
  exact ⟨(@breakpoints_armed_of_run .compliant State.attached t (by decide +kernel) (by decide +kernel)
    (.head hset (.head hunset (.single hagain)))).1, by decide +kernel⟩

/-- The first entry is unset, so the second moves to its slot and leaves its old one marked as installed. The
    entry that is set next takes that slot, and is not installed. -/
theorem set_after_unset_not_installed :
    let calls := each [.set 4096, .set 8192, .unset 4096, .set 12288] (BreakpointOp.call .compliant)
    (calls State.attached).isOk = true ∧ (State.attached.after calls).inf.logMap 12288 = some true ∧
      (State.attached.after calls).proc.mem 12288 = 0 := by
  decide +kernel

end

end Sylvan
