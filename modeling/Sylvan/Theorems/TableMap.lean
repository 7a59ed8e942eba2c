import Sylvan.Op
import Sylvan.Theorems.Patches

/-! The breakpoint table refines a finite map. Every call that returns keeps the table well formed, and one
    that succeeds acts on the map as `TableOp.Acts` says, whatever the process is and whatever fails. -/

namespace Sylvan
open Exec

/-- What a call that succeeds makes of the map from addresses to logical states. -/
def BreakpointOp.Acts : BreakpointOp → (Addr → Option Bool) → (Addr → Option Bool) → Prop
  | set addr, m, m' => m addr = none ∧ m' = Function.update m addr (some true)
  | unset addr, m, m' => m addr ≠ none ∧ m' = Function.update m addr none
  | enable addr, m, m' => m addr ≠ none ∧ m' = Function.update m addr (some true)
  | disable addr, m, m' => m addr ≠ none ∧ m' = Function.update m addr (some false)

def TableOp.Acts : TableOp → (Addr → Option Bool) → (Addr → Option Bool) → Prop
  | one op, m, m' => op.Acts m m'
  | clearall, _, m' => m' = fun _ => none
  | resetPhybp, m, m' => m' = m
  | setallPhybp, m, m' => m' = m
  | unsetallPhybp, m, m' => m' = m

/-- `setall` and `unsetall` assert that the process is live. -/
def TableOp.Allowed (s : State) : TableOp → Prop
  | setallPhybp => s.inf.IsActive
  | unsetallPhybp => s.inf.IsActive
  | _ => True

section
variable {env : Env} {F : Fault → State → Prop} {s t : State} {i : Nat} {addr : Addr} {op : TableOp} {v : Bool}

/-! ### One call -/

theorem wp_breakpointEnablePtr_map (ht : s.inf.TableOk) (hi : i < s.inf.count) :
    wp F (breakpointEnablePtr env i)
      (fun _ t => t.inf.TableOk ∧ t.inf.logMap = Function.update s.inf.logMap (s.inf.slot i).addr (some true))
      (fun _ t => t.inf.TableOk) s :=
  (wp_breakpointEnablePtr_patched ht hi).imp
    (fun _ _ ⟨hp, _⟩ => ⟨hp.tableOk (setLog_tableOk ht hi), hp.logMap.trans (ht.logMap_setLog hi)⟩)
    fun _ _ hp => hp.tableOk (setLog_tableOk ht hi)

theorem wp_breakpointEnable_map (ht : s.inf.TableOk) :
    wp F (breakpointEnable env addr)
      (fun _ t => t.inf.TableOk ∧ (BreakpointOp.enable addr).Acts s.inf.logMap t.inf.logMap) (fun _ t => t.inf.TableOk) s := by
  refine wp_breakpointEnable (fun _ _ => ht) fun i hfind => ?_
  obtain ⟨hi, rfl⟩ := Inferior.find_some hfind
  refine (wp_breakpointEnablePtr_map ht hi).imp ?_ fun _ _ => id
  intro _ t hpost
  obtain ⟨ht', hmap⟩ := hpost
  exact ⟨ht', Inferior.logMap_ne_none hfind, hmap⟩

theorem wp_breakpointDisable_map (ht : s.inf.TableOk) :
    wp F (breakpointDisable env addr)
      (fun _ t => t.inf.TableOk ∧ (BreakpointOp.disable addr).Acts s.inf.logMap t.inf.logMap) (fun _ t => t.inf.TableOk) s := by
  refine wp_breakpointDisable (fun _ _ => ht) fun i hfind => ?_
  obtain ⟨hi, rfl⟩ := Inferior.find_some hfind
  have htl := setLog_tableOk (v := false) ht hi
  refine (wp_breakpointDisablePtr_patched ht hi).imp ?_ fun _ t hp => hp.tableOk htl
  intro _ t hpost
  obtain ⟨hp, _⟩ := hpost
  exact ⟨hp.tableOk htl, Inferior.logMap_ne_none hfind, hp.logMap.trans (ht.logMap_setLog hi)⟩

theorem wp_breakpointSet_map (ht : s.inf.TableOk) :
    wp F (breakpointSet env addr)
      (fun _ t => t.inf.TableOk ∧ (BreakpointOp.set addr).Acts s.inf.logMap t.inf.logMap) (fun _ t => t.inf.TableOk) s := by
  refine wp_breakpointSet ht.nonneg ht.le (fun _ _ => ht) (fun _ _ => ht) fun hlt hfind => ?_
  have hnone := Inferior.logMap_eq_none.mpr hfind
  have ht' := ht.append hlt hfind
  have hmap := ht.logMap_append hlt hfind
  split
  · have hi : s.inf.count < (s.setInf (s.inf.append addr)).inf.count := by
      rw [setInf_inf, ht.append_count]
      exact Nat.lt_succ_self _
    have haddr : ((s.setInf (s.inf.append addr)).inf.slot s.inf.count).addr = addr := by
      rw [setInf_inf, Inferior.append_slot hlt, Function.update_self]
    refine (wp_breakpointEnablePtr_map ht' hi).imp ?_ fun _ _ => id
    intro _ t hpost
    obtain ⟨htt, hmap'⟩ := hpost
    refine ⟨htt, hnone, ?_⟩
    rw [hmap', haddr, setInf_inf, hmap, Function.update_idem]
  · exact ⟨ht', hnone, hmap⟩

theorem wp_breakpointUnset_map (ht : s.inf.TableOk) :
    wp F (breakpointUnset env addr)
      (fun _ t => t.inf.TableOk ∧ (BreakpointOp.unset addr).Acts s.inf.logMap t.inf.logMap) (fun _ t => t.inf.TableOk) s := by
  refine wp_breakpointUnset (fun _ _ => ht) fun i hfind => ?_
  obtain ⟨hi, rfl⟩ := Inferior.find_some hfind
  have htl := setLog_tableOk (v := false) ht hi
  refine (wp_breakpointDisablePtr_patched ht hi).imp ?_ fun _ t hp => hp.tableOk htl
  intro _ t hpost
  obtain ⟨hp, _⟩ := hpost
  have htt := hp.tableOk htl
  have hcount : t.inf.breakpointCount = s.inf.breakpointCount := hp.count
  have hit : i < t.inf.count := by rwa [Inferior.count_congr hcount]
  have hpos : 0 < t.inf.breakpointCount := by
    have := htt.count_eq
    omega
  refine wp_breakpointDrop hpos htt.le (htt.lt hit) ⟨htt.drop hit, Inferior.logMap_ne_none hfind, ?_⟩
  rw [setInf_inf, htt.logMap_drop hit, (hp.entry i).1, hp.logMap]
  rw [State.setLog_inf, ht.logMap_setLog hi, (State.setLog_slot (ht.lt hi) i).1, Function.update_idem]

theorem wp_breakpointClearall_map (ht : s.inf.TableOk) :
    wp F (breakpointClearall env) (fun _ t => t.inf.TableOk ∧ t.inf.logMap = fun _ => none) (fun _ t => t.inf.TableOk) s := by
  have hempty : ∀ t : State, t.inf.TableOk → t.inf.count = 0 → t.inf.TableOk ∧ t.inf.logMap = fun _ => none :=
    fun t ht hz => ⟨ht, funext fun _ => Inferior.logMap_eq_none.mpr
      (Inferior.find_none.mpr fun i hi => absurd hi (by omega))⟩
  refine wp_breakpointClearall (I := fun k t => t.inf.TableOk ∧ t.inf.IsActive ∧ t.inf.count = k) ht.nonneg
    (fun _ => hempty _ (ht.truncate (Nat.zero_le _)) rfl) (fun hact => ⟨ht, hact, rfl⟩) ?_
    fun t ⟨ht, _, hz⟩ => hempty t ht hz
  rintro k t - ⟨htt, hact, hcount⟩
  refine (wp_breakpointRemovePhybp_patched htt hact (by omega)).imp ?_ fun _ u hp => hp.1.tableOk htt
  intro _ u hpost
  obtain ⟨hp, _⟩ := hpost
  have hk : k ≤ u.inf.count := by
    rw [Inferior.count_congr hp.count]
    omega
  exact ⟨(hp.tableOk htt).truncate hk, hp.isActive.mpr hact, rfl⟩

theorem BreakpointOp.wp_map (op : BreakpointOp) (ht : s.inf.TableOk) :
    wp F (op.call env) (fun _ t => t.inf.TableOk ∧ op.Acts s.inf.logMap t.inf.logMap) (fun _ t => t.inf.TableOk) s := by
  cases op with
  | set addr => exact wp_breakpointSet_map ht
  | unset addr => exact wp_breakpointUnset_map ht
  | enable addr => exact wp_breakpointEnable_map ht
  | disable addr => exact wp_breakpointDisable_map ht

theorem BreakpointOp.edited : ∀ op : BreakpointOp, Keeps State.Edited (op.call env)
  | set _ => edited_breakpointSet
  | unset _ => edited_found fun _ => Keeps.bind edited_disablePtr fun _ => edited_breakpointDrop
  | enable _ => edited_found fun _ => edited_enablePtr
  | disable _ => edited_found fun _ => edited_disablePtr

theorem TableOp.wp_map (ht : s.inf.TableOk) (hop : op.Allowed s) :
    wp F (op.call env) (fun _ t => t.inf.TableOk ∧ op.Acts s.inf.logMap t.inf.logMap) (fun _ t => t.inf.TableOk) s := by
  cases op with
  | one op => exact op.wp_map ht
  | clearall => exact wp_breakpointClearall_map ht
  | resetPhybp => exact (wp_breakpointResetPhybp ht).imp (fun _ _ h => ⟨h.2.1.tableOk ht, h.2.1.logMap⟩) fun _ _ => id
  | setallPhybp =>
    exact (wp_breakpointSetallPhybp ht hop).imp (fun _ _ h => ⟨h.1.tableOk ht, h.1.logMap⟩) fun _ _ h => h.1.tableOk ht
  | unsetallPhybp =>
    exact (wp_breakpointUnsetallPhybp ht hop).imp (fun _ _ h => ⟨h.1.tableOk ht, h.1.logMap⟩) fun _ _ h => h.1.tableOk ht

/-! ### Runs -/

/-- A call that returns, or a change of anything but the table: of the process, or of whether it is live. -/
inductive TableStep (env : Env) (s t : State) : Prop where
  | call (op : TableOp) (allowed : op.Allowed s) (returns : (op.call env).Returns s t)
  | other (breakpoints : t.inf.breakpoints = s.inf.breakpoints)
      (count : t.inf.breakpointCount = s.inf.breakpointCount)

theorem TableStep.tableOk (h : TableStep env s t) (ht : s.inf.TableOk) : t.inf.TableOk := by
  cases h with
  | call op allowed returns => exact ((op.wp_map (F := fun _ _ => True) ht allowed).imp (fun _ _ h => h.1) fun _ _ => id).returns returns
  | other breakpoints count => exact ht.congr count fun i _ => by simp only [Inferior.slot, breakpoints]

theorem tableOk_of_run (h : Relation.ReflTransGen (TableStep env) s t) (ht : s.inf.TableOk) : t.inf.TableOk := by
  induction h with
  | refl => exact ht
  | tail _ hstep ih => exact hstep.tableOk ih

/-- In every run of calls on a table that was empty, the entries fit the array and have distinct addresses,
    no call writes outside the array, and each call that succeeds acts on the map as it should. -/
theorem table_refines_map (hempty : s.inf.breakpointCount = 0) (hrun : Relation.ReflTransGen (TableStep env) s t) :
    (0 ≤ t.inf.breakpointCount ∧ t.inf.breakpointCount ≤ maxBreakpoints) ∧
    (∀ i j, i < t.inf.count → j < t.inf.count → (t.inf.slot i).addr = (t.inf.slot j).addr → i = j) ∧
    ∀ op : TableOp, op.Allowed t →
      (∀ f u, op.call env t ≠ .fault f u) ∧ ∀ u, op.call env t = .ok () u → op.Acts t.inf.logMap u.inf.logMap := by
  have ht := tableOk_of_run hrun (Inferior.tableOk_of_empty hempty)
  refine ⟨⟨ht.nonneg, ht.le⟩, ht.distinct, fun op hop => ⟨fun f u hu => ?_, fun u hu => ?_⟩⟩
  · exact (op.wp_map (F := fun _ _ => False) ht hop).fault hu
  · exact ((op.wp_map (F := fun _ _ => True) ht hop).ok hu).2

/-- A breakpoint is set and unset again. -/
theorem table_refines_map_set_unset :
    let t := State.blank.after (breakpointSet .compliant 4096)
    (0 ≤ t.inf.breakpointCount ∧ t.inf.breakpointCount ≤ maxBreakpoints) ∧
      (BreakpointOp.unset 4096).Acts t.inf.logMap (t.after (breakpointUnset .compliant 4096)).inf.logMap :=
  have h := @table_refines_map .compliant State.blank _ rfl (Relation.ReflTransGen.single
    (.call (.one (.set 4096)) trivial (Or.inl ⟨(), State.after_ok (by decide +kernel)⟩)))
  ⟨h.1, (h.2.2 (.one (.unset 4096)) trivial).2 _ (State.after_ok (by decide +kernel))⟩

end

end Sylvan
