import Sylvan.Op
import Sylvan.Theorems.Breakpoints

/-! Where a breakpoint can be set and unset again. The requests of `ptrace` are granted here, so what decides
    is the word at the address and what the slot of the new entry still holds. -/

namespace Sylvan
open Exec ByteMemory

section Granted
variable {env : Env} {F : Fault → State → Prop} {E : Code → State → Prop} {s : State} {i : Nat} {addr : Addr}
  {Q : Unit → State → Prop}

theorem peek_granted (h : env.ptrace s.scratch.clock = none) :
    Sys.ptracePeek env addr s = .ok (peek 64 s.proc.mem addr) (s.withScratch (s.scratch.tick.withErrno 0)) := by
  rw [Sys.ptracePeek, h]

/-- A word that is read is taken for a failure when it is -1. -/
theorem wp_peekText_granted {code : Code} {text : String} {k : Word → SylvanM Unit} (h : env.ptrace s.scratch.clock = none)
    (hok : peek 64 s.proc.mem addr ≠ -1 → ∀ x, x.clock = s.scratch.clock + 1 →
      wp F (k (peek 64 s.proc.mem addr)) Q E (s.withScratch x))
    (herr : peek 64 s.proc.mem addr = -1 → ∀ x, E code (s.withScratch x)) :
    wp F (do
      let w ← Sys.ptracePeek env addr
      Exec.when (w = -1) (setErrnoMsg env code text)
      k w) Q E s := by
  rw [wp_bind]
  refine wp_of_eq_ok (peek_granted h) ?_
  rw [wp_bind, wp_when]
  split
  · rename_i hones
    exact herr hones _
  · rename_i hw
    exact hok hw _ rfl

theorem wp_createPhybp_granted (hact : s.inf.IsActive) (hi : i < maxBreakpoints) (hphy : (s.inf.slot i).isEnabledPhy = false)
    (h0 : env.ptrace s.scratch.clock = none) (h1 : env.ptrace (s.scratch.clock + 1) = none)
    (hok : peek 64 s.proc.mem (s.inf.slot i).addr ≠ -1 → ∀ x, x.clock = s.scratch.clock + 2 →
      Q () ((s.install i).withScratch x))
    (herr : peek 64 s.proc.mem (s.inf.slot i).addr = -1 → ∀ c x, E c (s.withScratch x)) :
    wp F (breakpointCreatePhybp env i) Q E s := by
  unfold breakpointCreatePhybp
  rw [wp_bind, wp_get, wp_bind, wp_assert, if_pos hact, wp_ite, if_neg (Bool.eq_false_iff.mp hphy)]
  refine wp_peekText_granted h0 (fun hw x hx => ?_) fun hones x => herr hones _ x
  rw [← hx] at h1
  rw [wp_bind]
  refine wp_of_eq_ok (poke_granted h1) (wp_storeSlot hi ?_)
  rw [savedByte, withScratch_proc, poke_trap]
  refine hok hw _ ?_
  show x.clock + 1 = s.scratch.clock + 2
  rw [hx]

theorem wp_removePhybp_granted (hact : s.inf.IsActive) (hi : i < maxBreakpoints) (hphy : (s.inf.slot i).isEnabledPhy = true)
    (h0 : env.ptrace s.scratch.clock = none) (h1 : env.ptrace (s.scratch.clock + 1) = none)
    (hw : peek 64 s.proc.mem (s.inf.slot i).addr ≠ -1) (hok : ∀ x, Q () ((s.uninstall i).withScratch x)) :
    wp F (breakpointRemovePhybp env i) Q E s := by
  unfold breakpointRemovePhybp
  rw [wp_bind, wp_get, wp_bind, wp_assert, if_pos hact, wp_ite, if_neg (not_not.mpr hphy)]
  refine wp_peekText_granted h0 (fun _ x hx => ?_) fun hones => absurd hones hw
  rw [← hx] at h1
  rw [wp_bind]
  refine wp_of_eq_ok (poke_granted h1) (wp_storeSlot hi ?_)
  rw [withScratch_proc, poke_saved]
  exact hok _

end Granted

/-! ### Setting and unsetting -/

/-- `addr` has an entry, and its breakpoint is in the process. -/
def InstalledAt (s : State) (addr : Addr) : Prop :=
  ∃ i, breakpointFindByAddr s.inf addr = some i ∧ (s.inf.slot i).isEnabledPhy = true ∧ s.proc.mem addr = 0xCC

/-- A breakpoint can be set at `addr`, and unsetting it puts the word there back. -/
def SetAndUnset (env : Env) (s : State) (addr : Addr) : Prop :=
  ∃ t, breakpointSet env addr s = .ok () t ∧ InstalledAt t addr ∧
    ∃ u, breakpointUnset env addr t = .ok () u ∧ breakpointFindByAddr u.inf addr = none ∧
      peek 64 u.proc.mem addr = peek 64 s.proc.mem addr

/-- The slot of the new entry is clear and the word is not -1. A slot that is still marked as installed is taken for
    what it says, so the trap must be there already, as its own saved byte. -/
def Settable (s : State) (addr : Addr) : Prop :=
  if (s.inf.slot s.inf.count).isEnabledPhy then s.proc.mem addr = 0xCC ∧ (s.inf.slot s.inf.count).ogByte = 0xCC
  else peek 64 s.proc.mem addr ≠ -1

/-- Entry `n` is the last one, and the only one for `addr`. -/
structure Newest (inf : Inferior) (n : Nat) (addr : Addr) : Prop where
  count : inf.breakpointCount = (n : Int) + 1
  lt : n < maxBreakpoints
  entry : (inf.slot n).addr = addr
  others : ∀ j, j < n → (inf.slot j).addr ≠ addr

section Newest
variable {inf : Inferior} {n : Nat} {addr : Addr} {b : Breakpoint}

theorem Newest.count_eq (h : Newest inf n addr) : inf.count = n + 1 := by
  rw [Inferior.count, h.count]
  omega

theorem Newest.find (h : Newest inf n addr) : breakpointFindByAddr inf addr = some n := by
  obtain ⟨j, hj⟩ := @SlotTable.find_isSome_of _ _ Breakpoint.addr inf.slot inf.count n addr _
    (by rw [h.count_eq]; exact Nat.lt_succ_self n) h.entry
  obtain ⟨hlt, haddr⟩ := SlotTable.find_eq_some hj
  rw [h.count_eq] at hlt
  rcases Nat.lt_succ_iff_lt_or_eq.mp hlt with hlt | rfl
  · exact absurd haddr (h.others j hlt)
  · exact hj

theorem Newest.append (h0 : 0 ≤ inf.breakpointCount) (hlt : inf.count < maxBreakpoints) (hnew : breakpointFindByAddr inf addr = none) :
    Newest (inf.append addr) inf.count addr where
  count := by
    rw [Inferior.count, Int.toNat_of_nonneg h0]
    rfl
  lt := hlt
  entry := by rw [Inferior.append_slot hlt, Function.update_self]
  others j hj := by
    rw [Inferior.append_slot hlt, Function.update_of_ne (Nat.ne_of_lt hj)]
    exact Inferior.find_none.mp hnew j hj

theorem Newest.setSlot (h : Newest inf n addr) (hb : b.addr = addr) : Newest (inf.setSlot n b) n addr where
  count := h.count
  lt := h.lt
  entry := by rw [Inferior.slot_setSlot_self h.lt, hb]
  others j hj := by
    rw [Inferior.slot_setSlot_ne h.lt (Nat.ne_of_lt hj)]
    exact h.others j hj

/-- Without its entry the address has none. -/
theorem Newest.find_drop (h : Newest inf n addr) : breakpointFindByAddr (inf.drop n) addr = none := by
  refine Inferior.find_none.mpr fun j hj => ?_
  rw [Inferior.drop_count] at hj
  have hjn : j < n := by
    rw [h.count_eq] at hj
    exact hj
  rw [Inferior.drop_slot h.lt hj, Function.update_of_ne (Nat.ne_of_lt hjn)]
  exact h.others j hjn

end Newest

/-- The process is live, and the table has room and no entry for `addr`. -/
structure Free (s : State) (addr : Addr) : Prop where
  active : s.inf.IsActive
  nonneg : 0 ≤ s.inf.breakpointCount
  room : s.inf.breakpointCount < maxBreakpoints
  new : breakpointFindByAddr s.inf addr = none

section SetAndUnset
variable {env : Env} {F : Fault → State → Prop} {E : Code → State → Prop} {s t : State} {i n : Nat} {addr : Addr}
  {Q : Unit → State → Prop}

theorem wp_breakpointEnablePtr_active (hact : s.inf.IsActive) (hi : i < maxBreakpoints)
    (h : wp F (breakpointCreatePhybp env i) Q E (s.setLog i true)) : wp F (breakpointEnablePtr env i) Q E s := by
  unfold breakpointEnablePtr
  rw [wp_bind, wp_get, wp_bind]
  refine wp_storeSlot hi ?_
  rw [wp_bind, wp_get, wp_ite]
  exact (if_pos (show (s.setLog i true).inf.IsActive from hact)).symm ▸ h

theorem wp_breakpointDisablePtr_active (hact : s.inf.IsActive) (hi : i < maxBreakpoints)
    (h : wp F (breakpointRemovePhybp env i) Q E (s.setLog i false)) : wp F (breakpointDisablePtr env i) Q E s := by
  unfold breakpointDisablePtr
  rw [wp_bind, wp_get, wp_bind]
  refine wp_storeSlot hi ?_
  rw [wp_bind, wp_get, wp_ite]
  exact (if_pos (show (s.setLog i false).inf.IsActive from hact)).symm ▸ h

/-- `s` with an entry for `addr` that is still to be installed. -/
def State.entered (s : State) (addr : Addr) : State := (s.setInf (s.inf.append addr)).setLog s.inf.count true

/-- The newest breakpoint goes, and its byte comes back. -/
theorem unset_newest (hact : t.inf.IsActive) (hnewest : Newest t.inf n addr) (hphy : (t.inf.slot n).isEnabledPhy = true)
    (h0 : env.ptrace t.scratch.clock = none) (h1 : env.ptrace (t.scratch.clock + 1) = none) (hw : peek 64 t.proc.mem addr ≠ -1) :
    ∃ u, breakpointUnset env addr t = .ok () u ∧ breakpointFindByAddr u.inf addr = none ∧
      u.proc.mem = Function.update t.proc.mem addr (t.inf.slot n).ogByte := by
  suffices hwp : wp (fun _ _ => False) (breakpointUnset env addr) (fun _ u => breakpointFindByAddr u.inf addr = none ∧
      u.proc.mem = Function.update t.proc.mem addr (t.inf.slot n).ogByte) (fun _ _ => False) t by
    obtain ⟨⟨⟩, u, hu⟩ := hwp.exists_ok
    exact ⟨u, hu⟩
  refine wp_breakpointUnset (fun hnone => ?_) fun i hi => ?_
  · cases hnone.symm.trans hnewest.find
  obtain rfl : n = i := Option.some.inj (hnewest.find.symm.trans hi)
  have hlog : Newest (t.setLog n false).inf n addr := hnewest.setSlot hnewest.entry
  have hslot : (t.setLog n false).inf.slot n = { t.inf.slot n with isEnabledLog := false } := Inferior.slot_setSlot_self hnewest.lt
  refine wp_breakpointDisablePtr_active hact hnewest.lt (wp_removePhybp_granted hact hnewest.lt ?_ h0 h1 ?_ fun x => ?_)
  · rw [hslot]
    exact hphy
  · rw [hlog.entry]
    exact hw
  have hgone : Newest ((t.setLog n false).uninstall n).inf n addr := hlog.setSlot hlog.entry
  have hcount := hgone.count
  have hlt := hgone.lt
  refine wp_breakpointDrop ?_ ?_ hlt ⟨hgone.find_drop, ?_⟩
  · rw [withScratch_inf]
    omega
  · rw [withScratch_inf]
    omega
  · rw [setInf_proc Inferior.drop_pid, withScratch_proc, State.uninstall_proc, State.setLog_proc, hslot]
    exact congrArg (fun a => Function.update t.proc.mem a (t.inf.slot n).ogByte) hnewest.entry

theorem Free.count_lt (h : Free s addr) : s.inf.count < maxBreakpoints := by
  have := h.nonneg
  have := h.room
  unfold Inferior.count
  omega

theorem wp_set_granted (h : Free s addr) (hcreate : wp F (breakpointCreatePhybp env s.inf.count) Q E (s.entered addr)) :
    wp F (breakpointSet env addr) Q E s := by
  refine wp_breakpointSet h.nonneg (Int.le_of_lt h.room) (fun hfull => ?_) (fun hdup => ?_) fun hi _ => ?_
  · exact absurd hfull (Int.ne_of_lt h.room)
  · exact absurd h.new hdup
  · rw [if_pos h.active]
    exact wp_breakpointEnablePtr_active h.active hi hcreate

theorem Free.slot (h : Free s addr) : (s.entered addr).inf.slot s.inf.count =
    { s.inf.slot s.inf.count with addr, isEnabledLog := true } := by
  unfold State.entered
  rw [State.setLog_inf, Inferior.setLog, Inferior.slot_setSlot_self h.count_lt, setInf_inf, Inferior.append_slot h.count_lt,
    Function.update_self]

@[simp] theorem entered_proc : (s.entered addr).proc = s.proc := State.setLog_proc.trans (setInf_proc rfl)

theorem Free.newest (h : Free s addr) : Newest (s.entered addr).inf s.inf.count addr :=
  have happend := Newest.append h.nonneg h.count_lt h.new
  happend.setSlot happend.entry

/-- A word that starts with the trap is not -1. -/
theorem peek_trap_ne {m : Memory} (h : m addr = 0xCC) : peek 64 m addr ≠ -1 := fun hw => by
  have hbyte := @savedByte addr m
  rw [hw, h] at hbyte
  exact absurd hbyte (by decide)

/-- In a slot that says that its breakpoint is there, nothing is installed. -/
theorem set_marked (h : Free s addr) (hphy : (s.inf.slot s.inf.count).isEnabledPhy = true) :
    breakpointSet env addr s = .ok () (s.entered addr) := by
  refine wp.eq_ok (wp_set_granted h (wp_breakpointCreatePhybp h.active h.count_lt (fun _ => rfl) (fun hclear => ?_) fun hclear => ?_))
  · rw [h.slot] at hclear
    cases hclear.symm.trans hphy
  · rw [h.slot] at hclear
    cases hclear.symm.trans hphy

/-- In a clear slot the breakpoint is installed, unless the word looks like a failure. -/
theorem wp_set_clear (h : Free s addr) (hphy : (s.inf.slot s.inf.count).isEnabledPhy = false)
    (h0 : env.ptrace s.scratch.clock = none) (h1 : env.ptrace (s.scratch.clock + 1) = none)
    (hok : peek 64 s.proc.mem addr ≠ -1 → ∀ x, x.clock = s.scratch.clock + 2 →
      Q () (((s.entered addr).install s.inf.count).withScratch x))
    (herr : peek 64 s.proc.mem addr = -1 → ∀ c t, E c t) : wp F (breakpointSet env addr) Q E s := by
  have hclear : ((s.entered addr).inf.slot s.inf.count).isEnabledPhy = false := by
    rw [h.slot]
    exact hphy
  have hword : peek 64 (s.entered addr).proc.mem ((s.entered addr).inf.slot s.inf.count).addr = peek 64 s.proc.mem addr := by
    rw [entered_proc, h.slot]
  refine wp_set_granted h (wp_createPhybp_granted h.active h.count_lt hclear h0 h1 (fun hw => ?_) fun hw => ?_)
  · rw [hword] at hw
    exact hok hw
  · rw [hword] at hw
    exact fun c x => herr hw c _

theorem set_and_unset_marked (h : Free s addr) (hphy : (s.inf.slot s.inf.count).isEnabledPhy = true)
    (hgranted : ∀ k, k < 4 → env.ptrace (s.scratch.clock + k) = none) :
    SetAndUnset env s addr ↔ s.proc.mem addr = 0xCC ∧ (s.inf.slot s.inf.count).ogByte = 0xCC := by
  have hset : breakpointSet env addr s = .ok () (s.entered addr) := set_marked h hphy
  have hinstalled : ((s.entered addr).inf.slot s.inf.count).isEnabledPhy = true := by
    rw [h.slot]
    exact hphy
  have hunset := @unset_newest env (s.entered addr) s.inf.count addr h.active h.newest hinstalled (hgranted 0 (by decide))
    (hgranted 1 (by decide))
  constructor
  · rintro ⟨t, ht, ⟨i, -, -, htrap⟩, u, hu, -, hback⟩
    cases hset.symm.trans ht
    rw [entered_proc] at htrap
    obtain ⟨v, hv, -, hmem⟩ := hunset (by rw [entered_proc]; exact peek_trap_ne htrap)
    cases hv.symm.trans hu
    have hbyte := @savedByte addr u.proc.mem
    rw [hback, savedByte, hmem, Function.update_self, h.slot, htrap] at hbyte
    exact ⟨htrap, hbyte.symm⟩
  · rintro ⟨htrap, hog⟩
    obtain ⟨u, hu, hnone, hmem⟩ := hunset (by rw [entered_proc]; exact peek_trap_ne htrap)
    refine ⟨_, hset, ⟨_, h.newest.find, hinstalled, by rw [entered_proc]; exact htrap⟩, u, hu, hnone, ?_⟩
    rw [hmem, h.slot, entered_proc, hog, ← htrap, Function.update_eq_self]

theorem set_and_unset_clear (h : Free s addr) (hphy : (s.inf.slot s.inf.count).isEnabledPhy = false)
    (hgranted : ∀ k, k < 4 → env.ptrace (s.scratch.clock + k) = none) :
    SetAndUnset env s addr ↔ peek 64 s.proc.mem addr ≠ -1 := by
  have h0 : env.ptrace s.scratch.clock = none := hgranted 0 (by decide)
  have h1 := hgranted 1 (by decide)
  constructor
  · rintro ⟨t, ht, -⟩ hones
    have hfails : wp (fun _ _ => True) (breakpointSet env addr) (fun _ _ => False) (fun _ _ => True) s :=
      wp_set_clear h hphy h0 h1 (fun hw => absurd hones hw) fun _ _ _ => trivial
    exact hfails.ok ht
  · intro hw
    have hrun : wp (fun _ _ => False) (breakpointSet env addr) (fun _ t => ∃ x, x.clock = s.scratch.clock + 2 ∧
        t = ((s.entered addr).install s.inf.count).withScratch x) (fun _ _ => False) s :=
      wp_set_clear h hphy h0 h1 (fun _ x hx => ⟨x, hx, rfl⟩) fun hones => absurd hones hw
    obtain ⟨⟨⟩, t, hset, x, hx, rfl⟩ := hrun.exists_ok
    have hnewest : Newest ((s.entered addr).install s.inf.count).inf s.inf.count addr := h.newest.setSlot h.newest.entry
    have hmem : ((s.entered addr).install s.inf.count).proc.mem = Function.update s.proc.mem addr 0xCC := by
      rw [State.install_proc, h.slot, entered_proc]
    have hentry : ((s.entered addr).install s.inf.count).inf.slot s.inf.count = ⟨addr, s.proc.mem addr, true, true⟩ := by
      rw [State.install_inf, Inferior.slot_setSlot_self h.count_lt, h.slot, entered_proc]
    have htrap : ((s.entered addr).install s.inf.count).proc.mem addr = 0xCC := by rw [hmem, Function.update_self]
    have hphy' := congrArg Breakpoint.isEnabledPhy hentry
    obtain ⟨u, hu, hnone, hback⟩ := @unset_newest env (((s.entered addr).install s.inf.count).withScratch x) s.inf.count addr h.active
      hnewest hphy' (by rw [withScratch_scratch, hx]; exact hgranted 2 (by decide))
      (by rw [withScratch_scratch, hx]; exact hgranted 3 (by decide)) (peek_trap_ne htrap)
    refine ⟨_, hset, ⟨_, hnewest.find, hphy', htrap⟩, u, hu, hnone, ?_⟩
    rw [hback, withScratch_inf, withScratch_proc, hentry, hmem, Function.update_idem, Function.update_eq_self]

/-- With `ptrace` willing, a breakpoint can be set and unset again unless the word at the address is -1 or the slot of
    the entry is still marked. -/
theorem set_and_unset_iff (env : Env) (s : State) (addr : Addr) (h : Free s addr)
    (hgranted : ∀ k, k < 4 → env.ptrace (s.scratch.clock + k) = none) : SetAndUnset env s addr ↔ Settable s addr := by
  unfold Settable
  cases hphy : (s.inf.slot s.inf.count).isEnabledPhy with
  | true => exact set_and_unset_marked h hphy hgranted
  | false => exact set_and_unset_clear h hphy hgranted

theorem attached_free : Free State.attached 4096 := ⟨by decide +kernel, by decide +kernel, by decide +kernel, by decide +kernel⟩

theorem set_and_unset_iff_attached : SetAndUnset .compliant State.attached 4096 :=
  (set_and_unset_iff .compliant State.attached 4096 attached_free fun _ _ => rfl).mpr (by unfold Settable; decide +kernel)

end SetAndUnset

/-- Process 7 with ones in its memory -/
def State.ones : State := State.attached.setMem fun _ => 0xFF

/-- Two breakpoints were set, and the first was unset: the slot after the other one keeps its mark. -/
def State.leftover : State :=
  (State.withBreakpoint.after (breakpointSet .compliant 8192)).after (breakpointUnset .compliant 4096)

/-- No breakpoint can be set on eight bytes of ones, and one that is set in a marked slot is not installed. -/
theorem unsettable : (Free State.ones 4096 ∧ ¬SetAndUnset .compliant State.ones 4096) ∧
    (Free State.leftover 12288 ∧ ¬SetAndUnset .compliant State.leftover 12288) := by
  refine ⟨⟨⟨by decide +kernel, by decide +kernel, by decide +kernel, by decide +kernel⟩, fun ⟨t, ht, _⟩ => ?_⟩,
    ⟨⟨by decide +kernel, by decide +kernel, by decide +kernel, by decide +kernel⟩, fun ⟨t, ht, ⟨i, hi, hphy, hmem⟩, _⟩ => ?_⟩⟩
  · have hfails : (breakpointSet .compliant 4096 State.ones).isOk = false := by decide +kernel
    rw [ht] at hfails
    cases hfails
  · have hset : breakpointSet .compliant 12288 State.leftover = .ok () _ := State.after_ok (by decide +kernel)
    rw [(Exec.Outcome.ok.inj (ht.symm.trans hset)).2] at hmem
    exact absurd hmem (by decide +kernel)

end Sylvan
