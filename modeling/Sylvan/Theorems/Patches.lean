import Sylvan.Theorems.Breakpoints

/-! What the functions of `breakpoint.c` keep. None of them changes more than the table, the memory of the
    process and the scratch part of the state (`Edited`). Installing and removing breakpoints keeps the
    entries and their logical states as well, and the memory that the installed entries hide (`Patched`). -/

namespace Sylvan
open Exec

namespace State

/-- `f` is the memory of the process without the installed breakpoints. -/
def Hides (s : State) (f : Memory) : Prop :=
  Overlay.Hides Breakpoint.addr Breakpoint.ogByte Breakpoint.isEnabledPhy s.inf.slot s.inf.count s.proc.mem f

/-- Each installed breakpoint is an `int3` in the memory of the process. -/
def Shows (s : State) : Prop :=
  Overlay.Shows Breakpoint.addr Breakpoint.isEnabledPhy 0xCC s.inf.slot s.inf.count s.proc.mem

/-- `t` is `s` with another table, another memory of the process and another scratch part. -/
structure Edited (s t : State) : Prop where
  inf : t.inf = { s.inf with breakpoints := t.inf.breakpoints, breakpointCount := t.inf.breakpointCount }
  procs : t.procs = Function.update s.procs s.inf.pid { s.proc with mem := t.proc.mem }
  trace : t.trace = s.trace
  registry : t.inferiorIdx = s.inferiorIdx ∧ t.inferiorCount = s.inferiorCount ∧ t.freed = s.freed

/-- Besides, the entries keep their logical states, and the memory without the breakpoints stays as it is. -/
structure Patched (s t : State) : Prop extends Edited s t, Inferior.SameEntries s.inf t.inf where
  hides : ∀ f, s.Hides f → t.Hides f
  shows : s.Shows → t.Shows

section
variable {s t u : State} {i : Nat} {v : Bool} {x : Scratch} {f : Memory} {addr : Addr}

/-! ### What an edit leaves alone -/

theorem Edited.pid (h : Edited s t) : t.inf.pid = s.inf.pid := by rw [h.inf]

theorem Edited.status (h : Edited s t) : t.inf.status = s.inf.status := by rw [h.inf]

theorem Edited.isAttached (h : Edited s t) : t.inf.isAttached = s.inf.isAttached := by rw [h.inf]

theorem Edited.isActive (h : Edited s t) : t.inf.IsActive ↔ s.inf.IsActive := by
  unfold Inferior.IsActive
  rw [h.status]

theorem Edited.proc (h : Edited s t) : t.proc = { s.proc with mem := t.proc.mem } := by
  have hp : t.proc = t.procs t.inf.pid := rfl
  rwa [h.pid, h.procs, Function.update_self] at hp

theorem Edited.refl (s : State) : Edited s s where
  inf := rfl
  procs := (Function.update_eq_self _ _).symm
  trace := rfl
  registry := ⟨rfl, rfl, rfl⟩

theorem Edited.trans (h : Edited s t) (h' : Edited t u) : Edited s u where
  inf := by
    have := h'.inf
    rw [h.inf] at this
    exact this
  procs := by rw [h'.procs, h.procs, h.pid, Function.update_idem, h.proc]
  trace := h'.trace.trans h.trace
  registry := ⟨h'.registry.1.trans h.registry.1, h'.registry.2.1.trans h.registry.2.1,
    h'.registry.2.2.trans h.registry.2.2⟩

theorem Patched.refl (s : State) : Patched s s :=
  ⟨Edited.refl s, Inferior.SameEntries.refl s.inf, fun _ => id, id⟩

theorem Patched.trans (h : Patched s t) (h' : Patched t u) : Patched s u :=
  ⟨h.toEdited.trans h'.toEdited, h.toSameEntries.trans h'.toSameEntries, fun f hf => h'.hides f (h.hides f hf),
    fun hs => h'.shows (h.shows hs)⟩

theorem Patched.tableOk (h : Patched s t) : s.inf.TableOk → t.inf.TableOk := h.toSameEntries.tableOk

theorem Patched.logMap (h : Patched s t) : t.inf.logMap = s.inf.logMap := h.toSameEntries.logMap

/-! ### The edits -/

theorem edited_setInf {inf : Inferior}
    (h : inf = { s.inf with breakpoints := inf.breakpoints, breakpointCount := inf.breakpointCount }) :
    Edited s (s.setInf inf) where
  inf := h
  procs := by
    have hp : inf.pid = s.inf.pid := by rw [h]
    rw [setInf_proc hp]
    exact (Function.update_eq_self _ _).symm
  trace := rfl
  registry := ⟨rfl, rfl, rfl⟩

theorem edited_setMem {m : Memory} : Edited s (s.setMem m) where
  inf := rfl
  procs := by
    rw [setMem_proc]
    rfl
  trace := rfl
  registry := ⟨rfl, rfl, rfl⟩

theorem edited_withScratch : Edited s (s.withScratch x) := ⟨rfl, (Edited.refl s).procs, rfl, ⟨rfl, rfl, rfl⟩⟩

theorem edited_setLog : Edited s (s.setLog i v) := edited_setInf rfl

theorem edited_install : Edited s (s.install i) := edited_setMem.trans (edited_setInf rfl)

theorem edited_uninstall : Edited s (s.uninstall i) := edited_setMem.trans (edited_setInf rfl)

theorem patched_withScratch : Patched s (s.withScratch x) :=
  ⟨edited_withScratch, Inferior.SameEntries.refl s.inf, fun _ => id, id⟩

/-- Storing an entry with the same address and logical state. -/
theorem setSlot_entry {inf : Inferior} {b : Breakpoint} (hi : i < maxBreakpoints) (ha : b.addr = (inf.slot i).addr)
    (hl : b.isEnabledLog = (inf.slot i).isEnabledLog) (j : Nat) :
    ((inf.setSlot i b).slot j).addr = (inf.slot j).addr ∧
      ((inf.setSlot i b).slot j).isEnabledLog = (inf.slot j).isEnabledLog := by
  by_cases hj : j = i
  · rw [hj, Inferior.slot_setSlot_self hi]
    exact ⟨ha, hl⟩
  · rw [Inferior.slot_setSlot_ne hi hj]
    exact ⟨rfl, rfl⟩

theorem patched_install (ht : s.inf.TableOk) (hi : i < s.inf.count) (hphy : (s.inf.slot i).isEnabledPhy = false) :
    Patched s (s.install i) where
  toEdited := edited_install
  count := rfl
  entry := setSlot_entry (ht.lt hi) rfl rfl
  hides f hf := by
    unfold Hides
    rw [install_proc, install_inf, Inferior.setSlot_count, Inferior.slot_setSlot (ht.lt hi)]
    exact Overlay.Hides.turnOn hf ht.distinct hi hphy rfl rfl rfl
  shows hs := by
    unfold Shows
    rw [install_proc, install_inf, Inferior.setSlot_count, Inferior.slot_setSlot (ht.lt hi)]
    exact Overlay.Shows.turnOn hs rfl

theorem patched_uninstall (ht : s.inf.TableOk) (hi : i < s.inf.count) (hphy : (s.inf.slot i).isEnabledPhy = true) :
    Patched s (s.uninstall i) where
  toEdited := edited_uninstall
  count := rfl
  entry := setSlot_entry (ht.lt hi) rfl rfl
  hides f hf := by
    unfold Hides
    rw [uninstall_proc, uninstall_inf, Inferior.clearPhy, Inferior.setSlot_count, Inferior.slot_setSlot (ht.lt hi)]
    exact Overlay.Hides.turnOff hf hi hphy rfl
  shows hs := by
    unfold Shows
    rw [uninstall_proc, uninstall_inf, Inferior.clearPhy, Inferior.setSlot_count, Inferior.slot_setSlot (ht.lt hi)]
    exact Overlay.Shows.turnOff hs ht.distinct hi rfl

theorem setLog_slot (hi : i < maxBreakpoints) (j : Nat) :
    ((s.inf.setLog i v).slot j).addr = (s.inf.slot j).addr ∧ ((s.inf.setLog i v).slot j).ogByte = (s.inf.slot j).ogByte ∧
      ((s.inf.setLog i v).slot j).isEnabledPhy = (s.inf.slot j).isEnabledPhy := by
  rw [Inferior.setLog]
  by_cases hj : j = i
  · rw [hj, Inferior.slot_setSlot_self hi]
    exact ⟨rfl, rfl, rfl⟩
  · rw [Inferior.slot_setSlot_ne hi hj]
    exact ⟨rfl, rfl, rfl⟩

theorem Hides.setLog (h : s.Hides f) (hi : i < maxBreakpoints) : (s.setLog i v).Hides f := by
  unfold Hides
  rw [setLog_proc]
  exact Overlay.Hides.congr h fun j _ => setLog_slot hi j

theorem Shows.setLog (h : s.Shows) (hi : i < maxBreakpoints) : (s.setLog i v).Shows := by
  unfold Shows
  rw [setLog_proc]
  exact Overlay.Shows.congr h fun j _ => ⟨(setLog_slot hi j).1, (setLog_slot hi j).2.2⟩

/-- An entry is appended in a slot that holds no installed breakpoint. -/
theorem Hides.append (h : s.Hides f) (ht : s.inf.TableOk) (hi : s.inf.count < maxBreakpoints)
    (hphy : (s.inf.slot s.inf.count).isEnabledPhy = false) : (s.setInf (s.inf.append addr)).Hides f := by
  unfold Hides
  rw [setInf_proc Inferior.append_pid, setInf_inf, ht.append_count, Inferior.append_slot hi]
  exact Overlay.Hides.push h hphy

theorem Shows.append (h : s.Shows) (ht : s.inf.TableOk) (hi : s.inf.count < maxBreakpoints)
    (hphy : (s.inf.slot s.inf.count).isEnabledPhy = false) : (s.setInf (s.inf.append addr)).Shows := by
  unfold Shows
  rw [setInf_proc Inferior.append_pid, setInf_inf, ht.append_count, Inferior.append_slot hi]
  exact Overlay.Shows.push h hphy

/-- An entry whose breakpoint is removed is dropped. -/
theorem Hides.drop (h : s.Hides f) (ht : s.inf.TableOk) (hi : i < s.inf.count)
    (hphy : (s.inf.slot i).isEnabledPhy = false) : (s.setInf (s.inf.drop i)).Hides f := by
  unfold Hides
  rw [setInf_proc Inferior.drop_pid, setInf_inf, Inferior.drop_count]
  refine (Overlay.Hides.swapRemove h hi hphy).congr fun j hj => ?_
  rw [Inferior.drop_slot (ht.lt hi) hj]
  exact ⟨rfl, rfl, rfl⟩

theorem Shows.drop (h : s.Shows) (ht : s.inf.TableOk) (hi : i < s.inf.count) : (s.setInf (s.inf.drop i)).Shows := by
  unfold Shows
  rw [setInf_proc Inferior.drop_pid, setInf_inf, Inferior.drop_count]
  refine (Overlay.Shows.swapRemove h hi).congr fun j hj => ?_
  rw [Inferior.drop_slot (ht.lt hi) hj]
  exact ⟨rfl, rfl⟩

theorem edited_clearPhy : Edited s (s.setInf (s.inf.clearPhy i)) := edited_setInf rfl

end
end State

/-! ### The physical states -/

section Rules
variable {env : Env} {F : Fault → State → Prop} {s : State} {i : Nat}

theorem setSlot_isEnabledPhy {inf : Inferior} {b : Breakpoint} (hi : i < maxBreakpoints) (j : Nat) :
    ((inf.setSlot i b).slot j).isEnabledPhy = if j = i then b.isEnabledPhy else (inf.slot j).isEnabledPhy := by
  split
  · rename_i hj
    rw [hj, Inferior.slot_setSlot_self hi]
  · rename_i hj
    rw [Inferior.slot_setSlot_ne hi hj]

/-- An entry that has the physical state `v` already is not changed. -/
theorem isEnabledPhy_of_skipped {v : Bool} (h : (s.inf.slot i).isEnabledPhy = v) (j : Nat) :
    (s.inf.slot j).isEnabledPhy = if j = i then v else (s.inf.slot j).isEnabledPhy := by
  split
  · rename_i hj
    rw [hj, h]
  · rfl

theorem wp_breakpointCreatePhybp_patched (ht : s.inf.TableOk) (hact : s.inf.IsActive) (hi : i < s.inf.count) :
    wp F (breakpointCreatePhybp env i)
      (fun _ t => s.Patched t ∧ ∀ j, (t.inf.slot j).isEnabledPhy = if j = i then true else (s.inf.slot j).isEnabledPhy)
      (fun c t => s.Patched t ∧ c.IsText) s :=
  wp_breakpointCreatePhybp hact (ht.lt hi) (fun hphy => ⟨State.Patched.refl s, isEnabledPhy_of_skipped hphy⟩)
    (fun hphy _ => ⟨(State.patched_install ht hi hphy).trans State.patched_withScratch,
      setSlot_isEnabledPhy (ht.lt hi)⟩) fun _ _ _ hc => ⟨State.patched_withScratch, hc⟩

theorem wp_breakpointRemovePhybp_patched (ht : s.inf.TableOk) (hact : s.inf.IsActive) (hi : i < s.inf.count) :
    wp F (breakpointRemovePhybp env i)
      (fun _ t => s.Patched t ∧ ∀ j, (t.inf.slot j).isEnabledPhy = if j = i then false else (s.inf.slot j).isEnabledPhy)
      (fun c t => s.Patched t ∧ c.IsText) s :=
  wp_breakpointRemovePhybp hact (ht.lt hi) (fun hphy => ⟨State.Patched.refl s, isEnabledPhy_of_skipped hphy⟩)
    (fun hphy _ => ⟨(State.patched_uninstall ht hi hphy).trans State.patched_withScratch,
      setSlot_isEnabledPhy (ht.lt hi)⟩) fun _ _ _ hc => ⟨State.patched_withScratch, hc⟩

theorem setLog_tableOk {v : Bool} (ht : s.inf.TableOk) (hi : i < s.inf.count) : (s.setLog i v).inf.TableOk :=
  ht.setSlot (ht.lt hi) rfl

theorem setLog_isEnabledPhy {v : Bool} (hi : i < maxBreakpoints) (j : Nat) :
    ((s.setLog i v).inf.slot j).isEnabledPhy = (s.inf.slot j).isEnabledPhy := (State.setLog_slot hi j).2.2

/-- Enabling stores the logical state, and then makes the physical state of a live process follow it. -/
theorem wp_breakpointEnablePtr_patched (ht : s.inf.TableOk) (hi : i < s.inf.count) :
    wp F (breakpointEnablePtr env i)
      (fun _ t => (s.setLog i true).Patched t ∧ (s.inf.IsActive →
        ∀ j, (t.inf.slot j).isEnabledPhy = if j = i then true else (s.inf.slot j).isEnabledPhy))
      (fun _ t => (s.setLog i true).Patched t) s := by
  have hmax := ht.lt hi
  have hphy := @setLog_isEnabledPhy s i true hmax
  refine wp_breakpointEnablePtr hmax (fun h => ⟨State.Patched.refl _, fun hact j => ?_⟩)
    (fun _ h x => ⟨(State.patched_install (setLog_tableOk ht hi) hi (by rw [hphy, h])).trans State.patched_withScratch,
      fun _ j => ?_⟩) fun _ _ _ _ _ => State.patched_withScratch
  · rw [hphy]
    exact isEnabledPhy_of_skipped (h hact) j
  · rw [← hphy j]
    exact setSlot_isEnabledPhy hmax j

theorem wp_breakpointDisablePtr_patched (ht : s.inf.TableOk) (hi : i < s.inf.count) :
    wp F (breakpointDisablePtr env i)
      (fun _ t => (s.setLog i false).Patched t ∧ (s.inf.IsActive →
        ∀ j, (t.inf.slot j).isEnabledPhy = if j = i then false else (s.inf.slot j).isEnabledPhy))
      (fun _ t => (s.setLog i false).Patched t) s := by
  have hmax := ht.lt hi
  have hphy := @setLog_isEnabledPhy s i false hmax
  refine wp_breakpointDisablePtr hmax (fun h => ⟨State.Patched.refl _, fun hact j => ?_⟩)
    (fun _ h x => ⟨(State.patched_uninstall (setLog_tableOk ht hi) hi (by rw [hphy, h])).trans
      State.patched_withScratch, fun _ j => ?_⟩) fun _ _ _ _ _ => State.patched_withScratch
  · rw [hphy]
    exact isEnabledPhy_of_skipped (h hact) j
  · rw [← hphy j]
    exact setSlot_isEnabledPhy hmax j

/-- A loop over the entries that gives each the physical state `v`. -/
theorem wp_each_patched {v : Bool} {f : Nat → SylvanM Unit} (ht : s.inf.TableOk) (hact : s.inf.IsActive)
    (hf : ∀ i t, t.inf.TableOk → t.inf.IsActive → i < t.inf.count → wp F (f i)
      (fun _ u => t.Patched u ∧ ∀ j, (u.inf.slot j).isEnabledPhy = if j = i then v else (t.inf.slot j).isEnabledPhy)
      (fun c u => t.Patched u ∧ c.IsText) t) :
    wp F (each (List.range s.inf.count) f)
      (fun _ t => s.Patched t ∧ ∀ i, i < s.inf.count → (t.inf.slot i).isEnabledPhy = v)
      (fun c t => s.Patched t ∧ c.IsText) s := by
  refine wp_each_range (I := fun k t => s.Patched t ∧ ∀ i, i < k → (t.inf.slot i).isEnabledPhy = v)
    ⟨State.Patched.refl s, fun i hi => absurd hi (Nat.not_lt_zero i)⟩ ?_
  rintro k t hk ⟨hp, hset⟩
  have hcount : k < t.inf.count := by rwa [Inferior.count_congr hp.count]
  refine (hf k t (hp.tableOk ht) (hp.isActive.mpr hact) hcount).imp ?_ fun _ u hpost => ⟨hp.trans hpost.1, hpost.2⟩
  intro _ u hpost
  obtain ⟨hp', hphy⟩ := hpost
  refine ⟨hp.trans hp', fun i hi => ?_⟩
  rw [hphy]
  split
  · rfl
  · exact hset i (by omega)

theorem wp_breakpointSetallPhybp (ht : s.inf.TableOk) (hact : s.inf.IsActive) :
    wp F (breakpointSetallPhybp env)
      (fun _ t => s.Patched t ∧ ∀ i, i < s.inf.count → (t.inf.slot i).isEnabledPhy = true)
      (fun c t => s.Patched t ∧ c.IsText) s := by
  unfold breakpointSetallPhybp
  rw [wp_bind, wp_get, wp_bind, wp_assert, if_pos hact]
  exact wp_each_patched ht hact fun i t => wp_breakpointCreatePhybp_patched

theorem wp_breakpointUnsetallPhybp (ht : s.inf.TableOk) (hact : s.inf.IsActive) :
    wp F (breakpointUnsetallPhybp env)
      (fun _ t => s.Patched t ∧ ∀ i, i < s.inf.count → (t.inf.slot i).isEnabledPhy = false)
      (fun c t => s.Patched t ∧ c.IsText) s := by
  unfold breakpointUnsetallPhybp
  rw [wp_bind, wp_get, wp_bind, wp_assert, if_pos hact]
  exact wp_each_patched ht hact fun i t => wp_breakpointRemovePhybp_patched

/-- `sylvan_breakpoint_reset_phybp` forgets the installed breakpoints; the process keeps its memory. -/
theorem wp_breakpointResetPhybp {E : Code → State → Prop} (ht : s.inf.TableOk) :
    wp F breakpointResetPhybp (fun _ t => s.Edited t ∧ s.inf.SameEntries t.inf ∧ t.proc = s.proc ∧
      ∀ i, i < s.inf.count → (t.inf.slot i).isEnabledPhy = false) E s := by
  unfold breakpointResetPhybp
  rw [wp_bind, wp_get]
  refine wp_each_range (I := fun k t => s.Edited t ∧ s.inf.SameEntries t.inf ∧ t.proc = s.proc ∧
    ∀ i, i < k → (t.inf.slot i).isEnabledPhy = false)
    ⟨State.Edited.refl s, Inferior.SameEntries.refl s.inf, rfl, fun i hi => absurd hi (Nat.not_lt_zero i)⟩ ?_
  rintro k t hk ⟨hed, hse, hproc, hset⟩
  have hk : k < maxBreakpoints := ht.lt hk
  rw [wp_bind, wp_get]
  refine wp_storeSlot hk ⟨hed.trans State.edited_clearPhy, hse.trans ⟨rfl, State.setSlot_entry hk rfl rfl⟩,
    (setInf_proc rfl).trans hproc, fun i hi => ?_⟩
  rw [setInf_inf, setSlot_isEnabledPhy hk]
  split
  · rfl
  · exact hset i (by omega)

/-! ### Every call is an edit -/

instance : IsPreorder State State.Edited where
  refl := State.Edited.refl
  trans _ _ _ h h' := h.trans h'

section
variable {addr : Addr} {code : Code} {text : String}

theorem edited_setErrnoMsg : Keeps State.Edited (setErrnoMsg env code text : SylvanM Unit) := fun _ =>
  State.edited_withScratch

theorem edited_setCode : Keeps State.Edited (setCode code : SylvanM Unit) := fun _ => State.edited_withScratch

theorem edited_slotIndex {n : Int} : Keeps State.Edited (slotIndex n) :=
  Keeps.ite (fun _ => Keeps.pure _) fun _ => Keeps.fault _

theorem edited_storeSlot {b : Breakpoint} : Keeps State.Edited (storeSlot i b) :=
  Keeps.bind edited_slotIndex fun _ => Keeps.modify fun _ => State.edited_setInf rfl

theorem edited_setBreakpointCount {n : Int} : Keeps State.Edited (setBreakpointCount n) :=
  Keeps.modify fun _ => State.edited_setInf rfl

theorem edited_ptracePeek : Keeps State.Edited (Sys.ptracePeek env addr) := fun _ =>
  wp_ptracePeek (fun _ _ => State.edited_withScratch) fun _ _ => State.edited_withScratch

theorem edited_ptracePoke {data : Word} : Keeps State.Edited (checked env code text (Sys.ptracePoke env addr data)) :=
  fun _ => wp_checked (wp_ptracePoke (fun _ => State.edited_setMem.trans State.edited_withScratch)
    fun _ _ _ => State.edited_withScratch.trans State.edited_withScratch)

theorem edited_assert {c : Prop} [Decidable c] : Keeps State.Edited (assert c) := Keeps.when fun _ => Keeps.fault _

/-- Both ways to change the physical state of an entry read a word, write it back changed and store the entry. -/
theorem edited_patch {data : Word → Word} {entry : Word → Breakpoint} {code' : Code} {text' : String} :
    Keeps State.Edited (do
      let w ← Sys.ptracePeek env addr
      Exec.when (w = -1) (setErrnoMsg env code text)
      checked env code' text' (Sys.ptracePoke env addr (data w))
      storeSlot i (entry w)) :=
  Keeps.bind edited_ptracePeek fun _ => Keeps.bind (Keeps.when fun _ => edited_setErrnoMsg) fun _ =>
    Keeps.bind edited_ptracePoke fun _ => edited_storeSlot

theorem edited_createPhybp : Keeps State.Edited (breakpointCreatePhybp env i) :=
  Keeps.bind Keeps.get fun _ => Keeps.bind edited_assert fun _ => Keeps.ite (fun _ => Keeps.pure _) fun _ => edited_patch

theorem edited_removePhybp : Keeps State.Edited (breakpointRemovePhybp env i) :=
  Keeps.bind Keeps.get fun _ => Keeps.bind edited_assert fun _ => Keeps.ite (fun _ => Keeps.pure _) fun _ => edited_patch

theorem edited_setallPhybp : Keeps State.Edited (breakpointSetallPhybp env) :=
  Keeps.bind Keeps.get fun _ => Keeps.bind edited_assert fun _ => Keeps.each (fun _ => edited_createPhybp) _

theorem edited_unsetallPhybp : Keeps State.Edited (breakpointUnsetallPhybp env) :=
  Keeps.bind Keeps.get fun _ => Keeps.bind edited_assert fun _ => Keeps.each (fun _ => edited_removePhybp) _

theorem edited_breakpointResetPhybp : Keeps State.Edited breakpointResetPhybp :=
  Keeps.bind Keeps.get fun _ => Keeps.each (fun _ => Keeps.bind Keeps.get fun _ => edited_storeSlot) _

theorem edited_enablePtr : Keeps State.Edited (breakpointEnablePtr env i) :=
  Keeps.bind Keeps.get fun _ => Keeps.bind edited_storeSlot fun _ => Keeps.bind Keeps.get fun _ =>
    Keeps.ite (fun _ => edited_createPhybp) fun _ => Keeps.pure _

theorem edited_disablePtr : Keeps State.Edited (breakpointDisablePtr env i) :=
  Keeps.bind Keeps.get fun _ => Keeps.bind edited_storeSlot fun _ => Keeps.bind Keeps.get fun _ =>
    Keeps.ite (fun _ => edited_removePhybp) fun _ => Keeps.pure _

theorem edited_breakpointSet : Keeps State.Edited (breakpointSet env addr) :=
  Keeps.bind Keeps.get fun _ => Keeps.bind (Keeps.when fun _ => edited_setCode) fun _ =>
    Keeps.bind (Keeps.when fun _ => edited_setCode) fun _ => Keeps.bind
      (Keeps.bind Keeps.get fun _ => Keeps.bind edited_slotIndex fun _ => Keeps.bind edited_setBreakpointCount fun _ =>
        Keeps.bind edited_storeSlot fun _ => Keeps.pure _)
      fun _ => Keeps.ite (fun _ => Keeps.pure _) fun _ => edited_enablePtr

theorem edited_breakpointDrop : Keeps State.Edited (breakpointDrop i) :=
  Keeps.bind Keeps.get fun _ => Keeps.bind edited_setBreakpointCount fun _ => Keeps.when fun _ =>
    Keeps.bind edited_slotIndex fun _ => Keeps.bind Keeps.get fun _ => edited_storeSlot

/-- What is done to the entry for an address. -/
theorem edited_found {f : Nat → SylvanM Unit} (hf : ∀ i, Keeps State.Edited (f i)) :
    Keeps State.Edited (do
      match breakpointFindByAddr (← Exec.get).inf addr with
      | none => setCode .breakpointNotFound
      | some i => f i) :=
  Keeps.bind Keeps.get fun s => by
    cases breakpointFindByAddr s.inf addr with
    | none => exact edited_setCode
    | some i => exact hf i

theorem edited_breakpointClear : ∀ n, Keeps State.Edited (breakpointClear env n)
  | 0 => Keeps.pure _
  | n + 1 => Keeps.bind edited_removePhybp fun _ => Keeps.bind edited_setBreakpointCount fun _ => edited_breakpointClear n

theorem edited_breakpointClearall : Keeps State.Edited (breakpointClearall env) :=
  Keeps.bind Keeps.get fun _ => Keeps.ite (fun _ => edited_setBreakpointCount) fun _ =>
    Keeps.bind (Keeps.when fun _ => Keeps.fault _) fun _ => edited_breakpointClear _

end

end Rules

end Sylvan
