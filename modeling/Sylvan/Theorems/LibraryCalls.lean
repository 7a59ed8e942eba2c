import Sylvan.Theorems.LibrarySymbols

/-! # The calls of the library in memory

Each call on an inferior does in memory what its model does, and leaves the blocks that are not of the inferior alone: a string
that a call allocates on the way is freed again, or becomes the inferior's in the place of one that is freed. -/

namespace Sylvan
open Exec Heap

/-- `x` gives the address of a new block with the string that `y` gives. -/
def Gives (rest : LibraryBlocks) (x : LibraryM Nat) (y : SylvanM String) : Prop :=
  ∀ m s, Owns rest m s → rwp .lib x y (fun p text m' s' => Owns (single p (.text text) + rest) m' s') (Owns rest) m s

section
variable {env : LibraryEnv} {rest B F : LibraryBlocks} {m : Library} {s : State} {pid : Pid}

/-- The same error on both sides -/
theorem rwp_reading_error {α β : Type} {x : SylvanM α} {y : SylvanM β} (hm : Owns rest m s)
    (h : wp (fun _ _ => False) x (fun _ _ => False) (fun c t => y s = .error c t ∧ SameOwned s t) s) :
    rwp .lib (Library.reading x) y (fun _ _ _ _ => False) (Owns rest) m s := by
  obtain ⟨c, t, hx, hy, ht⟩ := h.exists_error
  simp only [rwp, Library.reading, hm.view, hx, hy]
  exact ⟨trivial, hm.sameOwned ht⟩

/-- A block besides those of the inferior -/
theorem Owns.placed {heap : Heap Nat HeapBlock} {q : Nat} {b : HeapBlock} (hm : Owns rest m s)
    (hb : Heap.blocks heap = single q b + m.heap.blocks) : Owns (single q b + rest) { m with heap } s := by
  obtain ⟨I, hI, hframe⟩ := hm.frame
  exact hframe (by rw [hb, hI]; abel)

/-- It is freed again. -/
theorem wp_free_text_beside {p : Option Nat} {text : Option String} {Q : Unit → Library → Prop} {E : Code → Library → Prop}
    (ht : TextAt p text B) (hm : Owns (B + rest) m s) (hQ : ∀ heap, Owns rest { m with heap } s → Q () { m with heap }) :
    wp (fun _ _ => False) (Library.free p) Q E m := by
  obtain ⟨I, hI, hframe⟩ := hm.frame
  exact wp_free_text ht (F := I + rest) (by rw [hI]; abel) fun heap hb => hQ heap (hframe hb)

/-- What never fails -/
theorem rwp_reading_returns {α β γ : Type} {x : SylvanM γ} {f : γ → LibraryM α} {g : γ → SylvanM β}
    {Q : α → β → Library → State → Prop} {E : Library → State → Prop} (hx : Keeps SameOwned x)
    (hreturns : ∀ s, wp (fun _ _ => True) x (fun _ _ => True) (fun _ _ => False) s) (hm : Owns rest m s)
    (h : ∀ c m' s', SameOwned s s' → Owns rest m' s' → rwp .lib (f c) (g c) Q E m' s') :
    rwp .lib (Library.reading x >>= f) (x >>= g) Q E m s := by
  have hreturns' : wp (fun _ _ => True) x (fun _ s' => SameOwned s s') (fun _ _ => False) s :=
    ((hx s).both (hreturns s)).mono (fun _ _ => And.left) (fun _ _ => And.right) fun _ _ _ => trivial
  refine ((rwp_reading hx hm).and_wp hreturns').bind (fun a b m' s' h' => ?_) fun _ _ h' => h'.2.elim
  obtain ⟨⟨rfl, -, hm'⟩, hsame⟩ := h'
  exact h a m' s' hsame hm'

/-! ### Paths -/

theorem gives_realPath (hsane : env.Sane) {filepath : String} : Gives rest (Library.realPath env filepath) (realPath env.toEnv filepath) :=
  fun m s hm => by
    rw [← bind_pure (realPath env.toEnv filepath)]
    refine (rwp_reading keeps_realPath hm).bind (fun a b m' s' h => ?_) fun _ _ => And.right
    obtain ⟨rfl, -, hm'⟩ := h
    exact rwp.of_wp (wp_newBlock hsane fun q heap hb => ⟨a, s', rfl, hm'.placed hb⟩)

/-- The copy of `PATH` is freed on every way out, and so is each candidate but the one that is given. -/
theorem gives_findInDirectories (hsane : env.Sane) {command text : String} {path : Nat} : ∀ tokens m s,
    Owns (single path (.text text) + rest) m s →
    rwp .lib (Library.findInDirectories env path command tokens) (findInDirectories env.toEnv command tokens)
      (fun p text m' s' => Owns (single p (.text text) + rest) m' s') (Owns rest) m s
  | [], m, s, hm => by
    refine rwp.left (wp_free_text_beside (.block path text) hm fun heap hm' => ?_)
    exact (rwp_setCode hm').mono (fun _ _ _ _ => False.elim) fun _ _ => And.right
  | token :: tokens, m, s, hm => by
    refine rwp_malloc hsane hm.alike.scratch_eq (fun _ q heap hheap => ?_) fun _ => ?_
    · have hm' := (hm.scratch (x := s.scratch.tick)).placed hheap
      rw [when_false (by simp), pure_bind]
      refine rwp_reading_returns keeps_plain (fun _ => wp_plain fun _ _ => trivial) hm' fun r m' s' _ hm' => ?_
      cases r with
      | ok _ =>
        rw [add_left_comm] at hm'
        exact rwp.left (wp_free_text_beside (.block path text) hm' fun heap hm'' => hm'')
      | error _ =>
        exact rwp.left (wp_free_text_beside (.block q _) hm' fun heap hm'' => gives_findInDirectories hsane tokens _ _ hm'')
    · rw [when_true rfl]
      refine rwp.left (wp_free_text_beside (.block path text) hm.scratch fun heap hm' => ?_)
      exact ((rwp_setCode hm').mono (fun _ _ _ _ => id) fun _ _ => And.right).right_fails

theorem gives_findInPATH (hsane : env.Sane) {command : String} :
    Gives rest (Library.findInPATH env command) (findInPATH env.toEnv command) := fun m s hm => by
  refine rwp_reading_tick hm fun t x => ?_
  have hm' : Owns rest { m with state := s.withScratch x } (s.withScratch x) := hm.sameOwned rfl
  cases env.getenv t "PATH" with
  | none => exact (rwp_setCode hm').mono (fun _ _ _ _ => False.elim) fun _ _ => And.right
  | some path =>
    refine rwp_malloc hsane hm'.alike.scratch_eq (fun _ q heap hheap => ?_) fun _ => ?_
    · rw [when_false (by simp), pure_bind]
      exact gives_findInDirectories hsane _ _ _ (hm'.scratch.placed hheap)
    · rw [when_true rfl]
      exact ((rwp_setCode hm'.scratch).mono (fun _ _ _ _ => id) fun _ _ => And.right).right_fails

theorem gives_canonicalPath (hsane : env.Sane) {filepath : String} :
    Gives rest (Library.canonicalPath env filepath) (canonicalPath env.toEnv filepath) := fun m s hm => by
  refine (gives_realPath hsane m s hm).attempt_bind (fun _ _ _ _ hm' => hm') fun c m' s' hm' => ?_
  exact rwp.ite (fun _ => gives_findInPATH hsane m' s' hm') fun _ => rwp_error.mpr hm'

/-! ### Paths and arguments of the inferior -/

theorem alike_setInf {u : State} {o : Owned} (h : Alike u s) : Alike u (s.setInf (s.inf.withOwned o)) := by
  unfold Alike at h ⊢
  rw [← h]
  rfl

theorem SameOwned.countsFit {s t : State} (h : SameOwned s t) (hs : s.CountsFit) : t.CountsFit :=
  SameTables.countsFit ⟨congrArg Owned.elfTable h, congrArg Owned.dwarfTable h⟩ hs

theorem agrees_setFilepath (hsane : env.Sane) :
    ∀ path, AgreesWhere State.CountsFit rest (Library.setFilepath env path) (setFilepath env.toEnv path)
  | none => fun m s hm _ => by
    obtain ⟨B, F, ht, hb, hback⟩ := hm.realpath
    refine rwp.of_wp (wp_bind.mpr (wp_get.mpr (wp_bind.mpr (wp_free_text ht hb fun heap hheap => ⟨(), _, rfl, rfl, ?_⟩))))
    exact hback .null (alike_setInf (o := { s.inf.owned with realpath := none }) hm.alike) rfl rfl (by rw [hheap, zero_add])
  | some filepath => fun m s hm hs => by
    refine ((gives_canonicalPath hsane m s hm).and_wp (wp_of_tables (fun hsame => hsame.countsFit) keeps_canonicalPath hs)).bind
      (fun p path m' s' h => ?_) fun _ _ => And.left
    obtain ⟨hm', hs'⟩ := h
    obtain ⟨I, hI, -⟩ := hm'.frame
    refine rwp.left (wp_loadText path (F := I + rest) (by rw [hI]; abel) ?_)
    unfold checked handled
    rw [bind_assoc]
    refine rwp_reading_returns keeps_plain (fun _ => wp_plain fun _ _ => trivial) hm' fun r m' s' hsame hm' => ?_
    cases r with
    | error _ =>
      refine rwp.left (wp_free_text_beside (.block p path) hm' fun heap hm'' => ?_)
      refine (rwp_reading_error hm'' ?_).right_fails
      exact ⟨rfl, rfl⟩
    | ok _ =>
      obtain ⟨B, F, ht, hb, hback⟩ := hm'.realpath
      refine rwp.right (wp_pure.mpr (rwp.left (wp_get.mpr (rwp.left (wp_free_text ht hb fun heap hheap => ?_)))))
      refine rwp.bind (Q := fun _ _ m' s' => Owns rest m' s' ∧ s'.CountsFit) (E := fun _ _ => False) ⟨?_, hsame.countsFit hs'⟩
        (fun _ _ m' s' h => agrees_symLoadTables hsane m' s' h.1 h.2) fun _ _ => False.elim
      exact hback (.block p path) (alike_setInf (o := { s'.inf.owned with realpath := some path }) hm'.alike) rfl rfl (by rw [hheap]; abel)

theorem agrees_setArgs (hsane : env.Sane) : ∀ args, Agrees rest (Library.setArgs env args) (setArgs env.toEnv args)
  | none => fun m s hm => by
    obtain ⟨B, F, ht, hb, hback⟩ := hm.args
    refine rwp.of_wp (wp_bind.mpr (wp_get.mpr (wp_bind.mpr (wp_free_text ht hb fun heap hheap => ⟨(), _, rfl, rfl, ?_⟩))))
    exact hback .null (alike_setInf (o := { s.inf.owned with args := none }) hm.alike) rfl rfl (by rw [hheap, zero_add])
  | some args => fun m s hm => by
    obtain ⟨B, F, ht, hb, hback⟩ := hm.args
    refine rwp_malloc hsane hm.alike.scratch_eq (fun _ q heap hheap => ?_) fun _ => ?_
    · rw [when_false (by simp), pure_bind]
      have hheap' : Heap.blocks heap = B + (single q (.text args) + F) := by rw [hheap, hb, add_left_comm]
      refine rwp.of_wp (wp_bind.mpr (wp_get.mpr (wp_bind.mpr (wp_free_text ht hheap' fun heap'' hheap'' => ⟨(), _, rfl, rfl, ?_⟩))))
      exact hback (.block q args) (alike_setInf (o := { s.inf.owned with args := some args }) hm.alike.scratch) rfl rfl (by rw [hheap''])
    · rw [when_true rfl]
      exact ((rwp_setCode hm.scratch).mono (fun _ _ _ _ => id) fun _ _ => And.right).right_fails

/-! ### Attaching -/

/-- The path of a process is a new block, or there is none. -/
theorem Gives.attempt {x : LibraryM Nat} {y : SylvanM String} (h : Gives rest x y) (hm : Owns rest m s) :
    rwp .lib (Exec.attempt x) (Exec.attempt y) (fun a b m' s' => ∃ P, TextAt a.toOption b.toOption P ∧ Owns (P + rest) m' s')
      (fun _ _ => False) m s := by
  rw [← bind_pure (Exec.attempt x), ← bind_pure (Exec.attempt y)]
  refine (h m s hm).attempt_bind (fun p text m' s' hm' => ?_) fun c m' s' hm' => ?_
  · exact ⟨_, .block p text, hm'⟩
  · exact ⟨0, .null, by rwa [zero_add]⟩

theorem alike_adopted {u : State} {path : Option String} (h : Alike u s) :
    Alike (u.setInf { u.inf with pid, isAttached := true }) (s.setInf { s.inf with pid, isAttached := true, realpath := path }) := by
  unfold Alike at h ⊢
  rw [← h]
  rfl

/-- The path that was read is freed where the wait fails, and where the process is gone. -/
theorem agrees_attachWait (hsane : env.Sane) : Agrees rest (Library.attachWait env pid) (attachWait env.toEnv pid) := fun m s hm => by
  refine (Gives.attempt (gives_realPath hsane) hm).bind (fun a b m' s' h => ?_) fun _ _ => False.elim
  obtain ⟨P, ht, hm'⟩ := h
  unfold handled
  rw [bind_assoc]
  refine rwp_reading_returns (keeps_retry sameOwned_waitpid _) (fun _ => ?_) hm' fun r m' s' _ hm' => ?_
  · exact wp_retry_waitpid (fun _ => trivial) (fun _ _ _ => trivial) fun _ _ => trivial
  cases r with
  | error e =>
    refine rwp.left (wp_free_text_beside ht hm' fun heap hm'' => ?_)
    refine rwp.right_fails ?_
    by_cases he : e = ECHILD
    · simp only [if_pos he]
      exact rwp_reading_error hm'' ⟨rfl, rfl⟩
    · simp only [if_neg he]
      exact rwp_reading_error hm'' ⟨rfl, rfl⟩
  | ok status =>
    refine rwp.right (wp_pure.mpr ?_)
    cases status with
    | stopped sig | continued =>
      refine rwp_reading_returns sameOwned_setStatus (fun _ => trivial) hm' fun _ m' s' _ hm' => ?_
      obtain ⟨B, F, hold, hb, hback⟩ := hm'.realpath
      refine rwp.of_wp (wp_bind.mpr (wp_get.mpr (wp_bind.mpr (wp_free_text hold hb fun heap hheap => ⟨(), _, rfl, rfl, ?_⟩))))
      exact hback ht (alike_adopted hm'.alike) rfl rfl (by rw [hheap]; abel)
    | exited code | signaled sig =>
      refine rwp.left (wp_free_text_beside ht hm' fun heap hm'' => ?_)
      refine (rwp_reading_error hm'' ?_).bind (fun _ _ _ _ => False.elim) fun _ _ => id
      exact ⟨rfl, rfl⟩
    | unknown =>
      refine rwp.left (wp_free_text_beside ht hm' fun heap hm'' => ?_)
      refine rwp.bind (Q := fun _ _ _ _ => False) (E := fun _ _ => False) ?_ (fun _ _ _ _ => False.elim) fun _ _ => False.elim
      simp only [rwp, Library.reading, hm''.view]
      rfl

theorem sameOwned_attachRequest : Keeps SameOwned (attachRequest env.toEnv pid) := by
  refine Keeps.bind (keeps_handled sameOwned_kill_call fun _ => Keeps.ite (fun _ => keeps_setMessage) fun _ => keeps_setErrnoMsg)
    fun _ => Keeps.bind keeps_terminateOrDetach fun _ => keeps_handled sameOwned_ptraceAttach fun _ => ?_
  exact Keeps.ite (fun _ => keeps_setMessage) fun _ => Keeps.ite (fun _ => keeps_setMessage) fun _ => keeps_setErrnoMsg

theorem agrees_attach (hsane : env.Sane) : AgreesWhere State.CountsFit rest (Library.attach env pid) (attach env.toEnv pid) := by
  have hattach : attach env.toEnv pid = attachRequest env.toEnv pid >>= fun _ => attachWait env.toEnv pid >>= fun _ =>
      symLoadTables env.toEnv >>= fun _ => breakpointResetPhybp >>= fun _ => breakpointSetallPhybp env.toEnv := by
    simp only [attach, attachRequest, bind_assoc]
  rw [hattach]
  have hkept : ∀ {y : SylvanM Unit}, Keeps SameTables y → ∀ s : State, s.CountsFit →
      wp (fun _ _ => True) y (fun _ t => t.CountsFit) (fun _ _ => True) s := fun hy s hs =>
    (wp_of_tables (fun hsame => hsame.countsFit) hy hs).imp (fun _ _ => id) fun _ _ _ => trivial
  have hrequest : Keeps SameTables (attachRequest env.toEnv pid) := sameOwned_attachRequest.imp fun _ _ h =>
    ⟨congrArg Owned.elfTable h, congrArg Owned.dwarfTable h⟩
  refine (Agrees.reading sameOwned_attachRequest).bind_where (hkept hrequest) fun _ =>
    (agrees_attachWait hsane).bind_where (hkept keeps_attachWait) fun _ m s hm hs => ?_
  exact (agrees_symLoadTables hsane m s hm hs).bind (fun _ _ m' s' h => Agrees.reading keeps_rebuild m' s' h.2) fun _ _ => id

/-- The calls but the one that destroys the inferior -/
theorem agrees_call (hsane : env.Sane) : ∀ op : Op, op.isDestroy = false →
    AgreesWhere State.CountsFit rest (Library.call env op) (op.call env.toEnv)
  | .attach _, _ => agrees_attach hsane
  | .setFilepath path, _ => agrees_setFilepath hsane path
  | .setArgs args, _ => (agrees_setArgs hsane args).anywhere
  | .detach, _ => (Agrees.reading keeps_detach).anywhere
  | .run, _ => (Agrees.reading sameOwned_run).anywhere
  | .cont, _ => (Agrees.reading keeps_cont).anywhere
  | .stepinst, _ => (Agrees.reading keeps_stepinst).anywhere
  | .getRegs, _ => (Agrees.reading (Keeps.bind keeps_getRegs fun _ => Keeps.pure _)).anywhere
  | .setRegs _, _ => (Agrees.reading (keeps_checkedAccess (keeps_checked keeps_ptraceSetregs))).anywhere
  | .getMemory _, _ => (Agrees.reading (Keeps.bind keeps_getMemory fun _ => Keeps.pure _)).anywhere
  | .setMemory _ _, _ => (Agrees.reading keeps_setMemory).anywhere
  | .setBreakpointFunction _, _ => (Agrees.reading (Keeps.bind keeps_getLabelAddr fun _ => keeps_edited edited_breakpointSet)).anywhere
  | .breakpoint op, _ => (Agrees.reading (keeps_edited op.edited)).anywhere
  | .clearall, _ => (Agrees.reading (keeps_edited edited_breakpointClearall)).anywhere

end

end Sylvan
