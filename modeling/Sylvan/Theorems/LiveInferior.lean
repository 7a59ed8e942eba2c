import Sylvan.Theorems.CommandFrames

/-! Whether `*inf` is an inferior that was created and not destroyed since. A command that replaces the inferior destroys
    the old one first, and `sylvan_inferior_create` sets `*inf` only where it has the memory for a new one. -/

namespace Sylvan
open Exec

/-- `*inf` was created, and not destroyed since. -/
def Session.Live (s : Session) : Prop := s.state.freed = false

/-- No inferior is destroyed and none is created. -/
def SameFreed (s t : State) : Prop := t.freed = s.freed

instance : IsPreorder State SameFreed where
  refl _ := rfl
  trans _ _ _ h h' := Eq.trans h' h

instance : IgnoresLife SameFreed where
  scratch _ _ := rfl
  image _ _ _ := rfl
  event _ _ _ := rfl
  inf _ _ _ _ := rfl

instance : IgnoresTables SameFreed where
  table _ _ _ := rfl

theorem keptByLibrary_sameFreed {env : UiEnv} : KeptByLibrary env SameFreed := fun op hdestroy => op.keeps_load hdestroy

theorem any_tellsCalls {env : UiEnv} : Printing.any.TellsCalls env := fun _ _ => Printing.any_tells

/-! ### Replacing the inferior -/

/-- The system grants the allocations of `sylvan_inferior_create` from time `n` on. -/
def Env.Creates (env : Env) (n : Nat) : Prop := env.malloc n = true ∧ env.malloc (n + 1) = true ∧ env.malloc (n + 2) = true

/-- Where `sylvan_inferior_destroy` succeeds on `s`, there is memory for a new inferior then. -/
def State.Replaceable (env : Env) (s : State) : Prop :=
  ∀ t, inferiorDestroy env s = .ok () t → env.Creates t.scratch.clock

section
variable {env : Env} {s : State}

theorem wp_symTableInit_answer {F : Fault → State → Prop} {Q : Unit → State → Prop} {E : Code → State → Prop} {id : TableId}
    (hok : env.malloc s.scratch.clock = true → ∀ t, t.scratch.clock = s.scratch.clock + 1 → t.freed = s.freed → Q () t)
    (herr : env.malloc s.scratch.clock = false → ∀ c t, t.freed = s.freed → E c t) : wp F (symTableInit env id) Q E s := by
  unfold symTableInit
  rw [wp_bind, wp_malloc_iff, wp_ite]
  split
  · rename_i hyes
    exact hok hyes _ rfl rfl
  · rename_i hno
    exact herr (Bool.eq_false_iff.mpr hno) _ _ rfl

/-- `sylvan_inferior_create` fails exactly where one of its three allocations does. -/
theorem wp_inferiorCreate_freed :
    wp (fun _ _ => False) (inferiorCreate env) (fun _ t => env.Creates s.scratch.clock ∧ t.freed = s.freed)
      (fun _ t => ¬env.Creates s.scratch.clock ∧ t.freed = s.freed) s := by
  unfold inferiorCreate symInit
  rw [wp_bind, wp_malloc_iff, wp_bind, wp_when]
  split
  · rename_i hno
    exact ⟨fun h => Bool.false_ne_true (hno.symm.trans h.1), rfl⟩
  · rename_i hyes
    have hinf := eq_true_of_ne_false hyes
    rw [wp_bind, wp_modify, wp_bind, wp_bind]
    refine wp_symTableInit_answer (fun helf u hu hfreed => ?_) fun hno _ u hfreed =>
      ⟨fun h => Bool.false_ne_true (hno.symm.trans h.2.1), hfreed⟩
    refine wp_symTableInit_answer (fun hdwarf v _ hkept => ?_) fun hno _ v hkept =>
      ⟨fun h => Bool.false_ne_true ((hu ▸ hno).symm.trans h.2.2), hkept.trans hfreed⟩
    exact ⟨⟨hinf, helf, hu ▸ hdwarf⟩, hkept.trans hfreed⟩

theorem wp_inferiorDestroy_freed :
    wp (fun _ _ => True) (inferiorDestroy env) (fun _ t => t.freed = true) (fun _ t => t.freed = s.freed) s := by
  unfold inferiorDestroy
  rw [wp_bind]
  refine (keeps_terminateOrDetach (R := SameFreed) s).mono (fun _ u _ => ?_) (fun _ _ h => h) fun _ _ _ => trivial
  exact rfl

theorem replaceable_of_ok {u : State} (hu : inferiorDestroy env s = .ok () u) : s.Replaceable env ↔ env.Creates u.scratch.clock := by
  refine ⟨fun h => h u hu, fun h t ht => ?_⟩
  rw [hu] at ht
  cases ht
  exact h

theorem replaceable_of_not_ok (h : ∀ u, inferiorDestroy env s ≠ .ok () u) : s.Replaceable env := fun u hu => absurd hu (h u)

end

/-! ### The commands that replace it -/

section Commands
variable {env : UiEnv} {s : Session} {command : Argv}

/-- The inferior is live afterwards just where `C` holds, and it does where nothing comes back. -/
def LiveIff (C : Prop) {α : Type} (x : UiM α) (s : Session) : Prop :=
  wp (fun _ _ => C) x (fun _ t => t.Live ↔ C) (fun _ t => t.Live ↔ C) s

theorem Session.Live.kept {t : Session} (h : s.Live) (hst : OnState SameFreed s t) : t.Live := Eq.trans hst h

theorem Session.Live.liveIff {α : Type} {C : Prop} {x : UiM α} (h : s.Live) (hx : KeepsTo Printing.any.Ends (Follows .any SameFreed) x) (hC : C) :
    LiveIff C x s :=
  (hx.keeps s).mono (fun _ _ hst => iff_of_true (h.kept hst.state) hC) (fun _ _ hst => iff_of_true (h.kept hst.state) hC) fun _ _ _ => hC

/-- `sylvan_inferior_destroy` and `sylvan_inferior_create`, and what comes behind them -/
theorem Session.Live.renew {α : Type} {f : Unit → UiM α} (h : s.Live) (hf : KeepsTo Printing.any.Ends (Follows .any SameFreed) (f ())) :
    LiveIff (s.state.Replaceable env.toEnv) (renewInferior env >>= f) s := by
  unfold LiveIff renewInferior
  rw [wp_bind, wp_bind, wp_orLastError]
  have hdestroy := @wp_inferiorDestroy_freed env.toEnv s.state
  refine wp_of (fun _ u hu => ?_) (fun c u hu => ?_) fun g u hu => ?_
  · have hfreed : u.freed = true := hdestroy.ok hu
    rw [replaceable_of_ok hu, wp_bind, wp_orLastError]
    refine wp_inferiorCreate_freed.mono (fun _ v hv => ?_) (fun c v hv => ?_) fun _ _ => False.elim
    · exact Session.Live.liveIff (s := _) rfl hf hv.1
    · refine iff_of_false (fun hlive => ?_) hv.1
      exact Bool.false_ne_true (hlive.symm.trans (hv.2.trans hfreed))
  · exact iff_of_true ((hdestroy.error hu).trans h) (replaceable_of_not_ok fun v hv => by cases hu.symm.trans hv)
  · exact replaceable_of_not_ok fun v hv => by cases hu.symm.trans hv

/-- The same, where the inferior is replaced only if it has a process -/
theorem Session.Live.renewActive {α : Type} {f : Unit → UiM α} (h : s.Live) (hf : KeepsTo Printing.any.Ends (Follows .any SameFreed) (f ())) :
    LiveIff (s.state.inf.pid ≠ 0 → s.state.Replaceable env.toEnv) (do
      let inf ← inferior
      let a ← Exec.when (inf.pid ≠ 0) (renewInferior env)
      f a) s := by
  unfold LiveIff
  rw [wp_bind, wp_inferior]
  by_cases hpid : s.state.inf.pid = 0
  · rw [when_false (not_not.mpr hpid), pure_bind]
    exact h.liveIff hf (absurd hpid)
  · rw [when_true hpid, forall_prop_of_true hpid]
    exact h.renew hf

/-- The handler gets as far as `sylvan_inferior_destroy`, which it calls in the state `u`. -/
inductive Replaces (s : Session) (command : Argv) : Handler → State → Prop where
  | addInferior (h1 : command.arg 1 = none) : Replaces s command .addInferior s.state
  | file {filepath : CStr} (h1 : command.arg 1 = some filepath) (h2 : command.arg 2 = none) (hpid : s.state.inf.pid ≠ 0) :
    Replaces s command .file s.state
  | attach {text : CStr} {r : Numeral.Result} (h1 : command.arg 1 = some text) (h2 : command.arg 2 = none)
    (hr : Numeral.strtol 10 (text.from 0) = r) (hrange : r.range = false) (hpos : 0 < r.value) (hend : r.atEnd = true)
    (hpid : s.state.inf.pid ≠ 0) : Replaces s command .attach (s.state.withScratch (s.state.scratch.withErrno 0))

/-- If the handler replaces the inferior, there is memory for the new one. -/
def Handler.Granted (handler : Handler) (env : UiEnv) (s : Session) (command : Argv) : Prop :=
  ∀ u, Replaces s command handler u → u.Replaceable env.toEnv

theorem Handler.granted_of_not {handler : Handler} (h : ∀ u, ¬Replaces s command handler u) : handler.Granted env s command :=
  fun u hu => absurd hu (h u)

/-- A command that is refused replaces nothing. -/
theorem Session.Live.rejected {handler : Handler} {outputs : List Output} (h : s.Live) (hno : ∀ u, ¬Replaces s command handler u) :
    LiveIff (handler.Granted env s command) (reject outputs : UiM Unit) s := wp_reject.mpr (iff_of_true h (Handler.granted_of_not hno))

theorem Session.Live.handleAddInferior (h : s.Live) : LiveIff (Handler.addInferior.Granted env s command) (handleAddInferior env command) s := by
  unfold Sylvan.handleAddInferior
  cases h1 : command.arg 1 with
  | some text =>
    refine h.rejected fun u hu => ?_
    cases hu with
    | addInferior h1' => cases h1.symm.trans h1'
  | none =>
    have hgranted : Handler.addInferior.Granted env s command ↔ s.state.Replaceable env.toEnv := by
      refine ⟨fun hg => hg _ (.addInferior h1), fun hg u hu => ?_⟩
      cases hu with
      | addInferior => exact hg
    rw [hgranted]
    exact h.renew (KeepsTo.bind keeps_inferior fun _ => keeps_printOk)

theorem Session.Live.handleFile (h : s.Live) : LiveIff (Handler.file.Granted env s command) (handleFile env command) s := by
  unfold Sylvan.handleFile
  cases h1 : command.arg 1 with
  | none =>
    refine h.rejected fun u hu => ?_
    cases hu with
    | file h1' => cases h1.symm.trans h1'
  | some filepath =>
    cases h2 : command.arg 2 with
    | some text =>
      refine h.rejected fun u hu => ?_
      cases hu with
      | file _ h2' => cases h2.symm.trans h2'
    | none =>
      have hgranted : Handler.file.Granted env s command ↔ (s.state.inf.pid ≠ 0 → s.state.Replaceable env.toEnv) := by
        refine ⟨fun hg hpid => hg _ (.file h1 h2 hpid), fun hg u hu => ?_⟩
        cases hu with
        | file _ _ hpid => exact hg hpid
      rw [hgranted]
      refine h.renewActive (f := fun _ => _) (KeepsTo.bind (keeps_orLastError ?_ Printing.any_tells) fun _ => KeepsTo.bind keeps_inferior fun _ => keeps_printOk)
      exact (keptByLibrary_sameFreed : KeptByLibrary env SameFreed) (.setFilepath (some filepath.text)) Op.noConfusion

theorem Session.Live.handleAttach (h : s.Live) : LiveIff (Handler.attach.Granted env s command) (handleAttach env command) s := by
  unfold Sylvan.handleAttach
  cases h1 : command.arg 1 with
  | none =>
    refine h.rejected fun u hu => ?_
    cases hu with
    | attach h1' => cases h1.symm.trans h1'
  | some text =>
    cases h2 : command.arg 2 with
    | some text =>
      refine h.rejected fun u hu => ?_
      cases hu with
      | attach _ h2' => cases h2.symm.trans h2'
    | none =>
      dsimp only
      unfold LiveIff
      rw [Option.isSome_none, when_false Bool.false_ne_true, pure_bind, wp_bind, wp_converted, wp_bind, wp_when]
      split
      · rename_i hbad
        rw [wp_reject]
        refine iff_of_true h (Handler.granted_of_not fun u hu => ?_)
        cases hu with
        | attach h1' _ hr hrange hpos hend =>
          cases h1.symm.trans h1'
          subst hr
          exact accepted_iff.mpr ⟨hrange, Int.not_le.mpr hpos, hend⟩ hbad
      · rename_i hgood
        obtain ⟨hrange, hnonpos, hend⟩ := accepted_iff.mp hgood
        have hpos := Int.not_le.mp hnonpos
        have hgranted : Handler.attach.Granted env s command ↔
            (s.state.inf.pid ≠ 0 → (s.state.withScratch (s.state.scratch.withErrno 0)).Replaceable env.toEnv) := by
          refine ⟨fun hg hpid => hg _ (.attach h1 h2 rfl hrange hpos hend hpid), fun hg u hu => ?_⟩
          cases hu with
          | attach _ _ _ _ _ _ hpid => exact hg hpid
        rw [hgranted, hrange]
        refine Session.Live.renewActive (s := { s with state := s.state.withScratch _ }) (f := fun _ => _) h
          (KeepsTo.bind (keeps_orLastError ?_ Printing.any_tells) fun _ => KeepsTo.bind keeps_inferior fun _ => keeps_printOk)
        exact (keptByLibrary_sameFreed : KeptByLibrary env SameFreed) (.attach (asInt _)) Op.noConfusion

/-- One step: a handler leaves a live inferior just where the new one, if there is to be one, is granted. -/
theorem Handler.liveIff (h : s.Live) (handler : Handler) : LiveIff (handler.Granted env s command) (handler.body env command) s := by
  by_cases hrenews : handler.IsRenewal
  · cases hrenews with
    | addInferior => exact h.handleAddInferior
    | file => exact h.handleFile
    | attach => exact h.handleAttach
  · refine h.liveIff (handler.keeps keptByLibrary_sameFreed any_tellsCalls hrenews fun _ _ => Printing.any_tells) (Handler.granted_of_not fun u hu => hrenews ?_)
    cases hu with
    | addInferior => exact .addInferior
    | file => exact .file
    | attach => exact .attach

/-- If the command is one that replaces the inferior, and gets as far as that, there is memory for the new one. -/
def Granted (env : UiEnv) (s : Session) (command : Argv) : Prop :=
  ∀ name cmd, command.arg 0 = some name → lookupCommand s.aliases name.text = some cmd → cmd.handler.Granted env s command

theorem Session.Live.handleCommand (h : s.Live) : LiveIff (Granted env s command) (handleCommand env command) s := by
  unfold Sylvan.handleCommand
  cases hname : command.arg 0 with
  | none =>
    refine h.liveIff (keeps_failedText rfl) fun name cmd hname' => ?_
    cases hname.symm.trans hname'
  | some name =>
    unfold LiveIff
    rw [wp_bind, wp_get]
    cases hcmd : lookupCommand s.aliases name.text with
    | none =>
      refine h.liveIff (KeepsTo.bind keeps_printf fun _ => KeepsTo.bind keeps_printf fun _ => KeepsTo.pure _) fun name' cmd hname' hcmd' => ?_
      cases hname.symm.trans hname'
      cases hcmd.symm.trans hcmd'
    | some cmd =>
      have hgranted : Granted env s command ↔ cmd.handler.Granted env s command := by
        refine ⟨fun hg => hg name cmd hname hcmd, fun hg name' cmd' hname' hcmd' => ?_⟩
        cases hname.symm.trans hname'
        cases hcmd.symm.trans hcmd'
        exact hg
      rw [hgranted]
      unfold Handler.call
      rw [wp_catching, wp_bind]
      exact Handler.liveIff h cmd.handler

end Commands

/-! ### Runs -/

/-- A command line is read, or a command is run. -/
inductive Turn where
  | read
  | handle (command : Argv)

def Turn.run (env : UiEnv) : Turn → UiM Unit
  | read => do
    let _ ← getCommand env
    pure ()
  | handle command => do
    let _ ← handleCommand env command
    pure ()

/-- The turns return, one after the other, and lead to the session `t`. -/
inductive Run (env : UiEnv) (s : Session) : List Turn → Session → Prop where
  | start : Run env s [] s
  | turn {turns : List Turn} {t u : Session} (turn : Turn) (h : Run env s turns t) (hturn : (turn.run env).Returns t u) :
    Run env s (turns ++ [turn]) u

/-- After each of the turns, the inferior is live. -/
def StaysLive (env : UiEnv) (s : Session) (turns : List Turn) : Prop :=
  ∀ before t, before <+: turns → Run env s before t → t.Live

section Runs
variable {env : UiEnv} {s : Session} {turns : List Turn}

theorem Session.Live.turn (h : s.Live) (turn : Turn) :
    LiveIff (∀ command, turn = .handle command → Granted env s command) (turn.run env) s := by
  cases turn with
  | read => exact h.liveIff (KeepsTo.bind keeps_getCommand fun _ => KeepsTo.pure ()) nofun
  | handle command =>
    have hgranted : (∀ command', Turn.handle command = .handle command' → Granted env s command') ↔ Granted env s command := by
      refine ⟨fun hg => hg command rfl, fun hg command' hc => ?_⟩
      cases hc
      exact hg
    rw [hgranted]
    unfold LiveIff Turn.run
    rw [wp_bind]
    exact h.handleCommand

/-- A turn that keeps every inferior live that it leaves was granted what it asked for. -/
theorem LiveIff.holds {α : Type} {C : Prop} {x : UiM α} (h : LiveIff C x s) (hlive : ∀ t, x.Returns s t → t.Live) : C := by
  unfold LiveIff wp at h
  cases hx : x s with
  | ok a t =>
    rw [hx] at h
    exact h.mp (hlive t (.inl ⟨a, hx⟩))
  | error c t =>
    rw [hx] at h
    exact h.mp (hlive t (.inr ⟨c, hx⟩))
  | fault f t =>
    rw [hx] at h
    exact h

/-- The inferior stays live exactly where each command that replaces it has the memory for the new one by the time the
    old one is gone. -/
theorem stays_live_iff (env : UiEnv) (s : Session) (turns : List Turn) (h : s.Live) :
    StaysLive env s turns ↔
      ∀ before command t, before ++ [.handle command] <+: turns → Run env s before t → Granted env t command := by
  constructor
  · intro hlive before command t hbefore hrun
    have ht := hlive before t ((List.prefix_append _ _).trans hbefore) hrun
    refine (ht.turn (.handle command)).holds (fun u hu => ?_) command rfl
    exact hlive _ u hbefore (hrun.turn _ hu)
  · intro hgranted before t hbefore hrun
    induction hrun with
    | start => exact h
    | @turn before t u turn hrun hturn ih =>
      have ht := ih ((List.prefix_append _ _).trans hbefore)
      refine ((ht.turn turn).returns hturn).mpr fun command hcommand => ?_
      exact hgranted before command t (hcommand ▸ hbefore) hrun

/-- There is no memory after the first inferior was created. -/
def Env.exhausted : Env := { Env.compliant with malloc := fun n => decide (n < 3) }

/-- `add_inferior` -/
def Argv.addInferior : Argv := ⟨[.word "add_inferior" (by decide)], []⟩

theorem stays_live_granted : StaysLive (UiEnv.on .compliant) (Session.on State.created) [.handle .addInferior, .handle .addInferior] := by
  have hlive : State.created.freed = false := by decide +kernel
  refine (stays_live_iff (UiEnv.on .compliant) (Session.on State.created) [.handle .addInferior, .handle .addInferior] hlive).mpr ?_
  intro before command t _ _ name cmd _ _ u _ v _
  exact ⟨rfl, rfl, rfl⟩

theorem inferior_dangles : ¬∀ (env : UiEnv) (s : Session) (turns : List Turn), s.Live → StaysLive env s turns := by
  intro h
  have hlive : State.created.freed = false := by decide +kernel
  have hrun : (((Turn.handle .addInferior).run (UiEnv.on .exhausted)) (Session.on State.created)).isOk = true := by decide +kernel
  have hend := h (UiEnv.on .exhausted) (Session.on State.created) [.handle .addInferior] hlive ([] ++ [.handle .addInferior]) _ (List.prefix_refl _)
    (.turn _ .start (Or.inl ⟨(), Exec.Outcome.eq_ok_of_isOk hrun⟩))
  have hfreed : (((Turn.handle .addInferior).run (UiEnv.on .exhausted)) (Session.on State.created)).state.state.freed = true := by
    decide +kernel
  exact Bool.false_ne_true (hend.symm.trans hfreed)

/-! ### The loop of the command line -/

theorem Run.append {before after : List Turn} {t u : Session} (h : Run env s before t) (h' : Run env t after u) :
    Run env s (before ++ after) u := by
  induction h' with
  | start => exact (List.append_nil before).symm ▸ h
  | turn turn _ hturn ih => exact List.append_assoc _ _ _ ▸ ih.turn turn hturn

/-- A turn of the loop reads a command line, and may run it. -/
theorem run_of_interfaceTurn {t : Session} (h : (interfaceTurn env).Returns s t) : ∃ turns, Run env s turns t := by
  unfold interfaceTurn at h
  rcases h.of_bind with hread | ⟨line, u, hread, h⟩
  · exact ⟨_, .turn .read .start hread.discard⟩
  · have hrun : Run env s ([] ++ [.read]) u := .turn .read .start (Returns.discard (.inl ⟨line, hread⟩))
    cases line with
    | none =>
      obtain rfl := h.pure
      exact ⟨_, hrun⟩
    | some line =>
      dsimp only at h
      cases hname : line.arg 0 with
      | none =>
        rw [hname] at h
        obtain rfl := Returns.pure h
        exact ⟨_, hrun⟩
      | some name =>
        rw [hname] at h
        dsimp only at h
        split at h
        · obtain rfl := h.pure
          exact ⟨_, hrun⟩
        · exact ⟨_, hrun.turn (.handle line) h.discard⟩

/-- The turns of the loop are a run. -/
theorem run_of_loop {t : Session} (h : Relation.ReflTransGen (fun s t => (interfaceTurn env).Returns s t) s t) : ∃ turns, Run env s turns t := by
  induction h with
  | refl => exact ⟨[], .start⟩
  | tail _ hturn ih =>
    obtain ⟨before, hbefore⟩ := ih
    obtain ⟨after, hafter⟩ := run_of_interfaceTurn hturn
    exact ⟨before ++ after, hbefore.append hafter⟩

/-- `debugger_main` starts the loop on a live inferior: it creates one, and calls no other function that frees it. -/
theorem live_of_startup {env : Env} {c t : State} (hc : Created env c)
    (hrun : Relation.ReflTransGen (Step env fun _ op => op ≠ .destroy) c t) : (Session.on t).Live := by
  induction hrun with
  | refl =>
    obtain ⟨s₀, -, hfreed, hcreate⟩ := hc
    exact (wp_inferiorCreate_freed.ok hcreate).2.trans hfreed
  | tail _ hstep ih =>
    obtain ⟨-, op, hop, hreturns⟩ := hstep
    exact Eq.trans ((op.keeps_load (R := SameFreed) hop _).returns hreturns) ih

end Runs

end Sylvan
