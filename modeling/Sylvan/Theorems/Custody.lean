import Mathlib.Data.List.Induction
import Sylvan.Theorems.StatusPid

/-! Attached processes are released, never killed. `custody` reads a trace and tells which process it leaves
    in the hands of the inferior; it accepts a trace only if every `SIGKILL` in it goes to a child, and if a live
    process that the inferior was attached to is left only by a `PTRACE_DETACH` that is granted, when no entry is marked
    as installed. What the memory of the process is then is said of each call (`attached_released_of_run`). -/

namespace Sylvan
open Exec

/-- How a process is, by what was last heard of it and asked of it. -/
inductive Tracee where
  | stopped
  | running
  | gone
  deriving DecidableEq, Repr

/-- The process that is in the hands of the inferior: one that it asked for or started, and has not heard of yet,
    one that it is attached to, which may be gone, or its child. -/
inductive Custody where
  | none
  | asked (pid : Pid)
  | started (pid : Pid)
  | attached (pid : Pid) (how : Tracee)
  | child (pid : Pid)
  deriving DecidableEq, Repr

instance (inf : Inferior) : Decidable inf.Cleared :=
  inferInstanceAs (Decidable (∀ i, i < inf.count → (inf.slot i).isEnabledPhy = false))

namespace Custody

/-- There is a live process that the inferior was attached to. -/
def holdsAttached : Custody → Bool
  | attached _ .stopped => true
  | attached _ .running => true
  | _ => false

def pid? : Custody → Option Pid
  | none => .none
  | asked pid => some pid
  | started pid => some pid
  | attached pid _ => some pid
  | child pid => some pid

/-- How the process `pid` is, if the inferior is attached to it. -/
def tracee? (c : Custody) (pid : Pid) : Option Tracee :=
  match c with
  | attached pid' how => if pid' = pid then some how else .none
  | _ => .none

/-- The process was heard of. -/
def confirmed (how : Tracee) : Custody → Custody
  | asked pid => attached pid how
  | started pid => child pid
  | attached pid _ => attached pid how
  | c => c

/-- There is no process `pid`. -/
def missed (c : Custody) (pid : Pid) : Custody :=
  if (c.tracee? pid).isSome then attached pid .gone else c

/-- The process `pid` goes on. -/
def resumed (c : Custody) (pid : Pid) : Custody :=
  if c.tracee? pid = some .stopped then attached pid .running else c

/-- `PTRACE_DETACH` was asked for the process of which `how` is known. It is released where that is granted; `ESRCH` says
    that a process which was stopped is gone, but of one that runs only that it is not stopped. -/
def detached (c : Custody) (how : Tracee) (failed : Option Errno) : Custody :=
  if failed = .none ∨ failed = some ESRCH ∧ how ≠ .running then none else c

/-- The process `pid` was waited for, with the status `st`. -/
def waited (c : Custody) (pid : Pid) (st : WaitStatus) : Custody :=
  if c.pid? = some pid then
    match st with
    | .exited _ => none
    | .signaled _ => none
    | .stopped _ => c.confirmed .stopped
    | .continued => c.confirmed .running
    | .unknown => c
  else c

/-- What an event makes of the custody, or `none` for an event that must not happen. -/
def next (c : Custody) : Event → Option Custody
  | .kill pid sig failed =>
    if sig = SIGKILL then if c = child pid then some c else .none
    else some (if failed = some ESRCH then c.missed pid else c)
  | .waited pid st => some (c.waited pid st)
  | .forked pid _ => if c.holdsAttached then .none else some (started pid)
  | .request .attach pid _ _ failed =>
    if failed ≠ .none then some c else if c.holdsAttached then .none else some (asked pid)
  | .request .detach pid inf _ failed =>
    if inf.Cleared then (c.tracee? pid).map fun how => c.detached how failed else .none
  | .request .cont pid _ _ failed => some (if failed = .none then c.resumed pid else c)
  | .request .singlestep pid _ _ failed => some (if failed = .none then c.resumed pid else c)
  | .freed => if c.holdsAttached then .none else some c

end Custody

/-- The custody that a trace ends with, if it has no event that must not happen. -/
def custody (trace : List Event) : Option Custody := trace.foldlM Custody.next Custody.none

/-- A `PTRACE_DETACH` was refused with `ESRCH` while the process ran. -/
def Eluded (trace : List Event) : Prop :=
  ∃ pre post pid inf proc c, trace = pre ++ .request .detach pid inf proc (some ESRCH) :: post ∧
    custody pre = some c ∧ c.tracee? pid = some .running

/-- However the call ends, no process eludes it. -/
def Op.Catches (env : Env) (s : State) (op : Op) : Prop := ∀ t, (op.call env).Ends s t → ¬Eluded t.trace

section
variable {env : Env} {may : Life.License} {D : Pid → Memory → Prop} {s t u : State} {op : Op} {l l' : Life} {c c' : Custody} {e : Event} {tr pre post : List Event} {pid : Pid}

theorem Custody.tracee?_eq_some {how : Tracee} : c.tracee? pid = some how ↔ c = .attached pid how := by
  unfold tracee?
  split
  · rename_i pid' how'
    by_cases hp : pid' = pid
    · simp [hp]
    · simp [hp]
  · rename_i hne
    simp only [reduceCtorEq, false_iff]
    exact hne pid how

theorem custody_append : custody (tr ++ [e]) = (custody tr).bind fun c => c.next e := by
  unfold custody
  rw [List.foldlM_append]
  simp [Option.bind_eq_bind]

theorem custody_record (hc : custody l.trace = some c) (hn : c.next e = some c') : custody (l.record e).trace = some c' := by
  show custody (l.trace ++ [e]) = some c'
  rw [custody_append, hc]
  exact hn

/-! ### What an accepted trace says -/

/-- The inferior has the process `pid` because it started it. -/
def Custody.Born (pid : Pid) (c : Custody) : Prop := c = child pid ∨ c = started pid

theorem Custody.born_of_next (hn : c.next e = some c') (h : c'.Born pid) : c.Born pid ∨ ∃ image, e = .forked pid image := by
  have hmissed : ∀ {p}, (c.missed p).Born pid → c.Born pid := by
    intro p
    unfold missed
    split
    · rintro (h | h) <;> cases h
    · exact id
  have hresumed : ∀ {p}, (c.resumed p).Born pid → c.Born pid := by
    intro p
    unfold resumed
    split
    · rintro (h | h) <;> cases h
    · exact id
  have hwaited : ∀ {p st}, (c.waited p st).Born pid → c.Born pid := by
    intro p st
    unfold waited
    split
    · cases st <;> cases c <;> simp [Born, confirmed]
    · exact id
  cases e with
  | kill p sig failed =>
    simp only [next] at hn
    split at hn
    · split at hn
      · cases hn
        exact Or.inl h
      · cases hn
    · cases hn
      split at h
      · exact Or.inl (hmissed h)
      · exact Or.inl h
  | waited p st =>
    cases hn
    exact Or.inl (hwaited h)
  | forked p image =>
    simp only [next] at hn
    split at hn
    · cases hn
    · cases hn
      rcases h with h | h
      · cases h
      · cases h
        exact Or.inr ⟨image, rfl⟩
  | request req p inf proc failed =>
    left
    cases req with
    | attach =>
      simp only [next] at hn
      split at hn
      · cases hn
        exact h
      · split at hn
        · cases hn
        · cases hn
          rcases h with h | h <;> cases h
    | detach =>
      simp only [next] at hn
      split at hn
      · obtain ⟨how, -, rfl⟩ := Option.map_eq_some_iff.mp hn
        unfold detached at h
        split at h
        · rcases h with h | h <;> cases h
        · exact h
      · cases hn
    | cont | singlestep =>
      cases hn
      split at h
      · exact hresumed h
      · exact h
  | freed =>
    simp only [next] at hn
    split at hn
    · cases hn
    · cases hn
      exact Or.inl h

theorem forked_of_born (hc : custody tr = some c) (h : c.Born pid) : ∃ image, Event.forked pid image ∈ tr := by
  induction tr using List.reverseRecOn generalizing c with
  | nil =>
    cases hc
    rcases h with h | h <;> cases h
  | append_singleton tr e ih =>
    rw [custody_append, Option.bind_eq_some_iff] at hc
    obtain ⟨c₀, hc₀, hn⟩ := hc
    rcases Custody.born_of_next hn h with h₀ | ⟨image, rfl⟩
    · obtain ⟨image, hmem⟩ := ih hc₀ h₀
      exact ⟨image, List.mem_append_left _ hmem⟩
    · exact ⟨image, List.mem_append_right _ (List.mem_singleton_self _)⟩

/-- In an accepted trace `SIGKILL` was sent only to processes that had been forked. -/
theorem forked_of_killed {failed : Option Errno} (h : (custody (pre ++ .kill pid SIGKILL failed :: post)).isSome) :
    ∃ image, Event.forked pid image ∈ pre := by
  obtain ⟨c', hc'⟩ := Option.isSome_iff_exists.mp h
  unfold custody at hc'
  rw [List.foldlM_append] at hc'
  obtain ⟨c, hc, hrest⟩ := Option.bind_eq_some_iff.mp hc'
  rw [List.foldlM_cons] at hrest
  obtain ⟨c₁, hn, -⟩ := Option.bind_eq_some_iff.mp hrest
  refine forked_of_born hc (Or.inl ?_)
  by_contra hne
  simp [Custody.next, hne] at hn

/-! ### Lifecycle steps -/

/-- The inferior's own account of its process is that of the trace. -/
structure Life.Accounts (l : Life) (c : Custody) : Prop where
  attached : l.IsActive → l.isAttached = true → ∃ how, c = .attached l.pid how
  child : l.IsActive → l.isAttached = false → c = .child l.pid
  idle : ¬l.IsActive → c.holdsAttached = false

namespace Life.Accounts

theorem pid? (h : l.Accounts c) (hactive : l.IsActive) : c.pid? = some l.pid := by
  cases hatt : l.isAttached with
  | true =>
    obtain ⟨how, rfl⟩ := h.attached hactive hatt
    rfl
  | false =>
    obtain rfl := h.child hactive hatt
    rfl

/-- The inferior has no process, and the trace tells of none that it was attached to. -/
theorem of_idle (hl : ¬l.IsActive) (hc : c.holdsAttached = false) : l.Accounts c :=
  ⟨fun h => absurd h hl, fun h => absurd h hl, fun _ => hc⟩

theorem of_attached {how : Tracee} (hl : l.IsActive) (hatt : l.isAttached = true) (hc : c = .attached l.pid how) :
    l.Accounts c :=
  ⟨fun _ _ => ⟨how, hc⟩, fun _ h => (by rw [hatt] at h; cases h), fun h => absurd hl h⟩

theorem of_child (hl : l.IsActive) (hatt : l.isAttached = false) (hc : c = .child l.pid) : l.Accounts c :=
  ⟨fun _ h => (by rw [hatt] at h; cases h), fun _ _ => hc, fun h => absurd hl h⟩

theorem record (h : l.Accounts c) : (l.record e).Accounts c := ⟨h.attached, h.child, h.idle⟩

theorem confirmed (how : Tracee) (h : l.Accounts c) (hl : l.IsActive) (hl' : l'.IsActive) (hpid : l'.pid = l.pid)
    (hatt : l'.isAttached = l.isAttached) : l'.Accounts (c.confirmed how) := by
  cases hatt' : l'.isAttached with
  | true =>
    obtain ⟨how', rfl⟩ := h.attached hl (hatt ▸ hatt')
    exact of_attached hl' hatt' (by rw [hpid]; rfl)
  | false =>
    obtain rfl := h.child hl (hatt ▸ hatt')
    exact of_child hl' hatt' (by rw [hpid]; rfl)

/-- More is known of the process that the inferior is attached to. -/
theorem attached_to {how how' : Tracee} (h : l.Accounts (.attached pid how))
    (hheld : (Custody.attached pid how).holdsAttached = false → (Custody.attached pid how').holdsAttached = false) :
    l.Accounts (.attached pid how') := by
  by_cases hl : l.IsActive
  · cases hatt : l.isAttached with
    | true =>
      obtain ⟨how₀, heq⟩ := h.attached hl hatt
      cases heq
      exact of_attached hl hatt rfl
    | false => cases h.child hl hatt
  · exact of_idle hl (hheld (h.idle hl))

theorem missed (h : l.Accounts c) : l.Accounts (c.missed pid) := by
  unfold Custody.missed
  split
  · rename_i hc
    obtain ⟨how, hc⟩ := Option.isSome_iff_exists.mp hc
    obtain rfl := Custody.tracee?_eq_some.mp hc
    exact h.attached_to fun _ => rfl
  · exact h

theorem resumed (h : l.Accounts c) : l.Accounts (c.resumed pid) := by
  unfold Custody.resumed
  split
  · rename_i hc
    obtain rfl := Custody.tracee?_eq_some.mp hc
    exact h.attached_to fun hnone => by cases hnone
  · exact h

end Life.Accounts

theorem Custody.holdsAttached_missed (h : c = .child pid ∨ ∃ how, c = .attached pid how) :
    (c.missed pid).holdsAttached = false := by
  rcases h with rfl | ⟨how, rfl⟩
  · rfl
  · unfold missed
    rw [if_pos (by rw [tracee?_eq_some.mpr rfl]; rfl)]
    rfl

theorem Custody.holdsAttached_waited {st : WaitStatus} (h : c.holdsAttached = false) (hst : ∀ status, ¬Adopted st status) :
    (c.waited pid st).holdsAttached = false := by
  unfold waited
  split
  · cases st with
    | exited code => rfl
    | signaled sig => rfl
    | stopped sig => exact absurd (.stopped sig) (hst .stopped)
    | continued => exact absurd .continued (hst .running)
    | unknown => exact h
  · exact h

theorem Custody.holdsAttached_child {st : WaitStatus} : ((child pid).waited pid st).holdsAttached = false := by
  unfold waited
  rw [if_pos (show (child pid).pid? = some pid from rfl)]
  cases st <;> rfl

/-- The trace so far is accepted, and the inferior's own account of its process is that of the trace. -/
structure Life.Kept (l : Life) : Prop extends l.Agrees where
  accounts : ∃ c, custody l.trace = some c ∧ l.Accounts c

theorem Life.Kept.step (h : l.Kept) (hs : Step ⟨False, True, D⟩ l l') (hcaught : ¬Eluded l'.trace) : l'.Kept := by
  obtain ⟨c, hc, ha⟩ := h.accounts
  refine ⟨h.toAgrees.step hs, ?_⟩
  cases hs with
  | probed pid failed =>
    refine ⟨if failed = some ESRCH then c.missed pid else c, custody_record hc rfl, ?_⟩
    split
    · exact ha.missed.record
    · exact ha.record
  | noticed pid st gone idle =>
    refine ⟨c.waited pid st, custody_record hc rfl, ?_⟩
    rcases idle with idle | rfl
    · exact Accounts.of_idle idle (Custody.holdsAttached_waited (ha.idle idle) gone)
    · have : c.waited pid .unknown = c := by simp [Custody.waited]
      rw [this]
      exact ha.record
  | stopped sig live =>
    have hactive := h.live.mpr live
    refine ⟨c.confirmed .stopped, custody_record hc ?_, ha.confirmed .stopped hactive (Or.inr rfl) rfl rfl⟩
    simp [Custody.next, Custody.waited, ha.pid? hactive]
  | running live =>
    have hactive := h.live.mpr live
    refine ⟨c.confirmed .running, custody_record hc ?_, ha.confirmed .running hactive (Or.inl rfl) rfl rfl⟩
    simp [Custody.next, Custody.waited, ha.pid? hactive]
  | exited code live =>
    refine ⟨.none, custody_record hc ?_, Accounts.of_idle (by simp [IsActive]) rfl⟩
    simp [Custody.next, Custody.waited, ha.pid? (h.live.mpr live)]
  | terminated sig live =>
    refine ⟨.none, custody_record hc ?_, Accounts.of_idle (by simp [IsActive]) rfl⟩
    simp [Custody.next, Custody.waited, ha.pid? (h.live.mpr live)]
  | lost live =>
    have hactive := h.live.mpr live
    refine ⟨c.missed l.pid, custody_record hc rfl, Accounts.of_idle (by simp [IsActive, dissociated]) ?_⟩
    refine Custody.holdsAttached_missed ?_
    cases hatt : l.isAttached with
    | true => exact Or.inr (ha.attached hactive hatt)
    | false => exact Or.inl (ha.child hactive hatt)
  | signaled failed active own =>
    obtain rfl := ha.child active (own.resolve_left id)
    exact ⟨.child l.pid, custody_record hc (by simp [Custody.next]), ha.record⟩
  | killed active own =>
    obtain rfl := ha.child active (own.resolve_left id)
    exact ⟨.child l.pid, custody_record hc (by simp [Custody.next]), Accounts.of_idle (by simp [IsActive, dissociated]) rfl⟩
  | reaped st active own =>
    obtain rfl := ha.child active (own.resolve_left id)
    exact ⟨_, custody_record hc rfl, Accounts.of_idle (by simp [IsActive, dissociated]) Custody.holdsAttached_child⟩
  | refused inf proc failed active attached cleared clean there =>
    obtain ⟨how, rfl⟩ := ha.attached active attached
    refine ⟨.attached l.pid how, custody_record hc ?_, ha.record⟩
    simp [Custody.next, Custody.tracee?, Custody.detached, cleared, there]
  | released inf proc failed active attached cleared clean gone =>
    obtain ⟨how, rfl⟩ := ha.attached active attached
    refine ⟨.none, custody_record hc ?_, Accounts.of_idle (by simp [IsActive, dissociated]) rfl⟩
    have hgone : failed = none ∨ failed = some ESRCH ∧ how ≠ .running := by
      refine gone.imp_right fun hesrch => ⟨hesrch, ?_⟩
      rintro rfl
      exact hcaught ⟨l.trace, [], l.pid, inf, proc, _, by rw [hesrch]; rfl, hc, Custody.tracee?_eq_some.mpr rfl⟩
    simp [Custody.next, Custody.tracee?, Custody.detached, cleared, hgone]
  | asked start pid inf proc failed idle =>
    refine ⟨if failed ≠ none then c else .asked pid, custody_record hc ?_, ?_⟩
    · simp only [Custody.next, ha.idle idle]
      split <;> rfl
    · split
      · exact ha.record
      · exact Accounts.of_idle idle rfl
  | attached start pid inf proc st status idle pos adopted =>
    obtain ⟨how, hhow⟩ : ∃ how, (Custody.asked pid).next (.waited pid st) = some (.attached pid how) := by
      cases adopted with
      | stopped => exact ⟨.stopped, by simp [Custody.next, Custody.waited, Custody.pid?, Custody.confirmed]⟩
      | continued => exact ⟨.running, by simp [Custody.next, Custody.waited, Custody.pid?, Custody.confirmed]⟩
    refine ⟨.attached pid how, custody_record (c := .asked pid) (custody_record hc ?_) hhow, ?_⟩
    · simp [Custody.next, ha.idle idle]
    · exact Accounts.of_attached (by cases adopted <;> simp [IsActive]) rfl rfl
  | forked start pid image idle =>
    refine ⟨.started pid, custody_record hc ?_, Accounts.of_idle idle rfl⟩
    simp [Custody.next, ha.idle idle]
  | spawned start pid image st status idle pos adopted =>
    refine ⟨.child pid, custody_record (c := .started pid) (custody_record hc ?_) ?_, ?_⟩
    · simp [Custody.next, ha.idle idle]
    · cases adopted <;> simp [Custody.next, Custody.waited, Custody.pid?, Custody.confirmed]
    · exact Accounts.of_child (by cases adopted <;> simp [IsActive]) rfl rfl
  | resumed start req inf proc failed hreq =>
    refine ⟨if failed = none then c.resumed l.pid else c, custody_record hc ?_, ?_⟩
    · rcases hreq with rfl | rfl <;> rfl
    · split
      · exact ha.resumed.record
      · exact ha.record
  | destroyed idle =>
    refine ⟨c, custody_record hc ?_, ha.record⟩
    simp [Custody.next, ha.idle idle]

/-- A step only adds events, and detaches from a process with a memory that the license allows. -/
theorem Life.Step.adds (hs : Step may l l') : ∃ es, l'.trace = l.trace ++ es ∧
    ∀ pid inf proc failed, Event.request .detach pid inf proc failed ∈ es → may.detach pid proc.mem := by
  cases hs with
  | refused _ _ _ _ _ _ clean | released _ _ _ _ _ _ clean =>
    refine ⟨_, rfl, fun pid inf proc failed hmem => ?_⟩
    cases List.mem_singleton.mp hmem
    exact clean
  | attached | spawned => exact ⟨_, List.append_assoc .., fun _ _ _ _ hmem => by simp at hmem⟩
  | probed | noticed | stopped | running | exited | terminated | lost | signaled | killed | reaped | asked | forked | destroyed =>
    exact ⟨_, rfl, fun _ _ _ _ hmem => by simp at hmem⟩
  | resumed start req _ _ _ hreq =>
    refine ⟨_, rfl, fun _ _ _ _ hmem => ?_⟩
    rcases hreq with rfl | rfl <;> simp at hmem

theorem Life.Step.adds_run (hrun : Relation.ReflTransGen (Step may) l l') : ∃ es, l'.trace = l.trace ++ es ∧
    ∀ pid inf proc failed, Event.request .detach pid inf proc failed ∈ es → may.detach pid proc.mem := by
  induction hrun with
  | refl => exact ⟨[], (List.append_nil _).symm, fun _ _ _ _ hmem => by cases hmem⟩
  | tail _ hs ih =>
    obtain ⟨es, htrace, hes⟩ := ih
    obtain ⟨es', htrace', hes'⟩ := hs.adds
    refine ⟨es ++ es', by rw [htrace', htrace, List.append_assoc], fun pid inf proc failed hmem => ?_⟩
    exact (List.mem_append.mp hmem).elim (hes pid inf proc failed) (hes' pid inf proc failed)

theorem Eluded.append (h : Eluded pre) : Eluded (pre ++ post) := by
  obtain ⟨pre', post', pid, inf, proc, c, rfl, hc⟩ := h
  exact ⟨pre', post' ++ post, pid, inf, proc, c, by rw [List.append_assoc, List.cons_append], hc⟩

theorem Life.Kept.run (h : l.Kept) (hrun : Relation.ReflTransGen (Step ⟨False, True, D⟩) l l') (hcaught : ¬Eluded l'.trace) : l'.Kept := by
  induction hrun with
  | refl => exact h
  | tail _ hs ih =>
    obtain ⟨es, htrace, -⟩ := hs.adds
    exact (ih fun h => hcaught (htrace ▸ h.append)).step hs hcaught

theorem Life.Kept.new : Kept ⟨0, .none, false, []⟩ :=
  ⟨Agrees.new, .none, rfl, Accounts.of_idle (by simp [IsActive]) rfl⟩

/-! ### Runs -/

/-- In every run where no `run` gets to kill an attached process, and none eludes a `PTRACE_DETACH`: what the system was
    asked for is accepted in every state and however the next call ends; a live process that the inferior was attached to
    and not released from is its process still; and what a call detaches from is the inferior's process, which has at each
    address of an installed breakpoint the byte that this had replaced, and elsewhere what it had before the call. -/
theorem attached_released_of_run (hs : Created env s)
    (hrun : Relation.ReflTransGen (Step env fun s op => op.Spares env s ∧ op.Catches env s) s t) :
    (∃ c, custody t.trace = some c ∧ ∀ pid how, c = .attached pid how → how ≠ .gone →
      t.inf.IsActive ∧ t.inf.isAttached = true ∧ t.inf.pid = pid) ∧
    ∀ op : Op, op.Spares env t → op.Catches env t → ∀ u, (op.call env).Ends t u → (custody u.trace).isSome ∧
      ∀ pid inf proc failed, Event.request .detach pid inf proc failed ∈ t.since u → pid = t.inf.pid ∧ t.Hides proc.mem := by
  have ht : Went ⟨False, True, fun _ _ => True⟩ ⟨0, .none, false, []⟩ t :=
    went_of_run (fun _ _ h => Or.inr h.1) trivial (fun _ _ _ => trivial) hs hrun
  have hcaught : ¬Eluded t.trace := by
    cases hrun with
    | refl =>
      have htrace : s.trace = [] := congrArg Life.trace (created_life hs).1
      rw [htrace]
      rintro ⟨pre, post, pid, inf, proc, c, hnil, -⟩
      simp at hnil
    | tail _ hstep =>
      obtain ⟨-, op, hop, hret⟩ := hstep
      exact hop.2 _ (Or.inl hret)
  have hkept := Life.Kept.new.run ht.lives hcaught
  obtain ⟨c, hc, ha⟩ := hkept.accounts
  refine ⟨⟨c, hc, ?_⟩, fun op hspares hcatches u hends => ?_⟩
  · rintro pid how rfl hhow
    by_cases hactive : t.life.IsActive
    · cases hatt : t.inf.isAttached with
      | true =>
        obtain ⟨how', heq⟩ := ha.attached hactive hatt
        cases heq
        exact ⟨hactive, rfl, rfl⟩
      | false => cases ha.child hactive hatt
    · have hgone := ha.idle hactive
      cases how with
      | gone => exact absurd rfl hhow
      | stopped | running => cases hgone
  · have hlives : Lives ⟨False, True, fun pid m => pid = t.inf.pid ∧ t.Hides m⟩ t.life t := Relation.ReflTransGen.refl
    obtain ⟨l, hl, htrace⟩ := ((op.wp_life hlives ht.tableOk trivial (Or.inr hspares) fun m hm => ⟨rfl, hm⟩).mono
      (fun _ _ h => h.lives.ended) (fun _ _ h => h.lives.ended) fun _ _ => id).ends hends
    obtain ⟨es, hes, hclean⟩ := Life.Step.adds_run hl
    obtain ⟨c, hc, -⟩ := (hkept.run hl (htrace ▸ hcatches u hends)).accounts
    rw [← htrace, hc]
    refine ⟨rfl, fun pid inf proc failed hmem => hclean pid inf proc failed ?_⟩
    have hsince : t.since u = es := by rw [State.since, Trail.since, ← htrace, hes]; exact List.drop_left
    rwa [hsince] at hmem

/-- `PTRACE_DETACH` was refused with `ESRCH`. -/
def Event.lacksProcess : Event → Bool
  | .request .detach _ _ _ failed => failed = some ESRCH
  | _ => false

theorem not_eluded (h : ∀ e ∈ tr, e.lacksProcess = false) : ¬Eluded tr := by
  rintro ⟨pre, post, pid, inf, proc, c, rfl, -⟩
  have hmem := h (.request .detach pid inf proc (some ESRCH)) (by simp)
  simp [Event.lacksProcess] at hmem

theorem catches_of_state {op : Op} (h : ∀ e ∈ (s.after (op.call env)).trace, e.lacksProcess = false) : op.Catches env s := by
  intro u hends
  have hu : u = s.after (op.call env) := by
    rcases hends with (⟨a, hok⟩ | ⟨c, herr⟩) | ⟨f, hfault⟩
    · rw [State.after, hok]
      rfl
    · rw [State.after, herr]
      rfl
    · rw [State.after, hfault]
      rfl
  exact hu ▸ not_eluded h

/-- An inferior is attached to a process, a breakpoint is set in it, and it is destroyed: the process was let go with the
    byte that was there before. -/
theorem attached_released_of_run_destroy :
    (custody (State.withBreakpoint.after (inferiorDestroy .compliant)).trace).isSome ∧
      ∀ pid inf proc failed,
        Event.request .detach pid inf proc failed ∈ State.withBreakpoint.since (State.withBreakpoint.after (inferiorDestroy .compliant)) →
        pid = 7 ∧ proc.mem 4096 = 0 := by
  have hattach : Step .compliant (fun s op => op.Spares .compliant s ∧ op.Catches .compliant s) State.created State.attached :=
    ⟨by decide +kernel, .attach 7, ⟨fun h => (by cases h), catches_of_state (by decide +kernel)⟩,
      Or.inl ⟨(), State.after_ok (by decide +kernel)⟩⟩
  have hset : Step .compliant (fun s op => op.Spares .compliant s ∧ op.Catches .compliant s) State.attached State.withBreakpoint :=
    ⟨by decide +kernel, .breakpoint (.set 4096), ⟨fun h => (by cases h), catches_of_state (by decide +kernel)⟩,
      Or.inl ⟨(), State.after_ok (by decide +kernel)⟩⟩
  obtain ⟨haccepted, hclean⟩ := (@attached_released_of_run .compliant State.created State.withBreakpoint
    ⟨State.blank, rfl, rfl, State.after_ok (by decide +kernel)⟩ ((Relation.ReflTransGen.single hattach).tail hset)).2 .destroy
    (fun h => (by cases h)) (catches_of_state (by decide +kernel)) _ (Or.inl (Or.inl ⟨(), State.after_ok (by decide +kernel)⟩))
  refine ⟨haccepted, fun pid inf proc failed hmem => ?_⟩
  obtain ⟨hpid, hhides⟩ := hclean pid inf proc failed hmem
  refine ⟨hpid.trans (by decide +kernel), ?_⟩
  have hsaved := hhides.saved 0 (by decide +kernel) (by decide +kernel)
  have haddr : (State.withBreakpoint.inf.slot 0).addr = 4096 := by decide +kernel
  rw [haddr] at hsaved
  exact hsaved.symm.trans (by decide +kernel)

/-- Where the inferior is attached to a process, `run` kills that process. -/
theorem run_kills_attached :
    Reachable .compliant State.attached ∧ custody State.attached.trace = some (.attached 7 .stopped) ∧
      (run .compliant State.attached).error? = some .procStopped ∧
      custody (State.attached.after (run .compliant)).trace = none :=
  ⟨State.attached_reachable, by decide +kernel, by decide +kernel, by decide +kernel⟩

/-- A system where a process that was attached to goes on, and cannot be detached from then. -/
def Env.onward : Env :=
  { Env.compliant with
    waitpid := fun _ => .ok .continued
    ptrace := fun n => if n ≤ State.attached.scratch.clock then none else some ⟨ESRCH, ESRCH_ne_zero⟩ }

/-- `sylvan_detach` takes a process that runs for one that is gone. -/
example : ((State.created.after (attach .onward 7)).after (detach .onward)).inf.isAttached = false ∧
    custody ((State.created.after (attach .onward 7)).after (detach .onward)).trace = some (.attached 7 .running) := by
  decide +kernel

end

end Sylvan
