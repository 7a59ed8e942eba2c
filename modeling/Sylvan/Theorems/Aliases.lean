import Sylvan.Theorems.Commands

/-! What an alias resolves to, over any sequence of `insert_alias` calls. The aliases are searched before the commands,
    and an alias is followed once: so an alias of an alias leads to no command, and an alias that is named as a command
    takes the command's place. -/

namespace Sylvan
open Exec

/-! ### Names -/

section Names
variable {l : List Alias} {a : Alias} {n o : String} {cmd : Command}

theorem findCommand_name (h : findCommand n = some cmd) : cmd.name = n := by
  simpa using List.find?_some h

/-- Different names are different commands. -/
theorem findCommand_inj (hn : findCommand n = some cmd) (ho : findCommand o = some cmd) : o = n :=
  (findCommand_name ho).symm.trans (findCommand_name hn)

theorem lookupCommand_of_none (h : findAlias l n = none) : lookupCommand l n = findCommand n := by
  rw [lookupCommand, h]
  rfl

theorem lookupCommand_of_some (h : findAlias l n = some a) : lookupCommand l n = findCommand a.orgCmd := by
  rw [lookupCommand, h]
  rfl

/-- A new alias leaves the other names alone. -/
theorem findAlias_append_ne (hn : n ≠ a.name) : findAlias (l ++ [a]) n = findAlias l n := by
  unfold findAlias
  rw [List.find?_append, List.find?_singleton, if_neg (by simpa using hn.symm), Option.or_none]

theorem findAlias_append_self (h : findAlias l a.name = none) : findAlias (l ++ [a]) a.name = some a := by
  unfold findAlias at h ⊢
  rw [List.find?_append, h, Option.none_or, List.find?_singleton, if_pos (by simp)]

theorem lookupCommand_append_ne (hn : n ≠ a.name) : lookupCommand (l ++ [a]) n = lookupCommand l n := by
  rw [lookupCommand, findAlias_append_ne hn, lookupCommand]

theorem lookupCommand_append_self (h : findAlias l a.name = none) : lookupCommand (l ++ [a]) a.name = findCommand a.orgCmd :=
  lookupCommand_of_some (findAlias_append_self h)

end Names

/-! ### What `insert_alias` does -/

/-- `s` becomes `t` by one more alias `a`, of a new name and for a name that resolves. -/
structure Inserted (s t : Session) (a : Alias) : Prop where
  fresh : findAlias s.aliases a.name = none
  known : (lookupCommand s.aliases a.orgCmd).isSome
  aliases : t.aliases = s.aliases ++ [a]

section Insert
variable {env : UiEnv} {F : Fault → Session → Prop} {E : Int → Session → Prop} {s t : Session} {name orgCmd : Option String}
  {id : Int} {type : Char}

theorem wp_sys_malloc {Q : Bool → Session → Prop} (h : ∀ b x, Q b { s with state := s.state.withScratch x }) :
    wp F (sys (Sys.malloc env.toEnv)) Q E s :=
  wp_sys.mpr (wp_malloc h)

theorem wp_insertAlias {Q : Bool → Session → Prop} (hrefused : ∀ t : Session, t.aliases = s.aliases → Q false t)
    (hadded : ∀ n o t, name = some n → orgCmd = some o → Inserted s t { name := n, orgCmd := o, id, type } → Q true t) :
    wp F (insertAlias env name orgCmd id type) Q E s := by
  unfold insertAlias
  rcases name with _ | n
  · exact hrefused s rfl
  rcases orgCmd with _ | o
  · exact hrefused s rfl
  rw [wp_bind, wp_get, wp_ite]
  split
  · exact hrefused _ rfl
  rename_i hfresh
  rw [wp_ite]
  split
  · exact hrefused _ rfl
  rename_i hknown
  refine wp_bind.mpr (wp_sys_malloc fun b x => ?_)
  rw [wp_ite]
  split
  · exact hrefused _ rfl
  refine wp_bind.mpr (wp_sys_malloc fun nameCopied y => wp_bind.mpr (wp_sys_malloc fun orgCmdCopied z => ?_))
  rw [wp_ite]
  split
  · exact hrefused _ rfl
  · rw [wp_bind, wp_modify, wp_bind, printf, wp_print, wp_pure]
    exact hadded n o _ rfl rfl
      ⟨Option.not_isSome_iff_eq_none.mp hfresh, Option.isSome_iff_ne_none.mpr fun h => hknown (Option.isNone_iff_eq_none.mpr h), rfl⟩

theorem insertAlias_cases {r : Bool} (h : insertAlias env name orgCmd id type s = .ok r t) :
    (r = false ∧ t.aliases = s.aliases) ∨
      r = true ∧ ∃ n o, name = some n ∧ orgCmd = some o ∧ Inserted s t { name := n, orgCmd := o, id, type } := by
  have hwp : wp (fun _ _ => True) (insertAlias env name orgCmd id type) (fun r t => (r = false ∧ t.aliases = s.aliases) ∨
      r = true ∧ ∃ n o, name = some n ∧ orgCmd = some o ∧ Inserted s t { name := n, orgCmd := o, id, type }) (fun _ _ => True) s :=
    wp_insertAlias (fun _ ht => Or.inl ⟨rfl, ht⟩) fun n o _ hn ho hins => Or.inr ⟨rfl, n, o, hn, ho, hins⟩
  exact hwp.ok h

theorem malloc_granted (hmalloc : ∀ k, env.malloc k = true) :
    sys (Sys.malloc env.toEnv) s = .ok true { s with state := s.state.withScratch s.state.scratch.tick } := by
  refine sys_ok ?_
  show Outcome.ok (env.malloc s.state.scratch.clock) (s.state.withScratch s.state.scratch.tick) = _
  rw [hmalloc]

/-- With memory to spare, a new alias for a name that resolves is accepted. -/
theorem insertAlias_accepts {n o : String} (hmalloc : ∀ k, env.malloc k = true) (hfresh : findAlias s.aliases n = none)
    (hknown : (lookupCommand s.aliases o).isSome) : ∃ t, insertAlias env (some n) (some o) id type s = .ok true t := by
  suffices hwp : wp (fun _ _ => False) (insertAlias env (some n) (some o) id type) (fun r _ => r = true) (fun _ _ => False) s by
    obtain ⟨r, t, ht, rfl⟩ := hwp.exists_ok
    exact ⟨t, ht⟩
  have hnew : ¬(findAlias s.aliases n).isSome = true := Option.not_isSome_iff_eq_none.mpr hfresh
  have hfound : ¬(lookupCommand s.aliases o).isNone = true := fun h =>
    Option.isSome_iff_ne_none.mp hknown (Option.isNone_iff_eq_none.mp h)
  unfold insertAlias
  rw [wp_bind, wp_get, wp_ite, if_neg hnew, wp_ite, if_neg hfound, wp_bind]
  refine wp_of_eq_ok (malloc_granted hmalloc) ?_
  rw [wp_ite, if_neg (by decide), wp_bind]
  refine wp_of_eq_ok (malloc_granted hmalloc) ?_
  rw [wp_bind]
  refine wp_of_eq_ok (malloc_granted hmalloc) ?_
  rw [wp_ite, if_neg (by decide)]
  rfl

end Insert

/-! ### Runs -/

/-- `t` is reached from `s` by calls of `insert_alias`. -/
def Inserts (env : UiEnv) : Session → Session → Prop :=
  Relation.ReflTransGen fun s t => ∃ name orgCmd id type r, insertAlias env name orgCmd id type s = .ok r t

section Runs
variable {env : UiEnv} {s t : Session} {n : String} {a : Alias} {name orgCmd : Option String} {id : Int} {type : Char} {r : Bool}

/-- An alias stays what it is. -/
theorem findAlias_insert (hs : findAlias s.aliases n = some a) (h : insertAlias env name orgCmd id type s = .ok r t) :
    findAlias t.aliases n = some a := by
  rcases insertAlias_cases h with ⟨-, haliases⟩ | ⟨-, m, o, -, -, hins⟩
  · rw [haliases]
    exact hs
  · have hne : n ≠ m := fun hnm => by
      subst hnm
      cases hs.symm.trans hins.fresh
    rw [hins.aliases, findAlias_append_ne hne]
    exact hs

theorem findAlias_inserts (hs : findAlias s.aliases n = some a) (h : Inserts env s t) : findAlias t.aliases n = some a := by
  induction h with
  | refl => exact hs
  | tail _ hstep ih =>
    obtain ⟨name, orgCmd, id, type, r, hrun⟩ := hstep
    exact findAlias_insert ih hrun

end Runs

/-- The alias leads to the command that `orgCmd` led to, and goes on to do so. -/
def AliasWorks (env : UiEnv) (s t : Session) (name orgCmd : String) : Prop :=
  ∃ cmd, lookupCommand s.aliases orgCmd = some cmd ∧ ∀ u, Inserts env t u → lookupCommand u.aliases name = some cmd

/-- An accepted alias works just if `orgCmd` was no alias of another name. -/
theorem accepted_alias_works_iff (env : UiEnv) (s t : Session) (name orgCmd : String) (id : Int) (type : Char)
    (h : insertAlias env (some name) (some orgCmd) id type s = .ok true t) :
    AliasWorks env s t name orgCmd ↔ ∀ a, findAlias s.aliases orgCmd = some a → a.orgCmd = orgCmd := by
  rcases insertAlias_cases h with ⟨hfalse, -⟩ | ⟨-, n, o, hn, ho, hins⟩
  · cases hfalse
  cases hn
  cases ho
  have hfound : findAlias t.aliases name = some { name, orgCmd, id, type } := by
    rw [hins.aliases]
    exact findAlias_append_self hins.fresh
  obtain ⟨cmd, hcmd⟩ := Option.isSome_iff_exists.mp hins.known
  constructor
  · rintro ⟨cmd', hcmd', hlater⟩ a ha
    have hnow : findCommand orgCmd = some cmd' := (lookupCommand_of_some hfound).symm.trans (hlater t Relation.ReflTransGen.refl)
    exact findCommand_inj hnow ((lookupCommand_of_some ha).symm.trans hcmd')
  · intro horg
    refine ⟨cmd, hcmd, fun u hu => ?_⟩
    rw [lookupCommand_of_some (findAlias_inserts hfound hu), ← hcmd]
    cases hfind : findAlias s.aliases orgCmd with
    | none => exact (lookupCommand_of_none hfind).symm
    | some a => rw [lookupCommand_of_some hfind, horg a hfind]

/-- A session after `init_commands`, and after calls of `insert_alias` -/
def Registered (env : UiEnv) (s : Session) : Prop := ∃ s₀ t, initCommands s₀ = .ok () t ∧ Inserts env t s

/-- The session at the start -/
def Session.fresh : Session := Session.on State.blank

theorem fresh_registered (env : UiEnv) : Registered env Session.fresh :=
  ⟨Session.fresh, Session.fresh, rfl, Relation.ReflTransGen.refl⟩

theorem accepted_alias_works_iff_x : ∃ t, insertAlias (UiEnv.on .compliant) (some "x") (some "help") 25 'u' Session.fresh = .ok true t ∧
    AliasWorks (UiEnv.on .compliant) Session.fresh t "x" "help" := by
  have hcommand : findAlias Session.fresh.aliases "help" = none := by decide +kernel
  obtain ⟨t, ht⟩ := @insertAlias_accepts (UiEnv.on .compliant) Session.fresh 25 'u' "x" "help" (fun _ => rfl) (by decide +kernel)
    (by decide +kernel)
  refine ⟨t, ht, (accepted_alias_works_iff _ _ t "x" "help" 25 'u' ht).mpr fun a ha => ?_⟩
  cases hcommand.symm.trans ha

/-- An alias of the alias `h` is accepted, and leads to no command. -/
theorem alias_of_alias_dead : ∃ t, Registered (UiEnv.on .compliant) Session.fresh ∧
    insertAlias (UiEnv.on .compliant) (some "x") (some "h") 25 'u' Session.fresh = .ok true t ∧
    ¬AliasWorks (UiEnv.on .compliant) Session.fresh t "x" "h" := by
  obtain ⟨t, ht⟩ := @insertAlias_accepts (UiEnv.on .compliant) Session.fresh 25 'u' "x" "h" (fun _ => rfl) (by decide +kernel)
    (by decide +kernel)
  refine ⟨t, fresh_registered _, ht, ?_⟩
  rintro ⟨cmd, -, hlater⟩
  have hnow := hlater t Relation.ReflTransGen.refl
  rcases insertAlias_cases ht with ⟨hfalse, -⟩ | ⟨-, n, o, hn, ho, hins⟩
  · cases hfalse
  cases hn
  cases ho
  rw [hins.aliases, lookupCommand_append_self hins.fresh] at hnow
  exact absurd hnow (show ¬findCommand "h" = some cmd from (show findCommand "h" = none by decide +kernel) ▸ nofun)

/-! ### Names that are in use -/

/-- The call changes the command of no name that has one, and nothing if it is refused. -/
structure NoCapture (s : Session) (name orgCmd : Option String) (id : Int) (type : Char) : Prop where
  kept : ∀ env r t, insertAlias env name orgCmd id type s = .ok r t →
    ∀ n cmd, lookupCommand s.aliases n = some cmd → lookupCommand t.aliases n = some cmd
  refused : ∀ env t, insertAlias env name orgCmd id type s = .ok false t →
    ∀ n, lookupCommand t.aliases n = lookupCommand s.aliases n

/-- The name is an alias already, or `orgCmd` does not resolve, or the name is no command, or it is `orgCmd` itself. -/
def Harmless (s : Session) (name orgCmd : Option String) : Prop :=
  ∀ n o, name = some n → orgCmd = some o →
    (findAlias s.aliases n).isSome ∨ lookupCommand s.aliases o = none ∨ findCommand n = none ∨ o = n

section Capture
variable {env : UiEnv} {s t : Session} {n : String} {a : Alias} {name orgCmd : Option String} {id : Int} {type : Char} {r : Bool}
  {cmd : Command}

/-- A new alias that is named as no command, or as the command that it is for -/
theorem Inserted.kept (h : Inserted s t a) (ha : findCommand a.name = none ∨ a.orgCmd = a.name)
    (hn : lookupCommand s.aliases n = some cmd) : lookupCommand t.aliases n = some cmd := by
  rw [h.aliases]
  by_cases hname : n = a.name
  · subst hname
    rw [lookupCommand_of_none h.fresh] at hn
    rcases ha with hnone | hself
    · cases hnone.symm.trans hn
    · rw [lookupCommand_append_self h.fresh, hself, hn]
  · rw [lookupCommand_append_ne hname, hn]

theorem kept_of_harmless (hs : Harmless s name orgCmd) (h : insertAlias env name orgCmd id type s = .ok r t)
    (hn : lookupCommand s.aliases n = some cmd) : lookupCommand t.aliases n = some cmd := by
  rcases insertAlias_cases h with ⟨-, haliases⟩ | ⟨-, m, o, hname, horg, hins⟩
  · rw [haliases, hn]
  · rcases hs m o hname horg with hsome | hnone | hno | hself
    · exact absurd hins.fresh (Option.isSome_iff_ne_none.mp hsome)
    · exact absurd hnone (Option.isSome_iff_ne_none.mp hins.known)
    · exact hins.kept (Or.inl hno) hn
    · exact hins.kept (Or.inr hself) hn

/-- A command that an alias of another name takes the place of is lost. -/
theorem Inserted.lost (h : Inserted s t a) (hcmd : findCommand a.name = some cmd) (hne : a.orgCmd ≠ a.name) :
    lookupCommand s.aliases a.name = some cmd ∧ lookupCommand t.aliases a.name ≠ some cmd := by
  refine ⟨(lookupCommand_of_none h.fresh).trans hcmd, fun hkept => ?_⟩
  rw [h.aliases, lookupCommand_append_self h.fresh] at hkept
  exact hne (findCommand_inj hcmd hkept)

theorem no_capture_of_harmless (hs : Harmless s name orgCmd) : NoCapture s name orgCmd id type where
  kept _ _ _ h _ _ hn := kept_of_harmless hs h hn
  refused _ _ h n := by
    rcases insertAlias_cases h with ⟨-, haliases⟩ | ⟨htrue, -⟩
    · rw [haliases]
    · cases htrue

theorem harmless_of_no_capture (h : NoCapture s name orgCmd id type) : Harmless s name orgCmd := by
  rintro n o rfl rfl
  by_contra hharm
  rw [not_or, not_or, not_or, Option.not_isSome_iff_eq_none] at hharm
  obtain ⟨hfresh, hknown, hcmd, hne⟩ := hharm
  obtain ⟨cmd, hcmd⟩ := Option.ne_none_iff_exists'.mp hcmd
  obtain ⟨t, ht⟩ := @insertAlias_accepts (UiEnv.on .compliant) s id type n o (fun _ => rfl) hfresh (Option.isSome_iff_ne_none.mpr hknown)
  rcases insertAlias_cases ht with ⟨hfalse, -⟩ | ⟨-, n', o', hn, ho, hins⟩
  · cases hfalse
  cases hn
  cases ho
  obtain ⟨hbefore, hafter⟩ := hins.lost hcmd hne
  exact hafter (h.kept _ _ t ht n cmd hbefore)

end Capture

/-- `t` is reached from `s` by calls of `insert_alias` that are harmless. -/
def HarmlessInserts (env : UiEnv) : Session → Session → Prop :=
  Relation.ReflTransGen fun s t => ∃ name orgCmd id type r, Harmless s name orgCmd ∧ insertAlias env name orgCmd id type s = .ok r t

/-- A call captures no name just if it is harmless, and a run of such calls captures none either. -/
theorem no_capture_iff (s : Session) (name orgCmd : Option String) (id : Int) (type : Char) :
    (NoCapture s name orgCmd id type ↔ Harmless s name orgCmd) ∧
    ∀ env u, HarmlessInserts env s u → ∀ n cmd, lookupCommand s.aliases n = some cmd → lookupCommand u.aliases n = some cmd := by
  refine ⟨⟨harmless_of_no_capture, no_capture_of_harmless⟩, fun env u hrun n cmd hn => ?_⟩
  induction hrun with
  | refl => exact hn
  | tail _ hstep ih =>
    obtain ⟨name, orgCmd, id, type, r, hharmless, hcall⟩ := hstep
    exact kept_of_harmless hharmless hcall ih

/-- At the start, `insert_alias("help", "quit", 25, 'u')` takes the place of `help`. -/
theorem help_captured : Registered (UiEnv.on .compliant) Session.fresh ∧ ¬NoCapture Session.fresh (some "help") (some "quit") 25 'u' := by
  refine ⟨fresh_registered _, fun h => ?_⟩
  obtain ⟨t, ht⟩ := @insertAlias_accepts (UiEnv.on .compliant) Session.fresh 25 'u' "help" "quit" (fun _ => rfl) (by decide +kernel)
    (by decide +kernel)
  rcases insertAlias_cases ht with ⟨hfalse, -⟩ | ⟨-, n, o, hn, ho, hins⟩
  · cases hfalse
  cases hn
  cases ho
  obtain ⟨cmd, hcmd⟩ := Option.isSome_iff_exists.mp (show (findCommand "help").isSome by decide +kernel)
  obtain ⟨hbefore, hafter⟩ := hins.lost hcmd (by decide)
  exact hafter (h.kept _ _ t ht "help" cmd hbefore)

/-! ### The command `set_alias` -/

/-- The handler that `handle_command` calls -/
def dispatch (aliases : List Alias) (command : Argv) : Option Handler :=
  (command.arg 0).bind fun name => (lookupCommand aliases name.text).map Command.handler

section SetAlias
variable {env : UiEnv} {s : Session} {command : Argv} {h : Handler} {n c a : CStr} {slots : List (Option CStr)}

theorem dispatch_cons {rest : List CStr} : dispatch s.aliases ⟨n :: rest, slots⟩ = (lookupCommand s.aliases n.text).map Command.handler := rfl

theorem handleCommand_dispatch (hd : dispatch s.aliases command = some h) : handleCommand env command s = h.call env command s := by
  obtain ⟨name, hname, hcmd⟩ := Option.bind_eq_some_iff.mp hd
  obtain ⟨cmd, hlookup, rfl⟩ := Option.map_eq_some_iff.mp hcmd
  unfold handleCommand
  rw [hname]
  dsimp only
  rw [bind_of_ok (show Exec.get s = .ok s s from rfl), hlookup]

/-- What the handler takes as the command is the `NULL` behind the last word. -/
theorem setAlias_refused (hn : dispatch s.aliases ⟨[n, c, a], slots⟩ = some .setAlias) :
    handleCommand env ⟨[n, c, a], slots⟩ s = .ok 0 { s with out := s.out ++ [.error "Failed to add alias" []] } := by
  rw [handleCommand_dispatch hn]
  rfl

end SetAlias

/-- After `set_alias c a`, typed as `command`, the words in front of which `a` stands are dispatched as they are behind `c`. -/
def SetAliasWorks (env : UiEnv) (s : Session) (command : Argv) (c a : CStr) : Prop :=
  ∃ r t, handleCommand env command s = .ok r t ∧
    ∀ rest slots, dispatch t.aliases ⟨a :: rest, slots⟩ = dispatch t.aliases ⟨c :: rest, slots⟩

/-- Whatever the registry, for no command and no new name `set_alias` works. -/
theorem set_alias_never_works (env : UiEnv) (s : Session) (n c a : CStr) (slots : List (Option CStr))
    (hn : dispatch s.aliases ⟨[n, c, a], slots⟩ = some .setAlias) (hc : (lookupCommand s.aliases c.text).isSome)
    (ha : lookupCommand s.aliases a.text = none) : ¬SetAliasWorks env s ⟨[n, c, a], slots⟩ c a := by
  rintro ⟨r, t, hrun, hsame⟩
  rw [setAlias_refused hn] at hrun
  cases hrun
  have hnone := hsame [] []
  rw [dispatch_cons, dispatch_cons, ha, Option.map_none] at hnone
  exact Option.isSome_iff_ne_none.mp hc (Option.map_eq_none_iff.mp hnone.symm)

theorem set_alias_never_works_r : ¬SetAliasWorks (UiEnv.on .compliant) Session.fresh
    ⟨[⟨"set_alias", by decide, []⟩, ⟨"run", by decide, []⟩, ⟨"go", by decide, []⟩], []⟩ ⟨"run", by decide, []⟩ ⟨"go", by decide, []⟩ :=
  set_alias_never_works (UiEnv.on .compliant) Session.fresh _ _ _ [] (by decide +kernel) (by decide +kernel) (by decide +kernel)

/-- `set_alias run go` does not make `go` a command. -/
theorem set_alias_run_go : Registered (UiEnv.on .compliant) Session.fresh ∧ ¬SetAliasWorks (UiEnv.on .compliant) Session.fresh
    ⟨[⟨"set_alias", by decide, []⟩, ⟨"run", by decide, []⟩, ⟨"go", by decide, []⟩], []⟩ ⟨"run", by decide, []⟩ ⟨"go", by decide, []⟩ := by
  refine ⟨fresh_registered _, ?_⟩
  rintro ⟨r, t, hrun, hsame⟩
  rw [setAlias_refused (by decide +kernel)] at hrun
  cases hrun
  exact absurd (hsame [] []) (by decide +kernel)

end Sylvan
