import Sylvan.Theorems.AliasSweep
import Sylvan.Theorems.TableListings
import Sylvan.Theorems.Tokens

/-! # Commands on the registry in memory

A turn of `interface_loop` on the tables does what a turn on the lists does, and adds one alias at most. The commands that go
through the tables are taken one by one; what the others do is the same computation on both sides. -/

namespace Sylvan
open Exec

section Commands
variable {env : RegistryEnv} {r : Registry} {s : Session} {n : Nat} {command : Argv}

/-! ### What leaves the tables alone -/

theorem StateOnly.keeps_rest {α : Type} {x : UiM α} (hx : StateOnly x) : Keeps (fun s t => t.rest = s.rest) x := by
  intro s
  have h := hx s.rest s.rest s s ⟨rfl, rfl⟩
  unfold wp
  cases hxs : x s <;> rw [hxs] at h
  case ok => exact h.2.1
  case error => exact h.2.1
  case fault => exact (h.resolve_left id).2.1

theorem Session.Brief.of_rest {t : Session} (hs : s.Brief) (h : t.rest = s.rest) : t.Brief := by
  have hhistory : t.history = s.history := congrArg (fun r => r.2.2) h
  unfold Session.Brief
  rwa [hhistory]

theorem StateOnly.brief {α : Type} {x : UiM α} (hx : StateOnly x) (hs : s.Brief) :
    wp (fun _ => Session.Brief) x (fun _ => Session.Brief) (fun _ => Session.Brief) s :=
  (hx.keeps_rest s).mono (fun _ _ => hs.of_rest) (fun _ _ => hs.of_rest) fun _ _ => hs.of_rest

/-- What does not look at the aliases does the same on both sides. -/
theorem AliasFree.matches {α : Type} {x : UiM α} (hx : AliasFree x) (hm : UpTo env n r s)
    (hbrief : wp (fun _ => Session.Brief) x (fun _ => Session.Brief) (fun _ => Session.Brief) s) :
    Matches .ui Exhausted (UpTo env n) (Registry.onSession x r) (x s) := by
  have h := (hx r.session.aliases s.aliases r.session s ⟨rfl, hm.models.session⟩).and_wp hbrief
  refine h.zoom fun u t hut => ?_
  obtain ⟨⟨-, rfl⟩, ht⟩ := hut
  exact ⟨⟨rfl, hm.models.commands, hm.models.aliases, ht⟩, hm.length⟩

theorem StateOnly.refines {α : Type} {x : UiM α} (hx : StateOnly x) :
    Refines .ui Exhausted (UpTo env n) (UpTo env n) (Registry.onSession x) x := fun _ _ h =>
  hx.aliasFree.matches h (hx.brief h.models.history)

theorem UpTo.succ (h : UpTo env n r s) : UpTo env (n + 1) r s := ⟨h.models, Nat.le_succ_of_le h.length⟩

/-! ### Listings -/

theorem UpTo.printed (h : UpTo env n r s) {outputs : List Output} : UpTo env n (r.printed outputs) (s.printed outputs) :=
  ⟨h.models.printed, h.length⟩

theorem printCommandsOf_refines (title : String) (tp : CommandType) :
    Refines .ui Exhausted (UpTo env n) (UpTo env n) (Registry.printCommandsOf title tp) (printCommandsOf title tp) := by
  intro r s h
  refine .of_wp ((wp_printCommandsOf h.models.commands).imp (fun _ r' hr' => ?_) fun _ _ => id)
  subst hr'
  exact ⟨_, printCommandsOf_printed, h.printed⟩

theorem printCommands_refines (tp : CommandType) (printAll : Bool) :
    Refines .ui Exhausted (UpTo env n) (UpTo env n) (Registry.printCommands tp printAll) (printCommands tp printAll) :=
  (Refines.when (printCommandsOf_refines _ _) fun _ _ => id).seq fun _ =>
    (Refines.when (printCommandsOf_refines _ _) fun _ _ => id).seq fun _ => .when (printCommandsOf_refines _ _) fun _ _ => id

theorem printAliases_refines : Refines .ui Exhausted (UpTo env n) (UpTo env n) (Registry.iterAliases Registry.printAlias) (do
    Exec.each (← Exec.get).aliases fun a => printf "%-20s %-8s\n" [.str a.name, .str a.orgCmd]) := by
  intro r s h
  obtain ⟨es, ha⟩ := h.models.aliases
  refine .of_wp ((wp_printAliases ha).imp (fun _ r' hr' => ?_) fun _ _ => id)
  subst hr'
  have hlist := each_printed (f := fun a : Alias => [.stdout "%-20s %-8s\n" [.str a.name, .str a.orgCmd]])
    (fun _ _ => printf_printed) s.aliases s
  rw [← List.map_eq_flatMap] at hlist
  exact ⟨_, hlist, h.printed⟩

theorem handleInfoAlias_refines :
    Refines .ui Exhausted (UpTo env n) (UpTo env n) (Registry.handleInfoAlias command) (handleInfoAlias command) := by
  have hassoc : handleInfoAlias command = (do
      Exec.when (command.arg 1).isSome invalidArguments
      printf "Command Name         Alias   \n" []
      printf "-------------------- -------\n" []) >>= fun _ => (do
        Exec.each (← Exec.get).aliases fun a => printf "%-20s %-8s\n" [.str a.name, .str a.orgCmd]) := by
    rw [Exec.bind_assoc]
    simp only [Exec.bind_assoc]
    rfl
  rw [hassoc]
  have hheader : StateOnly (do
      Exec.when (command.arg 1).isSome invalidArguments
      printf "Command Name         Alias   \n" []
      printf "-------------------- -------\n" []) := .bind .invalidIf fun _ => .bind (.printf _ _) fun _ => .printf _ _
  exact hheader.refines.seq fun _ => printAliases_refines

/-! ### `set_alias` -/

theorem mem_tokens_of_arg {c : CStr} {k : Nat} (hk : k ≤ command.texts.length) (h : command.arg k = some c) : c.text ∈ command.texts := by
  have htext := Argv.arg_text hk
  rw [h] at htext
  exact List.mem_of_getElem? htext.symm

theorem lt_of_arg {c : CStr} {k : Nat} (hk : k ≤ command.texts.length) (h : command.arg k = some c) : k < command.texts.length := by
  refine Nat.lt_of_le_of_ne hk fun heq => ?_
  rw [Argv.arg_none heq.symm] at h
  cases h

/-- `HASH_COUNT(alias_table) + 1` -/
theorem wp_aliasId (h : UpTo env n r s) (hn : n + 1 < 2 ^ 31) {F : RegistryFault → Registry → Prop} {E : Int → Registry → Prop} :
    wp F (Registry.onAliases hashCount) (fun c r' => r' = r ∧ (c + 1).toInt = s.aliases.length + 1) E r := by
  obtain ⟨es, ha⟩ := h.models.aliases
  rw [wp_onAliases]
  refine (wp_hashCount ha.holds).imp (fun c h' hc => ?_) fun _ _ => id
  obtain ⟨rfl, rfl⟩ := hc
  refine ⟨rfl, ?_⟩
  have hlen : es.length = s.aliases.length := ha.stand.length_eq
  have hlt := h.length
  have hsucc : BitVec.ofNat 32 es.length + 1 = BitVec.ofNat 32 (s.aliases.length + 1) := by
    rw [hlen, BitVec.ofNat_add]
    rfl
  rw [hsucc, BitVec.toInt_ofNat', Int.bmod_eq_of_le (by omega) (by omega)]
  exact Int.natCast_succ _

theorem handleSetAlias_refines (henv : env.Sane) (hn : n + 1 < 2 ^ 31) (hcommand : (command.arg 0).isSome)
    (hshort : ∀ t ∈ command.texts, Short t) :
    Refines .ui Exhausted (UpTo env n) (UpTo env (n + 1)) (Registry.handleSetAlias env command) (handleSetAlias env.toUiEnv command) := by
  intro r s h
  have hinvalid : Matches .ui Exhausted (UpTo env (n + 1)) (Registry.onSession (reject [.error "Invalid arguments" []]) r)
      (reject (α := Unit) [.error "Invalid arguments" []] s) := (StateOnly.refines .reject r s h).mono fun _ _ => UpTo.succ
  unfold Registry.handleSetAlias handleSetAlias
  cases h1 : command.arg 1 with
  | none => exact hinvalid
  | some cmd =>
    cases h2 : command.arg 2 with
    | none => exact hinvalid
    | some name =>
      obtain ⟨first, h0⟩ := Option.isSome_iff_exists.mp hcommand
      have hlen0 := lt_of_arg (Nat.zero_le _) h0
      have hlen1 := lt_of_arg hlen0 h1
      have hlen2 := lt_of_arg hlen1 h2
      have hname : ∀ t ∈ some name.text, Short t := by
        rintro t ⟨⟩
        exact hshort _ (mem_tokens_of_arg hlen1 h2)
      have horg : ∀ t ∈ (command.arg 3).map CStr.text, Short t := by
        intro t ht
        obtain ⟨c, hc, rfl⟩ := Option.map_eq_some_iff.mp ht
        exact hshort _ (mem_tokens_of_arg hlen2 hc)
      obtain ⟨c, r', hrun, hr', hid⟩ := (wp_aliasId h hn).exists_ok
      rw [hr'] at hrun
      dsimp only
      rw [bind_of_ok hrun, bind_of_ok (show Exec.get s = .ok s s from rfl), hid]
      refine (insertAlias_refines henv hname horg).bind (fun _ _ => id) (fun added => ?_) r s h
      exact .ite (fun _ => StateOnly.refines (.printOk _ _)) fun _ => StateOnly.refines .reject

/-! ### Dispatch -/

/-- Whatever the command, it does on the tables what it does on the lists. -/
theorem handlerBody_refines (henv : env.Sane) (hn : n + 1 < 2 ^ 31) (handler : Handler) (hcommand : (command.arg 0).isSome)
    (hshort : ∀ t ∈ command.texts, Short t) :
    Refines .ui Exhausted (UpTo env n) (UpTo env (n + 1)) (Registry.handlerBody env handler command)
      (handler.body env.toUiEnv command) := by
  have other : ¬handler.IsRegistry → Refines .ui Exhausted (UpTo env n) (UpTo env (n + 1))
      (Registry.onSession (handler.body env.toUiEnv command)) (handler.body env.toUiEnv command) := fun h =>
    (handler.stateOnly h).refines.mono (fun _ _ => id) fun _ _ => UpTo.succ
  have listing : ∀ tp, Refines .ui Exhausted (UpTo env n) (UpTo env (n + 1))
      (if (command.arg 1).isSome then Registry.onSession invalidArguments else Registry.printCommands tp false)
      (if (command.arg 1).isSome then invalidArguments else printCommands tp false) := fun tp =>
    (Refines.ite (fun _ => StateOnly.refines .reject) fun _ => printCommands_refines tp false).mono (fun _ _ => id) fun _ _ => UpTo.succ
  cases handler with
  | help => exact (printCommands_refines _ _).mono (fun _ _ => id) fun _ _ => UpTo.succ
  | info => exact listing .info
  | set => exact listing .set
  | infoAlias => exact handleInfoAlias_refines.mono (fun _ _ => id) fun _ _ => UpTo.succ
  | setAlias => exact handleSetAlias_refines henv hn hcommand hshort
  | _ => exact other nofun

theorem callHandler_refines (henv : env.Sane) (hn : n + 1 < 2 ^ 31) (handler : Handler) (hcommand : (command.arg 0).isSome)
    (hshort : ∀ t ∈ command.texts, Short t) :
    Refines .ui Exhausted (UpTo env n) (UpTo env (n + 1)) (Registry.callHandler env handler command)
      (handler.call env.toUiEnv command) := by
  refine .catching ?_ fun e => .pure fun _ _ => id
  exact (handlerBody_refines henv hn handler hcommand hshort).bind (fun _ _ => id) fun _ => .pure fun _ _ => id

/-- The item that was found is that of the command. -/
theorem handler_of_commandAt {p : Ptr} {c : Command} (h : Models env r s) (hp : CommandAt p c) :
    ∃ i, Registry.onCommands (deref (some p)) r = .ok i r ∧ i.val.handler = c.handler := by
  obtain ⟨k, rfl, hk⟩ := hp
  obtain ⟨hlt, rfl⟩ := List.getElem?_eq_some_iff.mp hk
  obtain ⟨i, hi⟩ := h.commands.entry _ (List.mem_mapIdx.mpr ⟨k, hlt, rfl⟩)
  have hwp : wp (fun _ _ => False) (Registry.onCommands (deref (some (.static k)))) (fun j r' => j = i ∧ r' = r)
      (fun _ _ => False) r := by
    rw [wp_onCommands, wp_deref (by exact hi.item)]
    exact ⟨rfl, rfl⟩
  obtain ⟨_, _, hrun, rfl, rfl⟩ := hwp.exists_ok
  exact ⟨_, hrun, by rw [hi.val]; rfl⟩

theorem handleCommand_refines (henv : env.Sane) (hn : n + 1 < 2 ^ 31) {name : CStr} (hname : command.arg 0 = some name)
    (hshort : ∀ t ∈ command.texts, Short t) :
    Refines .ui Exhausted (UpTo env n) (UpTo env (n + 1)) (Registry.handleCommand env command) (handleCommand env.toUiEnv command) := by
  intro r s h
  obtain ⟨p, r', hrun, hr', hrel⟩ := (wp_lookupCommand (F := fun _ _ => False) (E := fun _ _ => False) h.models
    (hshort _ (mem_tokens_of_arg (Nat.zero_le _) hname))).exists_ok
  rw [hr'] at hrun
  unfold Registry.handleCommand handleCommand
  rw [hname]
  dsimp only
  rw [bind_of_ok hrun, bind_of_ok (show Exec.get s = .ok s s from rfl)]
  cases hlookup : lookupCommand s.aliases name.text with
  | none =>
    rw [hlookup] at hrel
    cases hrel
    exact (StateOnly.refines (.bind (.printf _ _) fun _ => .bind (.printf _ _) fun _ => .pure 0) r s h).mono fun _ _ => UpTo.succ
  | some c =>
    rw [hlookup] at hrel
    cases hrel with
    | some hc =>
      obtain ⟨i, hitem, hhandler⟩ := handler_of_commandAt h.models hc
      dsimp only
      rw [bind_of_ok hitem, hhandler]
      exact callHandler_refines henv hn c.handler (by rw [hname]; rfl) hshort r s h

/-! ### Turns -/

theorem wp_commandLine_brief {input : CStr} (hs : s.Brief) (hinput : Short input.text) :
    wp (fun _ => Session.Brief) (commandLine env.toUiEnv input) (fun line t => t.Brief ∧ ∀ l ∈ line, Short l.text) (fun _ => Session.Brief) s := by
  have hself : ∀ l ∈ some input, Short l.text := fun l hl => Option.mem_some_iff.mp hl ▸ hinput
  unfold commandLine
  split
  · rw [wp_bind, wp_modify, wp_pure]
    refine ⟨fun line hline => ?_, hself⟩
    rcases List.mem_append.mp hline with hline | hline
    · exact hs line hline
    · rwa [List.mem_singleton.mp hline]
  · rw [wp_bind, wp_get]
    cases hlast : s.history.getLast? with
    | none => exact ⟨hs, hself⟩
    | some last =>
      have hshort : ∀ l ∈ some last, Short l.text := fun l hl => Option.mem_some_iff.mp hl ▸ hs last (List.mem_of_getLast? hlast)
      dsimp only
      split
      · exact ⟨hs, hself⟩
      · refine (StateOnly.brief (.sys _) hs).bind (fun b t ht => ?_) fun _ _ => id
        cases b with
        | true => exact ⟨ht, hshort⟩
        | false => exact ⟨ht, nofun⟩

/-- The tokens of a short line are short. -/
theorem wp_collectArgs_brief {line : CStr} {beyond : Nat → List Char} {slots : List (Option CStr)} {size : Nat} (hs : s.Brief)
    (hline : Short line.text) : wp (fun _ => Session.Brief) (do
        let args ← collectArgs env.toUiEnv (line.tokens beyond) [] size
        pure (args.map fun tokens => (⟨tokens, slots⟩ : Argv)))
      (fun r t => t.Brief ∧ ∀ command ∈ r, ∀ u ∈ command.texts, Short u) (fun _ => Session.Brief) s := by
  have hbrief : StateOnly (collectArgs env.toUiEnv (line.tokens beyond) [] size) := .collectArgs _ _ _
  have hargs := (hbrief.brief hs).both (wp_collectArgs _ _ _ _)
  refine wp.bind (hargs.mono (fun _ _ => id) (fun _ _ => And.left) fun _ _ => And.left) (fun args t ht => ?_) fun _ _ => id
  rw [wp_pure]
  refine ⟨ht.1, fun command hcommand u hu => ?_⟩
  obtain ⟨tokens, rfl, rfl⟩ := Option.map_eq_some_iff.mp hcommand
  obtain rfl := ht.2 tokens rfl
  rw [List.nil_append, Argv.texts, texts_tokens] at hu
  exact hline.token hu

/-- `get_command` puts short lines in the history, and gives short tokens. -/
theorem wp_getCommand_brief (henv : env.Sane) (hs : s.Brief) :
    wp (fun _ => Session.Brief) (getCommand env.toUiEnv)
      (fun line t => t.Brief ∧ ∀ command ∈ line, ∀ u ∈ command.texts, Short u) (fun _ => Session.Brief) s := by
  unfold getCommand
  rw [wp_bind, wp_sys, wp_tick, wp_bind, wp_modify, wp_bind, wp_get]
  split
  · exact ⟨hs, nofun⟩
  · split
    · exact hs
    · rename_i input hinput
      refine (wp_commandLine_brief (by exact hs) (henv.readline _ _ hinput)).bind (fun line t ht => ?_) fun _ _ => id
      rw [wp_bind, wp_sys]
      refine wp_malloc fun b x => ?_
      split
      · exact ⟨ht.1, nofun⟩
      · cases line with
        | none => exact ht.1
        | some line => exact wp_collectArgs_brief ht.1 (ht.2 line rfl)

theorem interfaceTurn_refines (henv : env.Sane) (hn : n + 1 < 2 ^ 31) :
    Refines .ui Exhausted (UpTo env n) (UpTo env (n + 1)) (Registry.interfaceTurn env) (interfaceTurn env.toUiEnv) := by
  intro r s h
  have hget := wp_getCommand_brief henv h.models.history
  have hline := AliasFree.getCommand.matches h (hget.imp (fun _ _ => And.left) fun _ _ => id)
  refine hline.bind (fun _ _ => UpTo.succ) fun line r' s' hrun h' => ?_
  cases line with
  | none => exact ⟨rfl, h'.succ⟩
  | some command =>
    cases hname : command.arg 0 with
    | none => 
      dsimp only
      rw [hname]
      exact ⟨rfl, h'.succ⟩
    | some name =>
      dsimp only
      rw [hname]
      refine Refines.ite (R := UpTo env n) (fun _ => .pure fun _ _ => UpTo.succ) (fun _ => ?_) r' s' h'
      exact handleCommand_refines henv hn hname ((hget.ok hrun).2 command rfl)

end Commands

end Sylvan
