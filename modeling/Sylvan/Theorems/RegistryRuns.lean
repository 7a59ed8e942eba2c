import Mathlib.Algebra.Order.BigOperators.Group.List
import Mathlib.Algebra.Order.Group.Nat
import Sylvan.Theorems.RegistryCommands
import Sylvan.Theorems.RegistryStart

/-! # The run of the command line on the registry in memory

However many commands are run, the tables in memory do what the lists do: a run on them prints what the run on the lists prints,
and ends as it does, unless the memory for a table runs out. So the run follows no pointer of a table that is null or dangling,
frees nothing twice, and leaves nothing behind that was not lost before. -/

namespace Sylvan
open Exec

section Run
variable {env : RegistryEnv} {r : Registry} {s : Session} {n : Nat}

/-- Each turn adds one alias at most. -/
theorem turns_refines (henv : env.Sane) : ∀ m n : Nat, n + m < 2 ^ 31 →
    Refines .ui Exhausted (UpTo env n) (UpTo env (n + m)) (Exec.turns (Registry.interfaceTurn env) m)
      (Exec.turns (interfaceTurn env.toUiEnv) m)
  | 0, _, _ => .pure fun _ _ => id
  | m + 1, n, hn => by
    have hmore : ∀ r s, UpTo env (n + 1) r s → UpTo env (n + (m + 1)) r s := fun r s h => ⟨h.models, by have := h.length; omega⟩
    have hadd : n + 1 + m = n + (m + 1) := by omega
    refine (interfaceTurn_refines henv (by omega)).bind hmore fun k => .ite (fun _ => ?_) fun _ => .pure hmore
    rw [← hadd]
    exact turns_refines henv m (n + 1) (by omega)

theorem freeAliasTable_refines : Refines .ui Exhausted (UpTo env n) (Models env) Registry.freeAliasTable freeAliasTable := by
  rintro r s ⟨hm, -⟩
  obtain ⟨es, ha⟩ := hm.aliases
  refine .of_wp ((wp_freeAliasTable ha).imp (fun _ r' hr' => ⟨_, rfl, ?_⟩) fun _ _ => id)
  refine ⟨?_, hr'.commands ▸ hm.commands, ⟨[], ?_⟩, hm.history⟩
  · rw [hr'.session, hm.session]
  · exact ⟨holds_nil hr'.head, .nil, List.nodup_nil, nofun, List.nodup_nil, nofun, fun k hk => absurd hk (hr'.strings k),
      fun k hk => .inr (hr'.blocks k hk)⟩

theorem initCommands_matches (henv : env.Sane) (hs : s.Brief) :
    Matches .ui Exhausted (UpTo env staticAliases.length) (Registry.initCommands env (Registry.start s)) (initCommands s) :=
  .of_wp ((wp_initCommands henv hs).imp (fun _ _ hr => ⟨_, rfl, hr, Nat.le_refl _⟩) fun _ _ => id)

/-- The run on the tables and the run on the lists. -/
theorem interfaceLoop_matches (henv : env.Sane) (hs : s.Brief) (hn : staticAliases.length + n < 2 ^ 31) :
    Matches .ui Exhausted (Models env) (Registry.interfaceLoop env n (Registry.start s)) (interfaceLoop env.toUiEnv n s) := by
  refine (initCommands_matches henv hs).bind (fun _ _ => UpTo.models) fun _ r t _ h => ?_
  refine ((turns_refines henv n _ hn).bind (fun _ _ => UpTo.models) fun left => ?_) r t h
  have hfree : Refines .ui Exhausted (UpTo env (staticAliases.length + n)) (Models env)
      (Exec.when (left = true) Registry.freeAliasTable) (Exec.when (left = true) freeAliasTable) :=
    .ite (fun _ => freeAliasTable_refines) fun _ => .pure fun _ _ => UpTo.models
  exact hfree.bind (fun _ _ => id) fun _ => .pure fun _ _ => id

/-- The run on the tables ends as the run on the lists does, with the same output and the same session: each alias of the list
    is an entry of the table. -/
theorem interfaceLoop_refines (henv : env.Sane) (hs : s.Brief) (hn : staticAliases.length + n < 2 ^ 31) :
    (∀ left r, Registry.interfaceLoop env n (Registry.start s) = .ok left r →
      ∃ t, interfaceLoop env.toUiEnv n s = .ok left t ∧ Models env r t) ∧
    (∀ e r, Registry.interfaceLoop env n (Registry.start s) = .error e r →
      ∃ t, interfaceLoop env.toUiEnv n s = .error e t ∧ Models env r t) ∧
    ∀ f r, Registry.interfaceLoop env n (Registry.start s) = .fault f r →
      f = .hash .outOfMemory ∨ ∃ g t, f = .ui g ∧ interfaceLoop env.toUiEnv n s = .fault g t ∧ Models env r t := by
  have h := interfaceLoop_matches henv hs hn
  refine ⟨fun left r hr => ?_, fun e r hr => ?_, fun f r hr => ?_⟩ <;> rw [hr] at h
  · exact h.ok
  · exact h.error
  · exact h.fault

theorem aliases_of_left {env : UiEnv} {t : Session} (h : interfaceLoop env n s = .ok true t) : t.aliases = [] := by
  unfold interfaceLoop at h
  obtain ⟨_, _, -, h⟩ := ok_of_bind h
  obtain ⟨_, _, -, h⟩ := ok_of_bind h
  obtain ⟨_, _, hfree, h⟩ := ok_of_bind h
  cases h
  cases hfree
  rfl

/-- Once a command has ended the loop, the table is empty, each string of the user was freed, and so was each block but
    those that were left behind by a `strdup` which failed. -/
theorem interfaceLoop_frees (henv : env.Sane) (hs : s.Brief) (hn : staticAliases.length + n < 2 ^ 31)
    (h : Registry.interfaceLoop env n (Registry.start s) = .ok true r) :
    r.aliasTable.head = none ∧ (∀ k, .heap k ∉ r.aliasTable.strs) ∧
      ∀ k, .heap k ∈ r.aliasTable.items → LeftBehind env r.aliasTable (.heap k) := by
  have hmatches := interfaceLoop_matches henv hs hn
  rw [h] at hmatches
  obtain ⟨t, hrun, hm⟩ := hmatches.ok
  obtain ⟨es, ha⟩ := hm.aliases
  obtain rfl : es = [] := List.length_eq_zero_iff.mp (by rw [ha.stand.length_eq, aliases_of_left hrun, List.length_nil])
  refine ⟨ha.holds.rep.head, fun k hk => ?_, fun k hk => (ha.blocks k hk).resolve_left nofun⟩
  have hmem := ha.strings k hk
  cases hmem

end Run

/-! ### A run -/

section Sample

/-- The user adds an alias, and leaves. -/
def UiEnv.sample : UiEnv :=
  { UiEnv.on .compliant with
    readline := fun t => (some (if t = 0 then ⟨"set_alias run go run", by decide, []⟩ else ⟨"q", by decide, []⟩), false) }

def Ptr.index : Ptr → Nat
  | .static n | .heap n => n

/-- The blocks from the greatest address in use on are free. -/
def RegistryEnv.sample : RegistryEnv where
  toUiEnv := .sample
  grants _ n := n < 2 ^ 36
  place r := ((r.aliasTable.items.keys ++ r.aliasTable.strs.keys).map Ptr.index).sum + 1
  leftItem _ := staticItem ⟨none, none, 0, '\x00'⟩

theorem lt_sum_index {l : List Ptr} {k : Nat} (h : Ptr.heap k ∈ l) : k < (l.map Ptr.index).sum + 1 :=
  Nat.lt_succ_of_le (List.le_sum_of_mem (List.mem_map_of_mem h))

theorem RegistryEnv.sane_sample : RegistryEnv.sample.Sane := by
  refine ⟨fun r => ⟨fun h => ?_, fun h => ?_⟩, fun _ n hn => by simpa [RegistryEnv.sample] using hn, fun t line h => ?_⟩
  · exact Nat.lt_irrefl _ (lt_sum_index (List.mem_append_left _ (AList.mem_keys.mp h)))
  · exact Nat.lt_irrefl _ (lt_sum_index (List.mem_append_right _ (AList.mem_keys.mp h)))
  · obtain rfl := Option.some.inj h
    split
    · decide +kernel
    · decide +kernel

theorem brief_sample : (Session.on .blank).Brief := fun _ h => nomatch h

theorem interfaceLoop_sample : ∃ r, Registry.interfaceLoop .sample 2 (Registry.start (Session.on .blank)) = .ok true r := by
  have h : (Registry.interfaceLoop .sample 2 (Registry.start (Session.on .blank))).value? = some true := by decide +kernel
  exact ⟨_, Outcome.eq_ok_of_value? h⟩

theorem interfaceLoop_refines_sample : ∃ t, interfaceLoop .sample 2 (Session.on .blank) = .ok true t := by
  obtain ⟨r, hr⟩ := interfaceLoop_sample
  obtain ⟨t, ht, -⟩ := (interfaceLoop_refines RegistryEnv.sane_sample brief_sample (by decide)).1 true r hr
  exact ⟨t, ht⟩

theorem interfaceLoop_frees_sample : ∃ r, Registry.interfaceLoop .sample 2 (Registry.start (Session.on .blank)) = .ok true r ∧
    ∀ k, .heap k ∉ r.aliasTable.items := by
  obtain ⟨r, hr⟩ := interfaceLoop_sample
  refine ⟨r, hr, fun k hk => ?_⟩
  obtain ⟨-, i, hi⟩ := (interfaceLoop_frees RegistryEnv.sane_sample brief_sample (by decide) hr).2.2 k hk
  cases hi

end Sample

end Sylvan
