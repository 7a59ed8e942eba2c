import Mathlib.Data.List.Flatten
import Sylvan.Theorems.Aliases
import Sylvan.Theorems.HashRuns
import Sylvan.Theorems.StateOnly
import Sylvan.Ui.AliasTable

/-! # The registry in memory and the registry of lists

`Models env r s` says that the two tables of `r` stand for the commands and for the aliases of the session `s`, and whose the
blocks of memory are. From such a pair each function of the registry does on its tables what the function of the same name
does on the lists, unless the memory for a table runs out. -/

namespace Sylvan
open Exec

/-! ### Strings -/

section Strings
variable {a b : String}

/-- A string of bytes whose length is an `unsigned`. -/
structure Short (s : String) : Prop where
  bytes : ∀ c ∈ s.toList, c.toNat < 256
  length_lt : s.toList.length < 2 ^ 32

def isShort (s : String) : Bool := (s.toList.all fun c => decide (c.toNat < 256)) && decide (s.toList.length < 2 ^ 32)

theorem isShort_iff : isShort a = true ↔ Short a := by
  simp only [isShort, Bool.and_eq_true, List.all_eq_true, decide_eq_true_eq]
  exact ⟨fun h => ⟨h.1, h.2⟩, fun h => ⟨h.bytes, h.length_lt⟩⟩

instance : DecidablePred Short := fun _ => decidable_of_iff _ isShort_iff

theorem length_cBytes (s : String) : (cBytes s).length = s.toList.length := List.length_map ..

theorem Short.textOf_cBytes (hs : Short a) : textOf (cBytes a) = a := by
  have hchars : (cBytes a).map (fun b => Char.ofNat b.toNat) = a.toList := by
    rw [cBytes, List.map_map]
    refine (List.map_congr_left fun c hc => ?_).trans (List.map_id _)
    rw [Function.comp_apply, UInt8.toNat_ofNat_of_lt' (hs.bytes c hc), Char.ofNat_toNat, id]
  rw [textOf, hchars, String.ofList_toList]

theorem Short.hashKey_eq (hs : Short a) : hashKey (cBytes a) = cBytes a := hashKey_of_lt ((length_cBytes a).trans_lt hs.length_lt)

theorem Short.hashKey_eq_iff (ha : Short a) (hb : Short b) : hashKey (cBytes a) = hashKey (cBytes b) ↔ a = b := by
  rw [ha.hashKey_eq, hb.hashKey_eq]
  refine ⟨fun h => ?_, congrArg cBytes⟩
  rw [← ha.textOf_cBytes, h, hb.textOf_cBytes]

/-- The keys of short strings differ where the strings do. -/
theorem nodup_hashKeys {l : List String} (hl : ∀ s ∈ l, Short s) (h : l.Nodup) : (l.map fun s => hashKey (cBytes s)).Nodup :=
  h.map_on fun s hs t ht => ((hl s hs).hashKey_eq_iff (hl t ht)).mp

theorem Short.of_sublist {l : List Char} {s : String} (hs : Short s) (h : l.Sublist s.toList) : Short (String.ofList l) where
  bytes c hc := hs.bytes c (h.mem (by rwa [String.toList_ofList] at hc))
  length_lt := by
    rw [String.toList_ofList]
    exact h.length_le.trans_lt hs.length_lt

theorem sublist_of_mem_components {sep : Char} {w : List Char} : ∀ {cs : List Char}, w ∈ components sep cs → w.Sublist cs
  | [], hw => by
    rw [List.mem_singleton.mp hw]
  | d :: ds, hw => by
    have ih := fun v (hv : v ∈ components sep ds) => sublist_of_mem_components hv
    unfold components at hw
    split at hw
    · rcases List.mem_cons.mp hw with rfl | hw
      · exact List.nil_sublist _
      · exact (ih w hw).cons d
    · cases hds : components sep ds with
      | nil =>
        rw [hds] at hw
        rw [List.mem_singleton.mp hw]
        exact (List.nil_sublist ds).cons_cons d
      | cons v vs =>
        rw [hds] at hw ih
        rcases List.mem_cons.mp hw with rfl | hw
        · exact (ih v (List.mem_cons_self ..)).cons_cons d
        · exact (ih w (List.mem_cons_of_mem _ hw)).cons d

theorem Short.token {sep : Char} {line token : String} (h : Short line) (ht : token ∈ strtok sep line) : Short token := by
  obtain ⟨w, hw, rfl⟩ := List.mem_map.mp ht
  exact h.of_sublist (sublist_of_mem_components (List.mem_filter.mp hw).1)

end Strings

/-! ### What the tables stand for -/

/-- The entries of `command_hash`. -/
def commandEntries : List (HashEntry Ptr CommandData) :=
  staticCommands.mapIdx fun i c => ⟨.static i, c.data (.static i), some (.static i), cBytes c.name⟩

/-- The entry of `alias_table` stands for the alias `a`. -/
structure StandsFor (strs : Heap Ptr (List UInt8)) (e : HashEntry Ptr AliasData) (a : Alias) : Prop where
  name : e.val.name = e.ptr
  key : e.key = cBytes a.name
  orgCmd : e.val.orgCmd.bind strs.lookup = some (cBytes a.orgCmd)
  id : e.val.id = a.id
  type : e.val.type = a.type
  name_short : Short a.name
  orgCmd_short : Short a.orgCmd

/-- Where an alias and its strings are: the aliases of the user are blocks, and the others static data. -/
inductive Placed (e : HashEntry Ptr AliasData) : Prop where
  | user (n a b : Nat) (type : e.val.type = 'u') (addr : e.addr = .heap n) (name : e.ptr = some (.heap a))
    (orgCmd : e.val.orgCmd = some (.heap b))
  | static (n a b : Nat) (type : e.val.type ≠ 'u') (addr : e.addr = .static n) (name : e.ptr = some (.static a))
    (orgCmd : e.val.orgCmd = some (.static b))

/-- The strings that the aliases point to. -/
def stringsOf (es : List (HashEntry Ptr AliasData)) : List Ptr := es.flatMap fun e => e.ptr.toList ++ e.val.orgCmd.toList

/-- The alias at `p` was left behind by a `strdup` that failed: it has for its name or its command the `NULL` which that gave. -/
def LeftBehind (env : RegistryEnv) (h : Hash Ptr AliasData) (p : Ptr) : Prop :=
  (∃ c, h.items.lookup p = some c ∧ (c.val.name = none ∨ c.val.orgCmd = none)) ∧ ∃ k, env.malloc k = false

/-- The table `h` holds the entries `es`, which stand for the aliases `l`. Besides, the blocks `items` and the strings `strs`
    are in use. Every string is pointed to once, and a block is lost only where one of its strings could not be copied. -/
structure AliasesAre (env : RegistryEnv) (h : Hash Ptr AliasData) (es : List (HashEntry Ptr AliasData)) (l : List Alias)
    (items strs : List Ptr) : Prop where
  holds : Holds h es
  stand : List.Forall₂ (StandsFor h.strs) es l
  names : (l.map Alias.name).Nodup
  placed : ∀ e ∈ es, Placed e
  nodup : (strs ++ stringsOf es).Nodup
  allocated : ∀ q ∈ strs, q ∈ h.strs
  strings : ∀ n, .heap n ∈ h.strs → .heap n ∈ strs ++ stringsOf es
  blocks : ∀ n, .heap n ∈ h.items → .heap n ∈ items ++ es.map HashEntry.addr ∨ LeftBehind env h (.heap n)

/-- The lines of the history are short. -/
def Session.Brief (s : Session) : Prop := ∀ line ∈ s.history, Short line.text

/-- The registry in memory is the one of the session. -/
structure Models (env : RegistryEnv) (r : Registry) (s : Session) : Prop where
  session : s = { r.session with aliases := s.aliases }
  commands : Holds r.commandHash commandEntries
  aliases : ∃ es, AliasesAre env r.aliasTable es s.aliases [] []
  history : s.Brief

/-- Besides, there are at most `n` aliases. -/
structure UpTo (env : RegistryEnv) (n : Nat) (r : Registry) (s : Session) : Prop where
  models : Models env r s
  length : s.aliases.length ≤ n

/-! ### Lookups -/

section Pairs
variable {α β γ : Type} {R : α → β → Prop} {l : List α} {m : List β}

theorem exists_of_forall₂ {a : α} (h : List.Forall₂ R l m) (ha : a ∈ l) : ∃ b ∈ m, R a b := by
  obtain ⟨i, hi, rfl⟩ := List.getElem_of_mem ha
  have hm : i < m.length := h.length_eq ▸ hi
  exact ⟨m[i], List.getElem_mem hm, h.get hi hm⟩

theorem forall₂_imp_mem {S : α → β → Prop} (h : List.Forall₂ R l m) (hRS : ∀ a b, a ∈ l → R a b → S a b) : List.Forall₂ S l m :=
  ((List.forall₂_and_left l m).mpr ⟨fun _ ha => ha, h⟩).imp fun a b hab => hRS a b hab.1 hab.2

theorem find?_forall₂ {p : α → Bool} {q : β → Bool} (h : List.Forall₂ R l m) (hpq : ∀ a b, R a b → p a = q b) :
    Option.Rel R (l.find? p) (m.find? q) := by
  induction h with
  | nil => exact .none
  | @cons a b _ _ hab _ ih =>
    rw [List.find?_cons, List.find?_cons, hpq a b hab]
    split
    · exact .some hab
    · exact ih

theorem rel_map_left {S : γ → β → Prop} {f : α → γ} {a : Option α} {b : Option β} (h : Option.Rel R a b)
    (hf : ∀ x y, R x y → S (f x) y) : Option.Rel S (a.map f) b := by
  cases h with
  | none => exact .none
  | some h => exact .some (hf _ _ h)

theorem map_eq_of_forall₂ {f : α → γ} {g : β → γ} (h : List.Forall₂ R l m) (hfg : ∀ a b, R a b → f a = g b) :
    l.map f = m.map g := by
  induction h with
  | nil => rfl
  | @cons a b _ _ hab _ ih => rw [List.map_cons, List.map_cons, hfg a b hab, ih]

theorem forall₂_mapIdx {f : Nat → β → α} (m : List β) :
    List.Forall₂ (fun a b => ∃ i, m[i]? = some b ∧ a = f i b) (m.mapIdx f) m := by
  refine List.forall₂_iff_get.mpr ⟨List.length_mapIdx, fun i h₁ h₂ => ⟨i, List.getElem?_eq_getElem h₂, ?_⟩⟩
  simp

end Pairs

section Lookup
variable {env : RegistryEnv} {F : RegistryFault → Registry → Prop} {E : Int → Registry → Prop} {r : Registry} {s : Session}
  {es : List (HashEntry Ptr AliasData)} {l : List Alias} {name : String} {items strs : List Ptr}

theorem wp_onAliases {α : Type} {x : HashM Ptr AliasData α} {Q : α → Registry → Prop} :
    wp F (Registry.onAliases x) Q E r ↔ wp (fun f h => F (.hash f) { r with aliasTable := h }) x
      (fun a h => Q a { r with aliasTable := h }) (fun _ _ => False) r.aliasTable := by
  unfold Registry.onAliases
  rw [wp_zoom]
  exact ⟨fun h => h.imp (fun _ _ => id) nofun, fun h => h.imp (fun _ _ => id) nofun⟩

theorem wp_onCommands {α : Type} {x : HashM Ptr CommandData α} {Q : α → Registry → Prop} :
    wp F (Registry.onCommands x) Q E r ↔ wp (fun f h => F (.hash f) { r with commandHash := h }) x
      (fun a h => Q a { r with commandHash := h }) (fun _ _ => False) r.commandHash := by
  unfold Registry.onCommands
  rw [wp_zoom]
  exact ⟨fun h => h.imp (fun _ _ => id) nofun, fun h => h.imp (fun _ _ => id) nofun⟩

theorem AliasesAre.keys {h : Hash Ptr AliasData} (ha : AliasesAre env h es l items strs) : (es.map fun e => hashKey e.key).Nodup := by
  have hkeys : (es.map fun e => hashKey e.key) = (l.map Alias.name).map fun s => hashKey (cBytes s) := by
    rw [List.map_map]
    exact map_eq_of_forall₂ ha.stand fun e a hea => by rw [hea.key, Function.comp_apply]
  rw [hkeys]
  refine nodup_hashKeys (fun s hs => ?_) ha.names
  obtain ⟨a, ha', rfl⟩ := List.mem_map.mp hs
  obtain ⟨e, -, hea⟩ := exists_of_forall₂ ha.stand.flip ha'
  exact hea.name_short

/-- `HASH_FIND_STR` in `alias_table` finds the entry of the alias that `findAlias` finds. -/
theorem wp_findAlias {G : HashFault → Hash Ptr AliasData → Prop} {h : Hash Ptr AliasData}
    (ha : AliasesAre env h es l items strs) (hname : Short name) :
    wp G (hashFindStr (cBytes name))
      (fun p h' => h' = h ∧ ∃ oe, p = oe.map HashEntry.addr ∧ (∀ e ∈ oe, e ∈ es) ∧
        Option.Rel (StandsFor h.strs) oe (findAlias l name)) (fun _ _ => False) h := by
  refine (wp_hashFindStr (k := cBytes name) ha.holds).imp (fun p h' hp => ?_) fun _ _ => id
  obtain ⟨rfl, hfound⟩ := hp
  refine ⟨rfl, _, hfound.unique (fun e he => List.mem_map_of_mem he) ha.keys, fun e he => List.mem_of_find?_eq_some he, ?_⟩
  refine find?_forall₂ ha.stand fun e a hea => ?_
  rw [hea.key, decide_eq_decide, hea.name_short.hashKey_eq_iff hname]

/-- What an alias stands for is looked up as a command. -/
theorem wp_resolveAlias (hm : Models env r s) (hname : Short name) :
    wp F (Registry.resolveAlias (cBytes name))
      (fun k r' => r' = r ∧ ∃ n, k = cBytes n ∧ Short n ∧ lookupCommand s.aliases name = findCommand n) E r := by
  obtain ⟨es, ha⟩ := hm.aliases
  unfold Registry.resolveAlias
  rw [wp_bind, wp_onAliases]
  refine (wp_findAlias ha hname).imp (fun p h' hp => ?_) fun _ _ => id
  obtain ⟨rfl, oe, rfl, hes, hrel⟩ := hp
  cases hfind : findAlias s.aliases name with
  | none =>
    rw [hfind] at hrel
    cases hrel
    exact ⟨rfl, name, rfl, hname, lookupCommand_of_none hfind⟩
  | some a =>
    rw [hfind] at hrel
    cases hrel with
    | @some e _ hea =>
      obtain ⟨c, hc⟩ := ha.holds.entry e (hes e rfl)
      have horg : c.val.orgCmd.bind r.aliasTable.strs.lookup = some (cBytes a.orgCmd) := by rw [hc.val, hea.orgCmd]
      show wp F (Registry.onAliases _) _ E r
      rw [wp_onAliases, wp_bind, wp_deref hc.item, wp_derefStr horg]
      exact ⟨rfl, a.orgCmd, rfl, hea.orgCmd_short, lookupCommand_of_some hfind⟩

/-- The commands that the two lookups find. -/
def CommandAt (p : Ptr) (c : Command) : Prop := ∃ i, p = .static i ∧ staticCommands[i]? = some c

theorem short_of_command : ∀ c ∈ staticCommands, Short c.name := by
  have hall : (staticCommands.all fun c => isShort c.name) = true := by decide +kernel
  exact fun c hc => isShort_iff.mp (List.all_eq_true.mp hall c hc)

theorem nodup_commandNames : (staticCommands.map Command.name).Nodup := by decide +kernel

theorem commandEntries_forall₂ : List.Forall₂ (fun e c => c ∈ staticCommands ∧ CommandAt e.addr c ∧ e.key = cBytes c.name)
    commandEntries staticCommands := by
  refine (forall₂_mapIdx staticCommands).imp fun e c hec => ?_
  obtain ⟨i, hi, rfl⟩ := hec
  exact ⟨List.mem_of_getElem? hi, ⟨i, rfl, hi⟩, rfl⟩

theorem commandEntries_keys : (commandEntries.map fun e => hashKey e.key).Nodup := by
  have hkeys : (commandEntries.map fun e => hashKey e.key) = (staticCommands.map Command.name).map fun s => hashKey (cBytes s) := by
    rw [List.map_map]
    exact map_eq_of_forall₂ commandEntries_forall₂ fun e c hec => by rw [hec.2.2, Function.comp_apply]
  rw [hkeys]
  refine nodup_hashKeys (fun s hs => ?_) nodup_commandNames
  obtain ⟨c, hc, rfl⟩ := List.mem_map.mp hs
  exact short_of_command c hc

/-- `HASH_FIND_STR` in `command_hash` finds the command that `findCommand` finds. -/
theorem wp_findCommand {G : HashFault → Hash Ptr CommandData → Prop} {h : Hash Ptr CommandData} (hh : Holds h commandEntries)
    (hname : Short name) : wp G (hashFindStr (cBytes name))
      (fun p h' => h' = h ∧ Option.Rel CommandAt p (findCommand name)) (fun _ _ => False) h := by
  refine (wp_hashFindStr (k := cBytes name) hh).imp (fun p h' hp => ?_) fun _ _ => id
  obtain ⟨rfl, hfound⟩ := hp
  rw [hfound.unique (fun e he => List.mem_map_of_mem he) commandEntries_keys]
  refine ⟨rfl, ?_⟩
  have hrel := find?_forall₂ (p := fun e => decide (hashKey e.key = hashKey (cBytes name))) (q := fun c => decide (c.name = name))
    commandEntries_forall₂ fun e c hec => by
      rw [hec.2.2, decide_eq_decide, (short_of_command c hec.1).hashKey_eq_iff hname]
  exact rel_map_left hrel fun e c hec => hec.2.1

/-- `lookup_command` on the tables is `lookup_command` on the lists. -/
theorem wp_lookupCommand (hm : Models env r s) (hname : Short name) :
    wp F (Registry.lookupCommand (cBytes name))
      (fun p r' => r' = r ∧ Option.Rel CommandAt p (lookupCommand s.aliases name)) E r := by
  unfold Registry.lookupCommand
  rw [wp_bind]
  refine (wp_resolveAlias hm hname).imp (fun k r' hk => ?_) fun _ _ => id
  obtain ⟨rfl, n, rfl, hn, hlookup⟩ := hk
  rw [wp_onCommands, hlookup]
  refine (wp_findCommand hm.commands hn).imp (fun p h' hp => ?_) fun _ _ => id
  obtain ⟨rfl, hrel⟩ := hp
  exact ⟨rfl, hrel⟩

end Lookup

end Sylvan
