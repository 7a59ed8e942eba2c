import Sylvan.Theorems.AliasInsert

/-! # Listing the tables

The loops of `help`, `info`, `set` and `info_alias` over a table in memory print what the loops over the list print. -/

namespace Sylvan
open Exec

/-! ### What a loop prints -/

def Session.printed (s : Session) (outputs : List Output) : Session := { s with out := s.out ++ outputs }

def Registry.printed (r : Registry) (outputs : List Output) : Registry := { r with session := r.session.printed outputs }

theorem Session.printed_printed {s : Session} {outputs more : List Output} :
    (s.printed outputs).printed more = s.printed (outputs ++ more) := by
  simp [Session.printed]

theorem Registry.printed_printed {r : Registry} {outputs more : List Output} :
    (r.printed outputs).printed more = r.printed (outputs ++ more) := by
  simp [Registry.printed, Session.printed_printed]

@[simp] theorem Session.printed_nil {s : Session} : s.printed [] = s := by
  simp [Session.printed]

@[simp] theorem Registry.printed_nil {r : Registry} : r.printed [] = r := by
  simp [Registry.printed]

theorem printf_printed {s : Session} {format : String} {args : List Arg} :
    printf format args s = .ok () (s.printed [.stdout format args]) := rfl

theorem each_printed {α : Type} {g : α → UiM Unit} {f : α → List Output} (hg : ∀ a s, g a s = .ok () (s.printed (f a))) :
    ∀ (l : List α) (s : Session), Exec.each l g s = .ok () (s.printed (l.flatMap f))
  | [], s => by
    rw [List.flatMap_nil, Session.printed_nil]
    rfl
  | a :: l, s => by
    show (g a >>= fun _ => Exec.each l g) s = _
    rw [bind_of_ok (hg a s), each_printed hg l, Session.printed_printed, List.flatMap_cons]

theorem flatMap_filter {α β : Type} {p : α → Bool} {g : α → List β} :
    ∀ l : List α, (l.filter p).flatMap g = l.flatMap fun a => if p a = true then g a else []
  | [] => rfl
  | a :: l => by
    rw [List.filter_cons, List.flatMap_cons, ← flatMap_filter l]
    split
    · rfl
    · rfl

theorem flatMap_of_forall₂ {α β γ : Type} {R : α → β → Prop} {f : α → List γ} {g : β → List γ} {l : List α} {m : List β}
    (h : List.Forall₂ R l m) (hfg : ∀ a b, R a b → f a = g b) : l.flatMap f = m.flatMap g := by
  rw [List.flatMap_def, List.flatMap_def, map_eq_of_forall₂ h hfg]

section Loops
variable {V : Type} {F : RegistryFault → Registry → Prop} {E : Int → Registry → Prop} {r : Registry}
  {es : List (HashEntry Ptr V)} {f : HashEntry Ptr V → List Output} {next : Option Ptr → RegistryM (Option Ptr)} {fault : RegistryFault}
  {body : Ptr → RegistryM Unit} {n : Nat}

/-- A loop of `HASH_ITER` that prints something for each item, and leaves the rest. -/
theorem wp_hashIterFrom_printed (hn : es.length ≤ n)
    (hnext : ∀ u e v outputs, es = u ++ e :: v →
      wp F (next (some e.addr)) (fun q r' => r' = r.printed outputs ∧ q = (v.map HashEntry.addr).head?) E (r.printed outputs))
    (hbody : ∀ e ∈ es, ∀ outputs, wp F (body e.addr) (fun _ r' => r' = (r.printed outputs).printed (f e)) E (r.printed outputs)) :
    wp F (hashIterFrom next fault body n (es.map HashEntry.addr).head?) (fun _ r' => r' = r.printed (es.flatMap f)) E r := by
  let J (m : List Ptr) (r' : Registry) : Prop := ∃ u v, es = u ++ v ∧ v.map HashEntry.addr = m ∧ r' = r.printed (u.flatMap f)
  have hstart : J (es.map HashEntry.addr) r := ⟨[], es, rfl, rfl, by simp⟩
  refine (wp_hashIterFrom hstart (by simpa using hn) ?_ ?_).imp (fun _ r' hr' => ?_) fun _ _ => id
  · rintro x m r' ⟨u, v, hes, hv, rfl⟩
    obtain ⟨e, v, rfl, rfl, rfl⟩ := List.map_eq_cons_iff.mp hv
    exact hnext u e v _ hes
  · rintro x m r' ⟨u, v, hes, hv, rfl⟩
    obtain ⟨e, v, rfl, rfl, rfl⟩ := List.map_eq_cons_iff.mp hv
    refine (hbody e (by simp [hes]) _).imp (fun _ r' hr' => ?_) fun _ _ => id
    refine ⟨u ++ [e], v, by simpa using hes, rfl, ?_⟩
    rw [hr', Registry.printed_printed, List.flatMap_append, List.flatMap_singleton]
  · obtain ⟨u, v, hes, hv, rfl⟩ := hr'
    obtain rfl : v = [] := by simpa using hv
    rw [hes, List.append_nil]

end Loops

section Listings
variable {env : RegistryEnv} {F : RegistryFault → Registry → Prop} {E : Int → Registry → Prop} {r : Registry} {s : Session}
  {es : List (HashEntry Ptr AliasData)} {l : List Alias} {title : String} {tp : CommandType}

/-! ### The commands -/

/-- What is printed for a command. -/
def described (name description usage : String) : List Output :=
  [.stdout "  %s\n" [.str name], .stdout "    Description: %s\n" [.str description], .stdout "    Usage: %s\n" [.str usage],
    .stdout "\n" []]

theorem described_printed (name description usage : String) (s : Session) : (do
    printf "  %s\n" [.str name]
    printf "    Description: %s\n" [.str description]
    printf "    Usage: %s\n" [.str usage]
    printf "\n" []) s = .ok () (s.printed (described name description usage)) := by
  rw [bind_of_ok printf_printed, bind_of_ok printf_printed, bind_of_ok printf_printed, printf_printed]
  simp only [Session.printed_printed]
  rfl

/-- What is printed for the commands of a type. -/
def listing (title : String) (tp : CommandType) : List Output :=
  .stdout title [] :: (staticCommands.filter fun cmd => cmd.type = tp).flatMap fun cmd => described cmd.name cmd.description cmd.usage

theorem printCommandsOf_printed : printCommandsOf title tp s = .ok () (s.printed (listing title tp)) := by
  unfold printCommandsOf
  rw [bind_of_ok printf_printed]
  refine (each_printed (fun (c : Command) s => described_printed c.name c.description c.usage s) _ _).trans ?_
  rw [Session.printed_printed]
  rfl

theorem wp_onSession_of_ok {α : Type} {x : UiM α} {a : α} {t : Session} {Q : α → Registry → Prop} (hx : x r.session = .ok a t) :
    wp F (Registry.onSession x) Q E r ↔ Q a { r with session := t } := by
  unfold Registry.onSession
  rw [wp_zoom]
  simp only [wp, hx]

/-- The entry is that of a command. -/
structure CommandEntry (e : HashEntry Ptr CommandData) (c : Command) : Prop where
  val : ∃ p, e.val = c.data p ∧ e.ptr = some p
  key : e.key = cBytes c.name
  name_short : Short c.name

theorem commandEntries_are : List.Forall₂ CommandEntry commandEntries staticCommands := by
  refine (forall₂_mapIdx staticCommands).imp fun e c hec => ?_
  obtain ⟨i, hi, rfl⟩ := hec
  exact ⟨⟨_, rfl, rfl⟩, rfl, short_of_command c (List.mem_of_getElem? hi)⟩

/-- What is printed for an entry, if it is of the type `tp`. -/
def entryLines (tp : CommandType) (e : HashEntry Ptr CommandData) : List Output :=
  if e.val.type = tp then described (textOf e.key) e.val.description e.val.usage else []

theorem flatMap_entryLines : .stdout title [] :: commandEntries.flatMap (entryLines tp) = listing title tp := by
  rw [listing, flatMap_filter]
  refine congrArg _ (flatMap_of_forall₂ commandEntries_are fun e c hec => ?_)
  obtain ⟨p, hval, -⟩ := hec.val
  simp only [entryLines, hval, hec.key, hec.name_short.textOf_cBytes, Command.data, decide_eq_true_eq]

theorem wp_printCommand {e : HashEntry Ptr CommandData} {c : Command} (hholds : Holds r.commandHash commandEntries)
    (he : e ∈ commandEntries) (hec : CommandEntry e c) :
    wp F (Registry.printCommand tp e.addr) (fun _ r' => r' = r.printed (entryLines tp e)) E r := by
  obtain ⟨d, hd⟩ := hholds.entry e he
  obtain ⟨p, hval, hptr⟩ := hec.val
  have hname : e.val.name.bind r.commandHash.strs.lookup = some (cBytes c.name) := by
    rw [hval, ← hec.key, ← hd.key, hptr]
    rfl
  unfold Registry.printCommand
  rw [wp_bind, wp_onCommands, wp_deref hd.item, wp_when, hd.val]
  split
  · rename_i htype
    unfold Registry.commandText
    rw [wp_bind, wp_bind, wp_onCommands, wp_derefStr (by exact hname), wp_pure, wp_onSession_of_ok (by exact described_printed _ _ _ _), entryLines,
      if_pos htype, hec.key, hec.name_short.textOf_cBytes]
    rfl
  · rename_i htype
    rw [entryLines, if_neg htype, Registry.printed_nil]

theorem wp_printCommandsOf (hholds : Holds r.commandHash commandEntries) :
    wp F (Registry.printCommandsOf title tp) (fun _ r' => r' = r.printed (listing title tp)) E r := by
  have hlen : commandEntries.length ≤ r.commandHash.items.size := by
    simpa using Heap.length_le_size hholds.rep.nodup hholds.rep.alloc
  unfold Registry.printCommandsOf
  rw [wp_bind, printf, wp_onSession_print]
  show wp F (Registry.iterCommands _) _ E (r.printed [.stdout title []])
  unfold Registry.iterCommands
  rw [wp_bind, wp_get]
  dsimp only
  rw [show (r.printed [.stdout title []]).commandHash = r.commandHash from rfl, hholds.rep.head]
  refine (wp_hashIterFrom_printed (f := entryLines tp) hlen (fun u e v outputs huv => ?_) fun e he outputs => ?_).imp (fun _ r' hr' => ?_) fun _ _ => id
  · rw [wp_onCommands]
    refine (wp_next (huv ▸ hholds)).imp (fun q h hq => ?_) fun _ _ => id
    obtain ⟨rfl, rfl⟩ := hq
    exact ⟨rfl, rfl⟩
  · obtain ⟨c, -, hec⟩ := exists_of_forall₂ commandEntries_are he
    exact wp_printCommand hholds he hec
  · rw [hr', Registry.printed_printed, ← flatMap_entryLines]
    rfl

/-! ### The aliases -/

/-- What is printed for the aliases. -/
def aliasLines (l : List Alias) : List Output := l.map fun a => .stdout "%-20s %-8s\n" [.str a.name, .str a.orgCmd]

/-- What is printed for an entry of `alias_table`. -/
def aliasLine (strs : Heap Ptr (List UInt8)) (e : HashEntry Ptr AliasData) : List Output :=
  [.stdout "%-20s %-8s\n" [.str (textOf e.key), .str (textOf ((e.val.orgCmd.bind strs.lookup).getD []))]]

theorem flatMap_aliasLine {strs : Heap Ptr (List UInt8)} (h : List.Forall₂ (StandsFor strs) es l) :
    es.flatMap (aliasLine strs) = aliasLines l := by
  rw [aliasLines, List.map_eq_flatMap]
  refine flatMap_of_forall₂ h fun e a hea => ?_
  simp only [aliasLine, hea.key, hea.orgCmd, Option.getD_some, hea.name_short.textOf_cBytes, hea.orgCmd_short.textOf_cBytes]

theorem wp_printAlias {items strs : List Ptr} {e : HashEntry Ptr AliasData} (ha : AliasesAre env r.aliasTable es l items strs)
    (he : e ∈ es) : wp F (Registry.printAlias e.addr) (fun _ r' => r' = r.printed (aliasLine r.aliasTable.strs e)) E r := by
  obtain ⟨c, hc⟩ := ha.holds.entry e he
  obtain ⟨a, -, hea⟩ := exists_of_forall₂ ha.stand he
  have hname : c.val.name.bind r.aliasTable.strs.lookup = some (cBytes a.name) := by rw [hc.val, hea.name, hc.key, hea.key]
  have horg : c.val.orgCmd.bind r.aliasTable.strs.lookup = some (cBytes a.orgCmd) := by rw [hc.val, hea.orgCmd]
  unfold Registry.printAlias
  rw [wp_bind, wp_onAliases, wp_deref hc.item, wp_bind, wp_aliasText hea.name_short (by exact hname), wp_bind,
    wp_aliasText hea.orgCmd_short (by exact horg), printf, wp_onSession_print, aliasLine, hea.key, hea.orgCmd, Option.getD_some,
    hea.name_short.textOf_cBytes, hea.orgCmd_short.textOf_cBytes]
  rfl

theorem wp_printAliases {items strs : List Ptr} (ha : AliasesAre env r.aliasTable es l items strs) :
    wp F (Registry.iterAliases Registry.printAlias) (fun _ r' => r' = r.printed (aliasLines l)) E r := by
  have hlen : es.length ≤ r.aliasTable.items.size := by
    simpa using Heap.length_le_size ha.holds.rep.nodup ha.holds.rep.alloc
  unfold Registry.iterAliases
  rw [wp_bind, wp_get]
  dsimp only
  rw [ha.holds.rep.head, ← flatMap_aliasLine ha.stand]
  refine wp_hashIterFrom_printed hlen (fun u e v outputs huv => ?_) fun e he outputs => ?_
  · rw [wp_onAliases]
    refine (wp_next (huv ▸ ha.holds)).imp (fun q h hq => ?_) fun _ _ => id
    obtain ⟨rfl, rfl⟩ := hq
    exact ⟨rfl, rfl⟩
  · exact wp_printAlias ha he

/-- What both print leaves the registries as they are. -/
theorem Models.printed (hm : Models env r s) {outputs : List Output} : Models env (r.printed outputs) (s.printed outputs) := by
  refine ⟨?_, hm.commands, hm.aliases, hm.history⟩
  rw [hm.session]
  rfl

end Listings

end Sylvan
