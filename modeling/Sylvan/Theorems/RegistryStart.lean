import Sylvan.Theorems.AliasInsert

/-! # The tables at the start

`init_commands` adds the items of two arrays, one after another. From there on the tables are those of the commands and of the
static aliases. -/

namespace Sylvan
open Exec

/-! ### Adding an array -/

section Arrays
variable {V : Type} {h₀ h : Hash Ptr V} {es : List (HashEntry Ptr V)} {strfield : V → Option Ptr} {malloc : Nat → Bool} {k : Nat}

/-- The items of an array, which are not in the table yet. -/
structure ArrayOf (strfield : V → Option Ptr) (h : Hash Ptr V) (es : List (HashEntry Ptr V)) : Prop where
  addr : ∀ (i : Nat) (e : HashEntry Ptr V), es[i]? = some e → e.addr = .static i
  item : ∀ e ∈ es, ∃ c, h.items.lookup e.addr = some c ∧ c.val = e.val
  ptr : ∀ e ∈ es, strfield e.val = e.ptr
  key : ∀ e ∈ es, e.ptr.bind h.strs.lookup = some e.key

/-- The table after `k` additions. -/
structure Added (h₀ h : Hash Ptr V) (es : List (HashEntry Ptr V)) (k : Nat) : Prop where
  holds : Holds h (es.take k)
  strs : h.strs = h₀.strs
  items : Heap.Agree HashItem.val h₀.items h.items

theorem ArrayOf.not_mem_take (ha : ArrayOf strfield h₀ es) : Ptr.static k ∉ (es.take k).map HashEntry.addr := by
  intro hmem
  obtain ⟨e, he, haddr⟩ := List.mem_map.mp hmem
  obtain ⟨i, hi⟩ := List.mem_iff_getElem?.mp he
  have hik : i < k := by
    by_contra hle
    rw [List.getElem?_eq_none (by simp; omega)] at hi
    cases hi
  rw [List.getElem?_take_of_lt hik] at hi
  rw [ha.addr i e hi] at haddr
  cases haddr
  exact Nat.lt_irrefl _ hik

theorem wp_addNext (hmalloc : Bounded malloc) (ha : ArrayOf strfield h₀ es) (hk : k < es.length) (hf : Added h₀ h es k) :
    wp OnlyOutOfMemory (hashAddStr malloc strfield (.static k)) (fun _ h' => Added h₀ h' es (k + 1)) (fun _ _ => False) h := by
  have hmem := List.getElem_mem hk
  have haddr := ha.addr k _ (List.getElem?_eq_getElem hk)
  obtain ⟨c₀, hc₀, hval₀⟩ := ha.item _ hmem
  rw [haddr] at hc₀
  obtain ⟨c, hc, hval⟩ := hf.items.exists_lookup hc₀
  have hptr : strfield c.val = es[k].ptr := by rw [hval, hval₀, ha.ptr _ hmem]
  have hkey : (strfield c.val).bind h.strs.lookup = some es[k].key := by rw [hptr, hf.strs, ha.key _ hmem]
  refine (wp_hashAddStr hmalloc hf.holds ha.not_mem_take hc hkey).imp (fun _ h' hh => ?_) fun _ _ => id
  obtain ⟨hholds, hstrs, hagree⟩ := hh
  refine ⟨?_, hstrs.trans hf.strs, hf.items.trans hagree⟩
  rw [List.take_add_one, List.getElem?_eq_getElem hk]
  have hentry : (⟨.static k, c.val, strfield c.val, es[k].key⟩ : HashEntry Ptr V) = es[k] := by rw [hptr, hval, hval₀, ← haddr]
  rwa [hentry] at hholds

end Arrays

/-! ### Static data -/

theorem static_inj : Ptr.static.Injective := fun _ _ h => by
  injection h

/-- The strings of an array of pairs. -/
theorem getElem?_pairs {α β : Type} {f g : α → β} : ∀ {l : List α} {i : Nat},
    (l.flatMap fun a => [f a, g a])[2 * i]? = l[i]?.map f ∧ (l.flatMap fun a => [f a, g a])[2 * i + 1]? = l[i]?.map g
  | [], _ => ⟨rfl, rfl⟩
  | _ :: _, 0 => ⟨rfl, rfl⟩
  | _ :: l, i + 1 => getElem?_pairs (l := l) (i := i)

theorem commands_arrayOf {s : Session} : ArrayOf CommandData.name (Registry.start s).commandHash commandEntries := by
  refine ⟨fun i e he => ?_, fun e he => ?_, fun e he => ?_, fun e he => ?_⟩
  · rw [commandEntries, List.getElem?_mapIdx] at he
    obtain ⟨c, -, rfl⟩ := Option.map_eq_some_iff.mp he
    rfl
  all_goals obtain ⟨i, hi, rfl⟩ := List.mem_mapIdx.mp he
  · refine ⟨staticItem (staticCommands[i].data (.static i)), ?_, rfl⟩
    refine (Heap.lookup_array static_inj (Nat.zero_le i)).trans ?_
    rw [List.getElem?_mapIdx, Nat.sub_zero, List.getElem?_eq_getElem hi]
    rfl
  · rfl
  · refine (Heap.lookup_array static_inj (Nat.zero_le i)).trans ?_
    rw [List.getElem?_map, Nat.sub_zero, List.getElem?_eq_getElem hi]
    rfl

/-- The entries of the static aliases. -/
def aliasEntries : List (HashEntry Ptr AliasData) :=
  staticAliases.mapIdx fun i a => ⟨.static i, a.data (.static (2 * i)) (.static (2 * i + 1)), some (.static (2 * i)), cBytes a.name⟩

theorem aliases_arrayOf {s : Session} : ArrayOf AliasData.name (Registry.start s).aliasTable aliasEntries := by
  refine ⟨fun i e he => ?_, fun e he => ?_, fun e he => ?_, fun e he => ?_⟩
  · rw [aliasEntries, List.getElem?_mapIdx] at he
    obtain ⟨c, -, rfl⟩ := Option.map_eq_some_iff.mp he
    rfl
  all_goals obtain ⟨i, hi, rfl⟩ := List.mem_mapIdx.mp he
  · refine ⟨staticItem (staticAliases[i].data (.static (2 * i)) (.static (2 * i + 1))), ?_, rfl⟩
    refine (Heap.lookup_array static_inj (Nat.zero_le i)).trans ?_
    rw [List.getElem?_mapIdx, Nat.sub_zero, List.getElem?_eq_getElem hi]
    rfl
  · rfl
  · refine (Heap.lookup_array static_inj (Nat.zero_le _)).trans ?_
    rw [Nat.sub_zero, getElem?_pairs.1, List.getElem?_eq_getElem hi]
    rfl

theorem staticAliases_short : ∀ a ∈ staticAliases, a.type ≠ 'u' ∧ Short a.name ∧ Short a.orgCmd := by
  have hall : (staticAliases.all fun a => a.type != 'u' && (isShort a.name && isShort a.orgCmd)) = true := by decide +kernel
  intro a ha
  have h := List.all_eq_true.mp hall a ha
  simp only [Bool.and_eq_true, bne_iff_ne] at h
  exact ⟨h.1, isShort_iff.mp h.2.1, isShort_iff.mp h.2.2⟩

theorem nodup_aliasNames : (staticAliases.map Alias.name).Nodup := by decide +kernel

theorem stringsOf_aliasEntries : stringsOf aliasEntries = (List.range (2 * staticAliases.length)).map .static := by decide +kernel

/-- The table of the static aliases. -/
theorem aliasesAre_static {env : RegistryEnv} {s : Session} {h : Hash Ptr AliasData}
    (hf : Added (Registry.start s).aliasTable h aliasEntries staticAliases.length) : AliasesAre env h aliasEntries staticAliases [] [] := by
  have hlen : aliasEntries.length = staticAliases.length := List.length_mapIdx
  have hholds := hf.holds
  rw [← hlen, List.take_length] at hholds
  refine ⟨hholds, ?_, nodup_aliasNames, fun e he => ?_, ?_, nofun, fun n hn => ?_, fun n hn => ?_⟩
  · refine (forall₂_mapIdx staticAliases).imp fun e a hea => ?_
    obtain ⟨i, hi, rfl⟩ := hea
    obtain ⟨-, hname, horg⟩ := staticAliases_short a (List.mem_of_getElem? hi)
    refine ⟨rfl, rfl, ?_, rfl, rfl, hname, horg⟩
    rw [hf.strs]
    refine (Heap.lookup_array static_inj (Nat.zero_le _)).trans ?_
    rw [Nat.sub_zero, getElem?_pairs.2, hi]
    rfl
  · obtain ⟨i, hi, rfl⟩ := List.mem_mapIdx.mp he
    exact .static i (2 * i) (2 * i + 1) (staticAliases_short _ (List.getElem_mem hi)).1 rfl rfl rfl
  · rw [List.nil_append, stringsOf_aliasEntries]
    exact List.nodup_range.map static_inj
  · rw [hf.strs] at hn
    obtain ⟨i, hi⟩ := Heap.exists_of_mem_array hn
    cases hi
  · obtain ⟨i, hi⟩ := Heap.exists_of_mem_array (hf.items.mem_iff.mp hn)
    cases hi

/-! ### `init_commands` -/

/-- `init_commands` leaves the commands and the static aliases in the tables. -/
theorem wp_initCommands {env : RegistryEnv} {s : Session} (henv : env.Sane) (hs : s.Brief) :
    wp (fun f _ => Exhausted f) (Registry.initCommands env)
      (fun _ r' => Models env r' { s with aliases := staticAliases }) (fun _ _ => False) (Registry.start s) := by
  have hcommands : commandEntries.length = staticCommands.length := List.length_mapIdx
  have haliases : aliasEntries.length = staticAliases.length := List.length_mapIdx
  -- what was added to each table after `k` turns of its loop
  let I (k : Nat) (r : Registry) : Prop := r.session = s ∧ r.aliasTable = (Registry.start s).aliasTable ∧
    Added (Registry.start s).commandHash r.commandHash commandEntries k
  let J (k : Nat) (r : Registry) : Prop := r.session = s ∧ Holds r.commandHash commandEntries ∧
    Added (Registry.start s).aliasTable r.aliasTable aliasEntries k
  have hI : I 0 (Registry.start s) := ⟨rfl, rfl, holds_nil rfl, rfl, .refl _⟩
  unfold Registry.initCommands
  rw [wp_bind, wp_modify, wp_bind, wp_modify]
  refine (wp_each_range (I := I) hI fun k r hk hr => ?_).bind (fun _ r hr => ?_) fun _ _ => id
  · obtain ⟨hsession, htable, hf⟩ := hr
    rw [wp_bind, wp_get, wp_onCommands]
    refine (wp_addNext (henv.grants r) commands_arrayOf (hcommands ▸ hk) hf).mono (fun _ h hh => ?_) (fun _ _ => id) fun f _ hf => ?_
    · exact ⟨hsession, htable, hh⟩
    · exact congrArg _ hf
  · obtain ⟨hsession, htable, hf⟩ := hr
    have hholds := hf.holds
    rw [← hcommands, List.take_length] at hholds
    have hJ : J 0 r := by
      refine ⟨hsession, hholds, ?_⟩
      rw [htable]
      exact ⟨holds_nil rfl, rfl, .refl _⟩
    refine (wp_each_range (I := J) hJ fun k r hk hr => ?_).imp (fun _ r hr => ?_) fun _ _ => id
    · obtain ⟨hsession, hholds, hf⟩ := hr
      rw [wp_bind, wp_get, wp_onAliases]
      refine (wp_addNext (henv.grants r) aliases_arrayOf (haliases ▸ hk) hf).mono (fun _ h hh => ?_) (fun _ _ => id) fun f _ hf => ?_
      · exact ⟨hsession, hholds, hh⟩
      · exact congrArg _ hf
    · obtain ⟨rfl, hholds, hf⟩ := hr
      exact ⟨rfl, hholds, ⟨_, aliasesAre_static hf⟩, hs⟩

end Sylvan
