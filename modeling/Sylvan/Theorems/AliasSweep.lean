import Sylvan.Theorems.AliasInsert

/-! # Freeing the aliases

`free_alias_table` goes through the table and frees the aliases of the user on the way: each block and each of its strings is
freed once and not looked at again, and the static aliases are left alone. -/

namespace Sylvan
open Exec

section Sweep
variable {env : RegistryEnv} {F : RegistryFault → Registry → Prop} {E : Int → Registry → Prop} {r : Registry} {s : Session}
  {h : Hash Ptr AliasData} {es u v : List (HashEntry Ptr AliasData)} {e : HashEntry Ptr AliasData} {l : List Alias}

theorem forall₂_remove {α β : Type} {R : α → β → Prop} {a : α} {v : List α} : ∀ {u : List α} {m : List β},
    List.Forall₂ R (u ++ a :: v) m → ∃ m', m'.Sublist m ∧ List.Forall₂ R (u ++ v) m'
  | [], _, .cons _ h => ⟨_, List.sublist_cons_self _ _, h⟩
  | _ :: _, _, .cons hb h => by
    obtain ⟨m', hsub, h'⟩ := forall₂_remove h
    exact ⟨_, hsub.cons_cons _, .cons hb h'⟩

/-- An alias of the user leaves the table: its block and its strings are still in use. -/
theorem AliasesAre.remove (ha : AliasesAre env h (u ++ e :: v) l [] []) {h' : Hash Ptr AliasData} (hholds : Holds h' (u ++ v))
    (hstrs : h'.strs = h.strs) (hagree : Heap.Agree HashItem.fixed h.items h'.items) {a b : Nat} (hname : e.ptr = some (.heap a))
    (horg : e.val.orgCmd = some (.heap b)) : ∃ l', AliasesAre env h' (u ++ v) l' [e.addr] [.heap a, .heap b] := by
  obtain ⟨l', hsub, hstand⟩ := forall₂_remove ha.stand
  have hperm : (stringsOf (u ++ e :: v)).Perm ([Ptr.heap a, Ptr.heap b] ++ stringsOf (u ++ v)) := by
    have he : stringsOf (e :: v) = [Ptr.heap a, Ptr.heap b] ++ stringsOf v := by simp [stringsOf, hname, horg]
    rw [stringsOf_append, stringsOf_append, he]
    exact List.perm_append_comm_assoc _ _ _
  refine ⟨l', hholds, ?_, (hsub.map _).nodup ha.names, fun e' he' => ha.placed e' ?_, hperm.nodup_iff.mp ha.nodup, ?_, ?_, ?_⟩
  · rw [hstrs]
    exact hstand
  · exact (List.sublist_cons_self e v).append_left u |>.subset he'
  · intro q hq
    rw [hstrs]
    exact ha.mem_strs (hperm.symm.subset (List.mem_append_left _ hq))
  · intro n hn
    exact hperm.subset (ha.strings n (hstrs ▸ hn))
  · intro n hn
    refine (ha.blocks n (hagree.mem_iff.mp hn)).imp (fun hmem => ?_) fun hleft => hleft.of_kept fun c hc => ?_
    · simp only [List.nil_append, List.map_append, List.map_cons, List.mem_append, List.mem_cons] at hmem ⊢
      tauto
    · obtain ⟨c', hc', hfixed⟩ := hagree.exists_lookup hc
      have hval : c'.fixed.val = c.fixed.val := congrArg HashItem.val hfixed
      exact ⟨c', hc', hval⟩

theorem wp_freeItem {n : Nat} {Q : Unit → Registry → Prop} (hn : .heap n ∈ r.aliasTable.items) :
    wp F (Registry.freeItem (.heap n)) Q E r ↔
      Q () { r with aliasTable := { r.aliasTable with items := r.aliasTable.items.erase (.heap n) } } := by
  simp only [wp, Registry.freeItem, if_pos hn]

/-- A block that is in use besides is freed. -/
theorem AliasesAre.erase_item {n : Nat} (ha : AliasesAre env h es l [.heap n] []) (hn : .heap n ∉ es.map HashEntry.addr) :
    AliasesAre env { h with items := h.items.erase (.heap n) } es l [] [] := by
  refine ha.of_items hn (fun x hx => AList.lookup_erase_ne hx) fun m hm => ?_
  obtain ⟨hne, hm⟩ := AList.mem_erase.mp hm
  exact (ha.blocks m hm).imp (fun hmem => (List.mem_cons.mp hmem).resolve_left hne) fun hleft =>
    hleft.of_lookup (AList.lookup_erase_ne hne)

/-- The aliases that are not the user's. -/
def staticOf (es : List (HashEntry Ptr AliasData)) : List (HashEntry Ptr AliasData) := es.filter fun e => e.val.type ≠ 'u'

/-- What a turn of `free_alias_table` leaves. -/
structure Swept (env : RegistryEnv) (r r' : Registry) (es : List (HashEntry Ptr AliasData)) : Prop where
  are : ∃ l, AliasesAre env r'.aliasTable es l [] []
  session : r'.session = r.session
  commands : r'.commandHash = r.commandHash

/-- The turn of an alias: it is freed if it is the user's, and stays if not. -/
theorem wp_freeAlias (ha : AliasesAre env r.aliasTable (u ++ e :: v) l [] []) :
    wp F (Registry.freeAlias e.addr) (fun _ r' => Swept env r r' (u ++ staticOf [e] ++ v)) E r := by
  obtain ⟨c, hc⟩ := ha.holds.entry e (by simp)
  have hnd := ha.holds.rep.nodup
  unfold Registry.freeAlias
  rw [wp_bind, wp_onAliases, wp_deref hc.item, wp_when, hc.val]
  split
  · rename_i htype
    cases ha.placed e (by simp) with
    | static _ _ _ hstatic => exact absurd htype hstatic
    | user n a b _ haddr hname horg =>
      have hmem : e.addr ∈ (u ++ e :: v).map HashEntry.addr := by simp
      rw [wp_bind, wp_onAliases]
      refine (wp_hashDel_entry ha.holds hmem).imp (fun _ h hh => ?_) fun _ _ => id
      obtain ⟨hholds, hstrs, hagree⟩ := hh
      rw [entriesApart_mid hnd] at hholds
      obtain ⟨l', hare⟩ := ha.remove hholds hstrs hagree hname horg
      obtain ⟨c', hc', hfixed⟩ := hagree.exists_lookup hc.item
      have hval : c'.val = e.val := (congrArg HashItem.val hfixed).trans hc.val
      have hptr : c'.val.name = some (.heap a) := by
        obtain ⟨_, -, hea⟩ := exists_of_forall₂ ha.stand (show e ∈ u ++ e :: v by simp)
        rw [hval, hea.name, hname]
      have hapart : Ptr.heap n ∉ (u ++ v).map HashEntry.addr := by
        rw [List.map_append, List.map_cons, List.nodup_middle, haddr] at hnd
        rw [List.map_append]
        exact (List.nodup_cons.mp hnd).1
      rw [haddr] at hc' hare ⊢
      rw [wp_bind, wp_onAliases, wp_deref hc', hptr, hval, horg, wp_bind, wp_freeStr (hare.allocated _ (by simp)), wp_bind,
        wp_freeStr (hare.erase_str.allocated _ (by simp)), wp_freeItem (by exact Heap.mem_of_lookup hc')]
      refine ⟨⟨l', ?_⟩, rfl, rfl⟩
      rw [staticOf, List.filter_cons_of_neg (by simpa using htype), List.filter_nil, List.append_nil]
      exact hare.erase_str.erase_str.erase_item hapart
  · rename_i htype
    refine ⟨⟨l, ?_⟩, rfl, rfl⟩
    rw [staticOf, List.filter_cons_of_pos (by simpa using htype), List.filter_nil, List.append_assoc]
    exact ha

/-- The loop frees the aliases of the user, and keeps the others in their order. -/
theorem wp_sweep (ha : AliasesAre env r.aliasTable es l [] []) :
    wp F (Registry.iterAliases Registry.freeAlias) (fun _ r' => Swept env r r' (staticOf es)) E r := by
  -- before the turn of an alias, the aliases before it that are not the user's are left, and all from it on
  let J (m : List Ptr) (r' : Registry) : Prop := ∃ u v, es = u ++ v ∧ v.map HashEntry.addr = m ∧ Swept env r r' (staticOf u ++ v)
  have hlen : (es.map HashEntry.addr).length ≤ r.aliasTable.items.size := Heap.length_le_size ha.holds.rep.nodup ha.holds.rep.alloc
  unfold Registry.iterAliases
  rw [wp_bind, wp_get]
  dsimp only
  rw [ha.holds.rep.head]
  have hstart : J (es.map HashEntry.addr) r := ⟨[], es, rfl, rfl, ⟨l, ha⟩, rfl, rfl⟩
  refine (wp_hashIterFrom hstart hlen ?_ ?_).imp (fun _ r' hr' => ?_) fun _ _ => id
  · rintro x m r' ⟨u, v, -, hv, hswept⟩
    obtain ⟨e, v, rfl, rfl, rfl⟩ := List.map_eq_cons_iff.mp hv
    obtain ⟨l', hare⟩ := hswept.are
    rw [wp_onAliases]
    refine (wp_next hare.holds).imp (fun q h hq => ?_) fun _ _ => id
    obtain ⟨rfl, rfl⟩ := hq
    exact ⟨rfl, rfl⟩
  · rintro x m r' ⟨u, v, hes, hv, hswept⟩
    obtain ⟨e, v, rfl, rfl, rfl⟩ := List.map_eq_cons_iff.mp hv
    obtain ⟨l', hare⟩ := hswept.are
    refine (wp_freeAlias hare).imp (fun _ r'' hr'' => ?_) fun _ _ => id
    refine ⟨u ++ [e], v, by simpa using hes, rfl, ?_, hr''.session.trans hswept.session, hr''.commands.trans hswept.commands⟩
    rw [staticOf, List.filter_append]
    exact hr''.are
  · obtain ⟨u, v, hes, hv, hswept⟩ := hr'
    obtain rfl : v = [] := by simpa using hv
    rw [List.append_nil] at hes hswept
    rwa [hes]

/-! ### The end -/

theorem placed_of_mem_staticOf (ha : AliasesAre env h es l [] []) (he : e ∈ staticOf es) :
    ∃ n a b, e.addr = .static n ∧ e.ptr = some (.static a) ∧ e.val.orgCmd = some (.static b) := by
  obtain ⟨he, htype⟩ := List.mem_filter.mp he
  cases ha.placed e he with
  | user _ _ _ huser => exact absurd huser (by simpa using htype)
  | static n a b _ haddr hname horg => exact ⟨n, a, b, haddr, hname, horg⟩

/-- What `free_alias_table` leaves: none of the user's strings, and a block only where it was lost before. -/
structure Freed (env : RegistryEnv) (r r' : Registry) : Prop where
  session : r'.session = r.session
  commands : r'.commandHash = r.commandHash
  head : r'.aliasTable.head = none
  strings : ∀ n, .heap n ∉ r'.aliasTable.strs
  blocks : ∀ n, .heap n ∈ r'.aliasTable.items → LeftBehind env r'.aliasTable (.heap n)

/-- `free_alias_table` frees each block and each string of the user once. -/
theorem wp_freeAliasTable (ha : AliasesAre env r.aliasTable es l [] []) :
    wp F Registry.freeAliasTable (fun _ r' => Freed env r r') E r := by
  unfold Registry.freeAliasTable
  rw [wp_bind]
  refine (wp_sweep ha).imp (fun _ r' hr' => ?_) fun _ _ => id
  obtain ⟨l', hare⟩ := hr'.are
  rw [wp_modify]
  refine ⟨hr'.session, hr'.commands, rfl, fun n hn => ?_, fun n hn => ?_⟩
  · obtain ⟨e, he, hmem⟩ := List.mem_flatMap.mp (List.nil_append _ ▸ hare.strings n hn)
    obtain ⟨_, a, b, -, hname, horg⟩ := placed_of_mem_staticOf ha he
    rw [hname, horg] at hmem
    simp at hmem
  · refine (hare.blocks n hn).resolve_left fun hmem => ?_
    obtain ⟨e, he, heq⟩ := List.mem_map.mp (List.nil_append _ ▸ hmem)
    obtain ⟨m, _, _, haddr, -⟩ := placed_of_mem_staticOf ha he
    rw [haddr] at heq
    cases heq

end Sweep

end Sylvan
