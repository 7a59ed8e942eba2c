import Sylvan.Theorems.HashEntries

/-! # Programs that use a hash table

Between its calls of the macros a program may allocate and free what is not in the table. In every run of such a program the
table holds exactly what was added and not deleted since: `HASH_FSCK` passes, a lookup finds what is there, and going through
the table and deleting on the way leaves the others in their order. -/

namespace Sylvan
open Exec Links

section Runs
variable {P V : Type} [DecidableEq P] {s s' : Hash P V} {es : List (HashEntry P V)} {x : P} {c : HashItem P V}
  {strfield : V → Option P} {k : List UInt8}

/-- The memory changes elsewhere: the head, the items of the table and the strings of their keys stay. -/
structure Elsewhere (es : List (HashEntry P V)) (s s' : Hash P V) : Prop where
  head : s'.head = s.head
  table : s'.table = s.table
  items : ∀ e ∈ es, s'.items.lookup e.addr = s.items.lookup e.addr
  strs : ∀ e ∈ es, e.ptr.bind s'.strs.lookup = e.ptr.bind s.strs.lookup

/-- The states of a program that starts without a table, and the entries that it has then. What `malloc` grants may be
    another at each addition. -/
inductive HashRun (strfield : V → Option P) : Hash P V → List (HashEntry P V) → Prop where
  | start {s : Hash P V} : s.head = none → HashRun strfield s []
  | add {s s' : Hash P V} {es : List (HashEntry P V)} {x : P} {c : HashItem P V} {k : List UInt8} {malloc : Nat → Bool} :
      HashRun strfield s es → Bounded malloc → x ∉ es.map HashEntry.addr → s.items.lookup x = some c →
      (strfield c.val).bind s.strs.lookup = some k → hashAddStr malloc strfield x s = .ok () s' →
      HashRun strfield s' (es ++ [⟨x, c.val, strfield c.val, k⟩])
  | del {s s' : Hash P V} {es : List (HashEntry P V)} {x : P} :
      HashRun strfield s es → x ∈ es.map HashEntry.addr → hashDel x s = .ok () s' → HashRun strfield s' (entriesApart es x)
  | memory {s s' : Hash P V} {es : List (HashEntry P V)} :
      HashRun strfield s es → Elsewhere es s s' → HashRun strfield s' es

/-- What happens elsewhere in memory does not matter to the table. -/
theorem Holds.elsewhere (h : Holds s es) (he : Elsewhere es s s') : Holds s' es := by
  have hlookup : ∀ x ∈ es.map HashEntry.addr, s'.items.lookup x = s.items.lookup x := by
    intro x hx
    obtain ⟨e, hes, rfl⟩ := List.mem_map.mp hx
    exact he.items e hes
  have hlink : ∀ g : HashItem P V → Option P, ∀ x ∈ es.map HashEntry.addr, s'.items.link g x = s.items.link g x := fun g x hx => by
    simp only [Heap.link, hlookup x hx]
  refine ⟨⟨h.rep.nodup, fun x hx => ?_, he.head.trans h.rep.head, h.rep.listed.congr (hlink _) (hlink _),
    fun hne => ?_⟩, fun e hes => ?_⟩
  · obtain ⟨c, hc⟩ := Heap.exists_of_mem (h.rep.alloc x hx)
    exact Heap.mem_of_lookup ((hlookup x hx).trans hc)
  · obtain ⟨t, ht⟩ := h.rep.tabled hne
    obtain ⟨m, hm, chain, hB⟩ := ht.stored
    have hB' : Bucketed s'.items t.buckets (bktOf s.items t.numBuckets) (es.map HashEntry.addr) chain := by
      refine ⟨fun i b hb => ⟨(hB.chains i b hb).head, (hB.chains i b hb).count, ?_⟩, hB.perm⟩
      have hsub : ∀ x ∈ chain i, x ∈ es.map HashEntry.addr := fun x hx => (hB.mem_chain.mp hx).1
      exact (hB.chains i b hb).linked.congr (fun x hx => hlink _ x (hsub x hx)) fun x hx => hlink _ x (hsub x hx)
    refine ⟨t, he.table.trans ht.table, ht.tail, ht.numItems, m, hm, chain, hB'.congr fun x hx => ?_⟩
    simp only [bktOf, hashvOf, hlookup x hx]
  · obtain ⟨c, hc⟩ := h.entry e hes
    exact ⟨c, (he.items e hes).trans hc.item, hc.val, hc.ptr, (he.strs e hes).trans hc.key, hc.keylen, hc.hashv⟩

/-- In every state of a run the table holds its entries. -/
theorem HashRun.holds (h : HashRun strfield s es) : Holds s es := by
  induction h with
  | start hhead => exact holds_nil hhead
  | add _ hmalloc hx hc hk hrun ih => exact ((wp_hashAddStr hmalloc ih hx hc hk).ok hrun).1
  | del _ hx hrun ih => exact ((wp_hashDel_entry (F := fun _ _ => True) ih hx).ok hrun).1
  | memory _ he ih => exact ih.elsewhere he

/-- Two items that are in no table, with the keys `"a"` and `"b"`. -/
def Hash.sample : Hash Nat Nat where
  items := .insert 1 ⟨1, none, none, none, none, none, 0, 0⟩ (.insert 2 ⟨2, none, none, none, none, none, 0, 0⟩ ∅)
  strs := .insert 1 [97] (.insert 2 [98] ∅)
  head := none
  table := none

/-- Both are added. -/
theorem hashRun_sample :
    ∃ s, HashRun some s [⟨1, 1, some 1, [97]⟩, ⟨2, 2, some 2, [98]⟩] := by
  have h₁ : (hashAddStr (fun n => n < 2 ^ 36) some 1 Hash.sample).isOk = true := by decide +kernel
  have h₂ : (hashAddStr (fun n => n < 2 ^ 36) some 2 (hashAddStr (fun n => n < 2 ^ 36) some 1 Hash.sample).state).isOk = true := by
    decide +kernel
  have hmalloc : Bounded fun n => n < 2 ^ 36 := fun n hn => by simpa using hn
  have hrun : HashRun some _ [⟨1, 1, some 1, [97]⟩] :=
    .add (x := 1) (.start rfl) hmalloc (by simp) rfl rfl (Outcome.eq_ok_of_isOk h₁)
  have hrun₂ := hrun.add (x := 2) hmalloc (by simp) rfl rfl (Outcome.eq_ok_of_isOk h₂)
  exact ⟨_, hrun₂⟩

/-- In every state of a run `HASH_FSCK` passes and `HASH_COUNT` is the number of entries, an item that is allocated and not
    in the table can be added, but for the memory that may run out, and each item of the table can be deleted: no pointer
    is followed that is null or dangling, and no loop goes on for ever. -/
theorem hashRun_safe (h : HashRun strfield s es) :
    hashFsck s = .ok () s ∧ hashCount s = .ok (BitVec.ofNat 32 es.length) s ∧
      (∀ malloc x c k, Bounded malloc → x ∉ es.map HashEntry.addr → s.items.lookup x = some c →
        (strfield c.val).bind s.strs.lookup = some k →
        (∃ s', hashAddStr malloc strfield x s = .ok () s') ∨ ∃ s', hashAddStr malloc strfield x s = .fault .outOfMemory s') ∧
      ∀ x ∈ es.map HashEntry.addr, ∃ s', hashDel x s = .ok () s' := by
  have hs := h.holds
  refine ⟨(wp_hashFsck hs.rep).eq_ok, ?_, fun malloc x c k hmalloc hx hc hk => ?_, fun x hx => ?_⟩
  · obtain ⟨r, t, hrun, rfl, rfl⟩ := (wp_hashCount hs).exists_ok
    exact hrun
  · have hadd := wp_hashAddStr hmalloc hs hx hc hk
    cases hrun : hashAddStr malloc strfield x s with
    | ok a t => exact .inl ⟨t, rfl⟩
    | error e t => exact (hadd.error hrun).elim
    | fault f t => exact .inr ⟨t, by rw [show f = .outOfMemory from hadd.fault hrun]⟩
  · obtain ⟨_, t, hrun, -⟩ := (wp_hashDel_entry hs hx).exists_ok
    exact ⟨t, hrun⟩

theorem hashRun_safe_sample : ∃ s : Hash Nat Nat, s.head ≠ none ∧ hashFsck s = .ok () s := by
  obtain ⟨s, hs⟩ := hashRun_sample
  refine ⟨s, ?_, (hashRun_safe hs).1⟩
  simp [hs.holds.rep.head]

/-- In every state of a run a lookup finds an entry of the key, if there is one, and the one entry of the key where the keys
    are distinct. -/
theorem hashRun_find (h : HashRun strfield s es) (k : List UInt8) :
    ∃ r, hashFindStr k s = .ok r s ∧ (r = none ↔ ∀ e ∈ es, hashKey e.key ≠ hashKey k) ∧
      (∀ x, r = some x → ∃ e ∈ es, e.addr = x ∧ hashKey e.key = hashKey k) ∧
      ((es.map fun e => hashKey e.key).Nodup → r = (es.find? fun e => hashKey e.key = hashKey k).map HashEntry.addr) := by
  obtain ⟨r, t, hrun, rfl, hr⟩ := (wp_hashFindStr (k := k) h.holds).exists_ok
  refine ⟨r, hrun, ⟨?_, fun hnone => ?_⟩, ?_, fun hkeys => hr.unique (fun e he => List.mem_map_of_mem he) hkeys⟩
  · rintro rfl
    exact fun e he => hr e he (List.mem_map_of_mem he)
  · cases r with
    | none => rfl
    | some x =>
      obtain ⟨e, he, -, hkey⟩ := hr
      exact absurd hkey (hnone e he)
  · rintro x rfl
    exact hr

theorem hashRun_find_sample : ∃ s : Hash Nat Nat, hashFindStr [98] s = .ok (some 2) s := by
  obtain ⟨s, hs⟩ := hashRun_sample
  obtain ⟨r, hrun, -, -, hr⟩ := hashRun_find hs [98]
  rw [hr (by decide +kernel)] at hrun
  exact ⟨s, hrun⟩

/-- The next item in the order of addition. -/
theorem wp_next {F : HashFault → Hash P V → Prop} {u v : List (HashEntry P V)} {e : HashEntry P V} (h : Holds s (u ++ e :: v)) :
    wp F (do return (← deref (some e.addr)).next) (fun r s' => s' = s ∧ r = (v.map HashEntry.addr).head?) (fun _ _ => False) s := by
  obtain ⟨c, hc⟩ := h.entry e (by simp)
  have hlisted := h.rep.listed
  rw [Fields.InHeap, List.map_append, List.map_cons] at hlisted
  rw [wp_bind, wp_deref hc.item, wp_pure]
  exact ⟨rfl, (Heap.link_of_lookup (g := HashItem.next) hc.item).symm.trans hlisted.next_of_mid⟩

theorem entriesApart_mid {u v : List (HashEntry P V)} {e : HashEntry P V} (hnd : ((u ++ e :: v).map HashEntry.addr).Nodup) :
    entriesApart (u ++ e :: v) e.addr = u ++ v := by
  rw [List.map_append, List.map_cons, List.nodup_append] at hnd
  have hu : ∀ a ∈ u, a.addr ≠ e.addr := fun a ha => hnd.2.2 a.addr (List.mem_map_of_mem ha) e.addr (by simp)
  have hv : ∀ a ∈ v, a.addr ≠ e.addr := fun a ha hae =>
    (List.nodup_cons.mp hnd.2.1).1 (hae ▸ List.mem_map_of_mem ha)
  rw [entriesApart, List.filter_append, List.filter_cons_of_neg (by simp), List.filter_eq_self.mpr fun a ha => by simpa using hu a ha,
    List.filter_eq_self.mpr fun a ha => by simpa using hv a ha]

/-- Going through the table and deleting items on the way meets each item once, and leaves the others in their order. -/
theorem hashRun_sweep (h : HashRun strfield s es) (p : P → Bool) :
    ∃ s', hashIter (fun x => Exec.when (p x = true) (hashDel x)) s = .ok () s' ∧
      HashRun strfield s' (es.filter fun e => !p e.addr) := by
  -- before the turn of an item, the entries before it that `p` rejects are left, and all from it on
  let J (l : List P) (s' : Hash P V) : Prop := ∃ u v, es = u ++ v ∧ v.map HashEntry.addr = l ∧
    HashRun strfield s' ((u.filter fun e => !p e.addr) ++ v)
  have hs := h.holds
  have hlen : (es.map HashEntry.addr).length ≤ s.items.size := Heap.length_le_size hs.rep.nodup hs.rep.alloc
  have hloop : wp (fun _ _ => False) (hashIter fun x => Exec.when (p x = true) (hashDel x))
      (fun _ s' => J [] s') (fun _ _ => False) s := by
    unfold hashIter
    rw [wp_bind, wp_get, hs.rep.head]
    refine wp_hashIterFrom (J := J) ⟨[], es, rfl, rfl, h⟩ hlen ?_ ?_
    · rintro x l s' ⟨u, v, -, hv, hrun⟩
      obtain ⟨e, v, rfl, rfl, rfl⟩ := List.map_eq_cons_iff.mp hv
      exact wp_next hrun.holds
    · rintro x l s' ⟨u, v, hes, hv, hrun⟩
      obtain ⟨e, v, rfl, rfl, rfl⟩ := List.map_eq_cons_iff.mp hv
      have hes' : es = (u ++ [e]) ++ v := by simpa using hes
      rw [wp_when]
      split
      · rename_i hp
        have hmem : e.addr ∈ ((u.filter fun e => !p e.addr) ++ e :: v).map HashEntry.addr := by simp
        have hs' := hrun.holds
        obtain ⟨_, t, hdel, -⟩ := (wp_hashDel_entry hs' hmem).exists_ok
        refine wp_of_eq_ok hdel ⟨u ++ [e], v, hes', rfl, ?_⟩
        have hrun' := hrun.del hmem hdel
        rw [entriesApart_mid hs'.rep.nodup] at hrun'
        simpa [hp] using hrun'
      · rename_i hp
        refine ⟨u ++ [e], v, hes', rfl, ?_⟩
        simpa [hp] using hrun
  obtain ⟨_, t, hrun, u, v, hes, hv, hend⟩ := hloop.exists_ok
  obtain rfl : v = [] := by simpa using hv
  rw [List.append_nil] at hes hend
  exact ⟨t, hrun, hes ▸ hend⟩

theorem hashRun_sweep_sample : ∃ s s' : Hash Nat Nat,
    hashIter (fun x => Exec.when ((x == 1) = true) (hashDel x)) s = .ok () s' ∧ Holds s' [⟨2, 2, some 2, [98]⟩] := by
  obtain ⟨s, hs⟩ := hashRun_sample
  obtain ⟨s', hrun, hs'⟩ := hashRun_sweep hs fun x => x == 1
  exact ⟨s, s', hrun, hs'.holds⟩

end Runs

end Sylvan
