import Sylvan.Theorems.HashTables

/-! # What a hash table is for

`Holds s es` says that the hash holds the entries of `es`: an item each, with what else is in it and the string that its key
points to. A lookup finds an entry of the key asked for, whatever bucket it is in; the items are gone through in the order
they were added in; and `HASH_FSCK` finds nothing wrong. A key of 4 GiB or more counts as what `unsigned` leaves of its
length, `hashKey`. -/

namespace Sylvan
open Exec Links

/-! ## Keys -/

/-- What the table makes of a key. -/
def hashKey (k : List UInt8) : List UInt8 := k.take (hashStrlen k).toNat

theorem hashKey_of_lt {k : List UInt8} (h : k.length < 2 ^ 32) : hashKey k = k := by
  rw [hashKey, hashStrlen, BitVec.toNat_ofNat, Nat.mod_eq_of_lt h, List.take_length]

theorem length_hashKey (k : List UInt8) : (hashKey k).length = (hashStrlen k).toNat := by
  rw [hashKey, List.length_take, hashStrlen, BitVec.toNat_ofNat]
  exact Nat.min_eq_left (Nat.mod_le _ _)

theorem hashStrlen_congr {a b : List UInt8} (h : hashKey a = hashKey b) : hashStrlen a = hashStrlen b :=
  BitVec.eq_of_toNat_eq (by rw [← length_hashKey, h, length_hashKey])

/-- The comparison of `HASH_FIND_IN_BKT`. -/
theorem hashKey_eq_iff {a b : List UInt8} :
    hashKey a = hashKey b ↔ hashStrlen a = hashStrlen b ∧ hashKeyEq a b (hashStrlen b) = true := by
  constructor
  · intro h
    refine ⟨hashStrlen_congr h, ?_⟩
    rw [hashKeyEq, decide_eq_true_iff, ← hashStrlen_congr h]
    exact h.trans (by rw [hashKey, hashStrlen_congr h])
  · rintro ⟨hlen, h⟩
    rw [hashKeyEq, decide_eq_true_iff] at h
    rw [hashKey, hlen, h, hashKey]

theorem hashJen_congr {a b : List UInt8} (h : hashKey a = hashKey b) : hashJen a (hashStrlen a) = hashJen b (hashStrlen b) := by
  have htake : a.take (hashStrlen a).toNat = b.take (hashStrlen b).toNat := h
  simp only [hashJen, hashStrlen_congr h] at htake ⊢
  rw [htake]

section Entries
variable {P V : Type} [DecidableEq P] {s s' : Hash P V} {x : P} {malloc : Nat → Bool} {k : List UInt8}

/-! ## Entries -/

/-- An item of a table, with the pointer to its key and the key. -/
structure HashEntry (P V : Type) where
  addr : P
  val : V
  ptr : Option P
  key : List UInt8
  deriving DecidableEq

/-- The item of `e` is there, with the length and the hash value of its key. -/
structure EntryAt (s : Hash P V) (e : HashEntry P V) (c : HashItem P V) : Prop where
  item : s.items.lookup e.addr = some c
  val : c.val = e.val
  ptr : c.key = e.ptr
  key : e.ptr.bind s.strs.lookup = some e.key
  keylen : c.keylen = hashStrlen e.key
  hashv : c.hashv = hashJen e.key (hashStrlen e.key)

/-- The hash holds the entries of `es`, in the order they were added in. -/
structure Holds (s : Hash P V) (es : List (HashEntry P V)) : Prop where
  rep : HashRep s (es.map HashEntry.addr)
  entry : ∀ e ∈ es, ∃ c, EntryAt s e c

variable {es : List (HashEntry P V)} {e : HashEntry P V} {c : HashItem P V}

theorem EntryAt.of_fixed (h : EntryAt s e c) (hagree : Heap.Agree HashItem.fixed s.items s'.items) (hstrs : s'.strs = s.strs) :
    ∃ c', EntryAt s' e c' := by
  obtain ⟨c', hc', hfixed⟩ := hagree.exists_lookup h.item
  refine ⟨c', hc', (congrArg HashItem.val hfixed).trans h.val, (congrArg HashItem.key hfixed).trans h.ptr, ?_,
    (congrArg HashItem.keylen hfixed).trans h.keylen, (congrArg HashItem.hashv hfixed).trans h.hashv⟩
  rw [hstrs]
  exact h.key

theorem holds_nil (hhead : s.head = none) : Holds s [] := ⟨hashRep_nil hhead, by simp⟩

/-- The entries of other items. -/
def entriesApart (es : List (HashEntry P V)) (x : P) : List (HashEntry P V) := es.filter fun e => e.addr ≠ x

theorem map_addr_entriesApart (hnd : (es.map HashEntry.addr).Nodup) :
    (entriesApart es x).map HashEntry.addr = (es.map HashEntry.addr).erase x := by
  rw [hnd.erase_eq_filter, List.filter_map, entriesApart]
  exact congrArg _ (List.filter_congr fun e _ => by by_cases he : e.addr = x <;> simp [he])

omit [DecidableEq P] in
theorem eq_of_addr_eq (hnd : (es.map HashEntry.addr).Nodup) {e' : HashEntry P V} (he : e ∈ es) (he' : e' ∈ es)
    (h : e.addr = e'.addr) : e = e' := List.inj_on_of_nodup_map hnd he he' h

/-- `HASH_ADD_STR` adds an entry after the others. -/
theorem wp_hashAddStr {strfield : V → Option P} (hmalloc : Bounded malloc) (h : Holds s es) (hx : x ∉ es.map HashEntry.addr)
    (hc : s.items.lookup x = some c) (hk : (strfield c.val).bind s.strs.lookup = some k) :
    wp OnlyOutOfMemory (hashAddStr malloc strfield x)
      (fun _ s' => Holds s' (es ++ [⟨x, c.val, strfield c.val, k⟩]) ∧ s'.strs = s.strs ∧
        Heap.Agree HashItem.val s.items s'.items) (fun _ _ => False) s := by
  unfold hashAddStr
  rw [wp_bind, wp_deref hc, wp_bind, wp_derefStr hk]
  refine (wp_hashAddKeyptr hmalloc h.rep hx (Heap.mem_of_lookup hc)).imp (fun _ s' hs' => ?_) fun _ _ => id
  obtain ⟨hrep, hstrs, hagree⟩ := hs'
  let f (d : HashItem P V) : HashItem P V := d.setKey (strfield c.val) (hashStrlen k) (hashJen k (hashStrlen k))
  have hwritten : Heap.Agree HashItem.val s.items (s.items.modify x f) := .modify fun _ => rfl
  have hval : Heap.Agree HashItem.val (s.items.modify x f) s'.items := hagree.imp (fun p => p.1) fun _ => rfl
  refine ⟨⟨by simpa using hrep, fun e he => ?_⟩, hstrs, hwritten.trans hval⟩
  have hkeyed : EntryAt { s with items := s.items.modify x f } ⟨x, c.val, strfield c.val, k⟩ (f c) :=
    ⟨by rw [Heap.lookup_modify_self, hc]; rfl, rfl, rfl, hk, rfl, rfl⟩
  rcases List.mem_append.mp he with he | he
  · obtain ⟨d, hd⟩ := h.entry e he
    have hne : e.addr ≠ x := fun hex => hx (hex ▸ List.mem_map_of_mem he)
    have hkept : EntryAt { s with items := s.items.modify x f } e d :=
      ⟨(Heap.lookup_modify_ne hne).trans hd.item, hd.val, hd.ptr, hd.key, hd.keylen, hd.hashv⟩
    exact hkept.of_fixed hagree hstrs
  · rw [List.mem_singleton.mp he]
    exact hkeyed.of_fixed hagree hstrs

/-- `HASH_DEL` removes an entry and leaves the order of the others. -/
theorem wp_hashDel_entry {F : HashFault → Hash P V → Prop} (h : Holds s es) (hx : x ∈ es.map HashEntry.addr) :
    wp F (hashDel x) (fun _ s' => Holds s' (entriesApart es x) ∧ s'.strs = s.strs ∧ Heap.Agree HashItem.fixed s.items s'.items)
      (fun _ _ => False) s := by
  refine (wp_hashDel h.rep hx).imp (fun _ s' hs' => ?_) fun _ _ => id
  obtain ⟨hrep, hstrs, hagree⟩ := hs'
  refine ⟨⟨by rwa [map_addr_entriesApart h.rep.nodup], fun e he => ?_⟩, hstrs, hagree⟩
  obtain ⟨c, hc⟩ := h.entry e (List.mem_of_mem_filter he)
  exact hc.of_fixed hagree hstrs

/-! ## Finding -/

/-- What a lookup of `k` among the items of `c` may give: an entry of that key, and nothing only where there is none. -/
def Found (es : List (HashEntry P V)) (c : List P) (k : List UInt8) : Option P → Prop
  | some x => ∃ e ∈ es, e.addr = x ∧ hashKey e.key = hashKey k
  | none => ∀ e ∈ es, e.addr ∈ c → hashKey e.key ≠ hashKey k

/-- The comparison is of what the table makes of the two keys. -/
theorem wp_hashItemMatches {F : HashFault → Hash P V → Prop} {Q : Bool → Hash P V → Prop} (h : EntryAt s e c)
    (hQ : Q (decide (hashKey e.key = hashKey k)) s) :
    wp F (hashItemMatches k (hashStrlen k) (hashJen k (hashStrlen k)) c) Q (fun _ _ => False) s := by
  unfold hashItemMatches
  rw [wp_ite]
  split
  · rename_i hcond
    have hlen : hashStrlen e.key = hashStrlen k := h.keylen.symm.trans hcond.2
    have hdec : hashKeyEq e.key k (hashStrlen k) = decide (hashKey e.key = hashKey k) := by
      rw [Bool.eq_iff_iff, decide_eq_true_iff, hashKey_eq_iff]
      simp [hlen]
    rw [wp_bind, h.ptr, wp_derefStr h.key, wp_pure, hdec]
    exact hQ
  · rename_i hcond
    have hne : hashKey e.key ≠ hashKey k := fun hkey =>
      hcond ⟨h.hashv.trans (hashJen_congr hkey), h.keylen.trans (hashStrlen_congr hkey)⟩
    rwa [decide_eq_false hne] at hQ

/-- The loop of `HASH_FIND_IN_BKT` finds an item of the chain. -/
theorem wp_hashFindInBkt {F : HashFault → Hash P V → Prop} {ch : List P} {p : Option P} {n : Nat} (h : Holds s es)
    (hch : Linked (s.items.link chainFields.next) (s.items.link chainFields.prev) p ch none)
    (hmem : ∀ x ∈ ch, x ∈ es.map HashEntry.addr) (hn : ch.length ≤ n) :
    wp F (hashFindInBkt k (hashStrlen k) (hashJen k (hashStrlen k)) n ch.head?) (fun r s' => s' = s ∧ Found es ch k r)
      (fun _ _ => False) s := by
  induction ch generalizing p n with
  | nil => cases n <;> exact ⟨rfl, fun e _ he => by simp at he⟩
  | cons x ch ih =>
    obtain ⟨n, rfl⟩ : ∃ m, n = m + 1 := ⟨n - 1, by simp at hn; omega⟩
    obtain ⟨e, he, rfl⟩ := List.mem_map.mp (hmem x (by simp))
    obtain ⟨c, hc⟩ := h.entry e he
    have hnext : c.hhNext = ch.head? := (Heap.link_of_lookup hc.item).symm.trans hch.next_of_cons
    rw [List.head?_cons, hashFindInBkt, wp_bind, wp_deref hc.item, wp_bind]
    refine wp_hashItemMatches hc ?_
    by_cases hkey : hashKey e.key = hashKey k
    · rw [decide_eq_true hkey]
      exact ⟨rfl, e, he, rfl, hkey⟩
    · rw [decide_eq_false hkey, hnext]
      refine (ih hch.tail (fun y hy => hmem y (by simp [hy])) (by simpa using hn)).imp (fun r s' hr => ⟨hr.1, ?_⟩) fun _ _ => id
      cases r with
      | none =>
        intro e' he' hec
        rcases List.mem_cons.mp hec with heq | hec
        · rwa [eq_of_addr_eq h.rep.nodup he' he heq]
        · exact hr.2 e' he' hec
      | some y => exact hr.2

/-- `HASH_FIND_STR` finds an entry of the key, if there is one. -/
theorem wp_hashFindStr {F : HashFault → Hash P V → Prop} (h : Holds s es) :
    wp F (hashFindStr k) (fun r s' => s' = s ∧ Found es (es.map HashEntry.addr) k r) (fun _ _ => False) s := by
  unfold hashFindStr
  rw [wp_bind, wp_get, wp_ite]
  split
  · rename_i hhead
    have hnil : es = [] := by
      rw [h.rep.head] at hhead
      simpa using hhead
    exact ⟨rfl, fun e he => by simp [hnil] at he⟩
  · rename_i hhead
    obtain ⟨y, hy⟩ := Option.ne_none_iff_exists'.mp hhead
    have hyl : y ∈ es.map HashEntry.addr := List.mem_of_mem_head? (h.rep.head.symm.trans hy)
    obtain ⟨t, ht⟩ := h.rep.tabled (List.ne_nil_of_mem hyl)
    obtain ⟨m, hm, chain, hB⟩ := ht.stored
    obtain ⟨b, hb⟩ := hm.exists_bucket (hashJen k (hashStrlen k))
    have hsub : ∀ x ∈ chain (hashToBkt (hashJen k (hashStrlen k)) t.numBuckets), x ∈ es.map HashEntry.addr := fun x hx =>
      (hB.mem_chain.mp hx).1
    rw [wp_bind, hy, wp_tbl (h.rep.alloc y hyl), ht.table, Option.elim_some, wp_bind, wp_bucketAt hb, (hB.chains _ b hb).head]
    refine (wp_hashFindInBkt h (hB.chains _ b hb).linked hsub (Heap.length_le_size (hB.nodup_chain h.rep.nodup _)
      fun x hx => h.rep.alloc x (hsub x hx))).imp (fun r s' hr => ⟨hr.1, ?_⟩) fun _ _ => id
    cases r with
    | some x => exact hr.2
    | none =>
      -- an entry of the key would be in this bucket
      intro e he _ hkey
      obtain ⟨c, hc⟩ := h.entry e he
      refine hr.2 e he (hB.mem_chain.mpr ⟨List.mem_map_of_mem he, ?_⟩) hkey
      rw [bktOf, hashvOf_of_lookup hc.item, hc.hashv, hashJen_congr hkey]

omit [DecidableEq P] in
/-- There is one lookup result where no two entries have the same key. -/
theorem Found.unique {c : List P} {r : Option P} (h : Found es c k r) (hc : ∀ e ∈ es, e.addr ∈ c)
    (hkeys : (es.map fun e => hashKey e.key).Nodup) : r = (es.find? fun e => hashKey e.key = hashKey k).map HashEntry.addr := by
  cases r with
  | none =>
    rw [eq_comm, Option.map_eq_none_iff, List.find?_eq_none]
    intro e he
    simpa using h e he (hc e he)
  | some x =>
    obtain ⟨e, he, rfl, hkey⟩ := h
    rw [eq_comm, Option.map_eq_some_iff]
    refine ⟨e, ?_, rfl⟩
    cases hf : es.find? fun e => hashKey e.key = hashKey k with
    | none => simpa [hkey] using List.find?_eq_none.mp hf e he
    | some e' =>
      have hkey' : hashKey e'.key = hashKey k := by simpa using List.find?_some hf
      rw [List.inj_on_of_nodup_map hkeys (List.mem_of_find?_eq_some hf) he (hkey'.trans hkey.symm)]

/-! ## Going through a table -/

omit [DecidableEq P] in
/-- The rule of `HASH_ITER`: before the turn of an item, the next one can be read, and its turn leaves the items after it. -/
theorem wp_hashIterFrom {σ ε φ : Type} {F : φ → σ → Prop} {E : ε → σ → Prop} {next : Option P → Exec σ ε φ (Option P)} {fault : φ}
    {body : P → Exec σ ε φ Unit} {J : List P → σ → Prop} {l : List P} {n : Nat} {s : σ} (h : J l s) (hn : l.length ≤ n)
    (hnext : ∀ x l s, J (x :: l) s → wp F (next (some x)) (fun r s' => s' = s ∧ r = l.head?) E s)
    (hbody : ∀ x l s, J (x :: l) s → wp F (body x) (fun _ s' => J l s') E s) :
    wp F (hashIterFrom next fault body n l.head?) (fun _ s' => J [] s') E s := by
  induction l generalizing s n with
  | nil => cases n <;> exact h
  | cons x l ih =>
    obtain ⟨n, rfl⟩ : ∃ m, n = m + 1 := ⟨n - 1, by simp at hn; omega⟩
    rw [List.head?_cons, hashIterFrom]
    refine (hnext x l s h).bind (fun r s' hr => ?_) fun _ _ => id
    obtain ⟨rfl, rfl⟩ := hr
    exact (hbody x l s' h).bind (fun _ s'' hs'' => ih hs'' (by simpa using hn)) fun _ _ => id

/-- `HASH_COUNT` is the number of items. -/
theorem wp_hashCount {F : HashFault → Hash P V → Prop} (h : Holds s es) :
    wp F hashCount (fun r s' => s' = s ∧ r = BitVec.ofNat 32 es.length) (fun _ _ => False) s := by
  unfold hashCount
  rw [wp_bind, wp_get, wp_ite]
  split
  · rename_i hhead
    have hnil : es = [] := by
      rw [h.rep.head] at hhead
      simpa using hhead
    exact ⟨rfl, by rw [hnil]; rfl⟩
  · rename_i hhead
    obtain ⟨y, hy⟩ := Option.ne_none_iff_exists'.mp hhead
    have hyl : y ∈ es.map HashEntry.addr := List.mem_of_mem_head? (h.rep.head.symm.trans hy)
    obtain ⟨t, ht⟩ := h.rep.tabled (List.ne_nil_of_mem hyl)
    rw [wp_bind, hy, wp_tbl (h.rep.alloc y hyl), ht.table, Option.elim_some, wp_pure]
    exact ⟨rfl, by rw [ht.numItems, List.length_map]⟩

/-! ## `HASH_FSCK` -/

/-- The check goes through a list whose links are right. -/
theorem wp_hashFsckList {F : HashFault → Hash P V → Prop} {next back : HashItem P V → Option P} {message : String} {c : List P}
    {p : Option P} {n : Nat} {count : BitVec 32} (hc : Linked (s.items.link next) (s.items.link back) p c none)
    (halloc : ∀ x ∈ c, x ∈ s.items) (hn : c.length ≤ n) :
    wp F (hashFsckList next back message n c.head? p count) (fun r s' => s' = s ∧ r = count + BitVec.ofNat 32 c.length)
      (fun _ _ => False) s := by
  induction c generalizing p n count with
  | nil => cases n <;> exact ⟨rfl, (BitVec.add_zero count).symm⟩
  | cons x c ih =>
    obtain ⟨n, rfl⟩ : ∃ m, n = m + 1 := ⟨n - 1, by simp at hn; omega⟩
    obtain ⟨d, hd⟩ := Heap.exists_of_mem (halloc x (by simp))
    have hnext : next d = c.head? := (Heap.link_of_lookup hd).symm.trans hc.next_of_cons
    have hback : p = back d := hc.prev_of_cons.symm.trans (Heap.link_of_lookup hd)
    rw [List.head?_cons, hashFsckList, wp_bind, wp_deref hd, wp_ite, if_neg (by simpa using hback), hnext]
    refine (ih hc.tail (fun y hy => halloc y (by simp [hy])) (by simpa using hn)).imp (fun r s' hr => ⟨hr.1, ?_⟩) fun _ _ => id
    rw [hr.2, List.length_cons, BitVec.add_assoc, Nat.add_comm, BitVec.ofNat_add]
    rfl

/-- `HASH_FSCK` finds nothing wrong and changes nothing. -/
theorem wp_hashFsck {F : HashFault → Hash P V → Prop} {l : List P} (h : HashRep s l) :
    wp F hashFsck (fun _ s' => s' = s) (fun _ _ => False) s := by
  unfold hashFsck
  rw [wp_bind, wp_get, wp_ite]
  split
  · exact rfl
  · rename_i hhead
    obtain ⟨y, hy⟩ := Option.ne_none_iff_exists'.mp hhead
    have hyl : y ∈ l := List.mem_of_mem_head? (h.head.symm.trans hy)
    obtain ⟨t, ht⟩ := h.tabled (List.ne_nil_of_mem hyl)
    obtain ⟨m, hm, chain, hB⟩ := ht.stored
    have hsize : ∀ c : List P, c.Nodup → (∀ x ∈ c, x ∈ l) → c.length ≤ s.items.size := fun c hnd hc =>
      Heap.length_le_size hnd fun x hx => h.alloc x (hc x hx)
    rw [wp_bind, hy, wp_tbl (h.alloc y hyl), ht.table, Option.elim_some, wp_bind, hm.toNat_numBuckets]
    -- after `j` buckets, their items were counted
    let f := bktOf s.items t.numBuckets
    have hbuckets : wp F ((List.range (2 ^ m)).foldlM (fun count bkt => do
          let b ← bucketAt t.buckets bkt
          let bktCount ← hashFsckList HashItem.hhNext HashItem.hhPrev "%s: invalid hh_prev %p, actual %p\n" s.items.size b.hhHead none 0
          if b.count ≠ bktCount then Exec.fault (.oops "%s: invalid bucket count %u, actual %u\n")
          else pure (count + bktCount)) 0)
        (fun count s' => s' = s ∧ count = BitVec.ofNat 32 (l.filter fun x => f x < 2 ^ m).length) (fun _ _ => False) s := by
      refine wp_foldlM_range (I := fun j count s' => s' = s ∧ count = BitVec.ofNat 32 (l.filter fun x => f x < j).length)
        ⟨rfl, by simp⟩ ?_
      rintro j count s' hj ⟨rfl, rfl⟩
      obtain ⟨b, hb⟩ : ∃ b, t.buckets[j]? = some b := ⟨_, List.getElem?_eq_getElem (hm.length ▸ hj)⟩
      have hsub : ∀ x ∈ chain j, x ∈ l := fun x hx => (hB.mem_chain.mp hx).1
      rw [wp_bind, wp_bucketAt hb, (hB.chains j b hb).head]
      refine (wp_hashFsckList (hB.chains j b hb).linked (fun x hx => h.alloc x (hsub x hx))
        (hsize _ (hB.nodup_chain h.nodup j) hsub)).bind (fun r s'' hr => ?_) fun _ _ => id
      obtain ⟨rfl, rfl⟩ := hr
      rw [wp_ite, if_neg (by simp [(hB.chains j b hb).count]), wp_pure]
      refine ⟨rfl, ?_⟩
      rw [← (perm_filter_lt_succ f l j).length_eq, List.length_append, (hB.perm j).length_eq, BitVec.ofNat_add]
      exact (congrArg _ (BitVec.zero_add _)).trans (BitVec.add_comm _ _)
    refine hbuckets.imp (fun count s' hs' => ?_) fun _ _ => id
    obtain ⟨rfl, rfl⟩ := hs'
    rw [List.filter_eq_self.mpr fun x _ => by simpa using hm.bktOf_lt, wp_ite, if_neg (by simp [ht.numItems]), ← hy, h.head]
    refine (wp_hashFsckList h.listed h.alloc (hsize l h.nodup fun _ => id)).bind (fun r s'' hr => ?_) fun _ _ => id
    obtain ⟨rfl, rfl⟩ := hr
    rw [wp_ite, if_neg (by simp [ht.numItems]), wp_pure]

end Entries

end Sylvan
