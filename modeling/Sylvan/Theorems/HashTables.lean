import Sylvan.Theorems.HashExpand

/-! # Adding and deleting

`HashRep s l` is the invariant of a hash: its items, in the order they were added in, are those of `l`. Adding an item
appends it to `l` and deleting one erases it, whatever expansions of the buckets there are meanwhile. The one fault is that
memory runs out. -/

namespace Sylvan
open Exec Links

section Tables
variable {P V : Type} [DecidableEq P] {items : Heap P (HashItem P V)} {s s₀ : Hash P V} {l : List P} {x y : P}
  {c : HashItem P V} {t : HashTable P} {k : Nat} {malloc : Nat → Bool} {key : List UInt8}

/-! ## The invariant -/

/-- There are `2 ^ k` buckets. -/
structure Sized (t : HashTable P) (k : Nat) : Prop where
  lt : k < 32
  log2 : t.log2NumBuckets = BitVec.ofNat 32 k
  numBuckets : t.numBuckets = BitVec.ofNat 32 (2 ^ k)
  length : t.buckets.length = 2 ^ k

/-- The bucket of an item among `numBuckets` -/
def bktOf (items : Heap P (HashItem P V)) (numBuckets : BitVec 32) (x : P) : Nat := hashToBkt (hashvOf items x) numBuckets

/-- The buckets of `t` hold the items of `l`. -/
def Chained (items : Heap P (HashItem P V)) (t : HashTable P) (l : List P) : Prop :=
  ∃ k, Sized t k ∧ ∃ chain, Bucketed items t.buckets (bktOf items t.numBuckets) l chain

/-- The table of the items `l`, which are not none. -/
structure Tabled (s : Hash P V) (l : List P) (t : HashTable P) : Prop where
  table : s.table = some t
  tail : t.tail = l.getLast?
  numItems : t.numItems = BitVec.ofNat 32 l.length
  stored : Chained s.items t l

/-- The hash holds the items of `l`, in the order they were added in. -/
structure HashRep (s : Hash P V) (l : List P) : Prop where
  nodup : l.Nodup
  alloc : ∀ x ∈ l, x ∈ s.items
  head : s.head = l.head?
  listed : listFields.InHeap s.items l
  tabled : l ≠ [] → ∃ t, Tabled s l t

/-- No item was added yet. -/
theorem hashRep_nil (hhead : s.head = none) : HashRep s [] :=
  ⟨List.nodup_nil, by simp, hhead, trivial, fun h => absurd rfl h⟩

/-! ## Buckets -/

namespace Sized

omit [DecidableEq P] in
theorem toNat_numBuckets (h : Sized t k) : t.numBuckets.toNat = 2 ^ k := by
  rw [h.numBuckets, BitVec.toNat_ofNat]
  exact Nat.mod_eq_of_lt (Nat.pow_lt_pow_right (by omega) h.lt)

theorem bktOf_lt (h : Sized t k) : bktOf items t.numBuckets x < 2 ^ k := by
  rw [bktOf, h.numBuckets]
  exact hashToBkt_lt h.lt _

omit [DecidableEq P] in
/-- Every hash value has a bucket. -/
theorem exists_bucket (h : Sized t k) (hashv : BitVec 32) : ∃ b, t.buckets[hashToBkt hashv t.numBuckets]? = some b := by
  have hlt : hashToBkt hashv t.numBuckets < t.buckets.length := by
    rw [h.length, h.numBuckets]
    exact hashToBkt_lt h.lt _
  exact ⟨_, List.getElem?_eq_getElem hlt⟩

omit [DecidableEq P] in
theorem numBuckets_mul_two (h : Sized t k) : t.numBuckets * 2 = BitVec.ofNat 32 (2 ^ (k + 1)) := by
  rw [h.numBuckets, Nat.pow_succ, BitVec.ofNat_mul]
  rfl

end Sized

theorem bktOf_of_fixed {items' : Heap P (HashItem P V)} (h : Heap.Agree HashItem.fixed items items') (numBuckets : BitVec 32) :
    bktOf items' numBuckets = bktOf items numBuckets := by
  funext x
  simp only [bktOf, hashvOf_of_fixed h]

/-- The one fault is that memory ran out. -/
def OnlyOutOfMemory (f : HashFault) (_ : Hash P V) : Prop := f = .outOfMemory

/-- No allocation of 64 GiB or more succeeds. -/
def Bounded (malloc : Nat → Bool) : Prop := ∀ n, malloc n = true → n < 2 ^ 36

/-- Expanding the buckets keeps every item. -/
theorem wp_hashExpandBuckets (hmalloc : Bounded malloc) (h : Chained s.items t l) (hl : l.Nodup) (halloc : ∀ x ∈ l, x ∈ s.items) :
    wp OnlyOutOfMemory (hashExpandBuckets malloc t)
      (fun _ s' => s'.strs = s.strs ∧ s'.head = s.head ∧ Heap.Agree HashItem.apart s.items s'.items ∧
        ∃ t', s'.table = some t' ∧ t'.tail = t.tail ∧ t'.numItems = t.numItems ∧ Chained s'.items t' l)
      (fun _ _ => False) s := by
  obtain ⟨k, hk, chain, hB⟩ := h
  unfold hashExpandBuckets
  rw [wp_ite]
  split
  · exact rfl
  · rename_i hok
    -- what `malloc` gives bounds the number of buckets
    have hk1 : k + 1 < 32 := by
      have hlt := hmalloc _ (by simpa using hok)
      rw [hk.toNat_numBuckets] at hlt
      have hpow : 2 ^ (k + 5) < 2 ^ 36 := by
        rw [Nat.pow_add]
        omega
      have hexp := (Nat.pow_lt_pow_iff_right (by omega : 1 < 2)).mp hpow
      omega
    have hdouble : t.numBuckets * 2 = BitVec.ofNat 32 (2 ^ (k + 1)) := hk.numBuckets_mul_two
    rw [wp_bind, wp_get, wp_bind, hk.toNat_numBuckets]
    refine (wp_hashExpandBuckets_loop (f := bktOf s.items (t.numBuckets * 2)) hB hl halloc hk.length (fun x _ => hk.bktOf_lt)
      (fun _ _ => rfl) (fun x _ => ?_) (Heap.length_le_size hl halloc)).mono (fun new s' hs' => ?_) (fun _ _ => id) fun _ _ => False.elim
    · rw [bktOf, hdouble, ← Nat.pow_succ]
      exact hashToBkt_lt hk1 _
    · obtain ⟨done, hperm, hs'⟩ := hs'
      obtain ⟨chain', hB'⟩ := hs'.bucketed
      rw [wp_setTable]
      refine ⟨hs'.strs, hs'.head, hs'.apart, _, rfl, rfl, rfl, k + 1, ⟨hk1, ?_, hdouble, ?_⟩, chain', ?_⟩
      · simp only [hk.log2, BitVec.ofNat_add]
        rfl
      · rw [Nat.pow_succ]
        exact hs'.length
      · show Bucketed s'.items new.1 (bktOf s'.items (t.numBuckets * 2)) l chain'
        rw [bktOf_of_fixed (fixed_of_apart hs'.apart)]
        exact hB'.of_perm hperm

/-! ## Adding -/

/-- `HASH_ADD_TO_BKT` puts the item into its bucket. -/
theorem wp_hashAddToBkt (hmalloc : Bounded malloc) (ht : s.table = some t) (h : Chained s.items t l) (hl : l.Nodup)
    (halloc : ∀ x ∈ l, x ∈ s.items) (hx : x ∉ l) (hxs : x ∈ s.items) (hhead : s.head = some y) (hy : y ∈ s.items) :
    wp OnlyOutOfMemory (hashAddToBkt malloc (bktOf s.items t.numBuckets x) x)
      (fun _ s' => s'.strs = s.strs ∧ s'.head = some y ∧ Heap.Agree HashItem.apart s.items s'.items ∧
        ∃ t', s'.table = some t' ∧ t'.tail = t.tail ∧ t'.numItems = t.numItems ∧ Chained s'.items t' (l ++ [x]))
      (fun _ _ => False) s := by
  obtain ⟨k, hk, chain, hB⟩ := h
  obtain ⟨b, hb⟩ : ∃ b, t.buckets[bktOf s.items t.numBuckets x]? = some b := hk.exists_bucket _
  have hhd : ∀ z ∈ b.hhHead, z ∈ l := fun z hz => (hB.head_mem hb hz).1
  unfold hashAddToBkt
  rw [wp_bind, wp_get, wp_bind, hhead, wp_tbl hy, ht, Option.elim_some, wp_bind, wp_bucketAt hb, wp_bind, wp_storeItem hxs, wp_bind,
    wp_storeItem (by simpa using hxs), wp_bind,
    wp_when_storeItem (fun z hz => by simpa using halloc z (hhd z hz)), wp_bind, wp_setTable, wp_bind]
  set items₁ := (s.items.modify x (HashItem.setHhNext b.hhHead)).modify x (HashItem.setHhPrev none) with h₁
  let items₂ := items₁.modifyOpt b.hhHead (HashItem.setHhPrev (some x))
  have hmem₁ : ∀ y, y ∈ items₁ ↔ y ∈ s.items := by simp [h₁]
  have hagree : Heap.Agree HashItem.apart s.items items₂ :=
    ((Heap.Agree.modify (apart_setHhNext b.hhHead)).trans (Heap.Agree.modify (apart_setHhPrev none))).trans
      (Heap.Agree.modifyOpt (apart_setHhPrev (some x)))
  have hnext : items₁.link chainFields.next = (s.items.modify x (chainFields.setNext b.hhHead)).link chainFields.next :=
    chainFields.link_next_setPrev
  have hprev : items₁.link chainFields.prev = (s.items.modify x (chainFields.setPrev none)).link chainFields.prev := by
    show ((s.items.modify x (chainFields.setNext b.hhHead)).modify x (chainFields.setPrev none)).link chainFields.prev = _
    rw [chainFields.link_setPrev (by simpa using hxs), chainFields.link_prev_setNext, chainFields.link_setPrev hxs]
  -- the item is in front of its chain
  have hlx : (l ++ [x]).Nodup := List.nodup_append.mpr ⟨hl, by simp, fun y hy z hz => by
    rw [List.mem_singleton] at hz
    rintro rfl
    exact hx (hz ▸ hy)⟩
  have hallocx : ∀ y ∈ l ++ [x], y ∈ items₂ := fun y hy => hagree.mem_iff.mpr (by
    rcases List.mem_append.mp hy with hy | hy
    · exact halloc y hy
    · rwa [List.mem_singleton.mp hy])
  have hnext₂ : items₂.link chainFields.next = pushNext (s.items.link chainFields.next) b.hhHead x :=
    chainFields.link_next_push hxs hnext
  have hprev₂ : items₂.link chainFields.prev = pushPrev (s.items.link chainFields.prev) b.hhHead x :=
    chainFields.link_prev_push hxs (fun z hz => (hmem₁ z).mpr (halloc z (hhd z hz))) hprev
  let b' : HashBucket P := { hhHead := some x, count := b.count + 1, expandMult := b.expandMult }
  let t' : HashTable P := { t with buckets := t.buckets.set (bktOf s.items t.numBuckets x) b' }
  have hstored : Chained items₂ t' (l ++ [x]) := by
    refine ⟨k, ⟨hk.lt, hk.log2, hk.numBuckets, by rw [List.length_set, hk.length]⟩,
      Function.update chain (bktOf s.items t.numBuckets x) (x :: chain (bktOf s.items t.numBuckets x)), ?_⟩
    rw [bktOf_of_fixed (fixed_of_apart hagree)]
    exact (hB.push hl hx hb hnext₂ hprev₂).of_perm (List.perm_append_singleton x l).symm
  show wp OnlyOutOfMemory (tbl (some x)) _ _ { s with items := items₂, table := some t' }
  rw [wp_tbl (by exact hallocx x (by simp)), Option.elim_some, wp_when]
  split
  · refine (wp_hashExpandBuckets hmalloc hstored hlx hallocx).imp (fun _ s' hs' => ?_) fun _ _ => id
    obtain ⟨hstrs, hhead', hagree', t'', ht'', htail, hnum, hst⟩ := hs'
    exact ⟨hstrs, hhead'.trans hhead, hagree.trans hagree', t'', ht'', htail, hnum, hst⟩
  · exact ⟨rfl, hhead, hagree, t', rfl, rfl, rfl, hstored⟩

/-- `HASH_ADD_TO_TABLE` counts the item and puts it into its bucket. -/
theorem wp_hashAddToTable (hmalloc : Bounded malloc) (ht : s.table = some t) (h : Chained s.items t l) (hl : l.Nodup)
    (halloc : ∀ x ∈ l, x ∈ s.items) (hx : x ∉ l) (hxs : x ∈ s.items) (hhead : s.head = some y) (hy : y ∈ s.items) :
    wp OnlyOutOfMemory (hashAddToTable malloc (hashvOf s.items x) x)
      (fun _ s' => s'.strs = s.strs ∧ s'.head = some y ∧ Heap.Agree HashItem.apart s.items s'.items ∧
        ∃ t', s'.table = some t' ∧ t'.tail = t.tail ∧ t'.numItems = t.numItems + 1 ∧ Chained s'.items t' (l ++ [x]))
      (fun _ _ => False) s := by
  unfold hashAddToTable
  rw [wp_bind, wp_get, wp_bind, hhead, wp_tbl hy, ht, Option.elim_some, wp_bind, wp_setTable]
  have hstored : Chained s.items { t with numItems := t.numItems + 1 } l := by
    obtain ⟨k, hk, hchains⟩ := h
    exact ⟨k, ⟨hk.lt, hk.log2, hk.numBuckets, hk.length⟩, hchains⟩
  exact wp_hashAddToBkt (s := { s with table := some { t with numItems := t.numItems + 1 } }) hmalloc rfl hstored hl halloc hx
    hxs hhead hy

/-- `HASH_APPEND_LIST` appends the item to the list of all items. -/
theorem wp_hashAppendList {F : HashFault → Hash P V → Prop} (ht : s.table = some t) {z : P} (htail : t.tail = some z)
    (hlast : l.getLast? = some z) (hlist : listFields.InHeap s.items l)
    (hl : l.Nodup) (halloc : ∀ x ∈ l, x ∈ s.items) (hx : x ∉ l) (hxs : x ∈ s.items) (hhead : s.head = some y) (hy : y ∈ s.items) :
    wp F (hashAppendList x)
      (fun _ s' => s'.strs = s.strs ∧ s'.head = some y ∧ Heap.Agree HashItem.unlisted s.items s'.items ∧
        s'.table = some { t with tail := some x } ∧ listFields.InHeap s'.items (l ++ [x]))
      (fun _ _ => False) s := by
  have hz : z ∈ l := List.mem_of_mem_getLast? hlast
  have hne : ∀ {y}, y ∈ l → y ≠ x := fun hy hyx => hx (hyx ▸ hy)
  unfold hashAppendList
  rw [wp_bind, wp_storeItem hxs, wp_bind, wp_get, wp_bind, hhead, wp_tbl (by simpa using hy), ht, Option.elim_some, wp_bind,
    wp_storeItem (by simpa using hxs), wp_bind, htail, wp_storeItem (by simpa using halloc z hz), wp_setTable]
  let items₁ := (s.items.modify x (listFields.setNext none)).modify x (listFields.setPrev (some z))
  have hz₁ : z ∈ items₁ := by simpa [items₁] using halloc z hz
  refine ⟨rfl, rfl, ((Heap.Agree.modify (unlisted_setNext none)).trans (Heap.Agree.modify (unlisted_setPrev (some z)))).trans
    (Heap.Agree.modify (unlisted_setNext (some x))), rfl, ?_⟩
  have hnext : (items₁.modify z (listFields.setNext (some x))).link listFields.next =
      Function.update (Function.update (s.items.link listFields.next) x none) z (some x) := by
    rw [listFields.link_setNext hz₁, listFields.link_next_setPrev, listFields.link_setNext hxs]
  have hprev : (items₁.modify z (listFields.setNext (some x))).link listFields.prev =
      Function.update (s.items.link listFields.prev) x (some z) := by
    rw [listFields.link_prev_setNext, listFields.link_setPrev (by simpa using hxs), listFields.link_prev_setNext]
  show listFields.InHeap (items₁.modify z (listFields.setNext (some x))) (l ++ [x])
  rw [Fields.InHeap, hnext, hprev]
  refine hlist.snoc hl ?_ ?_ (fun y hy => ?_) (fun y hy hyl => ?_) fun y hy => Function.update_of_ne (hne hy) _ _
  · rw [Function.update_of_ne (hne hz).symm, Function.update_self]
  · rw [Function.update_self, hlast]
  · have hyz : y = z := Option.some.inj (hy.symm.trans hlast)
    rw [hyz, Function.update_self]
  · have hyz : y ≠ z := by
      rintro rfl
      exact hyl hlast
    rw [Function.update_of_ne hyz, Function.update_of_ne (hne hy)]

/-- The first item makes a table with empty buckets. -/
theorem wp_hashLinkItem_first (hhead : s.head = none) (hxs : x ∈ s.items) :
    wp OnlyOutOfMemory (hashLinkItem malloc x)
      (fun _ s' => s'.strs = s.strs ∧ s'.head = some x ∧ Heap.Agree HashItem.unlisted s.items s'.items ∧
        listFields.InHeap s'.items [x] ∧ ∃ t, s'.table = some t ∧ t.tail = some x ∧ t.numItems = 0 ∧ Chained s'.items t [])
      (fun _ _ => False) s := by
  unfold hashLinkItem hashMakeTable
  rw [wp_bind, wp_get, if_pos hhead, wp_bind, wp_storeItem hxs, wp_bind, wp_storeItem (by simpa using hxs), wp_bind, wp_ite]
  split
  · exact rfl
  · rw [wp_setTable, wp_modify]
    let items₁ := (s.items.modify x (listFields.setNext none)).modify x (listFields.setPrev none)
    have hnext : items₁.link listFields.next x = none := by
      rw [listFields.link_next_setPrev, listFields.link_setNext hxs, Function.update_self]
    have hprev : items₁.link listFields.prev x = none := by
      rw [listFields.link_setPrev (by simpa using hxs), Function.update_self]
    exact ⟨rfl, rfl, (Heap.Agree.modify (unlisted_setNext none)).trans (Heap.Agree.modify (unlisted_setPrev none)),
      ⟨hprev, hnext, trivial⟩, _, rfl, rfl, rfl, 5, ⟨by decide, rfl, rfl, by simp⟩, _, Bucketed.empty _⟩

/-- The links of the list of all items do not matter to the buckets. -/
theorem Chained.of_unlisted {items' : Heap P (HashItem P V)} (h : Chained items t l)
    (hagree : Heap.Agree HashItem.unlisted items items') {t' : HashTable P} (hbuckets : t'.buckets = t.buckets)
    (hnum : t'.numBuckets = t.numBuckets) (hlog : t'.log2NumBuckets = t.log2NumBuckets) : Chained items' t' l := by
  obtain ⟨k, hk, chain, hB⟩ := h
  refine ⟨k, ⟨hk.lt, hlog.trans hk.log2, hnum.trans hk.numBuckets, hbuckets ▸ hk.length⟩, chain, ?_⟩
  rw [hnum, hbuckets, bktOf_of_fixed (fixed_of_unlisted hagree)]
  exact hB.of_links (chainFields_of_unlisted hagree).1 (chainFields_of_unlisted hagree).2

omit [DecidableEq P] in
theorem nodup_snoc (hl : l.Nodup) (hx : x ∉ l) : (l ++ [x]).Nodup := by
  refine List.nodup_append.mpr ⟨hl, by simp, fun y hy z hz => ?_⟩
  rw [List.mem_singleton] at hz
  rintro rfl
  exact hx (hz ▸ hy)

/-- `HASH_ADD_TO_TABLE` completes the table, where the item is the last one of the list and in no chain yet. -/
theorem wp_hashAddToTable_rep (hmalloc : Bounded malloc) (hl : l.Nodup) (hx : x ∉ l) (halloc : ∀ z ∈ l ++ [x], z ∈ s.items)
    (hhead : s.head = (l ++ [x]).head?) (hlist : listFields.InHeap s.items (l ++ [x])) (ht : s.table = some t)
    (htail : t.tail = some x) (hnum : t.numItems = BitVec.ofNat 32 l.length) (hst : Chained s.items t l) :
    wp OnlyOutOfMemory (hashAddToTable malloc (hashvOf s.items x) x)
      (fun _ s' => HashRep s' (l ++ [x]) ∧ s'.strs = s.strs ∧ Heap.Agree HashItem.fixed s.items s'.items)
      (fun _ _ => False) s := by
  obtain ⟨y, hy⟩ : ∃ y, (l ++ [x]).head? = some y := ⟨_, List.head?_eq_some_head (by simp)⟩
  refine (wp_hashAddToTable hmalloc ht hst hl (fun z hz => halloc z (by simp [hz])) hx (halloc x (by simp)) (hhead.trans hy)
    (halloc y (List.mem_of_mem_head? hy))).imp (fun _ s' hs' => ?_) fun _ _ => id
  obtain ⟨hstrs, hhead', hagree, t', ht', htail', hnum', hst'⟩ := hs'
  have htabled : Tabled s' (l ++ [x]) t' := by
    refine ⟨ht', by rw [htail', htail, List.getLast?_concat], ?_, hst'⟩
    rw [hnum', hnum, List.length_append, BitVec.ofNat_add]
    rfl
  exact ⟨⟨nodup_snoc hl hx, fun z hz => hagree.mem_iff.mpr (halloc z hz), hhead'.trans hy.symm,
    hlist.of_links (listFields_of_apart hagree).1 (listFields_of_apart hagree).2, fun _ => ⟨t', htabled⟩⟩, hstrs,
    fixed_of_apart hagree⟩

/-- A hash whose items have other keys, but the same links and hash values, is the same. -/
theorem HashRep.of_setKey (h : HashRep s l) (hx : x ∉ l) {keyptr : Option P} {keylen hashval : BitVec 32} :
    HashRep { s with items := s.items.modify x fun c => c.setKey keyptr keylen hashval } l := by
  refine ⟨h.nodup, fun y hy => by simpa using h.alloc y hy, h.head,
    h.listed.of_links (Heap.link_modify_of_eq fun _ => rfl) (Heap.link_modify_of_eq fun _ => rfl), fun hne => ?_⟩
  obtain ⟨t, ht⟩ := h.tabled hne
  obtain ⟨k, hk, chain, hB⟩ := ht.stored
  refine ⟨t, ht.table, ht.tail, ht.numItems, k, hk, chain, (hB.of_links ?_ ?_).congr fun y hy => ?_⟩
  · exact Heap.link_modify_of_eq fun _ => rfl
  · exact Heap.link_modify_of_eq fun _ => rfl
  · have hyx : y ≠ x := by
      rintro rfl
      exact hx hy
    simp only [bktOf, hashvOf, Heap.lookup_modify_ne hyx]

/-- The `if` makes the item the last one of the list. -/
theorem wp_hashLinkItem (h : HashRep s l) (hx : x ∉ l) (hxs : x ∈ s.items) :
    wp OnlyOutOfMemory (hashLinkItem malloc x)
      (fun _ s' => s'.strs = s.strs ∧ s'.head = (l ++ [x]).head? ∧ Heap.Agree HashItem.unlisted s.items s'.items ∧
        listFields.InHeap s'.items (l ++ [x]) ∧
        ∃ t, s'.table = some t ∧ t.tail = some x ∧ t.numItems = BitVec.ofNat 32 l.length ∧ Chained s'.items t l)
      (fun _ _ => False) s := by
  cases hl : l with
  | nil =>
    subst hl
    exact wp_hashLinkItem_first h.head hxs
  | cons y l' =>
    have hne : l ≠ [] := by simp [hl]
    have hy : s.head = some y := h.head.trans (by rw [hl]; rfl)
    obtain ⟨t, ht⟩ := h.tabled hne
    obtain ⟨z, hz⟩ : ∃ z, l.getLast? = some z := ⟨_, List.getLast?_eq_some_getLast hne⟩
    rw [← hl]
    unfold hashLinkItem
    rw [wp_bind, wp_get, if_neg (by simp [hy])]
    refine (wp_hashAppendList ht.table (ht.tail.trans hz) hz h.listed h.nodup h.alloc hx hxs hy
      (h.alloc y (by simp [hl]))).imp (fun _ s' hs' => ?_) fun _ _ => id
    obtain ⟨hstrs, hhead, hagree, htbl, hlist⟩ := hs'
    exact ⟨hstrs, hhead.trans (by simp [hl]), hagree, hlist, _, htbl, rfl, ht.numItems, ht.stored.of_unlisted hagree rfl rfl rfl⟩

/-- `HASH_ADD_KEYPTR_BYHASHVALUE` appends the item, and of the other items it changes links only. -/
theorem wp_hashAddKeyptr (hmalloc : Bounded malloc) (h : HashRep s l) (hx : x ∉ l) (hxs : x ∈ s.items) {keyptr : Option P}
    {keylen hashval : BitVec 32} :
    wp OnlyOutOfMemory (hashAddKeyptrByhashvalue malloc keyptr keylen hashval x)
      (fun _ s' => HashRep s' (l ++ [x]) ∧ s'.strs = s.strs ∧
        Heap.Agree HashItem.fixed (s.items.modify x fun c => c.setKey keyptr keylen hashval) s'.items)
      (fun _ _ => False) s := by
  obtain ⟨c, hc⟩ := Heap.exists_of_mem hxs
  set items₁ := s.items.modify x fun c => c.setKey keyptr keylen hashval with h₁
  have hmem₁ : ∀ y, y ∈ items₁ ↔ y ∈ s.items := by simp [h₁]
  have hhashv : hashvOf items₁ x = hashval := by
    rw [h₁, hashvOf, Heap.lookup_modify_self, hc]
    rfl
  have h' : HashRep { s with items := items₁ } l := h.of_setKey hx
  unfold hashAddKeyptrByhashvalue
  rw [wp_bind, wp_storeItem hxs]
  refine (wp_hashLinkItem h' hx ((hmem₁ x).mpr hxs)).bind (fun _ s₁ hs₁ => ?_) fun _ _ => id
  obtain ⟨hstrs, hhead, hagree, hlist, t, ht, htail, hnum, hst⟩ := hs₁
  have halloc : ∀ z ∈ l ++ [x], z ∈ s₁.items := fun z hz => by
    refine hagree.mem_iff.mpr ((hmem₁ z).mpr ?_)
    rcases List.mem_append.mp hz with hz | hz
    · exact h.alloc z hz
    · rwa [List.mem_singleton.mp hz]
  rw [← hhashv, ← hashvOf_of_fixed (fixed_of_unlisted hagree)]
  refine (wp_hashAddToTable_rep hmalloc h.nodup hx halloc hhead hlist ht htail hnum hst).imp
    (fun _ s' hs' => ⟨hs'.1, hs'.2.1.trans hstrs, (fixed_of_unlisted hagree).trans hs'.2.2⟩) fun _ _ => id

/-! ## Deleting -/

/-- `HASH_DEL_IN_BKT` unlinks the item from its chain. -/
theorem wp_hashDelInBkt {F : HashFault → Hash P V → Prop} (ht : s.table = some t) (h : Chained s.items t l) (hl : l.Nodup)
    (halloc : ∀ x ∈ l, x ∈ s.items) (hx : x ∈ l) (hhead : s.head = some y) (hy : y ∈ s.items) :
    wp F (hashDelInBkt (bktOf s.items t.numBuckets x) x)
      (fun _ s' => s'.strs = s.strs ∧ s'.head = some y ∧ Heap.Agree HashItem.apart s.items s'.items ∧
        ∃ t', s'.table = some t' ∧ t'.tail = t.tail ∧ t'.numItems = t.numItems ∧ Chained s'.items t' (l.erase x))
      (fun _ _ => False) s := by
  obtain ⟨k, hk, chain, hB⟩ := h
  obtain ⟨b, hb⟩ : ∃ b, t.buckets[bktOf s.items t.numBuckets x]? = some b := hk.exists_bucket _
  obtain ⟨c, hc⟩ := Heap.exists_of_mem (halloc x hx)
  have hnext : s.items.link chainFields.next x = c.hhNext := Heap.link_of_lookup hc
  have hprev : s.items.link chainFields.prev x = c.hhPrev := Heap.link_of_lookup hc
  -- the neighbours of the item are in its chain
  have hchain := (hB.chains _ b hb).linked
  have hnd := hB.nodup_chain hl (bktOf s.items t.numBuckets x)
  have hxc := hB.mem_chain.mpr ⟨hx, rfl⟩
  have hpmem : ∀ z ∈ c.hhPrev, z ∈ s.items ∧ z ≠ x := fun z hz => by
    obtain ⟨hzc, hzx⟩ := hchain.prev_mem hnd hxc (hprev.trans hz)
    exact ⟨halloc z (hB.mem_chain.mp hzc).1, hzx⟩
  have hnmem : ∀ z ∈ c.hhNext, z ∈ s.items := fun z hz =>
    halloc z (hB.mem_chain.mp (hchain.next_mem hnd hxc (hnext.trans hz)).1).1
  have hc₁ : (s.items.modifyOpt c.hhPrev (HashItem.setHhNext c.hhNext)).lookup x = some c := by
    rw [Heap.lookup_modifyOpt_ne fun hpx => (hpmem x hpx).2 rfl, hc]
  unfold hashDelInBkt
  rw [wp_bind, wp_get, wp_bind, hhead, wp_tbl hy, ht, Option.elim_some, wp_bind, wp_bucketAt hb, wp_bind, wp_deref hc,
    wp_bind, wp_setTable, wp_bind, wp_when_storeItem (by exact fun z hz => (hpmem z hz).1), wp_bind,
    wp_deref (c := c) (by exact hc₁), wp_when_storeItem (fun z hz => by simpa using hnmem z hz)]
  let items' := (s.items.modifyOpt c.hhPrev (HashItem.setHhNext c.hhNext)).modifyOpt c.hhNext (HashItem.setHhPrev c.hhPrev)
  have hunlink : items' = chainFields.unlink s.items x := by
    rw [Fields.unlink, hnext, hprev]
    rfl
  have hagree : Heap.Agree HashItem.apart s.items items' :=
    (Heap.Agree.modifyOpt (apart_setHhNext c.hhNext)).trans (Heap.Agree.modifyOpt (apart_setHhPrev c.hhPrev))
  have hnext' : items'.link chainFields.next = unlinkNext (s.items.link chainFields.next) (s.items.link chainFields.prev) x := by
    rw [hunlink, chainFields.link_next_unlink fun z hz => (hpmem z (hprev ▸ hz)).1]
  have hprev' : items'.link chainFields.prev = unlinkPrev (s.items.link chainFields.next) (s.items.link chainFields.prev) x := by
    rw [hunlink, chainFields.link_prev_unlink fun z hz => hnmem z (hnext ▸ hz)]
  have hB' := hB.unlink hl hx hb hnext' hprev'
  rw [hnext] at hB'
  refine ⟨rfl, hhead, hagree, _, rfl, rfl, rfl, k, ⟨hk.lt, hk.log2, hk.numBuckets, ?_⟩,
    Function.update chain (bktOf s.items t.numBuckets x) ((chain (bktOf s.items t.numBuckets x)).erase x), ?_⟩
  · rw [List.length_set, hk.length]
  · show Bucketed items' _ (bktOf items' t.numBuckets) _ _
    rw [bktOf_of_fixed (fixed_of_apart hagree)]
    exact hB'

/-- `HASH_DEL` erases the item, and of the items it changes links only. -/
theorem wp_hashDel {F : HashFault → Hash P V → Prop} (h : HashRep s l) (hx : x ∈ l) :
    wp F (hashDel x) (fun _ s' => HashRep s' (l.erase x) ∧ s'.strs = s.strs ∧ Heap.Agree HashItem.fixed s.items s'.items)
      (fun _ _ => False) s := by
  obtain ⟨u, v, huv⟩ := List.append_of_mem hx
  obtain ⟨c, hc⟩ := Heap.exists_of_mem (h.alloc x hx)
  have hne : l ≠ [] := List.ne_nil_of_mem hx
  obtain ⟨t, ht⟩ := h.tabled hne
  obtain ⟨y, hy⟩ : ∃ y, l.head? = some y := ⟨_, List.head?_eq_some_head hne⟩
  have hlisted := h.listed
  have hnd := h.nodup
  rw [Fields.InHeap, huv] at hlisted
  rw [huv] at hnd
  have hnext : c.next = v.head? := (Heap.link_of_lookup (g := HashItem.next) hc).symm.trans hlisted.next_of_mid
  have hprev : c.prev = u.getLast? := (Heap.link_of_lookup (g := HashItem.prev) hc).symm.trans hlisted.prev_of_mid
  have hxu : x ∉ u := fun hxu => (List.nodup_append.mp hnd).2.2 x hxu x (by simp) rfl
  have herase : l.erase x = u ++ v := by
    rw [huv, List.erase_append_right _ hxu, List.erase_cons_head]
  unfold hashDel
  rw [wp_bind, wp_deref hc, wp_bind, wp_get, wp_bind, h.head, hy, wp_tbl (h.alloc y (List.mem_of_mem_head? hy)), ht.table,
    Option.elim_some, wp_ite]
  split
  · rename_i hnone
    -- the last item: the table goes too
    have hu : u = [] := List.getLast?_eq_none_iff.mp (hprev.symm.trans hnone.1)
    have hv : v = [] := List.head?_eq_none_iff.mp (hnext.symm.trans hnone.2)
    rw [herase, hu, hv]
    exact ⟨hashRep_nil rfl, rfl, Heap.Agree.refl _⟩
  · rename_i hsome
    have hprevmem : ∀ z ∈ c.prev, z ∈ s.items ∧ z ≠ x := fun z hz => by
      have hzu : z ∈ u := List.mem_of_mem_getLast? (hprev ▸ hz)
      exact ⟨h.alloc z (by simp [huv, hzu]), fun hzx => hxu (hzx ▸ hzu)⟩
    have hnextmem : ∀ z ∈ c.next, z ∈ s.items := fun z hz =>
      h.alloc z (by simp [huv, List.mem_of_mem_head? (hnext ▸ hz : z ∈ v.head?)])
    have hc₁ : (s.items.modifyOpt c.prev (HashItem.setNext c.next)).lookup x = some c := by
      rw [Heap.lookup_modifyOpt_ne fun hpx => (hprevmem x hpx).2 rfl, hc]
    -- another item is left, so the list has a first one
    have huvne : u ++ v ≠ [] := fun huv0 => hsome ⟨by simp [hprev, List.append_eq_nil_iff.mp huv0], by
      simp [hnext, List.append_eq_nil_iff.mp huv0]⟩
    obtain ⟨w, hw⟩ : ∃ w, (u ++ v).head? = some w := ⟨_, List.head?_eq_some_head huvne⟩
    have hwl : w ∈ s.items := by
      have hwuv := List.mem_append.mp (List.mem_of_mem_head? hw)
      exact h.alloc w (by rw [huv]; rcases hwuv with hwu | hwv <;> simp [*])
    let items₁ := (s.items.modifyOpt c.prev (HashItem.setNext c.next)).modifyOpt c.next (HashItem.setPrev c.prev)
    let t₁ : HashTable P := { t with tail := if t.tail = some x then c.prev else t.tail }
    have hhead : (if c.prev = none then c.next else s.head) = some w := by
      rw [← hw, h.head, huv, hprev, hnext]
      cases u <;> simp
    have htable : (if t.tail = some x then some { t with tail := c.prev } else s.table) = some t₁ := by
      rw [ht.table]
      by_cases htx : t.tail = some x <;> simp [t₁, htx]
    have hagree₁ : Heap.Agree HashItem.unlisted s.items items₁ :=
      (Heap.Agree.modifyOpt (unlisted_setNext c.next)).trans (Heap.Agree.modifyOpt (unlisted_setPrev c.prev))
    rw [wp_bind, wp_when_setTable, wp_bind, wp_when_storeItem (by exact fun z hz => (hprevmem z hz).1), wp_bind, wp_when_setHead,
      wp_bind, wp_deref (c := c) (by exact hc₁), wp_bind, wp_when_storeItem (fun z hz => by simpa using hnextmem z hz), wp_bind, wp_get]
    show wp F (tbl (if c.prev = none then c.next else s.head) >>= _) _ _ { s with
      items := items₁
      head := if c.prev = none then c.next else s.head
      table := if t.tail = some x then some { t with tail := c.prev } else s.table }
    rw [hhead, htable, wp_bind, wp_tbl (by exact hagree₁.mem_iff.mpr hwl), Option.elim_some]
    have hst₁ : Chained items₁ t₁ l := ht.stored.of_unlisted hagree₁ rfl rfl rfl
    have hbkt : hashToBkt c.hashv t₁.numBuckets = bktOf items₁ t₁.numBuckets x := by
      rw [bktOf, hashvOf_of_fixed (fixed_of_unlisted hagree₁), hashvOf_of_lookup hc]
    rw [hbkt]
    refine (wp_hashDelInBkt (s := { s with items := items₁, head := some w, table := some t₁ }) rfl hst₁ h.nodup
      (fun z hz => hagree₁.mem_iff.mpr (h.alloc z hz)) hx rfl (hagree₁.mem_iff.mpr hwl)).bind (fun _ s' hs' => ?_) fun _ _ => id
    obtain ⟨hstrs, hhead', hagree', t', ht', htail', hnum', hst'⟩ := hs'
    rw [wp_bind, wp_get, wp_bind, hhead', wp_tbl (hagree'.mem_iff.mpr (hagree₁.mem_iff.mpr hwl)), ht', Option.elim_some, wp_setTable]
    have hunlink : items₁ = listFields.unlink s.items x := by
      rw [Fields.unlink, show s.items.link listFields.next x = c.next from Heap.link_of_lookup hc,
        show s.items.link listFields.prev x = c.prev from Heap.link_of_lookup hc]
      rfl
    have hlisted₁ : listFields.InHeap items₁ (l.erase x) := by
      rw [hunlink, herase, Fields.InHeap, listFields.link_next_unlink fun z hz => (hprevmem z
          ((Heap.link_of_lookup (g := HashItem.prev) hc).symm.trans hz)).1,
        listFields.link_prev_unlink fun z hz => hnextmem z ((Heap.link_of_lookup (g := HashItem.next) hc).symm.trans hz)]
      exact hlisted.unlink hnd
    have htail : t₁.tail = (l.erase x).getLast? := by
      show (if t.tail = some x then c.prev else t.tail) = _
      rw [ht.tail, herase, huv, hprev]
      rcases List.eq_nil_or_concat v with rfl | ⟨v', z, rfl⟩
      · rw [List.getLast?_concat, if_pos rfl, List.append_nil]
      · rw [List.concat_eq_append] at hnd ⊢
        rw [← List.cons_append, ← List.append_assoc, ← List.append_assoc, List.getLast?_concat, List.getLast?_concat, if_neg]
        rintro ⟨⟩
        exact (List.nodup_cons.mp (List.nodup_append.mp hnd).2.1).1 (by simp)
    have hnum : t'.numItems - 1 = BitVec.ofNat 32 (l.erase x).length := by
      have hlen : l.length = (l.erase x).length + 1 := by
        rw [herase, huv]
        simp
        omega
      rw [hnum', show t₁.numItems = t.numItems from rfl, ht.numItems, hlen, BitVec.ofNat_add]
      exact BitVec.add_sub_cancel _ _
    refine ⟨⟨h.nodup.erase x, fun z hz => hagree'.mem_iff.mpr (hagree₁.mem_iff.mpr (h.alloc z (List.mem_of_mem_erase hz))),
      hhead'.trans (herase ▸ hw).symm, hlisted₁.of_links (listFields_of_apart hagree').1 (listFields_of_apart hagree').2,
      fun _ => ⟨_, rfl, htail'.trans htail, hnum, ?_⟩⟩, hstrs,
      (fixed_of_unlisted hagree₁).trans (fixed_of_apart hagree')⟩
    exact hst'.of_unlisted (Heap.Agree.refl _) rfl rfl rfl

end Tables

end Sylvan
