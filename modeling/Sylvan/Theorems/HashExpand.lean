import Sylvan.Theorems.HashChains
import Mathlib.Data.Nat.Bitwise

/-! # Expanding the buckets

`HASH_EXPAND_BUCKETS` moves every item from its chain to the chain of its bucket in an array of twice the length. The items
that were not moved yet are as they were before, so the old chains can still be followed, and the new chains hold exactly
the items that were moved. -/

namespace Sylvan
open Exec Links

section Expand
variable {P V : Type} [DecidableEq P] {items : Heap P (HashItem P V)} {s s₀ : Hash P V} {l done : List P} {x y : P}
  {c : HashItem P V} {f : P → Nat} {n k : Nat}

/-! ## The bucket of an item -/

/-- `hashv` of the item `x` -/
def hashvOf (items : Heap P (HashItem P V)) (x : P) : BitVec 32 := ((items.lookup x).map HashItem.hashv).getD 0

theorem hashvOf_of_lookup (h : items.lookup x = some c) : hashvOf items x = c.hashv := by
  simp [hashvOf, h]

/-- The links of an item do not matter. -/
theorem hashvOf_of_fixed {items' : Heap P (HashItem P V)} (h : Heap.Agree HashItem.fixed items items') :
    hashvOf items' x = hashvOf items x := by
  have hv := congrFun (h.view (g := HashItem.hashv) HashItem.hashv fun _ => rfl) x
  simp only [Heap.view] at hv
  simp only [hashvOf, hv]

/-- The number of buckets is a power of two, so the mask of `HASH_TO_BKT` is a remainder. -/
theorem hashToBkt_eq (hk : k < 32) (hashv : BitVec 32) : hashToBkt hashv (BitVec.ofNat 32 (2 ^ k)) = hashv.toNat % 2 ^ k := by
  have hpow : 2 ^ k < 2 ^ 32 := Nat.pow_lt_pow_right (by omega) hk
  have hpos : 0 < 2 ^ k := Nat.two_pow_pos k
  have hmask : (BitVec.ofNat 32 (2 ^ k) - 1).toNat = 2 ^ k - 1 := by
    rw [BitVec.toNat_sub, BitVec.toNat_ofNat, Nat.mod_eq_of_lt hpow]
    show (2 ^ 32 - 1 + 2 ^ k) % 2 ^ 32 = 2 ^ k - 1
    omega
  rw [hashToBkt, BitVec.toNat_and, hmask, Nat.and_two_pow_sub_one_eq_mod]

theorem hashToBkt_lt (hk : k < 32) (hashv : BitVec 32) : hashToBkt hashv (BitVec.ofNat 32 (2 ^ k)) < 2 ^ k := by
  rw [hashToBkt_eq hk]
  exact Nat.mod_lt _ (Nat.two_pow_pos k)

/-! ## The loops -/

/-- The items `done` were moved to the new buckets, and all others are as in `s₀`. -/
structure Expanding (s₀ s : Hash P V) (new : List (HashBucket P)) (n : Nat) (f : P → Nat) (done : List P) : Prop where
  strs : s.strs = s₀.strs
  head : s.head = s₀.head
  table : s.table = s₀.table
  apart : Heap.Agree HashItem.apart s₀.items s.items
  rest : ∀ x, x ∉ done → s.items.lookup x = s₀.items.lookup x
  length : new.length = n
  nodup : done.Nodup
  alloc : ∀ x ∈ done, x ∈ s.items
  bucketed : ∃ chain, Bucketed s.items new f done chain

variable {numBuckets ideal : BitVec 32} {new : List (HashBucket P) × BitVec 32}

/-- One turn moves one item. -/
theorem wp_hashExpandItem (h : Expanding s₀ s new.1 n f done) (hx : x ∉ done) (hmem : x ∈ s₀.items)
    (hf : f x = hashToBkt (hashvOf s₀.items x) (numBuckets * 2)) (hn : f x < n) :
    wp (fun _ _ => False) (hashExpandItem numBuckets ideal new x) (fun new' s' => Expanding s₀ s' new'.1 n f (x :: done))
      (fun _ _ => False) s := by
  obtain ⟨chain, hB⟩ := h.bucketed
  obtain ⟨c, hc₀⟩ := Heap.exists_of_mem hmem
  have hc : s.items.lookup x = some c := (h.rest x hx).trans hc₀
  have hxs : x ∈ s.items := Heap.mem_of_lookup hc
  have hbkt : hashToBkt c.hashv (numBuckets * 2) = f x := by rw [hf, hashvOf_of_lookup hc₀]
  obtain ⟨b, hb⟩ : ∃ b, new.1[f x]? = some b := ⟨_, List.getElem?_eq_getElem (h.length ▸ hn)⟩
  have hhd : ∀ y ∈ b.hhHead, y ∈ done := fun y hy => (hB.head_mem hb hy).1
  unfold hashExpandItem
  rw [wp_bind, wp_deref hc, hbkt, wp_bind, wp_bucketAt hb, wp_bind, wp_storeItem hxs, wp_bind,
    wp_storeItem (by simpa using hxs), wp_bind, wp_when_storeItem (fun y hy => by simpa using h.alloc y (hhd y hy)), wp_pure]
  set items₁ := (s.items.modify x (HashItem.setHhPrev none)).modify x (HashItem.setHhNext b.hhHead) with h₁
  have hagree : Heap.Agree HashItem.apart s.items (items₁.modifyOpt b.hhHead (HashItem.setHhPrev (some x))) :=
    ((Heap.Agree.modify (apart_setHhPrev none)).trans (Heap.Agree.modify (apart_setHhNext b.hhHead))).trans
      (Heap.Agree.modifyOpt (apart_setHhPrev (some x)))
  have hnext : items₁.link chainFields.next = (s.items.modify x (chainFields.setNext b.hhHead)).link chainFields.next := by
    show ((s.items.modify x (chainFields.setPrev none)).modify x (chainFields.setNext b.hhHead)).link chainFields.next = _
    rw [chainFields.link_setNext (by simpa using hxs), chainFields.link_next_setPrev, chainFields.link_setNext hxs]
  have hprev : items₁.link chainFields.prev = (s.items.modify x (chainFields.setPrev none)).link chainFields.prev := by
    exact chainFields.link_prev_setNext
  refine ⟨h.strs, h.head, h.table, h.apart.trans hagree, fun y hy => ?_, ?_, List.nodup_cons.mpr ⟨hx, h.nodup⟩,
    fun y hy => ?_, ⟨_, hB.push h.nodup hx hb ?_ ?_⟩⟩
  · have hyx : y ≠ x := by
      rintro rfl
      exact hy (by simp)
    have hyd : y ∉ done := fun hyd => hy (by simp [hyd])
    show (items₁.modifyOpt b.hhHead (HashItem.setHhPrev (some x))).lookup y = _
    rw [Heap.lookup_modifyOpt_ne fun hby => hyd (hhd y hby), h₁, Heap.lookup_modify_ne hyx, Heap.lookup_modify_ne hyx,
      h.rest y hyd]
  · simpa using h.length
  · refine hagree.mem_iff.mpr ?_
    rcases List.mem_cons.mp hy with rfl | hy
    · exact hxs
    · exact h.alloc y hy
  · exact chainFields.link_next_push hxs hnext
  · exact chainFields.link_prev_push hxs (fun y hy => by simpa [h₁] using h.alloc y (hhd y hy)) hprev

/-- The inner loop moves the items of one chain. -/
theorem wp_hashExpandChain {ch : List P} {fuel : Nat} (h : Expanding s₀ s new.1 n f done)
    (hlink : Linked (s₀.items.link chainFields.next) (s₀.items.link chainFields.prev) p ch none) (hnd : ch.Nodup)
    (hdone : ∀ x ∈ ch, x ∉ done) (hmem : ∀ x ∈ ch, x ∈ s₀.items)
    (hf : ∀ x ∈ ch, f x = hashToBkt (hashvOf s₀.items x) (numBuckets * 2)) (hn : ∀ x ∈ ch, f x < n) (hfuel : ch.length ≤ fuel) :
    wp (fun _ _ => False) (hashExpandChain numBuckets ideal fuel ch.head? new)
      (fun new' s' => Expanding s₀ s' new'.1 n f (ch.reverse ++ done)) (fun _ _ => False) s := by
  induction ch generalizing s new done fuel p with
  | nil => cases fuel <;> exact h
  | cons x ch ih =>
    obtain ⟨fuel, rfl⟩ : ∃ m, fuel = m + 1 := ⟨fuel - 1, by simp at hfuel; omega⟩
    obtain ⟨hxch, hnd⟩ := List.nodup_cons.mp hnd
    obtain ⟨c, hc₀⟩ := Heap.exists_of_mem (hmem x (by simp))
    have hx := hdone x (by simp)
    have hnext : c.hhNext = ch.head? := (Heap.link_of_lookup hc₀).symm.trans hlink.next_of_cons
    rw [List.head?_cons, hashExpandChain, wp_bind, wp_deref ((h.rest x hx).trans hc₀), hnext]
    refine (wp_hashExpandItem h hx (hmem x (by simp)) (hf x (by simp)) (hn x (by simp))).bind (fun new' s' h' => ?_) fun _ _ => id
    rw [List.reverse_cons, List.append_assoc, List.singleton_append]
    refine ih h' hlink.tail hnd (fun y hy => ?_) (fun y hy => hmem y (by simp [hy])) (fun y hy => hf y (by simp [hy]))
      (fun y hy => hn y (by simp [hy])) (by simpa using hfuel)
    rw [List.mem_cons, not_or]
    exact ⟨fun hyx => hxch (hyx ▸ hy), hdone y (by simp [hy])⟩

/-! ## The whole array -/

omit [DecidableEq P] in
/-- The items of bucket `k` and those of the buckets below it. -/
theorem perm_filter_lt_succ (f : P → Nat) (l : List P) (k : Nat) :
    ((l.filter fun x => f x = k) ++ l.filter fun x => f x < k).Perm (l.filter fun x => f x < k + 1) := by
  have h := List.filter_append_perm (fun x => f x = k) (l.filter fun x => f x < k + 1)
  rw [List.filter_filter, List.filter_filter] at h
  refine List.Perm.trans (List.Perm.of_eq (congrArg₂ _ ?_ ?_)) h
  · refine List.filter_congr fun x _ => ?_
    by_cases hx : f x = k <;> simp [hx]
  · refine List.filter_congr fun x _ => ?_
    rw [Bool.eq_iff_iff]
    simp
    omega

/-- What the loops leave: all items in the new buckets, and nothing else of the state changed. -/
theorem wp_hashExpandBuckets_loop {buckets : List (HashBucket P)} {chain : Nat → List P} {f₀ : P → Nat} {fuel : Nat}
    (hB : Bucketed s.items buckets f₀ l chain) (hl : l.Nodup) (halloc : ∀ x ∈ l, x ∈ s.items) (hlen : buckets.length = n)
    (hf₀ : ∀ x ∈ l, f₀ x < n) (hf : ∀ x ∈ l, f x = hashToBkt (hashvOf s.items x) (numBuckets * 2)) (hfn : ∀ x ∈ l, f x < n * 2)
    (hfuel : l.length ≤ fuel) :
    wp (fun _ _ => False)
      ((List.range n).foldlM (fun new bkt => do
          let b ← bucketAt buckets bkt
          hashExpandChain numBuckets ideal fuel b.hhHead new)
        (List.replicate (n * 2) { hhHead := none, count := 0, expandMult := 0 }, 0))
      (fun new s' => ∃ done, done.Perm l ∧ Expanding s s' new.1 (n * 2) f done) (fun _ _ => False) s := by
  -- before the turn of bucket `k`, the items of the buckets below `k` were moved
  let I (k : Nat) (new : List (HashBucket P) × BitVec 32) (s' : Hash P V) : Prop :=
    ∃ done, done.Perm (l.filter fun x => f₀ x < k) ∧ Expanding s s' new.1 (n * 2) f done
  have h0 : I 0 (List.replicate (n * 2) { hhHead := none, count := 0, expandMult := 0 }, 0) s :=
    ⟨[], by simp, rfl, rfl, rfl, Heap.Agree.refl _, fun _ _ => rfl, by simp, List.nodup_nil, by simp, ⟨_, Bucketed.empty _⟩⟩
  have hend : ∀ new s', I n new s' → ∃ done, done.Perm l ∧ Expanding s s' new.1 (n * 2) f done := by
    rintro new s' ⟨done, hperm, h⟩
    rw [List.filter_eq_self.mpr fun x hx => by simpa using hf₀ x hx] at hperm
    exact ⟨done, hperm, h⟩
  refine (wp_foldlM_range h0 ?_).imp hend fun _ _ => id
  rintro k new s' hk ⟨done, hperm, h⟩
  obtain ⟨b, hb⟩ : ∃ b, buckets[k]? = some b := ⟨_, List.getElem?_eq_getElem (hlen ▸ hk)⟩
  have hmem : ∀ x ∈ chain k, x ∈ l ∧ f₀ x = k := fun x hx => hB.mem_chain.mp hx
  have hle : (chain k).length ≤ fuel := ((hB.perm k).length_eq.trans_le (List.length_filter_le _ _)).trans hfuel
  have hdone : ∀ x ∈ chain k, x ∉ done := fun x hx hd => by
    have hxd := hperm.mem_iff.mp hd
    simp [(hmem x hx).2] at hxd
  rw [wp_bind, wp_bucketAt hb, (hB.chains k b hb).head]
  refine (wp_hashExpandChain h (hB.chains k b hb).linked (hB.nodup_chain hl k) hdone (fun x hx => halloc x (hmem x hx).1)
    (fun x hx => hf x (hmem x hx).1) (fun x hx => hfn x (hmem x hx).1) hle).imp (fun new' s'' h' => ⟨_, ?_, h'⟩) fun _ _ => id
  exact ((((chain k).reverse_perm.trans (hB.perm k)).append hperm).trans (perm_filter_lt_succ f₀ l k))

end Expand

end Sylvan
