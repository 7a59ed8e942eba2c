import Sylvan.Lib.Links
import Sylvan.Uthash
import Mathlib.Data.List.Perm.Basic

/-! # The chains of a hash table

Each bucket holds the items that hash to it in a doubly linked list, its chain, and counts them. Of a list of items, the
chains are a partition. Putting an item in front of its chain and unlinking it from there keep that. -/

namespace Sylvan
open Exec Links

/-! ## Reading and writing -/

section Rules
variable {P V : Type} [DecidableEq P] {F : HashFault → Hash P V → Prop} {E : Empty → Hash P V → Prop} {s : Hash P V} {p : P}
  {c : HashItem P V} {t : HashTable P}

theorem wp_deref {Q : HashItem P V → Hash P V → Prop} (h : s.items.lookup p = some c) :
    wp F (deref (some p)) Q E s ↔ Q c s := by
  simp only [wp, deref, Option.bind_some, h]

theorem wp_storeItem {f : HashItem P V → HashItem P V} {Q : Unit → Hash P V → Prop} (h : p ∈ s.items) :
    wp F (storeItem (some p) f) Q E s ↔ Q () { s with items := s.items.modify p f } := by
  simp only [wp, storeItem, if_pos h]

theorem wp_derefStr {r : Option P} {k : List UInt8} {Q : List UInt8 → Hash P V → Prop} (h : r.bind s.strs.lookup = some k) :
    wp F (derefStr r) Q E s ↔ Q k s := by
  simp only [wp, derefStr, h]

theorem wp_tbl {Q : HashTable P → Hash P V → Prop} (h : p ∈ s.items) :
    wp F (tbl (some p)) Q E s ↔ s.table.elim (F .badPointer s) fun t => Q t s := by
  obtain ⟨c, hc⟩ := Heap.exists_of_mem h
  unfold tbl
  rw [wp_bind, wp_deref hc, wp_bind, wp_get]
  cases s.table <;> exact Iff.rfl

omit [DecidableEq P] in
@[simp] theorem wp_setTable {Q : Unit → Hash P V → Prop} :
    wp F (setTable t) Q E s ↔ Q () { s with table := some t } := Iff.rfl

omit [DecidableEq P] in
theorem wp_when_setTable {a : Prop} [Decidable a] {Q : Unit → Hash P V → Prop} :
    wp F (Exec.when a (setTable t)) Q E s ↔ Q () { s with table := if a then some t else s.table } := by
  rw [wp_when]
  split <;> exact Iff.rfl

omit [DecidableEq P] in
theorem wp_when_setHead {a : Prop} [Decidable a] {r : Option P} {Q : Unit → Hash P V → Prop} :
    wp F (Exec.when a (Exec.modify fun s => { s with head := r })) Q E s ↔ Q () { s with head := if a then r else s.head } := by
  rw [wp_when]
  split <;> exact Iff.rfl

omit [DecidableEq P] in
theorem wp_bucketAt {bs : List (HashBucket P)} {i : Nat} {b : HashBucket P} {Q : HashBucket P → Hash P V → Prop}
    (h : bs[i]? = some b) : wp F (bucketAt bs i) Q E s ↔ Q b s := by
  simp only [bucketAt, h, wp_pure]

/-- Writing to the first item of a list, where there is one. -/
theorem wp_when_storeItem {r : Option P} {f : HashItem P V → HashItem P V} {Q : Unit → Hash P V → Prop}
    (h : ∀ x ∈ r, x ∈ s.items) :
    wp F (Exec.when (r ≠ none) (storeItem r f)) Q E s ↔
      Q () { s with items := s.items.modifyOpt r f } := by
  cases r with
  | none => simp [Heap.modifyOpt]
  | some x => simp [wp_storeItem (h x rfl), Heap.modifyOpt]

end Rules

/-! ## The links of an item

An item is in two lists, the one of all items and its chain, and a write to the links of one leaves those of the other. -/

section Items
variable {P V : Type} [DecidableEq P] {items items' : Heap P (HashItem P V)}

/-- The links of the list of all items. -/
def listFields : Fields P (HashItem P V) where
  next := HashItem.next
  prev := HashItem.prev
  setNext := HashItem.setNext
  setPrev := HashItem.setPrev
  next_setNext _ _ := rfl
  prev_setNext _ _ := rfl
  next_setPrev _ _ := rfl
  prev_setPrev _ _ := rfl

/-- The links of the chain of a bucket. -/
def chainFields : Fields P (HashItem P V) where
  next := HashItem.hhNext
  prev := HashItem.hhPrev
  setNext := HashItem.setHhNext
  setPrev := HashItem.setHhPrev
  next_setNext _ _ := rfl
  prev_setNext _ _ := rfl
  next_setPrev _ _ := rfl
  prev_setPrev _ _ := rfl

/-- What an item has besides the links of its chain. -/
def HashItem.apart (c : HashItem P V) : HashItem P V := { c with hhPrev := none, hhNext := none }

/-- What an item has besides the links of the list of all items. -/
def HashItem.unlisted (c : HashItem P V) : HashItem P V := { c with prev := none, next := none }

/-- What an item has besides its links. -/
def HashItem.fixed (c : HashItem P V) : HashItem P V := { c with prev := none, next := none, hhPrev := none, hhNext := none }

omit [DecidableEq P] in
theorem apart_setHhPrev (v : Option P) (c : HashItem P V) : (c.setHhPrev v).apart = c.apart := rfl

omit [DecidableEq P] in
theorem apart_setHhNext (v : Option P) (c : HashItem P V) : (c.setHhNext v).apart = c.apart := rfl

omit [DecidableEq P] in
theorem unlisted_setPrev (v : Option P) (c : HashItem P V) : (c.setPrev v).unlisted = c.unlisted := rfl

omit [DecidableEq P] in
theorem unlisted_setNext (v : Option P) (c : HashItem P V) : (c.setNext v).unlisted = c.unlisted := rfl

theorem fixed_of_apart (h : Heap.Agree HashItem.apart items items') : Heap.Agree HashItem.fixed items items' :=
  h.imp HashItem.unlisted fun _ => rfl

theorem fixed_of_unlisted (h : Heap.Agree HashItem.unlisted items items') : Heap.Agree HashItem.fixed items items' :=
  h.imp HashItem.apart fun _ => rfl

theorem listFields_of_apart (h : Heap.Agree HashItem.apart items items') :
    items'.link listFields.next = items.link listFields.next ∧ items'.link listFields.prev = items.link listFields.prev :=
  ⟨h.link HashItem.next fun _ => rfl, h.link HashItem.prev fun _ => rfl⟩

theorem chainFields_of_unlisted (h : Heap.Agree HashItem.unlisted items items') :
    items'.link chainFields.next = items.link chainFields.next ∧ items'.link chainFields.prev = items.link chainFields.prev :=
  ⟨h.link HashItem.hhNext fun _ => rfl, h.link HashItem.hhPrev fun _ => rfl⟩

end Items

/-! ## Chains -/

section Chains
variable {P V : Type} [DecidableEq P] {items items' : Heap P (HashItem P V)} {buckets : List (HashBucket P)} {b : HashBucket P}
  {f : P → Nat} {l m : List P} {chain : Nat → List P} {a x : P}

/-- The bucket `b` holds the items of `c`. -/
structure IsChain (items : Heap P (HashItem P V)) (b : HashBucket P) (c : List P) : Prop where
  head : b.hhHead = c.head?
  count : b.count = BitVec.ofNat 32 c.length
  linked : chainFields.InHeap items c

/-- Each item `x` of `l` is in the chain of the bucket `f x`, and the chains hold no others. -/
structure Bucketed (items : Heap P (HashItem P V)) (buckets : List (HashBucket P)) (f : P → Nat) (l : List P)
    (chain : Nat → List P) : Prop where
  chains : ∀ i b, buckets[i]? = some b → IsChain items b (chain i)
  perm : ∀ i, (chain i).Perm (l.filter fun x => f x = i)

namespace Bucketed

theorem mem_chain (h : Bucketed items buckets f l chain) {i : Nat} : x ∈ chain i ↔ x ∈ l ∧ f x = i := by
  rw [(h.perm i).mem_iff]
  simp

theorem nodup_chain (h : Bucketed items buckets f l chain) (hl : l.Nodup) (i : Nat) : (chain i).Nodup :=
  (h.perm i).nodup_iff.mpr (hl.filter _)

/-- The order of the items does not matter. -/
theorem of_perm (h : Bucketed items buckets f l chain) (hlm : l.Perm m) : Bucketed items buckets f m chain :=
  ⟨h.chains, fun i => (h.perm i).trans (hlm.filter _)⟩

/-- Only the links of the chains matter. -/
theorem of_links (h : Bucketed items buckets f l chain) (hn : items'.link chainFields.next = items.link chainFields.next)
    (hp : items'.link chainFields.prev = items.link chainFields.prev) : Bucketed items' buckets f l chain :=
  ⟨fun i b hb => ⟨(h.chains i b hb).head, (h.chains i b hb).count, (h.chains i b hb).linked.of_links hn hp⟩, h.perm⟩

/-- Only the buckets of the items matter. -/
theorem congr (h : Bucketed items buckets f l chain) {g : P → Nat} (hfg : ∀ x ∈ l, g x = f x) : Bucketed items buckets g l chain :=
  ⟨h.chains, fun i => (h.perm i).trans (List.Perm.of_eq (List.filter_congr fun x hx => by rw [hfg x hx]))⟩

/-- No items in empty buckets. -/
theorem empty (items : Heap P (HashItem P V)) {n : Nat} :
    Bucketed items (List.replicate n { hhHead := none, count := 0, expandMult := 0 }) f [] fun _ => [] := by
  refine ⟨fun i b hb => ?_, fun i => by simp⟩
  rw [List.getElem?_replicate] at hb
  split at hb
  · cases hb
    exact ⟨rfl, rfl, trivial⟩
  · cases hb

/-- The first item of a chain hashes to its bucket. -/
theorem head_mem (h : Bucketed items buckets f l chain) {i : Nat} (hb : buckets[i]? = some b) (hx : b.hhHead = some x) :
    x ∈ l ∧ f x = i := by
  rw [(h.chains i b hb).head] at hx
  exact h.mem_chain.mp (List.mem_of_mem_head? hx)

/-- Puts `a` in front of the chain of its bucket. -/
theorem push (h : Bucketed items buckets f l chain) (hl : l.Nodup) (ha : a ∉ l) (hb : buckets[f a]? = some b)
    (hn : items'.link chainFields.next = pushNext (items.link chainFields.next) b.hhHead a)
    (hp : items'.link chainFields.prev = pushPrev (items.link chainFields.prev) b.hhHead a) {mult : BitVec 32} :
    Bucketed items' (buckets.set (f a) { hhHead := some a, count := b.count + 1, expandMult := mult }) f (a :: l)
      (Function.update chain (f a) (a :: chain (f a))) := by
  have hchain := h.chains _ _ hb
  have hac : ∀ i, a ∉ chain i := fun i hi => ha (h.mem_chain.mp hi).1
  refine ⟨fun i b' hb' => ?_, fun i => ?_⟩
  · by_cases hi : i = f a
    · subst hi
      rw [List.getElem?_set_self (List.getElem?_eq_some_iff.mp hb).1, Option.some.injEq] at hb'
      subst hb'
      rw [Function.update_self]
      refine ⟨rfl, ?_, ?_⟩
      · rw [hchain.count, List.length_cons, BitVec.ofNat_add]
        rfl
      · rw [Fields.InHeap, hn, hp, hchain.head]
        exact hchain.linked.pushed (h.nodup_chain hl _) (hac _)
    · rw [List.getElem?_set_ne (Ne.symm hi)] at hb'
      rw [Function.update_of_ne hi]
      refine ⟨(h.chains i b' hb').head, (h.chains i b' hb').count, ?_⟩
      rw [Fields.InHeap, hn, hp]
      refine (h.chains i b' hb').linked.pushed_other (hac i) fun x hx hbx => hi ?_
      rw [← (h.mem_chain.mp hx).2, (h.head_mem hb hbx).2]
  · by_cases hi : i = f a
    · subst hi
      rw [Function.update_self, List.filter_cons_of_pos (by simp)]
      exact (h.perm _).cons a
    · rw [Function.update_of_ne hi, List.filter_cons_of_neg (by simpa using Ne.symm hi)]
      exact h.perm i

/-- Unlinks `x` from its chain. -/
theorem unlink (h : Bucketed items buckets f l chain) (hl : l.Nodup) (hx : x ∈ l) (hb : buckets[f x]? = some b)
    (hn : items'.link chainFields.next = unlinkNext (items.link chainFields.next) (items.link chainFields.prev) x)
    (hp : items'.link chainFields.prev = unlinkPrev (items.link chainFields.next) (items.link chainFields.prev) x) :
    Bucketed items' (buckets.set (f x) { b with
        hhHead := if b.hhHead = some x then items.link chainFields.next x else b.hhHead
        count := b.count - 1 }) f (l.erase x)
      (Function.update chain (f x) ((chain (f x)).erase x)) := by
  have hchain := h.chains _ _ hb
  have hnd := h.nodup_chain hl (f x)
  obtain ⟨u, v, huv⟩ := List.append_of_mem (h.mem_chain.mpr ⟨hx, rfl⟩)
  have hxu : x ∉ u := fun hxu => by
    rw [huv] at hnd
    exact (List.nodup_append.mp hnd).2.2 x hxu x (by simp) rfl
  have herase : (chain (f x)).erase x = u ++ v := by
    rw [huv, List.erase_append_right _ hxu, List.erase_cons_head]
  have hlinked := hchain.linked
  rw [Fields.InHeap, huv] at hlinked
  refine ⟨fun i b' hb' => ?_, fun i => ?_⟩
  · by_cases hi : i = f x
    · subst hi
      rw [List.getElem?_set_self (List.getElem?_eq_some_iff.mp hb).1, Option.some.injEq] at hb'
      subst hb'
      rw [Function.update_self, herase]
      refine ⟨?_, ?_, ?_⟩
      · rw [hchain.head, huv]
        cases u with
        | nil => simpa using hlinked.next_of_mid
        | cons y u =>
          have hyx : y ≠ x := by
            rintro rfl
            exact hxu (by simp)
          simp [hyx]
      · have hlen : (chain (f x)).length = (u ++ v).length + 1 := by
          rw [huv]
          simp
          omega
        rw [hchain.count, hlen, BitVec.ofNat_add]
        exact BitVec.add_sub_cancel _ _
      · rw [Fields.InHeap, hn, hp]
        exact hlinked.unlink (by rw [← huv]; exact hnd)
    · rw [List.getElem?_set_ne (Ne.symm hi)] at hb'
      rw [Function.update_of_ne hi]
      refine ⟨(h.chains i b' hb').head, (h.chains i b' hb').count, ?_⟩
      rw [Fields.InHeap, hn, hp]
      -- the neighbours of `x` are in its own chain
      have hother : ∀ y ∈ chain i, y ∉ chain (f x) := fun y hy hyx =>
        hi ((h.mem_chain.mp hy).2.symm.trans (h.mem_chain.mp hyx).2)
      refine (h.chains i b' hb').linked.unlink_other (fun y hy hyx => hother y hy ?_) fun y hy hyx => hother y hy ?_
      · rw [hlinked.prev_of_mid] at hyx
        rw [huv]
        simp [List.mem_of_mem_getLast? hyx]
      · rw [hlinked.next_of_mid] at hyx
        rw [huv]
        simp [List.mem_of_mem_head? hyx]
  · rw [hl.erase_eq_filter, List.filter_filter]
    by_cases hi : i = f x
    · subst hi
      rw [Function.update_self, hnd.erase_eq_filter]
      refine ((h.perm _).filter _).trans (List.Perm.of_eq ?_)
      rw [List.filter_filter]
      exact List.filter_congr fun y _ => by simp [Bool.and_comm]
    · rw [Function.update_of_ne hi]
      refine (h.perm i).trans (List.Perm.of_eq (List.filter_congr fun y _ => ?_))
      by_cases hy : f y = i
      · have hyx : y ≠ x := by
          rintro rfl
          exact hi hy.symm
        simp [hy, hyx]
      · simp [hy]

end Bucketed

end Chains

end Sylvan
