import Sylvan.Lib.Exec
import Sylvan.Lib.Heap

/-! # Hash tables (`include/uthash.h`)

The macros that `HASH_ADD_STR`, `HASH_FIND_STR`, `HASH_DEL`, `HASH_ITER`, `HASH_COUNT` and `HASH_FSCK` expand to. The items
and the strings that are their keys are cells of two heaps, where an address of type `P` is the one of an item and of the
handle in it, and `none` is `NULL`. All items of a table have the same `tbl`, so the table is a part of the state, which
is there from `HASH_MAKE_TABLE` on, until the last item is deleted. -/

namespace Sylvan

/-- `UT_hash_handle`, in an item that has `val` besides -/
structure HashItem (P V : Type) where
  val : V
  prev : Option P
  next : Option P
  hhPrev : Option P
  hhNext : Option P
  key : Option P
  keylen : BitVec 32
  hashv : BitVec 32
  deriving DecidableEq, Repr

namespace HashItem
variable {P V : Type} (v : Option P) (c : HashItem P V)

def setPrev : HashItem P V := { c with prev := v }

def setNext : HashItem P V := { c with next := v }

def setHhPrev : HashItem P V := { c with hhPrev := v }

def setHhNext : HashItem P V := { c with hhNext := v }

/-- The key of an item, with its length and its hash value. -/
def setKey (keylen hashv : BitVec 32) : HashItem P V := { c with key := v, keylen, hashv }

end HashItem

/-- `UT_hash_bucket` -/
structure HashBucket (P : Type) where
  hhHead : Option P
  count : BitVec 32
  expandMult : BitVec 32
  deriving DecidableEq, Repr

/-- `UT_hash_table` -/
structure HashTable (P : Type) where
  buckets : List (HashBucket P)
  numBuckets : BitVec 32
  log2NumBuckets : BitVec 32
  numItems : BitVec 32
  tail : Option P
  idealChainMaxlen : BitVec 32
  nonidealItems : BitVec 32
  ineffExpands : BitVec 32
  noexpand : BitVec 32
  deriving DecidableEq, Repr

/-- The memory that a hash is in, and its `head`. -/
structure Hash (P V : Type) where
  items : Heap P (HashItem P V)
  strs : Heap P (List UInt8)
  head : Option P
  table : Option (HashTable P)

/-- What ends the program. -/
inductive HashFault where
  /-- A pointer was `NULL`, or to no allocated object. -/
  | badPointer
  | outOfBounds
  /-- `uthash_fatal` -/
  | outOfMemory
  /-- A loop that goes on longer than there are items. -/
  | endless
  /-- `HASH_OOPS` -/
  | oops (message : String)
  deriving DecidableEq, Repr

abbrev HashM (P V : Type) := Exec (Hash P V) Empty HashFault

section Pointers
variable {P V : Type} [DecidableEq P]

/-- The item at `p`. -/
def deref (p : Option P) : HashM P V (HashItem P V) := fun s =>
  match p.bind s.items.lookup with
  | some c => .ok c s
  | none => .fault .badPointer s

/-- Writes to the item at `p`. -/
def storeItem (p : Option P) (f : HashItem P V → HashItem P V) : HashM P V Unit := fun s =>
  match p with
  | some p => if p ∈ s.items then .ok () { s with items := s.items.modify p f } else .fault .badPointer s
  | none => .fault .badPointer s

/-- The bytes of the string at `p`. -/
def derefStr (p : Option P) : HashM P V (List UInt8) := fun s =>
  match p.bind s.strs.lookup with
  | some k => .ok k s
  | none => .fault .badPointer s

/-- `p->tbl` -/
def tbl (p : Option P) : HashM P V (HashTable P) := do
  let _ ← deref p
  match (← Exec.get).table with
  | some t => pure t
  | none => Exec.fault .badPointer

def setTable (t : HashTable P) : HashM P V Unit := Exec.modify fun s => { s with table := some t }

def bucketAt (buckets : List (HashBucket P)) (bkt : Nat) : HashM P V (HashBucket P) :=
  match buckets[bkt]? with
  | some b => pure b
  | none => Exec.fault .outOfBounds

end Pointers

/-! ## `HASH_JEN` -/

/-- `HASH_JEN_MIX`, of `a`, `b` and `c` -/
def hashJenMix (v : BitVec 32 × BitVec 32 × BitVec 32) : BitVec 32 × BitVec 32 × BitVec 32 :=
  let (a, b, c) := v
  let a := (a - b - c) ^^^ (c >>> 13)
  let b := (b - c - a) ^^^ (a <<< 8)
  let c := (c - a - b) ^^^ (b >>> 13)
  let a := (a - b - c) ^^^ (c >>> 12)
  let b := (b - c - a) ^^^ (a <<< 16)
  let c := (c - a - b) ^^^ (b >>> 5)
  let a := (a - b - c) ^^^ (c >>> 3)
  let b := (b - c - a) ^^^ (a <<< 10)
  let c := (c - a - b) ^^^ (b >>> 15)
  (a, b, c)

/-- `_hj_key[n] << k`, and 0 past the end, where the `switch` adds nothing -/
def hashJenByte (key : List UInt8) (n k : Nat) : BitVec 32 := BitVec.ofNat 32 (key.getD n 0).toNat <<< k

/-- The loop of `HASH_JEN` and the `switch` after it, where `key` are the bytes that are left -/
def hashJenLoop (keylen : BitVec 32) :
    List UInt8 → BitVec 32 × BitVec 32 × BitVec 32 → BitVec 32 × BitVec 32 × BitVec 32
  | k0 :: k1 :: k2 :: k3 :: k4 :: k5 :: k6 :: k7 :: k8 :: k9 :: k10 :: k11 :: key, (i, j, hashv) =>
    let byte := hashJenByte [k0, k1, k2, k3, k4, k5, k6, k7, k8, k9, k10, k11]
    hashJenLoop keylen key (hashJenMix
      (i + (byte 0 0 + byte 1 8 + byte 2 16 + byte 3 24),
        j + (byte 4 0 + byte 5 8 + byte 6 16 + byte 7 24),
        hashv + (byte 8 0 + byte 9 8 + byte 10 16 + byte 11 24)))
  | key, (i, j, hashv) =>
    let byte := hashJenByte key
    hashJenMix
      (i + byte 3 24 + byte 2 16 + byte 1 8 + byte 0 0,
        j + byte 7 24 + byte 6 16 + byte 5 8 + byte 4 0,
        hashv + keylen + byte 10 24 + byte 9 16 + byte 8 8)

/-- `HASH_JEN`, of the first `keylen` bytes at `key` -/
def hashJen (key : List UInt8) (keylen : BitVec 32) : BitVec 32 :=
  (hashJenLoop keylen (key.take keylen.toNat) (0x9e3779b9, 0x9e3779b9, 0xfeedbeef)).2.2

/-- `(unsigned)uthash_strlen(s)` -/
def hashStrlen (s : List UInt8) : BitVec 32 := BitVec.ofNat 32 s.length

/-- `HASH_TO_BKT` -/
def hashToBkt (hashv numBkts : BitVec 32) : Nat := (hashv &&& (numBkts - 1)).toNat

/-- `HASH_KEYCMP` returns 0, for `keylen` bytes -/
def hashKeyEq (a b : List UInt8) (keylen : BitVec 32) : Bool := a.take keylen.toNat = b.take keylen.toNat

/-! ## Finding -/

section Macros
variable {P V : Type} [DecidableEq P]

/-- The comparison of `HASH_FIND_IN_BKT` -/
def hashItemMatches (keyptr : List UInt8) (keylen hashval : BitVec 32) (out : HashItem P V) : HashM P V Bool := do
  if out.hashv = hashval ∧ out.keylen = keylen then return hashKeyEq (← derefStr out.key) keyptr keylen
  else return false

/-- `HASH_FIND_IN_BKT`, from the item `out` on -/
def hashFindInBkt (keyptr : List UInt8) (keylen hashval : BitVec 32) : Nat → Option P → HashM P V (Option P)
  | _, none => pure none
  | 0, some _ => Exec.fault .endless
  | n + 1, some out => do
    let c ← deref (some out)
    if ← hashItemMatches keyptr keylen hashval c then pure (some out)
    else hashFindInBkt keyptr keylen hashval n c.hhNext

/-- `HASH_FIND_STR`, for the string `findstr` -/
def hashFindStr (findstr : List UInt8) : HashM P V (Option P) := do
  let keylen := hashStrlen findstr
  let s ← Exec.get
  if s.head = none then pure none
  else do
    let hashval := hashJen findstr keylen
    let t ← tbl s.head
    let b ← bucketAt t.buckets (hashToBkt hashval t.numBuckets)
    hashFindInBkt findstr keylen hashval s.items.size b.hhHead

/-! ## Adding -/

/-- One turn of the inner loop of `HASH_EXPAND_BUCKETS`: the item `thh` goes to its bucket of the new ones. Besides them the
    loop counts `nonideal_items`. -/
def hashExpandItem (numBuckets ideal : BitVec 32) (new : List (HashBucket P) × BitVec 32) (thh : P) :
    HashM P V (List (HashBucket P) × BitVec 32) := do
  let c ← deref (some thh)
  let bkt := hashToBkt c.hashv (numBuckets * 2)
  let newbkt ← bucketAt new.1 bkt
  let count := newbkt.count + 1
  let nonideal := if count > ideal then new.2 + 1 else new.2
  let expandMult :=
    if count > ideal ∧ count > newbkt.expandMult * ideal then newbkt.expandMult + 1 else newbkt.expandMult
  storeItem (some thh) (HashItem.setHhPrev none)
  storeItem (some thh) (HashItem.setHhNext newbkt.hhHead)
  Exec.when (newbkt.hhHead ≠ none) (storeItem newbkt.hhHead (HashItem.setHhPrev (some thh)))
  pure (new.1.set bkt { hhHead := some thh, count, expandMult }, nonideal)

/-- The inner loop of `HASH_EXPAND_BUCKETS`, from the item `thh` on -/
def hashExpandChain (numBuckets ideal : BitVec 32) :
    Nat → Option P → List (HashBucket P) × BitVec 32 → HashM P V (List (HashBucket P) × BitVec 32)
  | _, none, new => pure new
  | 0, some _, _ => Exec.fault .endless
  | n + 1, some thh, new => do
    let nxt := (← deref (some thh)).hhNext
    let new ← hashExpandItem numBuckets ideal new thh
    hashExpandChain numBuckets ideal n nxt new

/-- `HASH_EXPAND_BUCKETS`, where `malloc` is whether an allocation of so many bytes succeeds -/
def hashExpandBuckets (malloc : Nat → Bool) (t : HashTable P) : HashM P V Unit := do
  if malloc (16 * t.numBuckets.toNat * 2) = false then Exec.fault .outOfMemory
  else do
    let ideal := (t.numItems >>> (t.log2NumBuckets + 1)) + if t.numItems &&& (t.numBuckets * 2 - 1) ≠ 0 then 1 else 0
    let fuel := (← Exec.get).items.size
    let new ← (List.range t.numBuckets.toNat).foldlM (fun new bkt => do
        let b ← bucketAt t.buckets bkt
        hashExpandChain t.numBuckets ideal fuel b.hhHead new)
      (List.replicate (t.numBuckets.toNat * 2) { hhHead := none, count := 0, expandMult := 0 }, 0)
    let ineffExpands := if new.2 > t.numItems >>> 1 then t.ineffExpands + 1 else 0
    setTable { t with
      buckets := new.1
      numBuckets := t.numBuckets * 2
      log2NumBuckets := t.log2NumBuckets + 1
      idealChainMaxlen := ideal
      nonidealItems := new.2
      ineffExpands
      noexpand := if ineffExpands > 1 then 1 else t.noexpand }

/-- `HASH_ADD_TO_BKT`, with `HASH_BKT_CAPACITY_THRESH` -/
def hashAddToBkt (malloc : Nat → Bool) (bkt : Nat) (addhh : P) : HashM P V Unit := do
  let t ← tbl (← Exec.get).head
  let b ← bucketAt t.buckets bkt
  storeItem (some addhh) (HashItem.setHhNext b.hhHead)
  storeItem (some addhh) (HashItem.setHhPrev none)
  Exec.when (b.hhHead ≠ none) (storeItem b.hhHead (HashItem.setHhPrev (some addhh)))
  let count := b.count + 1
  setTable { t with buckets := t.buckets.set bkt { b with hhHead := some addhh, count } }
  let t ← tbl (some addhh)
  Exec.when (count ≥ (b.expandMult + 1) * 10 ∧ t.noexpand = 0) (hashExpandBuckets malloc t)

/-- `HASH_MAKE_TABLE`, with `HASH_INITIAL_NUM_BUCKETS` and `HASH_INITIAL_NUM_BUCKETS_LOG2` -/
def hashMakeTable (malloc : Nat → Bool) (head : P) : HashM P V Unit := do
  if malloc 64 = false ∨ malloc (32 * 16) = false then Exec.fault .outOfMemory
  else setTable {
    buckets := List.replicate 32 { hhHead := none, count := 0, expandMult := 0 }
    numBuckets := 32
    log2NumBuckets := 5
    numItems := 0
    tail := some head
    idealChainMaxlen := 0
    nonidealItems := 0
    ineffExpands := 0
    noexpand := 0 }

/-- `HASH_APPEND_LIST` -/
def hashAppendList (add : P) : HashM P V Unit := do
  storeItem (some add) (HashItem.setNext none)
  let t ← tbl (← Exec.get).head
  storeItem (some add) (HashItem.setPrev t.tail)
  storeItem t.tail (HashItem.setNext (some add))
  setTable { t with tail := some add }

/-- `HASH_ADD_TO_TABLE` -/
def hashAddToTable (malloc : Nat → Bool) (hashval : BitVec 32) (add : P) : HashM P V Unit := do
  let t ← tbl (← Exec.get).head
  setTable { t with numItems := t.numItems + 1 }
  hashAddToBkt malloc (hashToBkt hashval t.numBuckets) add

/-- The `if` of `HASH_ADD_KEYPTR_BYHASHVALUE`: the first item makes the table -/
def hashLinkItem (malloc : Nat → Bool) (add : P) : HashM P V Unit := do
  if (← Exec.get).head = none then do
    storeItem (some add) (HashItem.setNext none)
    storeItem (some add) (HashItem.setPrev none)
    hashMakeTable malloc add
    Exec.modify fun s => { s with head := some add }
  else hashAppendList add

/-- `HASH_ADD_KEYPTR_BYHASHVALUE` -/
def hashAddKeyptrByhashvalue (malloc : Nat → Bool) (keyptr : Option P) (keylen hashval : BitVec 32) (add : P) :
    HashM P V Unit := do
  storeItem (some add) fun c => c.setKey keyptr keylen hashval
  hashLinkItem malloc add
  hashAddToTable malloc hashval add

/-- `HASH_ADD_STR`, where `strfield` is the field that points to the key -/
def hashAddStr (malloc : Nat → Bool) (strfield : V → Option P) (add : P) : HashM P V Unit := do
  let keyptr := strfield (← deref (some add)).val
  let key ← derefStr keyptr
  let keylen := hashStrlen key
  hashAddKeyptrByhashvalue malloc keyptr keylen (hashJen key keylen) add

/-! ## Deleting -/

/-- `HASH_DEL_IN_BKT` -/
def hashDelInBkt (bkt : Nat) (delhh : P) : HashM P V Unit := do
  let t ← tbl (← Exec.get).head
  let b ← bucketAt t.buckets bkt
  let d ← deref (some delhh)
  let hhHead := if b.hhHead = some delhh then d.hhNext else b.hhHead
  setTable { t with buckets := t.buckets.set bkt { b with hhHead, count := b.count - 1 } }
  Exec.when (d.hhPrev ≠ none) (storeItem d.hhPrev (HashItem.setHhNext d.hhNext))
  let d ← deref (some delhh)
  Exec.when (d.hhNext ≠ none) (storeItem d.hhNext (HashItem.setHhPrev d.hhPrev))

/-- `HASH_DEL`, that is `HASH_DELETE_HH` -/
def hashDel (del : P) : HashM P V Unit := do
  let d ← deref (some del)
  let t ← tbl (← Exec.get).head
  if d.prev = none ∧ d.next = none then Exec.modify fun s => { s with head := none, table := none }
  else do
    Exec.when (t.tail = some del) (setTable { t with tail := d.prev })
    Exec.when (d.prev ≠ none) (storeItem d.prev (HashItem.setNext d.next))
    Exec.when (d.prev = none) (Exec.modify fun s => { s with head := d.next })
    let d ← deref (some del)
    Exec.when (d.next ≠ none) (storeItem d.next (HashItem.setPrev d.prev))
    let t ← tbl (← Exec.get).head
    hashDelInBkt (hashToBkt d.hashv t.numBuckets) del
    let t ← tbl (← Exec.get).head
    setTable { t with numItems := t.numItems - 1 }

/-! ## Going through a table -/

/-- `HASH_ITER`, from the item `el` on: `body` is run after the next item was read, so that it can delete `el`. The loop
    runs over a state that the table is a part of. -/
def hashIterFrom {σ ε φ : Type} (next : Option P → Exec σ ε φ (Option P)) (fault : φ) (body : P → Exec σ ε φ Unit) :
    Nat → Option P → Exec σ ε φ Unit
  | _, none => pure ()
  | 0, some _ => Exec.fault fault
  | n + 1, some el => do
    let tmp ← next (some el)
    body el
    hashIterFrom next fault body n tmp

/-- `HASH_ITER` -/
def hashIter (body : P → HashM P V Unit) : HashM P V Unit := do
  let s ← Exec.get
  hashIterFrom (fun el => return (← deref el).next) .endless body s.items.size s.head

/-- `HASH_COUNT` -/
def hashCount : HashM P V (BitVec 32) := do
  let s ← Exec.get
  if s.head = none then pure 0
  else return (← tbl s.head).numItems

/-! ## `HASH_FSCK` -/

/-- Counts the items of a list from `thh` on, where `prev` is the item before it, and checks the link back of each -/
def hashFsckList (next back : HashItem P V → Option P) (message : String) :
    Nat → Option P → Option P → BitVec 32 → HashM P V (BitVec 32)
  | _, none, _, count => pure count
  | 0, some _, _, _ => Exec.fault .endless
  | n + 1, some thh, prev, count => do
    let c ← deref (some thh)
    if prev ≠ back c then Exec.fault (.oops message)
    else hashFsckList next back message n (next c) (some thh) (count + 1)

/-- `HASH_FSCK` -/
def hashFsck : HashM P V Unit := do
  let s ← Exec.get
  if s.head = none then pure ()
  else do
    let t ← tbl s.head
    let count ← (List.range t.numBuckets.toNat).foldlM (fun count bkt => do
        let b ← bucketAt t.buckets bkt
        let bktCount ← hashFsckList HashItem.hhNext HashItem.hhPrev "%s: invalid hh_prev %p, actual %p\n" s.items.size b.hhHead none 0
        if b.count ≠ bktCount then Exec.fault (.oops "%s: invalid bucket count %u, actual %u\n")
        else pure (count + bktCount)) 0
    if count ≠ t.numItems then Exec.fault (.oops "%s: invalid hh item count %u, actual %u\n")
    else do
      let count ← hashFsckList HashItem.next HashItem.prev "%s: invalid prev %p, actual %p\n" s.items.size s.head none 0
      if count ≠ t.numItems then Exec.fault (.oops "%s: invalid app item count %u, actual %u\n")
      else pure ()

end Macros

end Sylvan
