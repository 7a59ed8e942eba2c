import Mathlib.Algebra.Order.Group.Multiset
import Mathlib.Tactic.Abel
import Sylvan.Lib.Relate
import Sylvan.Theorems.RegistryRuns
import Sylvan.Ui.Console

/-! # The turns of the loop in memory

A turn allocates the line, the array and the words of its command, and frees them all before the next one, also where there is no
memory for one of them. What the command does is what it does in the model, where its words are just texts. -/

namespace Sylvan
open Exec Heap

abbrev LineBlocks : Type := Heap.Blocks Nat LineBlock

/-- `malloc` gives a block that is not allocated. -/
def ConsoleEnv.Sane (env : ConsoleEnv) : Prop := ∀ m : Console, env.block m ∉ m.heap

namespace Console

/-- The session is `s`, and the memory is made of the blocks `B`. -/
structure At (B : LineBlocks) (m : Console) (s : Session) : Prop where
  session : m.session = s
  blocks : m.heap.blocks = B

/-- The block of each word -/
def wordBlocks (words : List (Nat × CStr)) : LineBlocks :=
  ↑(words.map fun w => (⟨w.1, .text w.2⟩ : Sigma fun _ : Nat => LineBlock))

/-- An array of `size` slots, of which the first hold the addresses of `words` -/
def filled (words : List (Nat × CStr)) (size : Nat) : List (Option (Option Nat)) :=
  words.map (fun w => some (some w.1)) ++ List.replicate (size - words.length) none

/-- It ends with `NULL`. -/
def ended (words : List (Nat × CStr)) (size : Nat) : List (Option (Option Nat)) :=
  words.map (fun w => some (some w.1)) ++ some none :: List.replicate (size - words.length - 1) none

section
variable {env : ConsoleEnv} {B F : LineBlocks} {m : Console} {s : Session} {words : List (Nat × CStr)} {size args input i : Nat}
  {slots : List (Option (Option Nat))} {line : CStr}

/-! ### Arrays of words -/

theorem wordBlocks_nil : wordBlocks [] = 0 := rfl

theorem wordBlocks_cons {w : Nat × CStr} : wordBlocks (w :: words) = single w.1 (.text w.2) + wordBlocks words := rfl

theorem wordBlocks_append {w : Nat × CStr} : wordBlocks (words ++ [w]) = single w.1 (.text w.2) + wordBlocks words := by
  unfold wordBlocks
  rw [List.map_append, ← Multiset.coe_add, add_comm]
  rfl

theorem wordBlocks_drop (hi : i < words.length) :
    wordBlocks (words.drop i) = single words[i].1 (.text words[i].2) + wordBlocks (words.drop (i + 1)) := by
  rw [List.drop_eq_getElem_cons hi, wordBlocks_cons]

theorem length_filled (h : words.length ≤ size) : (filled words size).length = size := by
  simp only [filled, List.length_append, List.length_map, List.length_replicate]
  omega

theorem filled_eq (h : words.length < size) :
    filled words size = words.map (fun w => some (some w.1)) ++ none :: List.replicate (size - words.length - 1) none := by
  obtain ⟨k, hk⟩ : ∃ k, size - words.length = k + 1 := ⟨size - words.length - 1, by omega⟩
  rw [filled, hk, List.replicate_succ, Nat.add_sub_cancel]

theorem filled_set (h : words.length < size) {x : Option (Option Nat)} :
    (filled words size).set words.length x =
      words.map (fun w => some (some w.1)) ++ x :: List.replicate (size - words.length - 1) none := by
  rw [filled_eq h, List.set_append_right _ _ (by simp), List.length_map, Nat.sub_self, List.set_cons_zero]

theorem filled_push (h : words.length < size) {w : Nat × CStr} :
    (filled words size).set words.length (some (some w.1)) = filled (words ++ [w]) size := by
  rw [filled_set h, filled, List.length_append, List.length_singleton, Nat.sub_add_eq]
  simp

/-- `realloc` leaves the words in the first slots. -/
theorem filled_grown (h : words.length ≤ size) {n : Nat} (hn : size ≤ n) :
    (filled words size).take n ++ List.replicate (n - (filled words size).length) none = filled words n := by
  have hlen := length_filled h
  have hsum : size - words.length + (n - size) = n - words.length := by omega
  rw [List.take_of_length_le (by omega), hlen, filled, List.append_assoc, List.replicate_append_replicate, hsum]
  rfl

/-- The first slots of an array hold the addresses of `words`. -/
def HoldsWords (slots : List (Option (Option Nat))) (words : List (Nat × CStr)) : Prop :=
  ∀ i (hi : i < words.length), slots[i]? = some (some (some words[i].1))

theorem holdsWords_append {rest : List (Option (Option Nat))} :
    HoldsWords (words.map (fun w => some (some w.1)) ++ rest) words := fun i hi => by
  rw [List.getElem?_append_left (by simpa using hi)]
  simp [hi]

theorem holdsWords_filled : HoldsWords (filled words size) words := holdsWords_append

theorem holdsWords_ended : HoldsWords (ended words size) words := holdsWords_append

theorem getElem?_ended : (ended words size)[words.length]? = some (some none) := by
  rw [ended, List.getElem?_append_right (by simp)]
  simp

theorem lt_length_ended : words.length < (ended words size).length := by
  simp [ended]

/-! ### The accesses -/

section Accesses
variable {E : Int → Console → Prop}

theorem wp_freeBlock {q : Nat} {b : LineBlock} {Q : Unit → Console → Prop} (hb : m.heap.blocks = single q b + F)
    (hQ : ∀ heap, Heap.blocks heap = F → Q () { m with heap }) : wp (fun _ _ => False) (free (some q)) Q E m :=
  wp_zoom.mpr (wp_release hb hQ)

theorem wp_freeNull {Q : Unit → Console → Prop} (hQ : Q () m) : wp (fun _ _ => False) (free none) Q E m := hQ

theorem wp_loadText (line : CStr) {q : Nat} {Q : CStr → Console → Prop} (hb : m.heap.blocks = single q (.text line) + F) (hQ : Q line m) :
    wp (fun _ _ => False) (loadText q) Q E m := by
  unfold loadText
  exact wp_bind.mpr (wp_zoom.mpr (wp_load hb hQ))

theorem wp_loadSlots {Q : List (Option (Option Nat)) → Console → Prop} (hb : m.heap.blocks = single args (.args slots) + F)
    (hQ : Q slots m) : wp (fun _ _ => False) (loadSlots args) Q E m := by
  unfold loadSlots
  exact wp_bind.mpr (wp_zoom.mpr (wp_load hb hQ))

theorem wp_slotAt {p : Option Nat} {Q : Option Nat → Console → Prop} (hb : m.heap.blocks = single args (.args slots) + F)
    (hi : slots[i]? = some (some p)) (hQ : Q p m) : wp (fun _ _ => False) (slotAt args i) Q E m := by
  unfold slotAt
  refine wp_bind.mpr (wp_loadSlots hb ?_)
  rw [hi]
  exact hQ

theorem wp_storeSlot {p : Option Nat} {Q : Unit → Console → Prop} (hb : m.heap.blocks = single args (.args slots) + F)
    (hi : i < slots.length) (hQ : ∀ heap, Heap.blocks heap = single args (.args (slots.set i (some p))) + F → Q () { m with heap }) :
    wp (fun _ _ => False) (storeSlot args i p) Q E m := by
  unfold storeSlot
  refine wp_bind.mpr (wp_loadSlots hb ?_)
  rw [when_false (Nat.not_le.mpr hi), pure_bind]
  exact wp_zoom.mpr (wp_store hb hQ)

theorem wp_newBlock {b : LineBlock} {Q : Nat → Console → Prop} (hsane : env.Sane)
    (hQ : ∀ q heap, Heap.blocks heap = single q b + m.heap.blocks → Q q { m with heap }) :
    wp (fun _ _ => False) (newBlock env b) Q E m := by
  unfold newBlock
  rw [wp_bind, wp_get, wp_bind]
  exact wp_zoom.mpr (wp_place (hsane m) fun heap hb => hQ _ heap hb)

/-- The words go one after another, then the array and the line. -/
theorem wp_freeCollected {Q : Unit → Console → Prop} (hslots : HoldsWords slots words)
    (hb : m.heap.blocks = single args (.args slots) + wordBlocks words + (single input (.text line) + B))
    (hQ : ∀ heap, Heap.blocks heap = B → Q () { m with heap }) :
    wp (fun _ _ => False) (freeCollected input args words.length) Q E m := by
  let I := fun k m' => ∃ heap, Heap.blocks heap =
    single args (.args slots) + wordBlocks (words.drop k) + (single input (.text line) + B) ∧ m' = { m with heap }
  unfold freeCollected
  rw [wp_bind]
  refine (wp_each_range (I := I) ⟨m.heap, hb, rfl⟩ fun k u hk hu => ?_).imp (fun _ u hu => ?_) fun _ _ => id
  · obtain ⟨heap, hheap, rfl⟩ := hu
    rw [wordBlocks_drop hk] at hheap
    rw [wp_bind]
    have hslot := hheap
    rw [add_assoc] at hslot
    refine wp_slotAt hslot (hslots k hk) ?_
    have hword : heap.blocks = single words[k].1 (.text words[k].2) +
        (single args (.args slots) + wordBlocks (words.drop (k + 1)) + (single input (.text line) + B)) := by
      rw [hheap]
      abel
    exact wp_freeBlock hword fun heap' hheap' => ⟨heap', hheap', rfl⟩
  · obtain ⟨heap, hheap, rfl⟩ := hu
    rw [List.drop_length, wordBlocks_nil, add_zero] at hheap
    exact wp_bind.mpr (wp_freeBlock hheap fun heap' hheap' => wp_freeBlock hheap' hQ)

/-- `free_command` frees every word up to `NULL`, and the array. -/
theorem wp_freeCommand {Q : Unit → Console → Prop} (hb : m.heap.blocks = single args (.args (ended words size)) + wordBlocks words + B)
    (hQ : ∀ heap, Heap.blocks heap = B → Q () { m with heap }) : wp (fun _ _ => False) (freeCommand args) Q E m := by
  have loop : ∀ n i m, n + i = (ended words size).length + 1 → i ≤ words.length →
      m.heap.blocks = single args (.args (ended words size)) + wordBlocks (words.drop i) + B →
      wp (fun _ _ => False) (freeWords args n i)
        (fun _ m' => ∃ heap, Heap.blocks heap = single args (.args (ended words size)) + B ∧ m' = { m with heap }) E m := by
    intro n
    induction n with
    | zero =>
      intro i m hn hi hb
      have hlt : words.length < (ended words size).length := lt_length_ended
      omega
    | succ n ih =>
      intro i m hn hi hb
      unfold freeWords
      rw [wp_bind]
      rcases Nat.lt_or_eq_of_le hi with hi | rfl
      · rw [wordBlocks_drop hi] at hb
        have hslot := hb
        rw [add_assoc] at hslot
        refine wp_slotAt hslot (holdsWords_ended i hi) ?_
        have hword : m.heap.blocks = single words[i].1 (.text words[i].2) +
            (single args (.args (ended words size)) + wordBlocks (words.drop (i + 1)) + B) := by
          rw [hb]
          abel
        exact wp_bind.mpr (wp_freeBlock hword fun heap hheap => ih (i + 1) _ (by omega) hi hheap)
      · rw [List.drop_length, wordBlocks_nil, add_zero] at hb
        exact wp_slotAt hb getElem?_ended ⟨m.heap, hb, rfl⟩
  unfold freeCommand
  refine wp_bind.mpr (wp_loadSlots (F := wordBlocks words + B) (by rw [hb]; abel) ?_)
  rw [wp_bind]
  refine (loop _ 0 m rfl (Nat.zero_le _) hb).imp (fun _ m' h => ?_) fun _ _ => id
  obtain ⟨heap, hheap, rfl⟩ := h
  exact wp_freeBlock hheap hQ

/-- The words of a command are read as they were typed. -/
theorem wp_wordsFrom (hb : m.heap.blocks = single args (.args (ended words size)) + wordBlocks words + B) :
    ∀ n i, n + i = (ended words size).length + 1 → i ≤ words.length →
      wp (fun _ _ => False) (wordsFrom args n i) (fun l m' => l = (words.drop i).map Prod.snd ∧ m' = m) E m
  | 0, i, hn, hi => by
    have hlt : words.length < (ended words size).length := lt_length_ended
    omega
  | n + 1, i, hn, hi => by
    unfold wordsFrom
    rw [wp_bind]
    have hslot := hb
    rw [add_assoc] at hslot
    refine wp_slotAt (p := (words[i]?).map Prod.fst) hslot ?_ ?_
    · rcases Nat.lt_or_eq_of_le hi with hi | rfl
      · rw [holdsWords_ended i hi, List.getElem?_eq_getElem hi]
        rfl
      · rw [getElem?_ended, List.getElem?_eq_none (Nat.le_refl _)]
        rfl
    · rcases Nat.lt_or_eq_of_le hi with hi | rfl
      · have hword : wordBlocks words = single words[i].1 (.text words[i].2) + wordBlocks (words.eraseIdx i) := by
          exact Multiset.coe_eq_coe.mpr ((List.getElem_cons_eraseIdx_perm hi).map _).symm
        rw [List.getElem?_eq_getElem hi]
        refine wp_bind.mpr (wp_loadText words[i].2
          (F := single args (.args (ended words size)) + wordBlocks (words.eraseIdx i) + B) (by rw [hb, hword]; abel) ?_)
        refine wp_bind.mpr ((wp_wordsFrom hb n (i + 1) (by omega) hi).imp (fun l m' h => ?_) fun _ _ => id)
        obtain ⟨rfl, rfl⟩ := h
        rw [List.drop_eq_getElem_cons hi, List.map_cons]
        exact ⟨rfl, rfl⟩
      · rw [List.getElem?_eq_none (Nat.le_refl _), List.drop_length]
        exact ⟨rfl, rfl⟩

end Accesses

/-! ### Both sides -/

section Pair
variable {α β γ : Type} {Q : α → β → Console → Session → Prop} {E : Console → Session → Prop}

theorem rwp_onSession {x : UiM γ} {f : γ → ConsoleM α} {g : γ → UiM β} {a : γ} {s' : Session} (hm : At B m s) (hx : x s = .ok a s')
    (h : ∀ m', At B m' s' → rwp .ui (f a) (g a) Q E m' s') : rwp .ui (onSession x >>= f) (x >>= g) Q E m s := by
  obtain ⟨rfl, hb⟩ := hm
  have hleft : onSession x m = .ok a { m with session := s' } := by simp only [onSession, zoom, hx]
  unfold rwp
  rw [bind_of_ok hleft, bind_of_ok hx]
  exact h _ ⟨rfl, hb⟩

theorem rwp_malloc {b : LineBlock} {f : Option Nat → ConsoleM α} {g : Bool → UiM β} (hsane : env.Sane) (hm : At B m s)
    (hyes : ∀ p m' s', At (single p b + B) m' s' → rwp .ui (f (some p)) (g true) Q E m' s')
    (hno : ∀ m' s', At B m' s' → rwp .ui (f none) (g false) Q E m' s') :
    rwp .ui (malloc env b >>= f) (sys (Sys.malloc env.toEnv) >>= g) Q E m s := by
  unfold malloc
  rw [bind_assoc]
  refine rwp_onSession hm rfl fun m' hm' => ?_
  cases env.malloc s.state.scratch.clock with
  | false => exact hno m' _ hm'
  | true =>
    rw [if_pos rfl, bind_assoc]
    exact rwp.left (wp_newBlock hsane fun q heap hb => hyes q _ _ ⟨hm'.session, by rw [hb, hm'.blocks]⟩)

theorem rwp_reallocSlots {f : Option Nat → ConsoleM α} {g : Bool → UiM β} {n : Nat} (hsane : env.Sane) (hlen : words.length ≤ size)
    (hn : size ≤ n) (hm : At (single args (.args (filled words size)) + B) m s)
    (hyes : ∀ p m' s', At (single p (.args (filled words n)) + B) m' s' → rwp .ui (f (some p)) (g true) Q E m' s')
    (hno : ∀ m' s', At (single args (.args (filled words size)) + B) m' s' → rwp .ui (f none) (g false) Q E m' s') :
    rwp .ui (reallocSlots env args n >>= f) (sys (Sys.malloc env.toEnv) >>= g) Q E m s := by
  unfold reallocSlots
  rw [bind_assoc]
  refine rwp_onSession hm rfl fun m' hm' => ?_
  cases env.malloc s.state.scratch.clock with
  | false => exact hno m' _ hm'
  | true =>
    rw [if_pos rfl]
    simp only [bind_assoc]
    refine rwp.left (wp_loadSlots hm'.blocks (rwp.left (wp_zoom.mpr (wp_release hm'.blocks fun heap hheap => ?_))))
    rw [filled_grown hlen hn]
    refine rwp.left (wp_newBlock hsane fun q heap' hb => hyes q _ _ ⟨hm'.session, ?_⟩)
    rw [hb]
    exact congrArg _ hheap

/-! ### Reading a command -/

/-- What `get_command` gives: an array that ends with `NULL`, and its words. -/
def Command (B : LineBlocks) : Option Nat → Option (List CStr) → Console → Session → Prop
  | none, none, m, s => At B m s
  | some args, some texts, m, s =>
    ∃ words size, texts = words.map Prod.snd ∧ At (single args (.args (ended words size)) + wordBlocks words + B) m s
  | _, _, _, _ => False

theorem rwp_collectArgs (hsane : env.Sane) : ∀ tokens words m s size args, words.length < size →
    At (single args (.args (filled words size)) + (wordBlocks words + (single input (.text line) + B))) m s →
    rwp .ui (collectArgs env input tokens args words.length size) (Sylvan.collectArgs env.toUiEnv tokens (words.map Prod.snd) size)
      (Command B) (fun _ _ => False) m s
  | [], words, m, s, size, args, hlt, hm => by
    unfold collectArgs Sylvan.collectArgs
    rw [List.length_map, when_false (Nat.not_le.mpr hlt), pure_bind]
    refine rwp.left (wp_storeSlot hm.blocks (by rwa [length_filled (Nat.le_of_lt hlt)]) fun heap hheap => ?_)
    rw [filled_set hlt] at hheap
    refine rwp.left (wp_freeBlock (b := .text line) (F := single args (.args (ended words size)) + wordBlocks words + B) ?_
      fun heap' hheap' => ⟨words, size, rfl, hm.session, hheap'⟩)
    show Heap.blocks heap = _
    rw [hheap, ended]
    abel
  | token :: tokens, words, m, s, size, args, hlt, hm => by
    unfold collectArgs Sylvan.collectArgs
    rw [List.length_map, when_false (Nat.not_le.mpr hlt), pure_bind]
    refine rwp_malloc hsane hm (fun p m' s' hm' => ?_) fun m' s' hm' => ?_
    · have hb : m'.heap.blocks = single args (.args (filled words size)) +
          (single p (.text token) + (wordBlocks words + (single input (.text line) + B))) := by
        rw [hm'.blocks]
        abel
      refine rwp.left (wp_storeSlot hb (by rwa [length_filled (Nat.le_of_lt hlt)]) fun heap hheap => ?_)
      rw [filled_push hlt (w := (p, token))] at hheap
      generalize hwords : words ++ [(p, token)] = words' at hheap
      have hlen : words'.length = words.length + 1 := by simp [← hwords]
      have htexts : words'.map Prod.snd = words.map Prod.snd ++ [token] := by simp [← hwords]
      have hm'' : At (single args (.args (filled words' size)) + (wordBlocks words' + (single input (.text line) + B)))
          { m' with heap } s' := ⟨hm'.session, by
        show Heap.blocks heap = _
        rw [hheap, ← hwords, wordBlocks_append]
        abel⟩
      have hyes : ¬true = false := by decide
      rw [if_neg (Option.some_ne_none p), if_neg hyes, ← hlen, ← htexts]
      refine rwp.ite (fun hgrow => ?_) fun hfits => ?_
      · refine rwp_reallocSlots hsane (by omega) (by omega) hm'' (fun q m s hm => ?_) fun m s hm => ?_
        · rw [if_neg hyes]
          exact rwp_collectArgs hsane tokens words' m s (size * 2) q (by omega) hm
        · rw [if_pos rfl]
          refine rwp_onSession hm rfl fun m hm => ?_
          have hb := hm.blocks
          rw [← add_assoc] at hb
          exact rwp.left (wp_freeCollected holdsWords_filled hb fun heap hheap => ⟨hm.session, hheap⟩)
      · exact rwp_collectArgs hsane tokens words' _ s' size args (by omega) hm''
    · refine rwp.left (wp_storeSlot hm'.blocks (by rwa [length_filled (Nat.le_of_lt hlt)]) fun heap hheap => ?_)
      rw [filled_set hlt] at hheap
      rw [if_pos rfl, if_pos rfl]
      refine rwp_onSession (m := { m' with heap }) ⟨hm'.session, hheap⟩ rfl fun m hm => ?_
      have hb := hm.blocks
      rw [← add_assoc] at hb
      exact rwp.left (wp_freeCollected holdsWords_append hb fun heap hheap => ⟨hm.session, hheap⟩)

/-- A line and its block -/
inductive LineAt : Option Nat → Option CStr → LineBlocks → Prop where
  | null : LineAt none none 0
  | block (p : Nat) (line : CStr) : LineAt (some p) (some line) (single p (.text line))

/-- The copy of the last line is in the place of the one that was typed. -/
theorem rwp_commandLine (hsane : env.Sane) (hm : At (single input (.text line) + B) m s) :
    rwp .ui (commandLine env input) (Sylvan.commandLine env.toUiEnv line)
      (fun p l m' s' => ∃ L, LineAt p l L ∧ At (L + B) m' s') (fun _ _ => False) m s := by
  unfold commandLine Sylvan.commandLine
  refine rwp.left (wp_loadText line hm.blocks ?_)
  refine rwp.ite (fun _ => rwp_onSession hm rfl fun m' hm' => ⟨_, .block input line, hm'⟩) fun _ => ?_
  refine rwp_get.mpr ?_
  rw [hm.session]
  cases s.history.getLast? with
  | none => exact ⟨_, .block input line, hm⟩
  | some last =>
    refine rwp.ite (fun _ => ⟨_, .block input line, hm⟩) fun _ => rwp.left (wp_freeBlock hm.blocks fun heap hheap => ?_)
    rw [← bind_pure (malloc env (.text last))]
    refine rwp_malloc (m := { m with heap }) hsane ⟨hm.session, hheap⟩ (fun p m' s' hm' => ?_) fun m' s' hm' => ?_
    · exact ⟨_, .block p last, hm'⟩
    · exact ⟨0, .null, by rwa [zero_add]⟩

/-- The line that `readline` gives is freed, or what takes its place. -/
theorem rwp_getCommand (hsane : env.Sane) (hm : At B m s) :
    rwp .ui (getCommand env) (Sylvan.getCommand env.toUiEnv) (fun a b m' s' => ∃ texts, b = texts.map (fun l =>
      ⟨l, env.slots s.state.scratch.clock⟩) ∧ Command B a texts m' s') (fun _ _ => False) m s := by
  refine rwp_onSession hm rfl fun m hm => rwp_onSession hm rfl fun m hm => ?_
  generalize s.state.scratch.clock = t at hm ⊢
  obtain ⟨session, heap⟩ := m
  obtain ⟨rfl, hb⟩ := hm
  cases (env.readline t).1 with
  | none =>
    refine rwp.left (wp_pure.mpr (rwp_get.mpr ?_))
    refine rwp.ite (fun _ => ?_) fun _ => rwp_fault (g := Fault.nullDereference)
    refine rwp_onSession (B := B) ⟨rfl, hb⟩ rfl fun m hm => ?_
    exact rwp.left (wp_freeNull ⟨none, rfl, hm⟩)
  | some line =>
    refine rwp.left (wp_bind.mpr (wp_newBlock hsane fun input heap' hheap => wp_pure.mpr (rwp_get.mpr ?_)))
    rw [hb] at hheap
    refine rwp.ite (fun _ => ?_) fun _ => ?_
    · refine rwp_onSession (B := single input (.text line) + B) ⟨rfl, hheap⟩ rfl fun m hm => ?_
      exact rwp.left (wp_freeBlock hm.blocks fun heap hheap => ⟨none, rfl, hm.session, hheap⟩)
    · refine (rwp_commandLine hsane ⟨rfl, hheap⟩).bind (fun input line m s hm => ?_) fun _ _ => id
      obtain ⟨L, hline, hm⟩ := hm
      refine rwp_malloc hsane hm (fun args m s hm => ?_) fun m s hm => ?_
      · rw [if_neg (by decide)]
        cases hline with
        | null => exact rwp_fault (g := Fault.staleToken)
        | block input line =>
          refine rwp.left (wp_loadText line (F := single args (.args (List.replicate initialArgCount none)) + B)
            (by rw [hm.blocks]; abel) ?_)
          rw [← zero_add (single input _ + B), ← wordBlocks_nil] at hm
          have hargs := rwp_collectArgs hsane (line.tokens fun i => env.behind (t + i)) [] m s initialArgCount args (by decide) hm
          rw [← bind_pure (collectArgs env input _ args 0 initialArgCount)]
          exact hargs.bind (fun a b m' s' h => ⟨b, rfl, h⟩) fun _ _ => id
      · rw [if_pos rfl]
        refine rwp_onSession hm rfl fun m hm => ?_
        cases hline with
        | null =>
          rw [zero_add] at hm
          exact rwp.left (wp_freeNull ⟨none, rfl, hm⟩)
        | block input line => exact rwp.left (wp_freeBlock hm.blocks fun heap hheap => ⟨none, rfl, hm.session, hheap⟩)

/-- The command at `args` has the words `texts`: an array of the addresses of a block for each, which ends with `NULL`. The heap was
    `h`, and all of these blocks are new. -/
structure Fresh (h : Heap Nat LineBlock) (args : Nat) (texts : List CStr) (h' : Heap Nat LineBlock) (words : List (Nat × CStr)) : Prop where
  texts : words.map Prod.snd = texts
  array : ∃ size, h'.lookup args = some (.args (ended words size))
  word : ∀ w ∈ words, h'.lookup w.1 = some (.text w.2)
  new : (args :: words.map Prod.fst ++ h.keys).Nodup

theorem getCommand_fresh {heap : Heap Nat LineBlock} {command : Argv} {t : Session} (hsane : env.Sane)
    (h : Sylvan.getCommand env.toUiEnv s = .ok (some command) t) :
    ∃ args m words, getCommand env ⟨s, heap⟩ = .ok (some args) m ∧ Fresh heap args command.tokens m.heap words := by
  obtain ⟨a, m, hrun, texts, htexts, hcommand⟩ := (rwp_getCommand (B := heap.blocks) (m := ⟨s, heap⟩) hsane ⟨rfl, rfl⟩).ok_right h
  obtain ⟨l, rfl, rfl⟩ := Option.map_eq_some_iff.mp htexts.symm
  cases a with
  | none => exact hcommand.elim
  | some args =>
    obtain ⟨words, size, rfl, hm⟩ := hcommand
    have hb := hm.blocks
    refine ⟨args, m, words, hrun, rfl, ⟨size, lookup_of_blocks (by rw [hb, add_assoc])⟩, fun w hw => ?_, ?_⟩
    · rw [lookup_eq_some_iff, hb]
      exact Multiset.mem_add.mpr (Or.inl (Multiset.mem_add.mpr (Or.inr (Multiset.mem_coe.mpr (List.mem_map_of_mem hw)))))
    · have hnodup := nodup_addresses m.heap
      rw [hb] at hnodup
      simpa [single, wordBlocks, blocks, Function.comp_def, AList.keys, List.keys] using hnodup

theorem wp_any {x : UiM α} : ∀ s, wp (fun _ _ => True) x (fun _ _ => True) (fun _ _ => True) s := fun s => by
  unfold wp
  cases x s <;> trivial

/-- A command returns an `int`, however it ends. -/
theorem wp_handleCommand {env : UiEnv} {command : Argv} (s : Session) :
    wp (fun _ _ => True) (handleCommand env command) (fun _ _ => True) (fun _ _ => False) s := by
  unfold handleCommand
  cases command.arg 0 with
  | none => trivial
  | some name =>
    rw [wp_bind, wp_get]
    cases lookupCommand s.aliases name.text with
    | none => trivial
    | some cmd => exact wp_catching.mpr ((wp_any s).imp (fun _ _ _ => trivial) fun _ _ _ => trivial)

theorem rwp_session {x : UiM α} (hm : At B m s) : rwp .ui (onSession x) x (fun a b m' s' => a = b ∧ At B m' s') (At B) m s := by
  obtain ⟨rfl, hb⟩ := hm
  unfold rwp onSession zoom
  cases x m.session with
  | ok a s' => exact ⟨rfl, rfl, hb⟩
  | error n s' => exact ⟨rfl, rfl, hb⟩
  | fault f s' => rfl

/-- A command is run, and its words are freed. -/
theorem rwp_command {x : UiM α} (hm : At (single args (.args (ended words size)) + wordBlocks words + B) m s)
    (hx : wp (fun _ _ => True) x (fun _ _ => True) (fun _ _ => False) s) :
    rwp .ui (onSession x >>= fun r => freeCommand args >>= fun _ => pure r) x (fun a b m' s' => a = b ∧ At B m' s') (fun _ _ => False)
      m s := by
  have hfreed := rwp.bind (f := fun r => freeCommand args >>= fun _ => pure r) (g := pure)
    (R := fun a b m' s' => a = b ∧ At B m' s') ((rwp_session hm).and_wp hx) (fun a b m' s' h => ?_) fun _ _ h => h.2
  · rwa [bind_pure] at hfreed
  · obtain ⟨⟨rfl, hm'⟩, -⟩ := h
    exact rwp.left (wp_freeCommand hm'.blocks fun heap hheap => ⟨rfl, hm'.session, hheap⟩)

/-- Whatever the turn does, it frees what it allocated. -/
theorem rwp_interfaceTurn (hsane : env.Sane) (hm : At B m s) :
    rwp .ui (interfaceTurn env) (Sylvan.interfaceTurn env.toUiEnv) (fun a b m' s' => a = b ∧ At B m' s') (fun _ _ => False) m s := by
  unfold interfaceTurn Sylvan.interfaceTurn
  refine rwp.left (wp_get.mpr ?_)
  rw [hm.session]
  refine (rwp_getCommand hsane hm).bind (fun a b m s' h => ?_) fun _ _ => id
  obtain ⟨texts, rfl, h⟩ := h
  cases a with
  | none =>
    cases texts with
    | none => exact ⟨rfl, h⟩
    | some texts => exact h.elim
  | some args =>
    cases texts with
    | none => exact h.elim
    | some texts =>
      obtain ⟨words, size, rfl, hm⟩ := h
      have hb := hm.blocks
      rw [add_assoc] at hb
      cases words with
      | nil =>
        have hfirst : (ended [] size)[0]? = some (some none) := rfl
        refine rwp.left (wp_slotAt hb hfirst ?_)
        exact rwp.left (wp_freeCommand hm.blocks fun heap hheap => ⟨rfl, hm.session, hheap⟩)
      | cons w words =>
        have hfirst : (ended (w :: words) size)[0]? = some (some (some w.1)) := rfl
        refine rwp.left (wp_slotAt hb hfirst ?_)
        refine rwp.left (wp_loadText w.2 (F := single args (.args (ended (w :: words) size)) + wordBlocks words + B)
          (by rw [hb, wordBlocks_cons]; abel) ?_)
        refine rwp.ite (fun _ => ?_) fun _ => ?_
        · exact rwp.left (wp_freeCommand hm.blocks fun heap hheap => ⟨rfl, hm.session, hheap⟩)
        · refine rwp.left (wp_loadSlots hb (rwp.left ((wp_wordsFrom hm.blocks _ 0 rfl (Nat.zero_le _)).imp (fun l m' h => ?_) fun _ _ => id)))
          obtain ⟨rfl, rfl⟩ := h
          exact rwp_command hm (wp_handleCommand s')

end Pair

end

end Console

/-- The turns of the loop end in memory as they do in the model, with the same faults, and leave the heap as it was. -/
theorem consoleTurns_refine {env : ConsoleEnv} (hsane : env.Sane) (n : Nat) (m : Console) :
    rwp .ui (Exec.turns (Console.interfaceTurn env) n) (Exec.turns (interfaceTurn env.toUiEnv) n)
      (fun left left' m' s => left = left' ∧ m'.session = s ∧ ∀ p, m'.heap.lookup p = m.heap.lookup p) (fun _ _ => False)
      m m.session := by
  refine (rwp_turns (R := Console.At m.heap.blocks) (fun _ _ => Console.rwp_interfaceTurn hsane) n m m.session ⟨rfl, rfl⟩).mono
    (fun a b m' s h => ?_) fun _ _ => id
  obtain ⟨hab, hm⟩ := h
  exact ⟨hab, hm.session, lookup_congr hm.blocks⟩

/-! ### A run -/

section Sample

/-- The blocks from the greatest address in use on are free. -/
def ConsoleEnv.sample : ConsoleEnv where
  toUiEnv := .sample
  block m := m.heap.keys.sum + 1

theorem ConsoleEnv.sane_sample : ConsoleEnv.sample.Sane := fun _ h =>
  Nat.lt_irrefl _ (Nat.lt_succ_of_le (List.le_sum_of_mem (AList.mem_keys.mp h)))

def Console.blank : Console := ⟨.on .blank, ∅⟩

theorem consoleTurns_refine_sample :
    ∃ m, Exec.turns (Console.interfaceTurn .sample) 2 .blank = .ok true m ∧ ∀ p, m.heap.lookup p = none := by
  have hrun : (Exec.turns (Console.interfaceTurn .sample) 2 .blank).value? = some true := by decide +kernel
  -- The start is given a name, so that nothing but the line above runs the turns.
  obtain ⟨m₀, hm₀⟩ : ∃ m₀, m₀ = Console.blank := ⟨_, rfl⟩
  have hempty : ∀ p, m₀.heap.lookup p = none := fun p => by
    rw [hm₀]
    exact AList.lookup_empty p
  rw [← hm₀] at hrun ⊢
  have hok := Outcome.eq_ok_of_value? hrun
  obtain ⟨b, s, -, -, -, hfree⟩ := (consoleTurns_refine ConsoleEnv.sane_sample 2 m₀).ok hok
  exact ⟨_, hok, fun p => (hfree p).trans (hempty p)⟩

end Sample

end Sylvan
