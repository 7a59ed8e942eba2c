import Mathlib.Data.List.TakeWhile

/-! # Blocks of memory, and the strings in them

A block is the list of its items. `store b k l` lays `l` down from item `k` on, which works inside the block only. A string
in a block goes on up to the first `nul`, an item that no string has; `cat`, `print` and `strtok` are what C does with such
strings in place. `Runs` says what the tokens of a list are, without a block. -/

namespace Block

/-! ## Stores -/

section Stores
variable {α : Type}

/-- A block of `n` items that hold what `stale` says -/
def alloc (stale : Nat → α) (n : Nat) : List α := (List.range n).map stale

/-- `b` with `l` laid down from item `k` on; `none` where that is not inside the block -/
def store (b : List α) (k : Nat) (l : List α) : Option (List α) :=
  if k + l.length ≤ b.length then some (b.take k ++ l ++ b.drop (k + l.length)) else none

/-- At most `n` items from item `k` on: the start of `l`, and a `nul` -/
def print (nul : α) (b : List α) (k n : Nat) (l : List α) : Option (List α) :=
  if n = 0 then some b else store b k (l.take (n - 1) ++ [nul])

variable {b b' p q l : List α} {k n : Nat} {nul : α} {stale : Nat → α}

@[simp] theorem length_alloc : (alloc stale n).length = n := by simp [alloc]

theorem store_eq_some : store b k l = some b' ↔ k + l.length ≤ b.length ∧ b.take k ++ l ++ b.drop (k + l.length) = b' := by
  unfold store
  split
  · rename_i h
    simp only [Option.some.injEq, h, true_and]
  · rename_i h
    simp only [reduceCtorEq, h, false_and]

theorem store_eq_none : store b k l = none ↔ b.length < k + l.length := by
  unfold store
  split
  · simp only [reduceCtorEq, false_iff]
    omega
  · simp only [true_iff]
    omega

theorem length_store (h : store b k l = some b') : b'.length = b.length := by
  obtain ⟨hfits, rfl⟩ := store_eq_some.mp h
  simp only [List.length_append, List.length_take, List.length_drop]
  omega

/-- A store at the start of a block -/
theorem store_start (h : l.length ≤ b.length) : store b 0 l = some (l ++ b.drop l.length) := by
  refine store_eq_some.mpr ⟨by omega, ?_⟩
  rw [List.take_zero, List.nil_append, Nat.zero_add]

/-- A store right behind what is known of a block -/
theorem store_behind (h : l.length ≤ q.length) : store (p ++ q) p.length l = some (p ++ l ++ q.drop l.length) := by
  refine store_eq_some.mpr ⟨by rw [List.length_append]; omega, ?_⟩
  rw [List.take_left' rfl, List.drop_append, List.drop_of_length_le (by omega), List.nil_append]
  congr 2
  omega

/-- A store that fills a block up -/
theorem store_fill (h : l.length = q.length) : store (p ++ q) p.length l = some (p ++ l) := by
  rw [store_behind (by omega), h, List.drop_length, List.append_nil]

/-- A `nul` that is stored behind a string, or at its end, leaves the string. -/
theorem exists_store_nul (hk : l.length ≤ k) (hroom : k < (l ++ nul :: q).length) :
    ∃ q', store (l ++ nul :: q) k [nul] = some (l ++ nul :: q') := by
  rcases Nat.eq_or_lt_of_le hk with rfl | hlt
  · refine ⟨q, ?_⟩
    rw [store_behind (by simp)]
    simp
  · obtain ⟨j, rfl⟩ := Nat.exists_eq_add_of_lt hlt
    refine ⟨q.take j ++ [nul] ++ q.drop (j + 1), store_eq_some.mpr ⟨hroom, ?_⟩⟩
    simp [Nat.add_assoc, List.take_length_add_append, List.drop_length_add_append]

theorem print_eq (hn : n ≠ 0) : print nul b k n l = store b k (l.take (n - 1) ++ [nul]) := if_neg hn

theorem length_print (h : print nul b k n l = some b') : b'.length = b.length := by
  unfold print at h
  split at h
  · cases h
    rfl
  · exact length_store h

end Stores

/-! ## Strings -/

section Strings
variable {α : Type} [DecidableEq α]

/-- The string from item `k` on; `none` where the block ends first -/
def string (nul : α) (b : List α) (k : Nat) : Option (List α) :=
  if nul ∈ b.drop k then some ((b.drop k).takeWhile (· ≠ nul)) else none

/-- `l` put behind the string at the start of the block -/
def cat (nul : α) (b l : List α) : Option (List α) := do
  let text ← string nul b 0
  store b text.length (l ++ [nul])

variable {b p q l m : List α} {k : Nat} {nul : α}

/-- A string is what is in front of the first `nul`. -/
theorem string_eq (hl : nul ∉ l) : string nul (p ++ l ++ nul :: q) p.length = some l := by
  unfold string
  rw [List.append_assoc, List.drop_left' rfl, if_pos (by simp), List.takeWhile_append_of_pos (by grind),
    List.takeWhile_cons_of_neg (by simp), List.append_nil]

theorem string_start (hl : nul ∉ l) : string nul (l ++ nul :: q) 0 = some l := string_eq (p := []) hl

theorem string_eq_none : string nul b k = none ↔ nul ∉ b.drop k := by
  unfold string
  split <;> simp_all

theorem not_mem_of_string (h : string nul b k = some l) : nul ∉ l := by
  unfold string at h
  split at h
  · cases h
    intro hmem
    simpa using List.mem_takeWhile_imp hmem
  · cases h

/-- A string is put behind another one where there is room for both. -/
theorem cat_eq (hl : nul ∉ l) (hroom : m.length ≤ q.length) :
    cat nul (l ++ nul :: q) m = some (l ++ m ++ nul :: q.drop m.length) := by
  unfold cat
  rw [string_start hl, Option.bind_eq_bind, Option.bind_some, store_behind (by simp; omega)]
  simp

end Strings

/-! ## Tokens -/

section Tokens
variable {α : Type}

/-- `runs` are the longest pieces of `l` that are without `sep`, in order. -/
inductive Runs (sep : α) : List α → List (List α) → Prop where
  | none (gap : List α) : (∀ c ∈ gap, c = sep) → Runs sep gap []
  | last (gap : List α) {run : List α} : (∀ c ∈ gap, c = sep) → run ≠ [] → sep ∉ run → Runs sep (gap ++ run) [run]
  | more (gap : List α) {run rest : List α} {runs : List (List α)} : (∀ c ∈ gap, c = sep) → run ≠ [] → sep ∉ run →
    Runs sep rest runs → Runs sep (gap ++ run ++ sep :: rest) (run :: runs)

variable {sep c : α} {l run : List α} {runs : List (List α)}

theorem Runs.length_le (h : Runs sep l runs) : runs.length ≤ l.length := by
  induction h with
  | none => exact Nat.zero_le _
  | last gap _ hne =>
    have := List.length_pos_iff.mpr hne
    simp
    omega
  | more gap _ hne _ _ ih =>
    simp
    omega

/-- A separator in front belongs to the first gap. -/
theorem Runs.cons_sep (h : Runs sep l runs) : Runs sep (sep :: l) runs := by
  have hgap : ∀ {gap : List α}, (∀ c ∈ gap, c = sep) → ∀ c ∈ sep :: gap, c = sep := fun h => List.forall_mem_cons.mpr ⟨rfl, h⟩
  cases h with
  | none _ h => exact .none _ (hgap h)
  | last gap h hne hsep => exact .last (sep :: gap) (hgap h) hne hsep
  | more gap h hne hsep hrest => exact .more (sep :: gap) (hgap h) hne hsep hrest

/-- Another item in front belongs to the first run, or is a run of its own. -/
theorem Runs.exists_cons (hc : c ≠ sep) (h : Runs sep l runs) : ∃ runs', Runs sep (c :: l) runs' := by
  have hnil : ∀ d ∈ ([] : List α), d = sep := fun _ hd => by cases hd
  have hone : sep ∉ [c] := fun hmem => hc (List.mem_singleton.mp hmem).symm
  have hmore : ∀ {run : List α}, sep ∉ run → sep ∉ c :: run := fun hrun hmem =>
    (List.mem_cons.mp hmem).elim (fun heq => hc heq.symm) hrun
  cases h with
  | none _ h =>
    rcases l with _ | ⟨d, gap⟩
    · exact ⟨_, .last [] hnil (List.cons_ne_nil c []) hone⟩
    · obtain rfl := h d (by simp)
      exact ⟨_, .more [] hnil (List.cons_ne_nil c []) hone (.none gap fun e he => h e (by simp [he]))⟩
  | @last gap run h hne hsep =>
    rcases gap with _ | ⟨d, gap⟩
    · exact ⟨_, .last [] hnil (List.cons_ne_nil c run) (hmore hsep)⟩
    · obtain rfl := h d (by simp)
      exact ⟨_, .more [] hnil (List.cons_ne_nil c []) hone (.last gap (fun e he => h e (by simp [he])) hne hsep)⟩
  | @more gap run rest runs h hne hsep hrest =>
    rcases gap with _ | ⟨d, gap⟩
    · exact ⟨_, .more [] hnil (List.cons_ne_nil c run) (hmore hsep) hrest⟩
    · obtain rfl := h d (by simp)
      exact ⟨_, .more [] hnil (List.cons_ne_nil c []) hone (.more gap (fun e he => h e (by simp [he])) hne hsep hrest)⟩

/-- Every list has runs. -/
theorem exists_runs (sep : α) (l : List α) : ∃ runs, Runs sep l runs := by
  classical
  induction l with
  | nil => exact ⟨[], .none [] fun _ hc => by cases hc⟩
  | cons c l ih =>
    obtain ⟨runs, h⟩ := ih
    by_cases hc : c = sep
    · exact ⟨runs, hc ▸ h.cons_sep⟩
    · exact h.exists_cons hc

variable [DecidableEq α]

/-- The pieces between separators, without the empty ones, are the runs. -/
theorem Runs.splitOn (h : Runs sep l runs) : (l.splitOn sep).filter (· ≠ []) = runs := by
  have hgap : ∀ {gap : List α} (l), (∀ c ∈ gap, c = sep) →
      ((gap ++ l).splitOn sep).filter (· ≠ []) = (l.splitOn sep).filter (· ≠ []) := by
    intro gap l hgap
    induction gap with
    | nil => rfl
    | cons c gap ih =>
      obtain rfl := hgap c (by simp)
      rw [List.cons_append, show c :: (gap ++ l) = [] ++ c :: (gap ++ l) from rfl, List.splitOn_append_cons_self_of_not_mem (by simp),
        List.filter_cons_of_neg (by simp), ih fun d hd => hgap d (by simp [hd])]
  induction h with
  | none _ h =>
    have := hgap [] h
    rw [List.append_nil] at this
    rw [this, List.splitOn_nil]
    rfl
  | last _ h hne hsep => rw [hgap _ h, List.splitOn_eq_singleton hsep, List.filter_cons_of_pos (by simpa using hne), List.filter_nil]
  | more _ h hne hsep _ ih =>
    rw [List.append_assoc, hgap _ h, List.splitOn_append_cons_self_of_not_mem hsep, List.filter_cons_of_pos (by simpa using hne), ih]

/-- `strtok(NULL, sep)`, where it stopped at item `k`: where the next token is, the block with the token ended, and where it
    stops now -/
def strtok (nul sep : α) (b : List α) (k : Nat) : Option (Nat × List α × Nat) :=
  let start := k + ((b.drop k).takeWhile (· = sep)).length
  let stop := start + ((b.drop start).takeWhile fun c => c ≠ sep ∧ c ≠ nul).length
  if stop = start then none
  else if b[stop]? = some sep then some (start, b.set stop nul, stop + 1)
  else some (start, b, stop)

/-- The tokens that at most `n` calls of `strtok` give, one after the other -/
def tokens (nul sep : α) : Nat → List α → Nat → List (Option (List α))
  | 0, _, _ => []
  | n + 1, b, k =>
    match strtok nul sep b k with
    | none => []
    | some (start, b, stop) => string nul b start :: tokens nul sep n b stop

section Strtok
variable {nul : α} {b p gap q : List α} {token : Option (List α)} {rest : List (Option (List α))} {n k : Nat}

theorem tokens_eq_nil (h : tokens nul sep (n + 1) b k = []) : strtok nul sep b k = none := by
  unfold tokens at h
  split at h
  · assumption
  · cases h

theorem tokens_eq_cons (h : tokens nul sep (n + 1) b k = token :: rest) :
    ∃ start b' stop, strtok nul sep b k = some (start, b', stop) ∧ string nul b' start = token ∧ tokens nul sep n b' stop = rest := by
  unfold tokens at h
  split at h
  · cases h
  · rename_i start b' stop hnext
    rw [List.cons.injEq] at h
    exact ⟨start, b', stop, hnext, h⟩

/-- The gap in front of a token is passed over. -/
theorem takeWhile_gap (p q : List α) (hgap : ∀ c ∈ gap, c = sep) (hc : c ≠ sep) :
    ((p ++ gap ++ c :: q).drop p.length).takeWhile (· = sep) = gap := by
  rw [List.append_assoc, List.drop_left' rfl, List.takeWhile_append_of_pos (by simpa using hgap),
    List.takeWhile_cons_of_neg (by simpa using hc), List.append_nil]

/-- A token goes on up to a separator or to the end of the string. -/
theorem takeWhile_run (p gap q : List α) (hsep : sep ∉ run) (hnul : nul ∉ run) (hc : c = sep ∨ c = nul) :
    ((p ++ gap ++ (run ++ c :: q)).drop (p.length + gap.length)).takeWhile (fun c => c ≠ sep ∧ c ≠ nul) = run := by
  rw [← List.length_append, List.drop_left' rfl, List.takeWhile_append_of_pos (by grind),
    List.takeWhile_cons_of_neg (by grind), List.append_nil]

theorem strtok_none (p q : List α) (hgap : ∀ c ∈ gap, c = sep) (hne : nul ≠ sep) :
    strtok nul sep (p ++ gap ++ nul :: q) p.length = none := by
  unfold strtok
  have hrun := takeWhile_run p gap q (List.not_mem_nil (a := sep)) (List.not_mem_nil (a := nul)) (Or.inr rfl)
  simp only [takeWhile_gap p q hgap hne, List.nil_append] at hrun ⊢
  simp only [hrun, List.length_nil, Nat.add_zero, if_pos]

/-- Where a token is found, and where it ends -/
theorem strtok_token {c : α} (hgap : ∀ c ∈ gap, c = sep) (hrun : run ≠ []) (hsep : sep ∉ run) (hnul : nul ∉ run)
    (hc : c = sep ∨ c = nul) :
    strtok nul sep (p ++ gap ++ (run ++ c :: q)) p.length =
      if c = sep then some ((p ++ gap).length, p ++ gap ++ (run ++ nul :: q), (p ++ gap ++ run).length + 1)
      else some ((p ++ gap).length, p ++ gap ++ (run ++ c :: q), (p ++ gap ++ run).length) := by
  obtain ⟨d, run', rfl⟩ := List.exists_cons_of_ne_nil hrun
  have hd : d ≠ sep := fun h => hsep (by simp [h])
  have hstart := takeWhile_gap p (run' ++ c :: q) hgap hd
  have hstop := takeWhile_run p gap q hsep hnul hc
  have hlen : p.length + gap.length + (d :: run').length ≠ p.length + gap.length := by simp
  have hat : (p ++ gap ++ (d :: run' ++ c :: q))[p.length + gap.length + (d :: run').length]? = some c := by
    rw [List.getElem?_append_right (by simp), List.getElem?_append_right (by simp)]
    simp
  have hset : (p ++ gap ++ (d :: run' ++ c :: q)).set (p.length + gap.length + (d :: run').length) nul =
      p ++ gap ++ (d :: run' ++ nul :: q) := by
    rw [List.set_append_right _ _ (by simp), List.set_append_right _ _ (by simp)]
    simp
  unfold strtok
  simp only [List.cons_append] at hstart hstop hat hset ⊢
  simp only [hstart, hstop, if_neg hlen, hat, Option.some.injEq, hset, List.length_append]

/-- The calls of `strtok` on a string give its runs. -/
theorem tokens_eq (h : Runs sep l runs) (hnul : nul ∉ l) (hne : nul ≠ sep) (hn : runs.length < n) :
    tokens nul sep n (p ++ l ++ nul :: q) p.length = runs.map some := by
  obtain ⟨n, rfl⟩ := Nat.exists_eq_succ_of_ne_zero (Nat.ne_zero_of_lt hn)
  induction h generalizing p n with
  | none _ hgap =>
    unfold tokens
    rw [strtok_none p q hgap hne]
    rfl
  | @last gap run hgap hrun hsep =>
    rw [List.mem_append, not_or] at hnul
    obtain ⟨n, rfl⟩ := Nat.exists_eq_succ_of_ne_zero (show n ≠ 0 by simp at hn; omega)
    unfold tokens
    have hend : strtok nul sep (p ++ gap ++ (run ++ nul :: q)) (p ++ gap ++ run).length = none := by
      simpa using @strtok_none α sep _ nul [] (p ++ gap ++ run) q (List.forall_mem_nil _) hne
    rw [show p ++ (gap ++ run) ++ nul :: q = p ++ gap ++ (run ++ nul :: q) by simp, strtok_token hgap hrun hsep hnul.2 (Or.inr rfl),
      if_neg hne]
    simp only
    rw [show tokens nul sep (n + 1) (p ++ gap ++ (run ++ nul :: q)) (p ++ gap ++ run).length = [] by rw [tokens, hend],
      ← List.append_assoc, string_eq hnul.2]
    rfl
  | @more gap run rest runs hgap hrun hsep _ ih =>
    simp only [List.mem_append, List.mem_cons, not_or] at hnul
    obtain ⟨⟨-, hnulrun⟩, -, hnulrest⟩ := hnul
    obtain ⟨n, rfl⟩ := Nat.exists_eq_succ_of_ne_zero (show n ≠ 0 by simp at hn; omega)
    unfold tokens
    rw [show p ++ (gap ++ run ++ sep :: rest) ++ nul :: q = p ++ gap ++ (run ++ sep :: (rest ++ nul :: q)) by simp,
      strtok_token hgap hrun hsep hnulrun (Or.inl rfl), if_pos rfl]
    simp only
    have hrest := ih (p := p ++ gap ++ run ++ [nul]) hnulrest n (by simp at hn ⊢; omega)
    rw [List.map_cons, ← hrest, ← List.append_assoc (p ++ gap), string_eq hnulrun]
    simp [Nat.add_assoc]

end Strtok

end Tokens

end Block
