import Sylvan.Lib.Heap
import Mathlib.Data.List.Nodup
import Mathlib.Logic.Function.Basic

/-! # Doubly linked lists

`Linked next prev p l q` says that the cells of `l` are linked forwards by `next` and backwards by `prev`, the first one
back to `p` and the last one on to `q`. A new cell is pushed in front or after the last one, and a cell is unlinked by
writing to its two neighbours. -/

namespace Links

variable {P : Type} {next next' prev prev' : P → Option P} {p q r : Option P} {a x : P} {l m : List P}

/-- The cells of `l` are linked in order, from `p` on to `q`. -/
def Linked (next prev : P → Option P) : Option P → List P → Option P → Prop
  | _, [], _ => True
  | p, x :: l, q => prev x = p ∧ next x = l.head?.or q ∧ Linked next prev (some x) l q

namespace Linked

theorem append_iff :
    Linked next prev p (l ++ m) q ↔ Linked next prev p l (m.head?.or q) ∧ Linked next prev (l.getLast?.or p) m q := by
  induction l generalizing p with
  | nil => simp [Linked]
  | cons x l ih =>
    have hlast : ((x :: l).getLast?).or p = l.getLast?.or (some x) := by
      cases l with
      | nil => rfl
      | cons y l =>
        obtain ⟨z, hz⟩ := Option.isSome_iff_exists.mp (show ((y :: l).getLast?).isSome by simp)
        rw [List.getLast?_cons_cons, hz]
        rfl
    have hhead : (l ++ m).head?.or q = l.head?.or (m.head?.or q) := by
      rw [List.head?_append, Option.or_assoc]
    simp only [List.cons_append, Linked, ih, hlast, hhead, and_assoc]

/-- Only the links of its own cells matter. -/
theorem congr (h : Linked next prev p l q) (hn : ∀ x ∈ l, next' x = next x) (hp : ∀ x ∈ l, prev' x = prev x) :
    Linked next' prev' p l q := by
  induction l generalizing p with
  | nil => trivial
  | cons x l ih =>
    obtain ⟨hpx, hnx, hl⟩ := h
    exact ⟨by rw [hp x (by simp), hpx], by rw [hn x (by simp), hnx],
      ih hl (fun y hy => hn y (by simp [hy])) fun y hy => hp y (by simp [hy])⟩

/-- The first cell is linked back to something else. -/
theorem congr_head (h : Linked next prev p l q) (hn : ∀ x ∈ l, next' x = next x) (hx : ∀ x ∈ l.head?, prev' x = r)
    (hp : ∀ x ∈ l.tail, prev' x = prev x) : Linked next' prev' r l q := by
  cases l with
  | nil => trivial
  | cons x l =>
    obtain ⟨-, hnx, hl⟩ := h
    exact ⟨hx x rfl, by rw [hn x (by simp), hnx], hl.congr (fun y hy => hn y (by simp [hy])) hp⟩

/-- The last cell is linked on to something else. -/
theorem congr_last (h : Linked next prev p (l ++ [x]) q) (hn : ∀ y ∈ l, next' y = next y) (hx : next' x = r)
    (hp : ∀ y ∈ l ++ [x], prev' y = prev y) : Linked next' prev' p (l ++ [x]) r := by
  obtain ⟨hl, hpx, -, -⟩ := append_iff.mp h
  refine append_iff.mpr ⟨?_, by rw [hp x (by simp), hpx], hx, trivial⟩
  exact hl.congr hn fun y hy => hp y (by simp [hy])

/-! ## One list for one chain of links -/

/-- Following `next` from the first cell visits the cells in order. -/
theorem next_of_cons (h : Linked next prev p (x :: l) none) : next x = l.head? := by
  rw [h.2.1, Option.or_none]

theorem tail (h : Linked next prev p (x :: l) q) : Linked next prev (some x) l q := h.2.2

theorem prev_of_cons (h : Linked next prev p (x :: l) q) : prev x = p := h.1

/-- The neighbours of a cell in the middle. -/
theorem next_of_mid (h : Linked next prev none (l ++ x :: m) none) : next x = m.head? := by
  have hx := (append_iff.mp h).2.2.1
  simpa using hx

theorem prev_of_mid (h : Linked next prev none (l ++ x :: m) none) : prev x = l.getLast? := by
  have hx := (append_iff.mp h).2.1
  simpa using hx

/-- The neighbours of a cell are other cells of its list. -/
theorem next_mem (h : Linked next prev none l none) (hl : l.Nodup) (hx : x ∈ l) {y : P} (hy : next x = some y) :
    y ∈ l ∧ y ≠ x := by
  obtain ⟨u, v, rfl⟩ := List.append_of_mem hx
  rw [h.next_of_mid] at hy
  have hyv : y ∈ v := List.mem_of_mem_head? hy
  refine ⟨by simp [hyv], ?_⟩
  rintro rfl
  exact (List.nodup_cons.mp (List.nodup_append.mp hl).2.1).1 hyv

theorem prev_mem (h : Linked next prev none l none) (hl : l.Nodup) (hx : x ∈ l) {y : P} (hy : prev x = some y) :
    y ∈ l ∧ y ≠ x := by
  obtain ⟨u, v, rfl⟩ := List.append_of_mem hx
  rw [h.prev_of_mid] at hy
  have hyu : y ∈ u := List.mem_of_mem_getLast? hy
  refine ⟨by simp [hyu], ?_⟩
  rintro rfl
  exact (List.nodup_append.mp hl).2.2 y hyu y (by simp) rfl

/-! ## Adding a cell -/

/-- A new cell in front: it is linked on to the list and back to `p`, and the old first cell back to it. -/
theorem push (h : Linked next prev p l q) (hl : l.Nodup) (hna : next' a = l.head?.or q) (hpa : prev' a = p)
    (hn : ∀ x ∈ l, next' x = next x) (hx : ∀ x ∈ l.head?, prev' x = some a)
    (hp : ∀ x ∈ l, l.head? ≠ some x → prev' x = prev x) : Linked next' prev' p (a :: l) q := by
  refine ⟨hpa, hna, h.congr_head hn hx fun y hy => hp y (List.mem_of_mem_tail hy) ?_⟩
  cases l with
  | nil => simp at hy
  | cons x l =>
    intro hxy
    cases hxy
    exact (List.nodup_cons.mp hl).1 hy

/-- A new cell after the last one. -/
theorem snoc (h : Linked next prev none l none) (hl : l.Nodup) (hna : next' a = none) (hpa : prev' a = l.getLast?)
    (hlast : ∀ x ∈ l.getLast?, next' x = some a) (hn : ∀ x ∈ l, l.getLast? ≠ some x → next' x = next x)
    (hp : ∀ x ∈ l, prev' x = prev x) : Linked next' prev' none (l ++ [a]) none := by
  refine append_iff.mpr ⟨?_, by simp [Linked, hna, hpa]⟩
  rcases List.eq_nil_or_concat l with rfl | ⟨l', x, rfl⟩
  · trivial
  · rw [List.concat_eq_append] at h hl hlast hn hp ⊢
    refine h.congr_last (fun y hy => hn y (by simp [hy]) ?_) ?_ hp
    · simp only [List.getLast?_concat, ne_eq, Option.some.injEq]
      rintro rfl
      exact (List.nodup_append.mp hl).2.2 _ hy _ (by simp) rfl
    · rw [hlast x (by simp)]
      rfl

end Linked

section Push
variable [DecidableEq P] {y : P}

/-- `next` after `a` was put in front of the list that starts with `hd`. -/
def pushNext (next : P → Option P) (hd : Option P) (a : P) : P → Option P := Function.update next a hd

/-- `prev` after `a` was put in front of the list that starts with `hd`. -/
def pushPrev (prev : P → Option P) (hd : Option P) (a : P) : P → Option P :=
  match hd with
  | some x => Function.update (Function.update prev a none) x (some a)
  | none => Function.update prev a none

theorem pushPrev_of_ne (hya : y ≠ a) (hy : r ≠ some y) : pushPrev prev r a y = prev y := by
  unfold pushPrev
  cases r with
  | none => exact Function.update_of_ne hya _ _
  | some x =>
    have hyx : y ≠ x := by
      rintro rfl
      exact hy rfl
    exact (Function.update_of_ne hyx _ _).trans (Function.update_of_ne hya _ _)

theorem pushPrev_self (ha : r ≠ some a) : pushPrev prev r a a = none := by
  unfold pushPrev
  cases r with
  | none => exact Function.update_self _ _ _
  | some x =>
    have hax : a ≠ x := by
      rintro rfl
      exact ha rfl
    exact (Function.update_of_ne hax _ _).trans (Function.update_self _ _ _)

theorem Linked.pushed (h : Linked next prev none l none) (hl : l.Nodup) (ha : a ∉ l) :
    Linked (pushNext next l.head? a) (pushPrev prev l.head? a) none (a :: l) none := by
  have hne : ∀ {x}, x ∈ l → x ≠ a := fun hx hxa => ha (hxa ▸ hx)
  refine h.push hl ?_ ?_ (fun x hx => Function.update_of_ne (hne hx) _ _) (fun x hx => ?_) fun x hx hxl => pushPrev_of_ne (hne hx) hxl
  · rw [pushNext, Function.update_self, Option.or_none]
  · exact pushPrev_self fun hla => ha (List.mem_of_mem_head? hla)
  · have hx' : l.head? = some x := hx
    simp only [pushPrev, hx', Function.update_self]

/-- A list with neither `a` nor the old first cell is left as it is. -/
theorem Linked.pushed_other (h : Linked next prev p l q) (ha : a ∉ l) (hr : ∀ x ∈ l, r ≠ some x) :
    Linked (pushNext next r a) (pushPrev prev r a) p l q := by
  have hne : ∀ {x}, x ∈ l → x ≠ a := fun hx hxa => ha (hxa ▸ hx)
  exact h.congr (fun x hx => Function.update_of_ne (hne hx) _ _) fun x hx => pushPrev_of_ne (hne hx) (hr x hx)

end Push

/-! ## Removing a cell -/

section Unlink
variable [DecidableEq P] {y : P}

/-- `next` after `x` was unlinked: the cell before it is linked on to the cell after it. -/
def unlinkNext (next prev : P → Option P) (x : P) : P → Option P :=
  match prev x with
  | some y => Function.update next y (next x)
  | none => next

/-- `prev` after `x` was unlinked: the cell after it is linked back to the cell before it. -/
def unlinkPrev (next prev : P → Option P) (x : P) : P → Option P :=
  match next x with
  | some y => Function.update prev y (prev x)
  | none => prev

theorem unlinkNext_of_eq (h : prev x = some y) : unlinkNext next prev x y = next x := by
  simp only [unlinkNext, h, Function.update_self]

theorem unlinkNext_of_ne (h : prev x ≠ some y) : unlinkNext next prev x y = next y := by
  unfold unlinkNext
  cases hp : prev x with
  | none => rfl
  | some z => exact Function.update_of_ne (by rintro rfl; exact h hp) _ _

theorem unlinkPrev_of_eq (h : next x = some y) : unlinkPrev next prev x y = prev x := by
  simp only [unlinkPrev, h, Function.update_self]

theorem unlinkPrev_of_ne (h : next x ≠ some y) : unlinkPrev next prev x y = prev y := by
  unfold unlinkPrev
  cases hn : next x with
  | none => rfl
  | some z => exact Function.update_of_ne (by rintro rfl; exact h hn) _ _

/-- A list that `x` and its neighbours are not in is left as it is. -/
theorem Linked.unlink_other (h : Linked next prev p l q) (hn : ∀ y ∈ l, prev x ≠ some y) (hp : ∀ y ∈ l, next x ≠ some y) :
    Linked (unlinkNext next prev x) (unlinkPrev next prev x) p l q :=
  h.congr (fun y hy => unlinkNext_of_ne (hn y hy)) fun y hy => unlinkPrev_of_ne (hp y hy)

theorem Linked.unlink (h : Linked next prev none (l ++ x :: m) none) (hl : (l ++ x :: m).Nodup) :
    Linked (unlinkNext next prev x) (unlinkPrev next prev x) none (l ++ m) none := by
  have hnx : next x = m.head? := h.next_of_mid
  have hpx : prev x = l.getLast? := h.prev_of_mid
  obtain ⟨hlnd, hxm, hdisj⟩ := List.nodup_append.mp hl
  obtain ⟨hfront, -, -, hback⟩ := append_iff.mp h
  refine append_iff.mpr ⟨?_, ?_⟩
  · rw [Option.or_none]
    -- of the cells before `x`, the last one is linked on to another cell
    rcases List.eq_nil_or_concat l with rfl | ⟨l', y, rfl⟩
    · trivial
    · rw [List.concat_eq_append] at hfront hpx hdisj hlnd ⊢
      rw [List.getLast?_concat] at hpx
      refine hfront.congr_last (fun z hz => unlinkNext_of_ne ?_) ((unlinkNext_of_eq hpx).trans hnx) fun z hz => unlinkPrev_of_ne ?_
      · rw [hpx]
        rintro ⟨⟩
        exact (List.nodup_append.mp hlnd).2.2 _ hz _ (by simp) rfl
      · rw [hnx]
        exact fun hzm => hdisj z hz z (by simp [List.mem_of_mem_head? hzm]) rfl
  · rw [Option.or_none]
    -- of the cells after `x`, the first one is linked back to another cell
    refine hback.congr_head (fun z hz => unlinkNext_of_ne ?_) (fun z hz => ?_) fun z hz => unlinkPrev_of_ne ?_
    · rw [hpx]
      exact fun hzl => hdisj z (List.mem_of_mem_getLast? hzl) z (by simp [hz]) rfl
    · rw [unlinkPrev_of_eq (hnx.trans hz), hpx]
    · rw [hnx]
      cases m with
      | nil => simp at hz
      | cons w m =>
        rintro ⟨⟩
        exact (List.nodup_cons.mp (List.nodup_cons.mp hxm).2).1 hz

end Unlink

/-! ## The links of the cells of a heap -/

/-- The two link fields of a cell, each written without the other. -/
structure Fields (P C : Type) where
  next : C → Option P
  prev : C → Option P
  setNext : Option P → C → C
  setPrev : Option P → C → C
  next_setNext : ∀ v c, next (setNext v c) = v
  prev_setNext : ∀ v c, prev (setNext v c) = prev c
  next_setPrev : ∀ v c, next (setPrev v c) = next c
  prev_setPrev : ∀ v c, prev (setPrev v c) = v

namespace Fields
variable {C : Type} [DecidableEq P] {h h' : Heap P C} {v : Option P} (F : Fields P C)

/-- The cells of `l` are linked in the heap. -/
def InHeap (h : Heap P C) (l : List P) : Prop := Linked (h.link F.next) (h.link F.prev) none l none

variable {F} in
theorem InHeap.of_links (hl : F.InHeap h l) (hn : h'.link F.next = h.link F.next) (hp : h'.link F.prev = h.link F.prev) :
    F.InHeap h' l := by
  rw [InHeap, hn, hp]
  exact hl

theorem link_setNext (hx : x ∈ h) : (h.modify x (F.setNext v)).link F.next = Function.update (h.link F.next) x v :=
  Heap.link_modify hx (F.next_setNext v)

theorem link_prev_setNext : (h.modify x (F.setNext v)).link F.prev = h.link F.prev := Heap.link_modify_of_eq (F.prev_setNext v)

theorem link_next_setPrev : (h.modify x (F.setPrev v)).link F.next = h.link F.next := Heap.link_modify_of_eq (F.next_setPrev v)

theorem link_setPrev (hx : x ∈ h) : (h.modify x (F.setPrev v)).link F.prev = Function.update (h.link F.prev) x v :=
  Heap.link_modify hx (F.prev_setPrev v)

/-- The writes that put `a` in front of the list that starts with `r`. -/
theorem link_next_push (ha : a ∈ h) (hn : h'.link F.next = (h.modify a (F.setNext r)).link F.next) :
    (h'.modifyOpt r (F.setPrev (some a))).link F.next = pushNext (h.link F.next) r a := by
  rw [Heap.link_modifyOpt_of_eq (F.next_setPrev _), hn, F.link_setNext ha, pushNext]

theorem link_prev_push (ha : a ∈ h) (hr : ∀ y ∈ r, y ∈ h') (hp : h'.link F.prev = (h.modify a (F.setPrev none)).link F.prev) :
    (h'.modifyOpt r (F.setPrev (some a))).link F.prev = pushPrev (h.link F.prev) r a := by
  cases r with
  | none => exact hp.trans (F.link_setPrev ha)
  | some y =>
    refine (F.link_setPrev (hr y rfl)).trans ?_
    rw [hp, F.link_setPrev ha]
    rfl

/-- The writes that unlink `x`. -/
def unlink (h : Heap P C) (x : P) : Heap P C :=
  (h.modifyOpt (h.link F.prev x) (F.setNext (h.link F.next x))).modifyOpt (h.link F.next x) (F.setPrev (h.link F.prev x))

theorem link_next_unlink (hx : ∀ y ∈ h.link F.prev x, y ∈ h) :
    (F.unlink h x).link F.next = unlinkNext (h.link F.next) (h.link F.prev) x := by
  rw [unlink, Heap.link_modifyOpt_of_eq (F.next_setPrev _), unlinkNext]
  cases hp : h.link F.prev x with
  | none => rfl
  | some y => exact F.link_setNext (hx y hp)

theorem link_prev_unlink (hx : ∀ y ∈ h.link F.next x, y ∈ h) :
    (F.unlink h x).link F.prev = unlinkPrev (h.link F.next) (h.link F.prev) x := by
  rw [unlink, unlinkPrev]
  cases hn : h.link F.next x with
  | none => exact Heap.link_modifyOpt_of_eq (F.prev_setNext _)
  | some y =>
    refine (F.link_setPrev (by simpa using hx y hn)).trans ?_
    rw [Heap.link_modifyOpt_of_eq (F.prev_setNext _)]

end Fields

end Links
