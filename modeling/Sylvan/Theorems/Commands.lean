import Sylvan.Ui.Interface
import Sylvan.Theorems.Rules

/-! What the commands see of a command line: its tokens. A position of it up to the `NULL`, and a character of a token
    up to its `'\0'`, is given by the texts; so is what `strtol` reads from there. -/

namespace Sylvan
open Exec

/-! ### Rules -/

section Rules
variable {α : Type} {F : Fault → Session → Prop} {E : Int → Session → Prop} {s : Session}

@[simp] theorem wp_lib {x : SylvanM α} {Q : Except Code α → Session → Prop} :
    wp F (lib x) Q E s ↔ wp (fun f t => F f { s with state := t }) x (fun a t => Q (.ok a) { s with state := t })
      (fun c t => Q (.error c) { s with state := t }) s.state := by
  unfold wp lib
  cases x s.state <;> exact Iff.rfl

@[simp] theorem wp_leave {n : Int} {Q : α → Session → Prop} : wp F (leave n) Q E s ↔ E n s := Iff.rfl

@[simp] theorem wp_print {o : Output} {Q : Unit → Session → Prop} :
    wp F (print o) Q E s ↔ Q () { s with out := s.out ++ [o] } := Iff.rfl

@[simp] theorem wp_reject {outputs : List Output} {Q : α → Session → Prop} :
    wp F (reject outputs) Q E s ↔ E 0 { s with out := s.out ++ outputs } := Iff.rfl

@[simp] theorem wp_sys {x : SylvanM α} {Q : α → Session → Prop} :
    wp F (sys x) Q E s ↔ wp (fun f t => F f { s with state := t }) x (fun a t => Q a { s with state := t })
      (fun _ t => E 0 { s with state := t }) s.state := by
  unfold wp sys lib
  simp only [Bind.bind, Exec.bind]
  cases x s.state <;> exact Iff.rfl

@[simp] theorem wp_orLastError {x : SylvanM α} {Q : α → Session → Prop} :
    wp F (orLastError x) Q E s ↔ wp (fun f t => F f { s with state := t }) x (fun a t => Q a { s with state := t })
      (fun _ t => E 0 { s with state := t, out := s.out ++ [.error t.scratch.lastError.message []] }) s.state := by
  unfold wp orLastError lib
  simp only [Bind.bind, Exec.bind]
  cases x s.state <;> exact Iff.rfl

@[simp] theorem wp_inferior {Q : Inferior → Session → Prop} : wp F inferior Q E s ↔ Q s.state.inf s := Iff.rfl

@[simp] theorem wp_converted {r : Numeral.Result} {Q : Numeral.Result → Session → Prop} :
    wp F (converted r) Q E s ↔
      Q r { s with state := s.state.withScratch (s.state.scratch.withErrno (if r.range then ERANGE else 0)) } := by
  unfold converted
  rw [wp_bind, wp_sys, wp_setErrno, wp_pure]

end Rules

/-! ### What a command reads -/

/-- A command that is over does not go on. -/
theorem reject_bind {α β : Type} {outputs : List Output} {f : α → UiM β} : (reject outputs >>= f) = reject outputs := rfl

theorem when_reject_bind {α : Type} {p : Prop} [Decidable p] (hp : p) {outputs : List Output} {f : Unit → UiM α} :
    (Exec.when p (reject outputs) >>= f) = reject outputs := by
  rw [when_true hp, reject_bind]

theorem converted_bind {α : Type} {r : Numeral.Result} {f : Numeral.Result → UiM α} :
    (converted r >>= f) = (sys (setErrno (if r.range then ERANGE else 0)) >>= fun _ => f r) := by
  rw [converted, Exec.bind_assoc]
  rfl

theorem sys_ok {α : Type} {x : SylvanM α} {a : α} {s : Session} {t : State} (h : x s.state = .ok a t) : sys x s = .ok a { s with state := t } := by
  unfold sys lib
  simp only [Bind.bind, Exec.bind, h]
  rfl

theorem sys_setErrno_bind {α : Type} {e : Errno} {f : Unit → UiM α} {s : Session} :
    (sys (setErrno e) >>= f) s = f () { s with state := s.state.withScratch (s.state.scratch.withErrno e) } := rfl

/-- What the commands ask of the result of `strtol` -/
theorem accepted_iff {range atEnd : Bool} {bad : Prop} :
    ¬(range = true ∨ bad ∨ ¬atEnd = true) ↔ range = false ∧ ¬bad ∧ atEnd = true := by
  rw [not_or, not_or, Bool.not_eq_true, not_not]

section Parse
variable {mem : List Char} {outputs : List Output}

theorem parseAddr_refuse {r : Numeral.Result} (hr : Numeral.strtol 16 mem = r)
    (h : r.range = true ∨ asAddr r.value = 0 ∨ ¬r.atEnd = true) :
    parseAddr mem outputs = (sys (setErrno (if r.range then ERANGE else 0)) >>= fun _ => reject outputs) := by
  rw [parseAddr, converted_bind, hr, if_pos h]

theorem parseAddr_accept {r : Numeral.Result} (hr : Numeral.strtol 16 mem = r) (hrange : r.range = false)
    (hne : asAddr r.value ≠ 0) (hend : r.atEnd = true) :
    parseAddr mem outputs = (sys (setErrno 0) >>= fun _ => pure (asAddr r.value)) := by
  rw [parseAddr, converted_bind, hr, if_neg (accepted_iff.mpr ⟨hrange, hne, hend⟩), hrange]
  rfl

end Parse

/-! ### Strings -/

/-- A text with nothing behind it -/
def CStr.word (text : String) (nonul : '\x00' ∉ text.toList) : CStr := ⟨text, nonul, []⟩

section Strings
variable {s t : CStr} {k base : Nat}

theorem CStr.from_eq (hk : k ≤ s.text.length) : s.from k = s.text.toList.drop k ++ '\x00' :: s.beyond := by
  rw [CStr.from, List.drop_append_of_le_length (by rwa [String.length_toList])]

theorem CStr.strtol_from (hb : base ≤ 36) (hk : k ≤ s.text.length) :
    Numeral.strtol base (s.from k) = Numeral.strtol base (s.text.toList.drop k) := by
  rw [CStr.from_eq hk, Numeral.strtol_nul hb]

theorem CStr.strtoul_from (hb : base ≤ 36) (hk : k ≤ s.text.length) :
    Numeral.strtoul base (s.from k) = Numeral.strtoul base (s.text.toList.drop k) := by
  rw [CStr.from_eq hk, Numeral.strtoul_nul hb]

theorem CStr.char_eq (hk : k ≤ s.text.length) : s.char k = (s.text.toList.drop k).headD '\x00' := by
  rw [CStr.char, CStr.from_eq hk, Numeral.headD_nul]

/-- Behind a text of one character. -/
theorem CStr.from_two (h : s.text.length = 1) : s.from 2 = s.beyond := by
  obtain ⟨c, hc⟩ := List.length_eq_one_iff.mp ((String.length_toList (s := s.text)).trans h)
  rw [CStr.from, hc]
  rfl

end Strings

/-! ### Command lines -/

section Lines
variable {a b : Argv} {k : Nat}

theorem Argv.texts_getElem? : a.texts[k]? = (a.tokens[k]?).map CStr.text := List.getElem?_map

theorem Argv.length_texts : a.texts.length = a.tokens.length := List.length_map _

theorem Argv.arg_of_lt (hk : k < a.tokens.length) : a.arg k = some a.tokens[k] := by
  unfold Argv.arg
  rw [List.getElem?_append_left (by simpa using hk), List.getElem?_map, List.getElem?_eq_getElem hk]
  rfl

theorem Argv.arg_length : a.arg a.tokens.length = none := by
  unfold Argv.arg
  rw [List.getElem?_append_right (by simp)]
  simp

/-- A token, or the `NULL` behind the last one. -/
theorem Argv.arg_text (hk : k ≤ a.texts.length) : (a.arg k).map CStr.text = a.texts[k]? := by
  rw [Argv.length_texts] at hk
  rw [Argv.texts_getElem?]
  rcases Nat.lt_or_eq_of_le hk with hlt | rfl
  · rw [Argv.arg_of_lt hlt, List.getElem?_eq_getElem hlt]
  · rw [Argv.arg_length, List.getElem?_eq_none (Nat.le_refl _)]

theorem Argv.arg_none (h : a.texts.length = k) : a.arg k = none := by
  have := Argv.arg_text (a := a) (Nat.le_of_eq h.symm)
  rw [List.getElem?_eq_none (Nat.le_of_eq h)] at this
  exact Option.map_eq_none_iff.mp this

theorem Argv.arg_some {text : String} (h : a.texts[k]? = some text) : ∃ c, a.arg k = some c ∧ c.text = text := by
  obtain ⟨hlt, -⟩ := List.getElem?_eq_some_iff.mp h
  have := (Argv.arg_text (Nat.le_of_lt hlt)).trans h
  exact Option.map_eq_some_iff.mp this

end Lines

end Sylvan
