import Sylvan.Theorems.Life
import Sylvan.Theorems.Numbers
import Sylvan.Ui.Startup

/-! Whether a decimal number is taken at its value: the process that is attached to, the breakpoint that is acted on and the
    words that are read are those that the digits say, however many there are, or an error is reported. -/

namespace Sylvan
open Exec

/-- `text` is a string of decimal digits, which denote `n`. -/
structure Decimal (text : String) (n : Nat) : Prop where
  nonempty : text.toList ≠ []
  digits : ∀ c ∈ text.toList, Numeral.isDigit 10 c
  denoted : Numeral.value 10 text.toList = n

section
variable (env : UiEnv)

end

/-- The commands, and the option, that take a decimal number. -/
inductive DecimalCommand where
  | attach
  | option
  | breakpoint (cmd : NumberCommand)
  | memoryRead
  deriving DecidableEq, Repr

namespace DecimalCommand

/-- The numbers that are taken so: those that are an `int`, those that are no `long`, and those that are cut to an `int` that is
    refused, or that stands for 16 words as they do. Of a table, they are the numbers of its entries and those that it
    refuses. -/
def Fits (n : Nat) (inf : Inferior) : DecimalCommand → Prop
  | breakpoint _ => n < inf.count ∨ inf.RefusesNumber n
  | memoryRead => n < 2 ^ 31 ∨ Numeral.Overflows n ∨ asInt n ≤ 0 ∨ 16 ≤ asInt n
  | _ => n < 2 ^ 31 ∨ Numeral.Overflows n ∨ asInt n ≤ 0

end DecimalCommand

/-! ### Numbers and errors -/

section Digits
variable {c : CStr} {text : String} {n : Nat}

theorem Decimal.denotes (h : Decimal text n) : Numeral.Denotes 10 text.toList n := by
  have hden : Numeral.Denotes 10 _ _ := .mk [] [] [] text.toList (by simp) (Or.inl rfl) (Or.inl rfl) h.nonempty h.digits
  rw [h.denoted] at hden
  exact hden

end Digits

section Errors
variable {x : UiM Unit} {s t : Session} {o : Output}

end Errors

/-! ### `attach` -/

section Attach
variable {env : UiEnv} {command : Argv} {t c : CStr} {s : Session} {n : Int} {pid : Pid}

end Attach

/-! ### The option `-p` -/

section Start
variable {env : UiEnv} {options before after : List CmdOption} {operands : List CStr} {c : CStr} {s t : Session} {a : CmdArgs} {n : Nat}

theorem wp_printed {α : Type} {l : List α} {f : α → Output} {F : Fault → Session → Prop} {E : Int → Session → Prop} :
    wp F (Exec.each l fun x => print (f x)) (fun _ t => s.out <+: t.out) E s := by
  suffices h : ∀ u : Session, s.out <+: u.out → wp F (Exec.each l fun x => print (f x)) (fun _ t => s.out <+: t.out) E u from
    h s (List.prefix_refl _)
  induction l with
  | nil => exact fun _ hu => hu
  | cons x l ih => exact fun u hu => wp_each_cons.mpr (ih _ (hu.trans (List.prefix_append ..)))

theorem wp_parseOperands {F : Fault → Session → Prop} {E : Int → Session → Prop} (operands : List CStr) :
    wp F (parseOperands a operands)
      (fun b t => (∃ filepath, b = { a with filepath } ∧ (operands = [] → filepath = a.filepath)) ∧ s.out <+: t.out) E s := by
  unfold parseOperands
  split
  · exact ⟨⟨a.filepath, rfl, fun _ => rfl⟩, List.prefix_refl _⟩
  · rename_i filepath excess hsplit
    have hne : operands ≠ [] := by
      rintro rfl
      cases hsplit
    rw [wp_bind, wp_when]
    split
    · rw [wp_bind]
      show wp F (Exec.each excess _ >>= _) _ E { s with out := s.out ++ [_] }
      rw [wp_bind]
      refine wp_printed.imp (fun _ t ht => ?_) fun _ _ => id
      exact ⟨⟨_, rfl, fun h => absurd h hne⟩, ((List.prefix_append ..).trans ht).trans (List.prefix_append ..)⟩
    · exact ⟨⟨_, rfl, fun h => absurd h hne⟩, List.prefix_refl _⟩

theorem wp_errorLast {F : Fault → Session → Prop} {E : Int → Session → Prop} {Q : Unit → Session → Prop} :
    wp F errorLast Q E s ↔ Q () { s with out := s.out ++ [.stderr s.state.scratch.lastError.message [], .stderr "\n" []] } := by
  unfold errorLast
  rw [wp_bind, wp_get, wp_bind]
  show Q () { s with out := s.out ++ [_] ++ [_] } ↔ _
  rw [List.append_assoc]
  rfl

end Start

/-! ### Breakpoints -/

section Breakpoint
variable {cmd : NumberCommand} {inf : Inferior} {text : CStr} {n : Nat}

end Breakpoint

/-! ### Words of memory -/

section Rows
variable {env : UiEnv} {command : Argv} {pTable : Bool} {addr c : CStr} {s : Session} {n : Int}

end Rows

end Sylvan
