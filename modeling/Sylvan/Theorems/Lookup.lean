import Mathlib.Data.List.Basic
import Sylvan.Lib.Search
import Sylvan.Theorems.Rules

/-! Lookups by name: in a table in the order of its names, the binary search finds a symbol of each name that
    the table has, and none of any other. -/

namespace Sylvan
open Exec

/-- `symcmp` does not put `b` before `a`. -/
def NameLe (a b : String) : Prop := strcmp a.toList b.toList ≠ .gt

instance (a b : String) : Decidable (NameLe a b) := inferInstanceAs (Decidable (_ ≠ _))

namespace SymTable

def names (table : SymTable) : List String := table.symbols.filterMap Symbol.name

/-- The symbols are in the order of their names. -/
def Sorted (table : SymTable) : Prop := table.names.Pairwise NameLe

instance (table : SymTable) : Decidable table.Sorted := inferInstanceAs (Decidable (List.Pairwise _ _))

/-- Each symbol has its name. -/
def Named (table : SymTable) : Prop := ∀ sym ∈ table.symbols, sym.name ≠ none

instance (table : SymTable) : Decidable table.Named := inferInstanceAs (Decidable (∀ _ ∈ _, _ ≠ _))

end SymTable

/-! ### The order of names -/

theorem strcmp_eq_compare : ∀ cs ds : List Char, strcmp cs ds = compare cs ds
  | [], [] => rfl
  | [], _ :: _ => rfl
  | _ :: _, [] => rfl
  | c :: cs, d :: ds => by
    rw [strcmp, List.compare_cons_cons, ← strcmp_eq_compare cs ds]
    split
    · rename_i h
      subst h
      simp
    · rename_i h
      cases hc : compare c d with
      | eq => exact absurd (Std.LawfulEqOrd.eq_of_compare hc) h
      | lt => rfl
      | gt => rfl

theorem strcmp_self (cs : List Char) : strcmp cs cs = .eq := by
  rw [strcmp_eq_compare]
  exact Std.ReflOrd.compare_self

theorem strcmp_eq_iff {a b : String} : strcmp a.toList b.toList = .eq ↔ a = b := by
  rw [strcmp_eq_compare, Std.LawfulEqOrd.compare_eq_iff_eq]
  exact String.toList_inj

/-- A name before `a` is before each name that is not before `a`. -/
theorem strcmp_lt_of_lt {a b name : String} (h : NameLe a b) (hlt : strcmp name.toList a.toList = .lt) :
    strcmp name.toList b.toList = .lt := by
  unfold NameLe at h
  rw [strcmp_eq_compare] at h hlt ⊢
  exact Std.TransCmp.lt_of_lt_of_isLE hlt (Ordering.isLE_iff_ne_gt.mpr h)

theorem strcmp_gt_of_gt {a b name : String} (h : NameLe a b) (hgt : strcmp name.toList b.toList = .gt) :
    strcmp name.toList a.toList = .gt := by
  unfold NameLe at h
  rw [strcmp_eq_compare] at h hgt ⊢
  have hge : (compare b.toList a.toList).isGE := by
    rw [Std.OrientedOrd.eq_swap]
    simpa using Ordering.isLE_iff_ne_gt.mpr h
  exact Std.TransCmp.gt_of_gt_of_isGE hgt hge

/-! ### The search -/

section
variable {table : SymTable} {name : String} {s : State}

/-- How `name` compares to the symbol at `i`. -/
def SymTable.order (table : SymTable) (name : String) (i : Nat) : Ordering :=
  match table.symbols[i]? with
  | some { name := some other, addr := _ } => strcmp name.toList other.toList
  | _ => .eq

theorem SymTable.Named.order_eq (h : table.Named) (name : String) {i : Nat} (hi : i < table.symbols.length) :
    ∃ other, table.symbols[i].name = some other ∧ table.order name i = strcmp name.toList other.toList := by
  obtain ⟨other, hother⟩ := Option.ne_none_iff_exists'.mp (h _ (List.getElem_mem hi))
  refine ⟨other, hother, ?_⟩
  unfold SymTable.order
  rw [List.getElem?_eq_getElem hi]
  cases hsym : table.symbols[i] with
  | mk n addr =>
    rw [hsym] at hother
    cases hother
    rfl

/-- The loop of `bsearch` is the search of the library. -/
theorem bsearch_eq (h : table.Named) (fuel l u : Nat) (hu : u ≤ table.symbols.length) :
    bsearch name table.symbols fuel l u s =
      .ok ((Search.index (table.order name) fuel l u).bind fun i => table.symbols[i]?) s := by
  induction fuel generalizing l u with
  | zero => rfl
  | succ fuel ih =>
    unfold bsearch Search.index
    split
    · rfl
    · rename_i hlu
      have hi : (l + u) / 2 < table.symbols.length := by omega
      obtain ⟨other, hother, horder⟩ := h.order_eq name hi
      rw [List.getElem?_eq_getElem hi]
      simp only [hother, horder]
      cases strcmp name.toList other.toList with
      | lt => exact ih l _ (Nat.le_of_lt hi)
      | gt => exact ih _ u hu
      | eq => simp [List.getElem?_eq_getElem hi, Pure.pure, Exec.pure]

theorem SymTable.Sorted.falls (hs : table.Sorted) (h : table.Named) :
    Search.Falls (table.order name) 0 table.symbols.length := by
  intro i j _ hij hj
  have hi : i < table.symbols.length := Nat.lt_trans hij hj
  obtain ⟨a, ha, horder⟩ := h.order_eq name hi
  obtain ⟨b, hb, horder'⟩ := h.order_eq name hj
  have hle : NameLe a b := by
    have hpairs := List.pairwise_iff_getElem.mp (List.pairwise_filterMap.mp hs)
    exact hpairs i j hi hj hij a ha b hb
  rw [horder, horder']
  exact ⟨strcmp_lt_of_lt hle, strcmp_gt_of_gt hle⟩

theorem SymTable.Named.mem_names_iff (h : table.Named) :
    name ∈ table.names ↔ ∃ i, i < table.symbols.length ∧ table.order name i = .eq := by
  unfold SymTable.names
  rw [List.mem_filterMap]
  constructor
  · rintro ⟨sym, hsym, hname⟩
    obtain ⟨i, hi, rfl⟩ := List.getElem_of_mem hsym
    obtain ⟨other, hother, horder⟩ := h.order_eq name hi
    obtain rfl := Option.some.inj (hname.symm.trans hother)
    exact ⟨i, hi, horder.trans (strcmp_self _)⟩
  · rintro ⟨i, hi, horder⟩
    obtain ⟨other, hother, horder'⟩ := h.order_eq name hi
    obtain rfl := strcmp_eq_iff.mp (horder'.symm.trans horder)
    exact ⟨_, List.getElem_mem hi, hother⟩

/-- What `sym_lookup` returns. -/
inductive SymTable.Looked (table : SymTable) (name : String) : Option Symbol → Prop where
  | found (sym : Symbol) (mem : sym ∈ table.symbols) (name_eq : sym.name = some name) : Looked table name (some sym)
  | missing (absent : name ∉ table.names) : Looked table name none

theorem symLookup_eq (hs : table.Sorted) (h : table.Named) :
    ∃ r, table.Looked name r ∧ ∀ s, symLookup table name s = .ok r s := by
  refine ⟨_, ?_, fun s => bsearch_eq h _ _ _ (Nat.le_refl _)⟩
  cases hi : Search.index (table.order name) (table.symbols.length + 1) 0 table.symbols.length with
  | none =>
    refine .missing fun hmem => ?_
    have := (Search.index_isSome_iff (hs.falls h)).mpr (h.mem_names_iff.mp hmem)
    simp [hi] at this
  | some i =>
    obtain ⟨-, hlt, horder⟩ := Search.index_some hi
    obtain ⟨other, hother, horder'⟩ := h.order_eq name hlt
    obtain rfl := strcmp_eq_iff.mp (horder'.symm.trans horder)
    rw [Option.bind_some, List.getElem?_eq_getElem hlt]
    exact .found _ (List.getElem_mem hlt) hother

end

end Sylvan
