import Sylvan.Theorems.Commands
import Sylvan.Ui.Table

/-! The pages of `print_table`: where the height of the terminal is not 12, each row is printed, in order, up to a prompt that is
    answered with `q`. Where it is 12, the page size is zero, and the first row ends in a division by it. -/

namespace Sylvan
open Exec

/-! ### What is shown -/

def Shown.row? : Shown → Option (List String)
  | row cells => some cells
  | _ => none

/-- The rows among what is shown -/
def shownRows (out : List Shown) : List (List String) := out.filterMap Shown.row?

/-- A prompt that is answered with `q` -/
def Shown.Quits : Shown → Prop
  | prompt _ _ answer => answer = some 'q' ∨ answer = some 'Q'
  | _ => False

/-- All rows are shown, in order, or one prompt is answered with `q`, and the rows up to it are shown. -/
def ShowsRows (rows : List (List String)) (out : List Shown) : Prop :=
  ((∀ p ∈ out, ¬p.Quits) ∧ shownRows out = rows) ∨
    ∃ before k answer after, out = before ++ .prompt k rows.length answer :: after ∧ (Shown.prompt k rows.length answer).Quits ∧
      (∀ p ∈ before ++ after, ¬p.Quits) ∧ shownRows before = rows.take k.toNat ∧ shownRows after = []

/-- `seg` shows the rows that are left of `n`, from row `r` on, up to a prompt that is answered with `q`. -/
def Pages (n : Int) (r : Nat) (rows : List (List String)) (seg : List Shown) : Prop :=
  ((∀ p ∈ seg, ¬p.Quits) ∧ shownRows seg = rows) ∨
    ∃ (before : List Shown) (k : Nat) (answer : Option Char), seg = before ++ [.prompt (r + k : Nat) n answer] ∧
      (Shown.prompt (r + k : Nat) n answer).Quits ∧ (∀ p ∈ before, ¬p.Quits) ∧ shownRows before = rows.take k

section Pages
variable {n : Int} {r : Nat} {cells : List String} {rows : List (List String)} {front seg before after : List Shown}
  {answer : Option Char}

@[simp] theorem shownRows_append : shownRows (front ++ seg) = shownRows front ++ shownRows seg := List.filterMap_append

/-- A row is shown in front of the others. -/
theorem Pages.cons (hfront : ∀ p ∈ front, ¬p.Quits) (hrow : shownRows front = [cells]) (h : Pages n (r + 1) rows seg) :
    Pages n r (cells :: rows) (front ++ seg) := by
  rcases h with ⟨hquits, hrows⟩ | ⟨before, k, answer, rfl, hanswer, hquits, hrows⟩
  · refine Or.inl ⟨fun p hp => ?_, by rw [shownRows_append, hrow, hrows, List.singleton_append]⟩
    rcases List.mem_append.mp hp with hp | hp
    · exact hfront p hp
    · exact hquits p hp
  · have hk : r + (k + 1) = r + 1 + k := by omega
    refine Or.inr ⟨front ++ before, k + 1, answer, by rw [hk, List.append_assoc], by rwa [hk], fun p hp => ?_, ?_⟩
    · rcases List.mem_append.mp hp with hp | hp
      · exact hfront p hp
      · exact hquits p hp
    · rw [shownRows_append, hrow, hrows, List.singleton_append, List.take_succ_cons]

/-- The rest is not shown when the prompt behind the first row is answered with `q`. -/
theorem Pages.quit (h : (Shown.prompt (r + 1 : Nat) n answer).Quits) :
    Pages n r (cells :: rows) [.row cells, .prompt (r + 1 : Nat) n answer] := by
  refine Or.inr ⟨[.row cells], 1, answer, rfl, h, fun p hp => ?_, rfl⟩
  rw [List.mem_singleton.mp hp]
  exact id

/-- What is shown around all the rows -/
theorem Pages.showsRows (h : Pages rows.length 0 rows seg) (hbefore : ∀ p ∈ before, ¬p.Quits) (hafter : ∀ p ∈ after, ¬p.Quits)
    (hnone : shownRows before = []) (hnone' : shownRows after = []) : ShowsRows rows (before ++ seg ++ after) := by
  rcases h with ⟨hquits, hrows⟩ | ⟨shown, k, answer, rfl, hanswer, hquits, hrows⟩
  · refine Or.inl ⟨fun p hp => ?_, by rw [shownRows_append, shownRows_append, hnone, hnone', hrows]; simp⟩
    rcases List.mem_append.mp hp with hp | hp
    · rcases List.mem_append.mp hp with hp | hp
      · exact hbefore p hp
      · exact hquits p hp
    · exact hafter p hp
  · rw [Nat.zero_add] at hanswer ⊢
    refine Or.inr ⟨before ++ shown, k, answer, after, by simp, hanswer, fun p hp => ?_, ?_, hnone'⟩
    · rcases List.mem_append.mp hp with hp | hp
      · rcases List.mem_append.mp hp with hp | hp
        · exact hbefore p hp
        · exact hquits p hp
      · exact hafter p hp
    · rw [shownRows_append, hnone, hrows]
      simp

end Pages

/-! ### The loop -/

section Loop
variable {F : Fault → Screen → Prop} {E : Code → Screen → Prop} {s : Screen} {widths : List Int} {pageSize n : Int} {r : Nat}
  {cols : List TableCol} {rows : List (TableRow cols)}

@[simp] theorem wp_shows {shown : Shown} {Q : Unit → Screen → Prop} :
    wp F (shows shown) Q E s ↔ Q () { s with out := s.out ++ [shown] } := Iff.rfl

/-- The prompt reads an answer, and tells whether it was `q`. -/
theorem wp_promptForContinue {k : Int} {Q : Bool → Screen → Prop}
    (hquit : ∀ answer input, (Shown.prompt k n answer).Quits → Q false ⟨input, s.out ++ [.prompt k n answer]⟩)
    (hgo : ∀ answer input, ¬(Shown.prompt k n answer).Quits → Q true ⟨input, s.out ++ [.prompt k n answer, .erase]⟩) :
    wp F (promptForContinue k n) Q E s := by
  unfold promptForContinue
  rw [wp_bind, wp_get, wp_bind, wp_shows, wp_ite]
  split
  · rename_i hanswer
    exact hquit _ _ hanswer
  · rename_i hanswer
    have hQ := hgo s.input.head? (s.input.dropWhile (· ≠ '\n')).tail hanswer
    rw [wp_bind, wp_modify, wp_bind, wp_shows, wp_pure]
    simpa using hQ

theorem wp_printTableRows (hpage : pageSize ≠ 0 ∨ rows = []) (hn : n = r + rows.length) :
    wp (fun _ _ => False) (printTableRows widths pageSize n r r rows)
      (fun _ t => ∃ seg, t.out = s.out ++ seg ∧ Pages n r (rows.map (rowCells widths)) seg) E s := by
  induction rows generalizing r s with
  | nil => exact ⟨[], (List.append_nil _).symm, Or.inl ⟨fun _ hp => (nomatch hp), rfl⟩⟩
  | cons row rows ih =>
    have hpage : pageSize ≠ 0 := hpage.resolve_right (List.cons_ne_nil row rows)
    have hleft : ¬n ≤ r := by
      rw [List.length_cons] at hn
      omega
    have hnext : n = (r + 1 : Nat) + rows.length := by
      rw [List.length_cons] at hn
      omega
    -- What is left is shown behind the row.
    have step : ∀ (front : List Shown) (t : Screen), t.out = s.out ++ front → (∀ p ∈ front, ¬p.Quits) →
        shownRows front = [rowCells widths row] →
        wp (fun _ _ => False) (printTableRows widths pageSize n (r + 1 : Nat) (r + 1 : Nat) rows)
          (fun _ t => ∃ seg, t.out = s.out ++ seg ∧ Pages n r ((row :: rows).map (rowCells widths)) seg) E t := by
      intro front t hout hquits hrow
      refine (ih (Or.inl hpage) hnext).imp (fun _ u hu => ?_) fun _ _ => id
      obtain ⟨seg, hseg, hpages⟩ := hu
      exact ⟨front ++ seg, by rw [hseg, hout, List.append_assoc], hpages.cons hquits hrow⟩
    unfold printTableRows
    rw [wp_ite, if_neg hleft, wp_bind, wp_shows, wp_bind, wp_when, if_neg hpage, wp_ite]
    split
    · rw [wp_bind]
      refine wp_promptForContinue (fun answer input hanswer => ?_) fun answer input hanswer => ?_
      · exact ⟨_, List.append_assoc .., Pages.quit hanswer⟩
      · rw [if_pos rfl, wp_bind, printTableLine, wp_shows]
        refine step [.row _, .prompt _ _ answer, .erase, .line _] _ (by rw [List.append_assoc, List.append_assoc]; rfl) ?_ rfl
        simp [Shown.Quits] at hanswer ⊢
        exact hanswer
    · rw [wp_bind, wp_when]
      split
      · rw [printTableLine, wp_shows]
        refine step [.row _, .line _] _ (List.append_assoc ..) ?_ rfl
        simp [Shown.Quits]
      · refine step [.row _] _ rfl ?_ rfl
        simp [Shown.Quits]

theorem rows_of_page_zero {Q : Unit → Screen → Prop} (hn : n = rows.length) (hne : rows ≠ []) :
    ¬wp (fun _ _ => False) (printTableRows widths 0 n 0 0 rows) Q E s := by
  obtain ⟨row, rows, rfl⟩ := List.exists_cons_of_ne_nil hne
  have hleft : ¬n ≤ 0 := by
    rw [List.length_cons] at hn
    omega
  unfold printTableRows
  rw [wp_ite, if_neg hleft, wp_bind, wp_shows, wp_bind, wp_when, if_pos rfl]
  exact id

end Loop

/-! ### Tables -/

/-- `print_table` comes to its end, and shows the rows. -/
def PrintsTable (scale : Int → Int → Int → Int) (env : TermEnv) (title : String) {cols : List TableCol} (rows : List (TableRow cols))
    (input : List Char) : Prop :=
  ∃ t, printTableLines scale env (some title) cols rows rows.length ⟨input, []⟩ = .ok () t ∧
    ShowsRows (rows.map (rowCells (tableWidths scale (getTerminalSize env) cols))) t.out

section Table
variable {scale : Int → Int → Int → Int} {env : TermEnv} {term : TermSize} {title : String} {cols : List TableCol}
  {rows : List (TableRow cols)} {input : List Char}

/-- Where widths are scaled, the total that is divided by is greater than the width of the terminal. -/
theorem total_ne_zero : ¬(term.width < totalWidth cols ∧ totalWidth cols = 0) := by
  rintro ⟨hlt, hzero⟩
  have := term.width_pos
  omega

theorem wp_printTableOn (h : term.height ≠ 12 ∨ rows = []) :
    wp (fun _ _ => False) (printTableOn scale term title cols rows rows.length)
      (fun _ t => ShowsRows (rows.map (rowCells (tableWidths scale term cols))) t.out) (fun _ _ => False) ⟨input, []⟩ := by
  have hpage : term.height - 12 ≠ 0 ∨ rows = [] := h.imp_left fun hne heq => hne (by omega)
  unfold printTableOn printTableLine
  rw [wp_bind, wp_when, if_neg total_ne_zero, wp_bind, wp_shows, wp_bind, wp_shows, wp_bind, wp_shows, wp_bind, wp_shows, wp_bind]
  refine (wp_printTableRows (r := 0) hpage (by simp)).imp (fun _ t ht => ?_) fun _ _ => id
  obtain ⟨seg, hout, hpages⟩ := ht
  rw [wp_shows, hout]
  rw [← List.length_map (rowCells (tableWidths scale term cols))] at hpages
  refine hpages.showsRows ?_ ?_ rfl rfl <;> simp [Shown.Quits]

theorem printTableLines_eq (hcols : cols ≠ []) {n : Int} :
    printTableLines scale env (some title) cols rows n = printTableOn scale (getTerminalSize env) title cols rows n := if_neg hcols

theorem not_printsTable (hcols : cols ≠ []) (hheight : (getTerminalSize env).height = 12) (hrows : rows ≠ []) :
    ¬PrintsTable scale env title rows input := by
  rintro ⟨t, hrun, -⟩
  rw [printTableLines_eq hcols] at hrun
  have hwp : wp (fun _ _ => False) (printTableOn scale (getTerminalSize env) title cols rows rows.length) (fun _ _ => True)
      (fun _ _ => True) ⟨input, []⟩ := wp_of_eq_ok hrun trivial
  unfold printTableOn printTableLine at hwp
  rw [wp_bind, wp_when, if_neg total_ne_zero, wp_bind, wp_shows, wp_bind, wp_shows, wp_bind, wp_shows, wp_bind, wp_shows, wp_bind,
    hheight] at hwp
  exact rows_of_page_zero rfl hrows hwp

/-- Any positive numbers can be the size of a terminal. -/
theorem exists_terminal {width height : Nat} (hwidth : 0 < width ∧ width ≤ INT_MAX) (hheight : 0 < height ∧ height ≤ INT_MAX) :
    ∃ env, (getTerminalSize env).width = width ∧ (getTerminalSize env).height = height := by
  have hgives : ∀ n : Nat, 0 < n → n ≤ INT_MAX → ∃ text : CStr, ∀ fallback, envSize (some text) fallback = n := by
    intro n hpos hmax
    have hnul : '\x00' ∉ (String.ofList (Nat.toDigits 10 n)).toList := by
      rw [String.toList_ofList]
      intro hmem
      exact absurd (Numeral.isDigit_of_mem_toDigits (by decide) (by decide) hmem) (by decide)
    have hlong : ¬Numeral.Overflows n := by
      simp only [Numeral.Overflows, INT_MAX] at hmax ⊢
      omega
    refine ⟨.word _ hnul, fun fallback => ?_⟩
    unfold envSize
    simp only
    rw [CStr.strtol_from (by decide) (Nat.zero_le _), List.drop_zero, CStr.word, String.toList_ofList,
      (Numeral.denotes_toDigits (by decide) (by decide) n).strtol_eq (by decide) hlong, if_pos ⟨rfl, Int.natCast_pos.mpr hpos, Int.ofNat_le.mpr hmax⟩]
  obtain ⟨columns, hcolumns⟩ := hgives width hwidth.1 hwidth.2
  obtain ⟨lines, hlines⟩ := hgives height hheight.1 hheight.2
  exact ⟨⟨none, none, some columns, some lines⟩, hcolumns _, hlines _⟩

end Table

/-- For any terminal, any columns, any rows and whatever is typed, the table is printed as it should be if and only if the terminal
    is not 12 rows high, or there are no rows to print. -/
theorem table_complete_iff (scale : Int → Int → Int → Int) (env : TermEnv) (title : String) (cols : List TableCol) (hcols : cols ≠ [])
    (rows : List (TableRow cols)) (input : List Char) :
    PrintsTable scale env title rows input ↔ (getTerminalSize env).height ≠ 12 ∨ rows = [] := by
  constructor
  · intro h
    by_contra hcontra
    rw [not_or, not_not] at hcontra
    exact not_printsTable hcols hcontra.1 hcontra.2 h
  · intro h
    obtain ⟨_, t, hrun, hrows⟩ := (wp_printTableOn h).exists_ok
    exact ⟨t, (congrFun (printTableLines_eq hcols) _).trans hrun, hrows⟩

/-- A terminal of so many rows -/
def TermEnv.rows (n : BitVec 16) : TermEnv := ⟨some ⟨80, n⟩, none, none, none⟩

/-- A table of one row -/
def TableRow.one : TableRow [⟨"NUM", 5, .int⟩] := ⟨[.int 0], rfl⟩

theorem table_complete_iff_24 : PrintsTable (fun _ _ w => w) (.rows 24) "BREAKPOINTS" [.one] [] :=
  (table_complete_iff (fun _ _ w => w) (.rows 24) "BREAKPOINTS" _ (by decide) [.one] []).mpr (Or.inl (by decide +kernel))

/-- On a terminal of 12 rows, the first row of a table ends in a division by zero. -/
theorem twelve_rows : ¬PrintsTable (fun _ _ w => w) (.rows 12) "BREAKPOINTS" [.one] [] :=
  not_printsTable (by decide) rfl (List.cons_ne_nil _ _)

end Sylvan
