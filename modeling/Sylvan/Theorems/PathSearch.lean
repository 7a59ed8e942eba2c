import Sylvan.Op
import Sylvan.Stores
import Sylvan.Theorems.Rules

/-! The search of `sylvan_find_in_PATH`, over files that stay as they are: it finds the first directory of `PATH` that has the
    command. What it finds is not made canonical, although `sylvan_canonical_path` returns it. -/

namespace Sylvan
open Exec Block

/-! ### Files -/

/-- The files and the variable `PATH`, while nobody changes them -/
structure Files where
  realpath : String → Except Failure String
  /-- A real path is its own. -/
  idempotent : ∀ f p, realpath f = .ok p → realpath p = .ok p
  /-- Whether a file can be executed -/
  access : String → Bool
  path : Option CStr

/-- The answers are those that the files give, and there is memory. -/
structure Env.ShowsFiles (env : Env) (files : Files) : Prop where
  realpath : ∀ t, env.realpath t = files.realpath
  access : ∀ t f, (env.access t f).isNone = files.access f
  getenv : ∀ t, env.getenv t "PATH" = files.path.map CStr.text
  malloc : ∀ t, env.malloc t = true

/-- A system that shows the files -/
def Files.env (files : Files) : Env :=
  { Env.compliant with
    realpath := fun _ => files.realpath
    access := fun _ f => if files.access f then none else some ⟨ENOENT, by decide⟩
    getenv := fun _ _ => files.path.map CStr.text }

theorem Files.env_showsFiles (files : Files) : files.env.ShowsFiles files where
  realpath _ := rfl
  access _ f := by
    show (if files.access f then none else some _ : Option Failure).isNone = _
    cases files.access f <;> rfl
  getenv _ := rfl
  malloc _ := rfl

/-- The components of `PATH` that are not empty, in order -/
def directories : Option CStr → List (List Char)
  | none => []
  | some path => (path.text.toList.splitOn ':').filter (· ≠ [])

/-- The directory, a slash and the command -/
def joined (command : String) (directory : List Char) : String := String.ofList (directory ++ '/' :: command.toList)

/-- `a` is the first of the list that has the property. -/
def First {α : Type} (P : α → Prop) (l : List α) (a : α) : Prop := ∃ before after, l = before ++ a :: after ∧ P a ∧ ∀ b ∈ before, ¬P b

section First
variable {α : Type} {P : α → Prop} {l : List α} {a b : α}

theorem First.head (h : P a) : First P (a :: l) a := ⟨[], l, rfl, h, fun _ hb => by cases hb⟩

theorem First.tail (hb : ¬P b) (h : First P l a) : First P (b :: l) a := by
  obtain ⟨before, after, rfl, ha, hbefore⟩ := h
  exact ⟨b :: before, after, rfl, ha, List.forall_mem_cons.mpr ⟨hb, hbefore⟩⟩

theorem First.holds (h : First P l a) : P a := by
  obtain ⟨before, after, -, ha, -⟩ := h
  exact ha

theorem First.find? [DecidablePred P] (h : First P l a) : l.find? (fun a => P a) = some a := by
  obtain ⟨before, after, rfl, ha, hbefore⟩ := h
  exact List.find?_eq_some_iff_append.mpr ⟨by simpa using ha, before, after, rfl, by simpa using hbefore⟩

theorem First.unique [DecidablePred P] (h : First P l a) (h' : First P l b) : a = b :=
  Option.some.inj (h.find?.symm.trans h'.find?)

theorem First.mem (h : First P l a) : a ∈ l := by
  obtain ⟨before, after, rfl, -, -⟩ := h
  simp

end First

/-! ### The stores -/

section Stores
variable {access : String → Bool} {stale : Nat → Char} {command : CStr} {token : List Char} {runs : List (List Char)}
  {n : Nat} {s : PathBlocks}

/-- The three stores fill the block that is allocated for them. -/
theorem fullPathStores_eq : fullPathStores stale command token = some (token ++ '/' :: command.text.toList ++ ['\x00']) := by
  unfold fullPathStores
  simp only [Option.bind_eq_bind]
  rw [store_start (by simp; omega), Option.bind_some, store_behind (by simp; omega), Option.bind_some,
    show token.length + 1 = (token ++ ['/']).length by simp, store_fill]
  · simp
  · simp [String.length_toList]
    omega

theorem nonul_joined (h : '\x00' ∉ token) : '\x00' ∉ token ++ '/' :: command.text.toList := by
  simp [h, command.nonul]

theorem inBlock_ok {α : Type} {o : Option α} {a : α} (h : o = some a) : inBlock o s = .ok a s := by
  subst h
  rfl

/-- The search is over where `strtok` finds nothing. -/
theorem searchStores_none {k : Nat} (h : Block.strtok '\x00' ':' s.path k = none) :
    searchStores access stale command (n + 1) k s = .error .fileNotFound s := by
  unfold searchStores
  rw [bind_of_ok (show Exec.get s = .ok s s from rfl), h]
  rfl

/-- A turn for the component `token` -/
theorem searchStores_some {k start stop : Nat} {path : List Char} (h : Block.strtok '\x00' ':' s.path k = some (start, path, stop))
    (htoken : string '\x00' path start = some token) (hnul : '\x00' ∉ token) :
    searchStores access stale command (n + 1) k s =
      if access (joined command.text token) then
        .ok () { s with path, filepath := some (token ++ '/' :: command.text.toList ++ ['\x00']) }
      else searchStores access stale command n stop { s with path } := by
  have hfull : string '\x00' (token ++ '/' :: command.text.toList ++ ['\x00']) 0 = some (token ++ '/' :: command.text.toList) :=
    string_start (nonul_joined hnul)
  conv_lhs => unfold searchStores
  rw [bind_of_ok (show Exec.get s = .ok s s from rfl), h]
  dsimp only
  rw [bind_of_ok (show Exec.modify _ s = .ok () { s with path } from rfl), bind_of_ok (inBlock_ok htoken),
    bind_of_ok (inBlock_ok fullPathStores_eq), bind_of_ok (inBlock_ok hfull)]
  show (if access (joined command.text token) = true then _ else _ : PathM Unit) _ = _
  split <;> rfl

theorem wp_searchStores_some {F : Fault → PathBlocks → Prop} {Q : Unit → PathBlocks → Prop} {E : Code → PathBlocks → Prop}
    {k start stop : Nat} {path : List Char} (h : Block.strtok '\x00' ':' s.path k = some (start, path, stop))
    (htoken : string '\x00' path start = some token) (hnul : '\x00' ∉ token)
    (hfound : access (joined command.text token) = true →
      Q () { s with path, filepath := some (token ++ '/' :: command.text.toList ++ ['\x00']) })
    (hrest : ¬access (joined command.text token) = true → wp F (searchStores access stale command n stop) Q E { s with path }) :
    wp F (searchStores access stale command (n + 1) k) Q E s := by
  unfold wp at *
  rw [searchStores_some h htoken hnul]
  by_cases haccess : access (joined command.text token) = true
  · rw [if_pos haccess]
    exact hfound haccess
  · rw [if_neg haccess]
    exact hrest haccess

/-- The rest of the search, where `strtok` is to give the components `runs` -/
theorem wp_searchStores {k : Nat} (htokens : Block.tokens '\x00' ':' n s.path k = runs.map some) (hn : runs.length < n) :
    wp (fun _ _ => False) (searchStores access stale command n k)
      (fun _ t => t.environ = s.environ ∧ ∃ d, First (fun d => access (joined command.text d) = true) runs d ∧
        t.filepath = some (d ++ '/' :: command.text.toList ++ ['\x00']))
      (fun code t => t.environ = s.environ ∧ code = .fileNotFound ∧ t.filepath = s.filepath ∧
        ∀ d ∈ runs, ¬access (joined command.text d) = true) s := by
  obtain ⟨n, rfl⟩ := Nat.exists_eq_succ_of_ne_zero (Nat.ne_zero_of_lt hn)
  induction runs generalizing n k s with
  | nil =>
    unfold wp
    rw [searchStores_none (Block.tokens_eq_nil htokens)]
    exact ⟨rfl, rfl, rfl, fun _ hd => by cases hd⟩
  | cons token runs ih =>
    obtain ⟨n, rfl⟩ := Nat.exists_eq_succ_of_ne_zero (show n ≠ 0 by simp at hn; omega)
    obtain ⟨start, path, stop, hnext, htoken, hrest⟩ := Block.tokens_eq_cons htokens
    refine wp_searchStores_some hnext htoken (Block.not_mem_of_string htoken) (fun haccess => ?_) fun haccess => ?_
    · exact ⟨rfl, token, First.head haccess, rfl⟩
    · refine (@ih { s with path } stop n hrest (by simp at hn; omega)).imp (fun _ t ht => ?_) fun code t ht => ?_
      · obtain ⟨henv, d, hfirst, hpath⟩ := ht
        exact ⟨henv, d, hfirst.tail haccess, hpath⟩
      · obtain ⟨henv, hcode, hpath, hall⟩ := ht
        exact ⟨henv, hcode, hpath, List.forall_mem_cons.mpr ⟨haccess, hall⟩⟩

/-- The search, where `getenv` gives `path` -/
theorem wp_findInPATHStores (path : Option CStr) (hs : s.environ = path.map fun path => path.from 0) :
    wp (fun _ _ => False) (findInPATHStores access stale command)
      (fun _ t => t.environ = s.environ ∧ ∃ d, First (fun d => access (joined command.text d) = true) (directories path) d ∧
        t.filepath = some (d ++ '/' :: command.text.toList ++ ['\x00']))
      (fun code t => t.environ = s.environ ∧ code = .fileNotFound ∧ t.filepath = s.filepath ∧
        ∀ d ∈ directories path, ¬access (joined command.text d) = true) s := by
  obtain ⟨environ, copy, filepath⟩ := s
  obtain rfl : environ = path.map fun path => path.from 0 := hs
  unfold findInPATHStores
  rw [wp_bind, wp_get]
  cases path with
  | none => exact ⟨rfl, rfl, rfl, fun _ hd => by cases hd⟩
  | some path =>
    obtain ⟨runs, hruns⟩ := exists_runs ':' path.text.toList
    have hdirs : directories (some path) = runs := hruns.splitOn
    have hlen : runs.length < path.text.toList.length + 1 := Nat.lt_succ_of_le hruns.length_le
    have htext : string '\x00' (path.from 0) 0 = some path.text.toList := string_start path.nonul
    dsimp only [Option.map_some]
    rw [wp_bind]
    refine wp_of_eq_ok (inBlock_ok htext) ?_
    rw [wp_bind, wp_modify, hdirs]
    have htokens := tokens_eq (p := []) (q := []) hruns path.nonul (by decide) hlen
    exact @wp_searchStores access stale command runs _ ⟨_, path.text.toList ++ ['\x00'], filepath⟩ 0 htokens hlen

end Stores

/-! ### The search on texts -/

theorem components_eq_splitOn {sep : Char} {cs : List Char} : components sep cs = cs.splitOn sep := by
  induction cs with
  | nil => rfl
  | cons c cs ih =>
    unfold components
    split
    · rename_i h
      subst h
      rw [ih, show c :: cs = [] ++ c :: cs from rfl, List.splitOn_append_cons_self_of_not_mem (List.not_mem_nil)]
    · rename_i h
      rw [ih, List.splitOn_cons_eq_if_modifyHead, if_neg (by simpa using h)]
      rcases h : cs.splitOn sep with _ | ⟨w, ws⟩
      · exact absurd h (List.splitOn_ne_nil sep cs)
      · rfl

theorem strtok_eq {path : CStr} : strtok ':' path.text = (directories (some path)).map String.ofList := by
  unfold strtok directories
  rw [components_eq_splitOn]
  congr 2
  funext w
  cases w <;> rfl

theorem append_eq_joined {command : String} {d : List Char} : String.ofList d ++ "/" ++ command = joined command d := by
  simp [joined, ← String.toList_inj]

section
variable {env : Env} {files : Files} {command : String} {s : State}

theorem wp_findInDirectories (h : env.ShowsFiles files) (dirs : List (List Char)) (s : State) :
    wp (fun _ _ => False) (findInDirectories env command (dirs.map String.ofList))
      (fun p _ => ∃ d, First (fun d => files.access (joined command d) = true) dirs d ∧ p = joined command d)
      (fun code _ => code = .fileNotFound ∧ ∀ d ∈ dirs, ¬files.access (joined command d) = true) s := by
  induction dirs generalizing s with
  | nil => exact ⟨rfl, fun _ hd => by cases hd⟩
  | cons dir dirs ih =>
    rw [List.map_cons, findInDirectories, append_eq_joined, wp_bind, wp_malloc_iff, h.malloc, wp_bind, wp_when, if_neg (by decide), wp_bind]
    refine wp_plain_answer (fun hok => ?_) fun e he => ?_
    · have haccess : files.access (joined command dir) = true := by
        rw [← h.access, hok]
        rfl
      exact ⟨dir, First.head haccess, rfl⟩
    · have haccess : ¬files.access (joined command dir) = true := by
        rw [← h.access, he]
        exact Bool.false_ne_true
      refine wp.imp (x := findInDirectories env command (dirs.map String.ofList)) (ih _) (fun p t hp => ?_) fun code t hcode => ?_
      · obtain ⟨d, hfirst, rfl⟩ := hp
        exact ⟨d, hfirst.tail haccess, rfl⟩
      · exact ⟨hcode.1, List.forall_mem_cons.mpr ⟨haccess, hcode.2⟩⟩

theorem wp_findInPATH (h : env.ShowsFiles files) (command : String) (s : State) :
    wp (fun _ _ => False) (findInPATH env command)
      (fun p _ => ∃ d, First (fun d => files.access (joined command d) = true) (directories files.path) d ∧ p = joined command d)
      (fun code _ => code = .fileNotFound ∧ ∀ d ∈ directories files.path, ¬files.access (joined command d) = true) s := by
  unfold findInPATH
  rw [wp_bind, wp_tick, h.getenv]
  cases files.path with
  | none => exact ⟨rfl, fun _ hd => by cases hd⟩
  | some path =>
    dsimp only [Option.map_some]
    rw [wp_bind, wp_malloc_iff, h.malloc, wp_bind, wp_when, if_neg (by decide), strtok_eq]
    exact wp_findInDirectories h _ _

end

/-- With memory to spare, `sylvan_find_in_PATH` gives the command in the first directory that has it, and fails with
    `SYLVANC_FILE_NOT_FOUND` just if none has. Its stores stay inside the blocks that it made, end the path, and leave
    `*filepath` alone where it fails, and the string of `getenv` in any case. -/
theorem first_in_PATH_found (files : Files) (env : Env) (h : env.ShowsFiles files) (command : CStr) (s : State) (stale : Nat → Char)
    (copy : List Char) (filepath : Option (List Char)) :
    wp (fun _ _ => False) (findInPATH env command.text)
      (fun p _ => ∃ d, First (fun d => files.access (joined command.text d) = true) (directories files.path) d ∧ p = joined command.text d)
      (fun code _ => code = .fileNotFound ∧ ∀ d ∈ directories files.path, ¬files.access (joined command.text d) = true) s ∧
    wp (fun _ _ => False) (findInPATHStores files.access stale command)
      (fun _ t => t.environ = files.path.map (fun path => path.from 0) ∧
        ∃ d, First (fun d => files.access (joined command.text d) = true) (directories files.path) d ∧
          t.filepath = some ((joined command.text d).toList ++ ['\x00']))
      (fun code t => t.environ = files.path.map (fun path => path.from 0) ∧ code = .fileNotFound ∧ t.filepath = filepath ∧
        ∀ d ∈ directories files.path, ¬files.access (joined command.text d) = true)
      ⟨files.path.map fun path => path.from 0, copy, filepath⟩ := by
  refine ⟨wp_findInPATH h _ _, (wp_findInPATHStores files.path rfl).imp (fun _ t ht => ?_) fun _ _ => id⟩
  simpa [joined] using ht

/-- Only `/usr/bin` has the command `ls`, of the directories that `PATH` names. -/
def Files.usrBin : Files where
  realpath f := if f = "ls" then .error ⟨ENOENT, by decide⟩ else .ok f
  idempotent f p h := by
    split at h
    · cases h
    · rename_i hls
      cases h
      rw [if_neg hls]
  access f := f = "/usr/bin/ls"
  path := some ⟨":/bin::/usr/bin", by decide, []⟩

theorem first_in_PATH_found_ls :
    wp (fun _ _ => False) (findInPATH Files.usrBin.env "ls")
      (fun p _ => ∃ d, First (fun d => Files.usrBin.access (joined "ls" d) = true) (directories Files.usrBin.path) d ∧ p = joined "ls" d)
      (fun code _ => code = .fileNotFound ∧ ∀ d ∈ directories Files.usrBin.path, ¬Files.usrBin.access (joined "ls" d) = true)
      State.blank :=
  (first_in_PATH_found Files.usrBin Files.usrBin.env Files.usrBin.env_showsFiles ⟨"ls", by decide, []⟩ State.blank (fun _ => 'x') [] none).1

example : strtok ':' ":/bin::/usr/bin" = ["/bin", "/usr/bin"] := by decide

/-! ### Canonical paths -/

/-- What `sylvan_canonical_path` returns for a path is returned for itself as well. -/
def Fixed (env : Env) (filepath : String) (s : State) : Prop :=
  ∀ p t, canonicalPath env filepath s = .ok p t → ∃ u, canonicalPath env p t = .ok p u

/-- The path is found by `realpath`, or what the search in `PATH` finds is its own real path. -/
def Files.Resolved (files : Files) (filepath : String) : Prop :=
  ∀ e d, files.realpath filepath = .error e → e.errno = ENOENT →
    First (fun d => files.access (joined filepath d) = true) (directories files.path) d →
      files.realpath (joined filepath d) = .ok (joined filepath d)

/-- What `sylvan_canonical_path` returns -/
def Files.Gives (files : Files) (filepath p : String) : Prop :=
  files.realpath filepath = .ok p ∨ (∃ e, files.realpath filepath = .error e ∧ e.errno = ENOENT) ∧
    ∃ d, First (fun d => files.access (joined filepath d) = true) (directories files.path) d ∧ p = joined filepath d

section
variable {env : Env} {files : Files} {filepath p : String} {s : State}

theorem wp_canonicalPath (h : env.ShowsFiles files) :
    wp (fun _ _ => False) (canonicalPath env filepath) (fun p _ => files.Gives filepath p) (fun _ _ => ∀ p, ¬files.Gives filepath p) s := by
  unfold canonicalPath
  rw [wp_bind, wp_attempt]
  unfold realPath
  refine wp_handled (wp_answered_answer (fun p hp => ?_) fun e he => ?_)
  · rw [h.realpath] at hp
    exact Or.inl hp
  · rw [h.realpath] at he
    have hno : ∀ p, files.realpath filepath ≠ .ok p := fun p hp => by cases hp.symm.trans he
    dsimp only
    rw [wp_ite]
    by_cases hent : e.errno = ENOENT
    · rw [if_pos hent, wp_setCode]
      refine wp.imp (x := findInPATH env filepath) (wp_findInPATH h filepath _) (fun p t hp => Or.inr ⟨⟨e, he, hent⟩, hp⟩) fun code t hcode => ?_
      rintro p (hp | ⟨-, d, hfirst, -⟩)
      · exact hno p hp
      · exact hcode.2 d hfirst.mem hfirst.holds
    · rw [if_neg hent, wp_setErrnoMsg]
      rintro p (hp | ⟨⟨e', he', hent'⟩, -⟩)
      · exact hno p hp
      · cases he.symm.trans he'
        exact hent hent'

theorem Files.Gives.unique {q : String} (h : files.Gives filepath p) (h' : files.Gives filepath q) : q = p := by
  rcases h with h | ⟨⟨e, he, -⟩, d, hd, rfl⟩
  · rcases h' with h' | ⟨⟨e, he, -⟩, -⟩
    · cases h.symm.trans h'
      rfl
    · cases h.symm.trans he
  · rcases h' with h' | ⟨-, d', hd', rfl⟩
    · cases he.symm.trans h'
    · rw [hd.unique hd']

theorem canonicalPath_iff (h : env.ShowsFiles files) : (∃ t, canonicalPath env filepath s = .ok p t) ↔ files.Gives filepath p := by
  have hwp := @wp_canonicalPath env files filepath s h
  constructor
  · rintro ⟨t, ht⟩
    exact hwp.ok ht
  · intro hp
    unfold wp at hwp
    rcases hrun : canonicalPath env filepath s with ⟨q, t⟩ | ⟨code, t⟩ | ⟨f, t⟩
    · rw [hrun] at hwp
      exact ⟨t, by rw [hp.unique hwp]⟩
    · rw [hrun] at hwp
      exact absurd hp (hwp p)
    · rw [hrun] at hwp
      cases hwp

/-- A path that the search gave has directories in front of it, so the search does not give it for itself. -/
theorem gives_self (h : files.Gives p p) : files.realpath p = .ok p := by
  rcases h with h | ⟨-, d, -, hd⟩
  · exact h
  · have hlen := congrArg String.length hd
    simp [joined, ← String.length_toList] at hlen
    omega

end

/-- The path is canonical if and only if `realpath` finds it, or what the search finds is its own real path. -/
theorem canonical_path_fixed_iff (files : Files) (env : Env) (h : env.ShowsFiles files) (filepath : String) (s : State) :
    Fixed env filepath s ↔ files.Resolved filepath := by
  constructor
  · intro hfixed e d he hent hfirst
    obtain ⟨t, ht⟩ := (canonicalPath_iff (s := s) h).mpr (Or.inr ⟨⟨e, he, hent⟩, d, hfirst, rfl⟩)
    exact gives_self ((canonicalPath_iff h).mp (hfixed _ t ht))
  · intro hresolved p t ht
    refine (canonicalPath_iff h).mpr (Or.inl ?_)
    rcases (canonicalPath_iff h).mp ⟨t, ht⟩ with hp | ⟨⟨e, he, hent⟩, d, hfirst, rfl⟩
    · exact files.idempotent _ _ hp
    · exact hresolved e d he hent hfirst

theorem canonical_path_fixed_iff_ls : Fixed Files.usrBin.env "ls" State.blank :=
  (canonical_path_fixed_iff Files.usrBin Files.usrBin.env Files.usrBin.env_showsFiles "ls" State.blank).mpr fun _ d _ _ hfirst => by
    have hls : joined "ls" d = "/usr/bin/ls" := by simpa [Files.usrBin] using hfirst.holds
    rw [hls]
    rfl

/-- `PATH` names the directory `bin`, and in it is `ls`. -/
def Files.relative : Files where
  realpath f := if f = "ls" then .error ⟨ENOENT, by decide⟩ else if f = "bin/ls" then .ok "/home/bin/ls" else .ok f
  idempotent f p h := by
    split at h
    · cases h
    · split at h
      · cases h
        rfl
      · cases h
        rename_i hls hbin
        rw [if_neg hls, if_neg hbin]
  access f := f = "bin/ls"
  path := some ⟨"bin", by decide, []⟩

/-- `ls` is found as `bin/ls`, whose real path is another one. -/
theorem relative_directory_kept : Files.relative.env.ShowsFiles Files.relative ∧ ¬Fixed Files.relative.env "ls" State.blank := by
  refine ⟨Files.relative.env_showsFiles, fun h => ?_⟩
  have hgives : Files.relative.Gives "ls" "bin/ls" :=
    Or.inr ⟨⟨_, rfl, rfl⟩, "bin".toList, ⟨[], [], by decide, by decide, fun _ hb => by cases hb⟩, by decide⟩
  obtain ⟨t, ht⟩ := (canonicalPath_iff (s := State.blank) Files.relative.env_showsFiles).mpr hgives
  obtain hself | ⟨⟨e, he, -⟩, -⟩ := (canonicalPath_iff Files.relative.env_showsFiles).mp (h _ t ht)
  · exact absurd hself (by decide)
  · cases he

end Sylvan
