import Sylvan.Theorems.AliasTables

/-! # Adding an alias in memory

`insert_alias` fills in a new block and copies two strings before the table has the alias. What it allocates is in use
besides the table meanwhile, so nothing of the table changes before `HASH_ADD_STR`, and after a failed `strdup` the table is as
it was, but the block is lost. -/

namespace Sylvan
open Exec

section Memory
variable {env : RegistryEnv} {h : Hash Ptr AliasData} {es : List (HashEntry Ptr AliasData)} {l : List Alias}
  {items strs : List Ptr} {p q : Ptr} {t : List UInt8}

/-! ### Memory beside the table -/

theorem mem_stringsOf {e : HashEntry Ptr AliasData} (he : e ∈ es) (hx : e.ptr = some p ∨ e.val.orgCmd = some p) :
    p ∈ stringsOf es := by
  refine List.mem_flatMap.mpr ⟨e, he, ?_⟩
  rcases hx with hx | hx <;> simp [hx]

theorem mem_of_bind {o : Option Ptr} {strs : Heap Ptr (List UInt8)} {k : List UInt8} (h : o.bind strs.lookup = some k) :
    ∃ x, o = some x ∧ strs.lookup x = some k := Option.bind_eq_some_iff.mp h

/-- The strings of the table are allocated. -/
theorem AliasesAre.mem_strs (ha : AliasesAre env h es l items strs) (hp : p ∈ stringsOf es) : p ∈ h.strs := by
  obtain ⟨e, he, hpe⟩ := List.mem_flatMap.mp hp
  obtain ⟨c, hc⟩ := ha.holds.entry e he
  obtain ⟨a, -, hea⟩ := exists_of_forall₂ ha.stand he
  rcases List.mem_append.mp hpe with hpe | hpe
  · obtain ⟨x, hx, hk⟩ := mem_of_bind hc.key
    rw [hx] at hpe
    rw [show p = x by simpa using hpe]
    exact Heap.mem_of_lookup hk
  · obtain ⟨x, hx, hk⟩ := mem_of_bind hea.orgCmd
    rw [hx] at hpe
    rw [show p = x by simpa using hpe]
    exact Heap.mem_of_lookup hk

/-- What the alias has stays there. -/
theorem LeftBehind.of_kept {h' : Hash Ptr AliasData} (hl : LeftBehind env h p)
    (hkept : ∀ c, h.items.lookup p = some c → ∃ c', h'.items.lookup p = some c' ∧ c'.val = c.val) : LeftBehind env h' p := by
  obtain ⟨⟨c, hc, hnull⟩, hk⟩ := hl
  obtain ⟨c', hc', hval⟩ := hkept c hc
  exact ⟨⟨c', hc', by rwa [hval]⟩, hk⟩

theorem LeftBehind.of_lookup {h' : Hash Ptr AliasData} (hl : LeftBehind env h p) (heq : h'.items.lookup p = h.items.lookup p) :
    LeftBehind env h' p := hl.of_kept fun c hc => ⟨c, heq.trans hc, rfl⟩

/-- A block beside the table changes. -/
theorem AliasesAre.of_items (ha : AliasesAre env h es l items strs) (hp : p ∉ es.map HashEntry.addr)
    {heap : Heap Ptr (HashItem Ptr AliasData)} (hheap : ∀ x, x ≠ p → heap.lookup x = h.items.lookup x) {items' : List Ptr}
    (hblocks : ∀ n, .heap n ∈ heap → .heap n ∈ items' ++ es.map HashEntry.addr ∨ LeftBehind env { h with items := heap } (.heap n)) :
    AliasesAre env { h with items := heap } es l items' strs := by
  have helse : Elsewhere es h { h with items := heap } := by
    refine ⟨rfl, rfl, fun e he => hheap _ ?_, fun _ _ => rfl⟩
    rintro rfl
    exact hp (List.mem_map_of_mem he)
  exact ⟨ha.holds.elsewhere helse, ha.stand, ha.names, ha.placed, ha.nodup, ha.allocated, ha.strings, hblocks⟩

/-- A string beside the table changes. -/
theorem AliasesAre.of_strs (ha : AliasesAre env h es l items strs) (hq : q ∉ stringsOf es) {heap : Heap Ptr (List UInt8)}
    (hheap : ∀ x, x ≠ q → heap.lookup x = h.strs.lookup x) {strs' : List Ptr} (hnodup : (strs' ++ stringsOf es).Nodup)
    (hallocated : ∀ x ∈ strs', x ∈ heap)
    (hstrings : ∀ n, .heap n ∈ heap → .heap n ∈ strs' ++ stringsOf es) :
    AliasesAre env { h with strs := heap } es l items strs' := by
  have hkept : ∀ e ∈ es, ∀ o, (o = e.ptr ∨ o = e.val.orgCmd) → o.bind heap.lookup = o.bind h.strs.lookup := by
    rintro e he o ho
    cases o with
    | none => rfl
    | some x =>
      refine hheap x ?_
      rintro rfl
      exact hq (mem_stringsOf he (ho.imp Eq.symm Eq.symm))
  have helse : Elsewhere es h { h with strs := heap } := ⟨rfl, rfl, fun _ _ => rfl, fun e he => hkept e he _ (.inl rfl)⟩
  refine ⟨ha.holds.elsewhere helse, ?_, ha.names, ha.placed, hnodup, hallocated, hstrings, ha.blocks⟩
  refine forall₂_imp_mem ha.stand fun e a he hea => ⟨hea.name, hea.key, ?_, hea.id, hea.type, hea.name_short, hea.orgCmd_short⟩
  rw [hkept e he _ (.inr rfl)]
  exact hea.orgCmd

/-- A string that is in use besides is freed. -/
theorem AliasesAre.erase_str {n : Nat} (ha : AliasesAre env h es l items (.heap n :: strs)) :
    AliasesAre env { h with strs := h.strs.erase (.heap n) } es l items strs := by
  have hnd := List.nodup_cons.mp (List.cons_append ▸ ha.nodup)
  refine ha.of_strs (fun hq => hnd.1 (List.mem_append_right _ hq)) (fun x hx => AList.lookup_erase_ne hx) hnd.2 ?_ fun m hm => ?_
  · intro q hq
    refine AList.mem_erase.mpr ⟨?_, ha.allocated q (List.mem_cons_of_mem _ hq)⟩
    rintro rfl
    exact hnd.1 (List.mem_append_left _ hq)
  · obtain ⟨hne, hm⟩ := AList.mem_erase.mp hm
    exact (List.mem_cons.mp (ha.strings m hm)).resolve_left hne

/-- A block that is in use besides is left behind. -/
theorem AliasesAre.lose (ha : AliasesAre env h es l [p] strs) (hp : LeftBehind env h p) : AliasesAre env h es l [] strs := by
  refine ⟨ha.holds, ha.stand, ha.names, ha.placed, ha.nodup, ha.allocated, ha.strings, fun n hn => ?_⟩
  rcases ha.blocks n hn with hmem | hleft
  · rcases List.mem_cons.mp hmem with rfl | hmem
    · exact .inr hp
    · exact .inl hmem
  · exact .inr hleft

end Memory

/-! ### Allocations -/

/-- What is assumed of the system: `malloc` gives a block that is not in use, a table is no larger than the memory, and a line
    is shorter than 4 GiB. -/
structure RegistryEnv.Sane (env : RegistryEnv) : Prop where
  place : ∀ r : Registry, .heap (env.place r) ∉ r.aliasTable.items ∧ .heap (env.place r) ∉ r.aliasTable.strs
  grants : ∀ r, Bounded (env.grants r)
  readline : ∀ t line, (env.readline t).1 = some line → Short line.text

/-- The session after a call that is counted. -/
def Session.called (s : Session) : Session := { s with state := s.state.withScratch s.state.scratch.tick }

/-- Whether the next `malloc` succeeds. -/
def Session.grants (env : UiEnv) (s : Session) : Bool := env.malloc s.state.scratch.clock

theorem sys_malloc {env : UiEnv} {s : Session} : sys (Sys.malloc env.toEnv) s = .ok (s.grants env) s.called := rfl

/-- While `insert_alias` fills in the block at `p`, the rest of the memory is that of the table, but for the strings `strs`. -/
structure Filling (env : RegistryEnv) (r : Registry) (es : List (HashEntry Ptr AliasData)) (l : List Alias) (p : Ptr)
    (a : AliasData) (strs : List Ptr) : Prop where
  are : AliasesAre env r.aliasTable es l [p] strs
  commands : Holds r.commandHash commandEntries
  apart : p ∉ es.map HashEntry.addr
  item : ∃ c, r.aliasTable.items.lookup p = some c ∧ c.val = a

section Fill
variable {env : RegistryEnv} {F : RegistryFault → Registry → Prop} {E : Int → Registry → Prop} {r : Registry}
  {es : List (HashEntry Ptr AliasData)} {l : List Alias} {p : Ptr} {a : AliasData} {strs : List Ptr} {t : List UInt8}

/-- The registry after a call that is counted. -/
def Registry.called (r : Registry) : Registry := { r with session := r.session.called }

theorem wp_mallocBlock {Q : Option Ptr → Registry → Prop} :
    wp F (Registry.mallocBlock env) Q E r ↔
      if r.session.grants env.toUiEnv = true then Q (some (.heap (env.place r.called))) r.called else Q none r.called := by
  unfold Registry.mallocBlock Registry.onSession
  rw [wp_bind, wp_zoom]
  show wp F _ Q E r.called ↔ _
  rw [wp_ite]
  exact Iff.rfl

theorem wp_newItem {Q : Option Ptr → Registry → Prop} (henv : env.Sane) (ha : AliasesAre env r.aliasTable es l [] [])
    (hc : Holds r.commandHash commandEntries) (hnone : r.session.grants env.toUiEnv = false → Q none r.called)
    (hsome : r.session.grants env.toUiEnv = true → ∀ n a r', Filling env r' es l (.heap n) a [] → r'.session = r.session.called →
      Q (some (.heap n)) r') : wp F (Registry.newItem env) Q E r := by
  unfold Registry.newItem
  rw [wp_bind, wp_mallocBlock]
  split
  · rename_i hgrants
    rw [wp_bind, wp_modify, wp_pure]
    have hfresh := (henv.place r.called).1
    refine hsome hgrants _ (env.leftItem r.called).val _ ⟨?_, hc, fun hp => hfresh (ha.holds.rep.alloc _ hp), _, ?_, rfl⟩ rfl
    · refine ha.of_items (fun hp => hfresh (ha.holds.rep.alloc _ hp)) (fun x hx => AList.lookup_insert_ne hx) fun n hn => ?_
      rcases (AList.mem_insert _).mp hn with hn | hn
      · exact .inl (by simp [hn])
      · have hne : Ptr.heap n ≠ .heap (env.place r.called) := fun heq => hfresh (heq ▸ hn)
        exact (ha.blocks n hn).imp (fun hmem => by simpa using Or.inr hmem) fun hleft => hleft.of_lookup (AList.lookup_insert_ne hne)
    · exact AList.lookup_insert _
  · rename_i hgrants
    exact hnone (by simpa using hgrants)

/-- What `strdup` gives. -/
structure Copied (env : RegistryEnv) (r : Registry) (t : List UInt8) (strs : List Ptr) (q : Option Ptr) (r' : Registry) : Prop where
  session : r'.session = r.session.called
  isSome : q.isSome = r.session.grants env.toUiEnv
  copy : ∀ x ∈ q, (∃ n, x = .heap n) ∧ r'.aliasTable.strs.lookup x = some t
  kept : ∀ x ∈ strs, r'.aliasTable.strs.lookup x = r.aliasTable.strs.lookup x

theorem wp_strdup (henv : env.Sane) (hf : Filling env r es l p a strs) :
    wp F (Registry.strdup env t)
      (fun q r' => Filling env r' es l p a (q.toList ++ strs) ∧ Copied env r t strs q r') E r := by
  unfold Registry.strdup
  rw [wp_bind, wp_mallocBlock]
  split
  · rename_i hgrants
    rw [wp_bind, wp_modify, wp_pure]
    have hfresh : .heap (env.place r.called) ∉ r.aliasTable.strs := (henv.place r.called).2
    have hnew : ∀ q ∈ strs ++ stringsOf es, q ≠ .heap (env.place r.called) := by
      rintro q hq rfl
      rcases List.mem_append.mp hq with hq | hq
      · exact hfresh (hf.are.allocated _ hq)
      · exact hfresh (hf.are.mem_strs hq)
    refine ⟨⟨?_, hf.commands, hf.apart, hf.item⟩, rfl, hgrants.symm, ?_, fun x hx => ?_⟩
    · refine hf.are.of_strs (fun hq => hnew _ (List.mem_append_right _ hq) rfl) (fun x hx => AList.lookup_insert_ne hx) ?_ ?_ fun n hn => ?_
      · exact List.nodup_cons.mpr ⟨fun hq => hnew _ hq rfl, hf.are.nodup⟩
      · intro q hq
        rw [AList.mem_insert]
        exact (List.mem_cons.mp hq).imp_right (hf.are.allocated q)
      · rcases (AList.mem_insert _).mp hn with hn | hn
        · simp [hn]
        · exact List.mem_cons_of_mem _ (hf.are.strings n hn)
    · rintro x ⟨⟩
      exact ⟨⟨_, rfl⟩, AList.lookup_insert _⟩
    · exact AList.lookup_insert_ne (hnew x (List.mem_append_left _ hx))
  · rename_i hgrants
    exact ⟨⟨hf.are, hf.commands, hf.apart, hf.item⟩, rfl, (Bool.eq_false_iff.mpr hgrants).symm, nofun, fun _ _ => rfl⟩

theorem wp_setAlias {f : AliasData → AliasData} {Q : Unit → Registry → Prop} (hf : Filling env r es l p a strs)
    (hQ : ∀ r', Filling env r' es l p (f a) strs → r'.session = r.session → r'.aliasTable.strs = r.aliasTable.strs → Q () r') :
    wp F (Registry.setAlias p f) Q E r := by
  obtain ⟨c, hc, hca⟩ := hf.item
  unfold Registry.setAlias
  rw [wp_onAliases, wp_storeItem (Heap.mem_of_lookup hc)]
  refine hQ _ ⟨?_, hf.commands, hf.apart, { c with val := f c.val }, ?_, congrArg f hca⟩ rfl rfl
  · refine hf.are.of_items hf.apart (fun x hx => Heap.lookup_modify_ne hx) fun n hn => ?_
    by_cases hnp : Ptr.heap n = p
    · exact .inl (by simp [hnp])
    · exact (hf.are.blocks n (Heap.mem_modify.mp hn)).imp_right fun hleft => hleft.of_lookup (Heap.lookup_modify_ne hnp)
  · show (r.aliasTable.items.modify p _).lookup p = _
    rw [Heap.lookup_modify_self, hc]
    rfl

theorem wp_freeStr {n : Nat} {Q : Unit → Registry → Prop} (hn : .heap n ∈ r.aliasTable.strs) :
    wp F (Registry.freeStr (some (.heap n))) Q E r ↔
      Q () { r with aliasTable := { r.aliasTable with strs := r.aliasTable.strs.erase (.heap n) } } := by
  simp only [wp, Registry.freeStr, if_pos hn]

/-- A copy that is not needed is freed. -/
theorem wp_freeCopy {q : Option Ptr} (hf : Filling env r es l p a (q.toList ++ strs)) (hq : ∀ x ∈ q, ∃ n, x = .heap n) :
    wp F (Registry.freeStr q) (fun _ r' => Filling env r' es l p a strs ∧ r'.session = r.session) E r := by
  cases q with
  | none => exact ⟨hf, rfl⟩
  | some x =>
    obtain ⟨n, rfl⟩ := hq x rfl
    rw [wp_freeStr (hf.are.allocated _ (by simp))]
    exact ⟨⟨hf.are.erase_str, hf.commands, hf.apart, hf.item⟩, rfl⟩

end Fill

/-! ### `insert_alias` -/

section Insert
variable {env : RegistryEnv} {F : RegistryFault → Registry → Prop} {E : Int → Registry → Prop} {r : Registry} {s : Session}
  {es : List (HashEntry Ptr AliasData)} {l : List Alias} {p : Ptr} {name orgCmd : String} {k : Int}

/-- What `insert_alias` does once its arguments were accepted. -/
def inserted (env : UiEnv) (name orgCmd : String) (id : Int) (type : Char) (s : Session) : Outcome Session Int Fault Bool :=
  if s.grants env = false then
    .ok false { s.called with out := s.out ++ [.stderr "Error: Failed to allocate memory for alias\n" []] }
  else if ¬(s.called.grants env = true ∧ s.called.called.grants env = true) then
    .ok false { s.called.called.called with
      out := s.out ++ [.stderr "Error: Failed to allocate memory for alias strings\n" []] }
  else
    .ok true { s.called.called.called with
      aliases := s.aliases ++ [{ name, orgCmd, id, type }]
      out := s.out ++ [.stdout "Added alias: %s -> %s (type: %c, id: %d)\n" [.str name, .str orgCmd, .char type, .int id]] }

theorem insertAlias_accepted {env : UiEnv} {type : Char} (hfresh : findAlias s.aliases name = none)
    (hknown : (lookupCommand s.aliases orgCmd).isSome) :
    insertAlias env (some name) (some orgCmd) k type s = inserted env name orgCmd k type s := by
  have hnew : ¬(findAlias s.aliases name).isSome = true := Option.not_isSome_iff_eq_none.mpr hfresh
  have hfound : ¬(lookupCommand s.aliases orgCmd).isNone = true := fun h =>
    Option.isSome_iff_ne_none.mp hknown (Option.isNone_iff_eq_none.mp h)
  unfold insertAlias inserted
  dsimp only
  rw [bind_of_ok (show Exec.get s = .ok s s from rfl), if_neg hnew, if_neg hfound, bind_of_ok sys_malloc]
  by_cases h : s.grants env = false
  · rw [if_pos h, if_pos h]
    rfl
  · rw [if_neg h, if_neg h, bind_of_ok sys_malloc, bind_of_ok sys_malloc]
    by_cases h' : ¬(s.called.grants env = true ∧ s.called.called.grants env = true)
    · rw [if_pos h', if_pos h']
      rfl
    · rw [if_neg h', if_neg h']
      rfl

/-- The program is over: there was no memory for a table. -/
def Exhausted (f : RegistryFault) : Prop := f = .hash .outOfMemory

theorem stringsOf_append {es' : List (HashEntry Ptr AliasData)} : stringsOf (es ++ es') = stringsOf es ++ stringsOf es' :=
  List.flatMap_append

/-- The block that was filled in is added to the table. -/
theorem wp_addAlias {n a b : Nat} (henv : env.Sane)
    (hf : Filling env r es l (.heap n) ⟨some (.heap a), some (.heap b), k, 'u'⟩ [.heap b, .heap a])
    (hname : r.aliasTable.strs.lookup (.heap a) = some (cBytes name)) (horg : r.aliasTable.strs.lookup (.heap b) = some (cBytes orgCmd))
    (hnew : name ∉ l.map Alias.name) (hshort : Short name) (hshort' : Short orgCmd) :
    wp (fun f _ => Exhausted f) (Registry.onAliases (hashAddStr (env.grants r) AliasData.name (.heap n)))
      (fun _ r' => ∃ h es', r' = { r with aliasTable := h } ∧ h.strs = r.aliasTable.strs ∧
        (∃ c, h.items.lookup (.heap n) = some c ∧ c.val = ⟨some (.heap a), some (.heap b), k, 'u'⟩) ∧
        AliasesAre env h es' (l ++ [{ name, orgCmd, id := k, type := 'u' }]) [] []) E r := by
  obtain ⟨c, hc, hval⟩ := hf.item
  have hkey : (AliasData.name c.val).bind r.aliasTable.strs.lookup = some (cBytes name) := by
    rw [hval]
    exact hname
  rw [wp_onAliases]
  refine (wp_hashAddStr (henv.grants r) hf.are.holds hf.apart hc hkey).mono (fun _ h hh => ?_) (fun _ _ => id) fun f _ hf => congrArg _ hf
  obtain ⟨hholds, hstrs, hagree⟩ := hh
  have hone : stringsOf [⟨.heap n, c.val, AliasData.name c.val, cBytes name⟩] = [Ptr.heap a, Ptr.heap b] := by
    rw [hval]
    rfl
  refine ⟨h, _, rfl, hstrs, ?_, hholds, ?_, ?_, ?_, ?_, nofun, ?_, ?_⟩
  · obtain ⟨c', hc', hcc⟩ := hagree.exists_lookup hc
    exact ⟨c', hc', hcc.trans hval⟩
  · rw [hstrs]
    refine List.rel_append hf.are.stand (.cons ?_ .nil)
    exact ⟨rfl, rfl, by rw [hval]; exact horg, by rw [hval], by rw [hval], hshort, hshort'⟩
  · rw [List.map_append, List.map_singleton, List.nodup_append]
    refine ⟨hf.are.names, by simp, fun m hm m' hm' => ?_⟩
    rintro rfl
    rw [List.mem_singleton.mp hm'] at hm
    exact hnew hm
  · intro e he
    rcases List.mem_append.mp he with he | he
    · exact hf.are.placed e he
    · rw [List.mem_singleton.mp he]
      exact .user n a b (by rw [hval]) rfl (by rw [hval]) (by rw [hval])
  · rw [List.nil_append, stringsOf_append, hone]
    have hperm : (stringsOf es ++ [Ptr.heap a, Ptr.heap b]).Perm ([Ptr.heap b, Ptr.heap a] ++ stringsOf es) :=
      List.perm_append_comm.trans ((List.Perm.swap _ _ _).append_right _)
    exact hperm.nodup_iff.mpr hf.are.nodup
  · intro m hm
    rw [List.nil_append, stringsOf_append, hone]
    have hmem := hf.are.strings m (hstrs ▸ hm)
    simp only [List.mem_append, List.mem_cons] at hmem ⊢
    tauto
  · intro m hm
    refine (hf.are.blocks m (hagree.mem_iff.mp hm)).imp (fun hmem => ?_) fun hleft => hleft.of_kept fun _ => hagree.exists_lookup
    simp only [List.nil_append, List.map_append, List.mem_append, List.map_singleton] at hmem ⊢
    exact hmem.symm

@[simp] theorem wp_onSession_print {o : Output} {Q : Unit → Registry → Prop} :
    wp F (Registry.onSession (print o)) Q E r ↔
      Q () { r with session := { r.session with out := r.session.out ++ [o] } } := Iff.rfl

theorem wp_aliasText {q : Option Ptr} {t : String} {Q : String → Registry → Prop} (ht : Short t)
    (hq : q.bind r.aliasTable.strs.lookup = some (cBytes t)) : wp F (Registry.aliasText q) Q E r ↔ Q t r := by
  unfold Registry.aliasText
  rw [wp_bind, wp_onAliases, wp_derefStr hq, wp_pure, ht.textOf_cBytes]

/-- Where a string could not be copied, the other one is freed. -/
theorem wp_dropCopies {a : AliasData} {q₁ q₂ : Option Ptr} {o : Output} (hf : Filling env r es l p a (q₂.toList ++ (q₁.toList ++ [])))
    (hnone : q₁ = none ∨ q₂ = none) (h₁ : ∀ x ∈ q₁, ∃ n, x = .heap n) (h₂ : ∀ x ∈ q₂, ∃ n, x = .heap n) :
    wp F (do
        Registry.freeStr q₁
        Registry.freeStr q₂
        Registry.onSession (print o)
        pure false)
      (fun added r' => added = false ∧ Filling env r' es l p a [] ∧ r'.session = { r.session with out := r.session.out ++ [o] }) E r := by
  have hfreed : wp F (do
      Registry.freeStr q₁
      Registry.freeStr q₂) (fun _ r' => Filling env r' es l p a [] ∧ r'.session = r.session) E r := by
    rw [wp_bind]
    rcases hnone with rfl | rfl
    · exact wp_freeCopy hf h₂
    · exact wp_freeCopy hf h₁
  rw [wp_bind] at hfreed ⊢
  refine hfreed.imp (fun _ r₁ hr₁ => ?_) fun _ _ => id
  rw [wp_bind]
  refine hr₁.imp (fun _ r₂ hr₂ => ?_) fun _ _ => id
  obtain ⟨hf₂, hs₂⟩ := hr₂
  rw [wp_bind, wp_onSession_print, wp_pure, hs₂]
  exact ⟨rfl, ⟨hf₂.are, hf₂.commands, hf₂.apart, hf₂.item⟩, rfl⟩

/-- What is left of `inserted` once there is a block. -/
theorem wp_fillAlias {n : Nat} {a : AliasData} (henv : env.Sane) (hf : Filling env r es l (.heap n) a []) (hnew : name ∉ l.map Alias.name)
    (hshort : Short name) (hshort' : Short orgCmd) :
    wp (fun f _ => Exhausted f) (Registry.fillAlias env (.heap n) name orgCmd k 'u')
      (fun added r' => Holds r'.commandHash commandEntries ∧
        if ¬(r.session.grants env.toUiEnv = true ∧ r.session.called.grants env.toUiEnv = true) then
          added = false ∧ (∃ es', AliasesAre env r'.aliasTable es' l [] []) ∧
            r'.session = { r.session.called.called with
              out := r.session.out ++ [.stderr "Error: Failed to allocate memory for alias strings\n" []] }
        else
          added = true ∧ (∃ es', AliasesAre env r'.aliasTable es' (l ++ [{ name, orgCmd, id := k, type := 'u' }]) [] []) ∧
            r'.session = { r.session.called.called with
              out := r.session.out ++ [.stdout "Added alias: %s -> %s (type: %c, id: %d)\n"
                [.str name, .str orgCmd, .char 'u', .int k]] })
      E r := by
  unfold Registry.fillAlias
  rw [wp_bind]
  refine (wp_strdup henv hf).imp (fun q₁ r₁ h₁ => ?_) fun _ _ => id
  obtain ⟨hf₁, hq₁⟩ := h₁
  rw [wp_bind]
  refine wp_setAlias hf₁ fun r₂ hf₂ hs₂ hstrs₂ => ?_
  rw [wp_bind]
  refine (wp_strdup henv hf₂).imp (fun q₂ r₃ h₃ => ?_) fun _ _ => id
  obtain ⟨hf₃, hq₃⟩ := h₃
  rw [wp_bind]
  refine wp_setAlias hf₃ fun r₄ hf₄ hs₄ hstrs₄ => ?_
  have hsession : r₄.session = r.session.called.called := by rw [hs₄, hq₃.session, hs₂, hq₁.session]
  have hgrants₁ : q₁.isSome = r.session.grants env.toUiEnv := hq₁.isSome
  have hgrants₂ : q₂.isSome = r.session.called.grants env.toUiEnv := by rw [hq₃.isSome, hs₂, hq₁.session]
  rw [wp_ite, ← hgrants₁, ← hgrants₂]
  split
  · rename_i hnone
    have hrefused : ¬(q₁.isSome = true ∧ q₂.isSome = true) := by
      rcases hnone with rfl | rfl <;> simp
    have hlost : ∃ i, env.malloc i = false := by
      rcases hnone with rfl | rfl
      · exact ⟨_, hgrants₁.symm⟩
      · exact ⟨_, hgrants₂.symm⟩
    refine (wp_dropCopies hf₄ hnone (fun x hx => (hq₁.copy x hx).1) fun x hx => (hq₃.copy x hx).1).imp (fun _ r₅ h₅ => ?_) fun _ _ => id
    obtain ⟨rfl, hf₅, hs₅⟩ := h₅
    obtain ⟨c, hc, hval⟩ := hf₅.item
    have hleft : LeftBehind env r₅.aliasTable (.heap n) := ⟨⟨c, hc, by rw [hval]; exact hnone⟩, hlost⟩
    rw [if_pos hrefused]
    refine ⟨hf₅.commands, rfl, ⟨es, hf₅.are.lose hleft⟩, ?_⟩
    rw [hs₅, hsession]
    rfl
  · rename_i hsome
    rw [not_or] at hsome
    obtain ⟨x₁, rfl⟩ := Option.ne_none_iff_exists'.mp hsome.1
    obtain ⟨x₂, rfl⟩ := Option.ne_none_iff_exists'.mp hsome.2
    obtain ⟨⟨a₁, rfl⟩, hcopy₁⟩ := hq₁.copy x₁ rfl
    obtain ⟨⟨a₂, rfl⟩, hcopy₂⟩ := hq₃.copy x₂ rfl
    rw [wp_bind]
    refine wp_setAlias hf₄ fun r₅ hf₅ hs₅ hstrs₅ => ?_
    rw [wp_bind]
    refine wp_setAlias hf₅ fun r₆ hf₆ hs₆ hstrs₆ => ?_
    have hname : r₆.aliasTable.strs.lookup (.heap a₁) = some (cBytes name) := by
      rw [hstrs₆, hstrs₅, hstrs₄, hq₃.kept _ (by simp), hstrs₂, hcopy₁]
    have horg : r₆.aliasTable.strs.lookup (.heap a₂) = some (cBytes orgCmd) := by rw [hstrs₆, hstrs₅, hstrs₄, hcopy₂]
    rw [wp_bind, wp_get, wp_bind]
    refine (wp_addAlias henv hf₆ hname horg hnew hshort hshort').imp (fun _ r₇ h₇ => ?_) fun _ _ => id
    obtain ⟨h, es', rfl, hstrs, ⟨c, hc, hval⟩, hare⟩ := h₇
    have hname' : c.val.name.bind h.strs.lookup = some (cBytes name) := by rw [hstrs, hval]; exact hname
    have horg' : c.val.orgCmd.bind h.strs.lookup = some (cBytes orgCmd) := by rw [hstrs, hval]; exact horg
    rw [wp_bind, wp_onAliases, wp_deref (by exact hc), wp_bind, wp_aliasText hshort (by exact hname'), wp_bind, wp_aliasText hshort' (by exact horg'),
      wp_bind, printf, wp_onSession_print, wp_pure, hval, if_neg (by simp)]
    refine ⟨hf₆.commands, rfl, ⟨es', hare⟩, ?_⟩
    have hsession₆ : r₆.session = r.session.called.called := by rw [hs₆, hs₅, hsession]
    dsimp only
    rw [hsession₆]
    rfl

theorem insertAlias_exists {env : UiEnv} {type : Char} (hfound : (findAlias s.aliases name).isSome) :
    insertAlias env (some name) (some orgCmd) k type s =
      .ok false { s with out := s.out ++ [.stderr "Error: Alias '%s' already exists\n" [.str name]] } := by
  unfold insertAlias
  dsimp only
  rw [bind_of_ok (show Exec.get s = .ok s s from rfl), if_pos hfound]
  rfl

theorem insertAlias_unknown {env : UiEnv} {type : Char} (hfresh : findAlias s.aliases name = none)
    (hnone : lookupCommand s.aliases orgCmd = none) : insertAlias env (some name) (some orgCmd) k type s =
      .ok false { s with out := s.out ++ [.stderr "Invalid command: %s not found\n" [.str orgCmd]] } := by
  have hnew : ¬(findAlias s.aliases name).isSome = true := Option.not_isSome_iff_eq_none.mpr hfresh
  unfold insertAlias
  dsimp only
  rw [bind_of_ok (show Exec.get s = .ok s s from rfl), if_neg hnew, if_pos (Option.isNone_iff_eq_none.mpr hnone)]
  rfl

theorem mem_names_of_findAlias (h : findAlias l name = none) : name ∉ l.map Alias.name := by
  intro hname
  obtain ⟨a, ha, rfl⟩ := List.mem_map.mp hname
  simpa using List.find?_eq_none.mp h a ha

/-- `insert_alias` on the tables does what `insert_alias` does on the lists. -/
theorem insertAlias_refines {n : Nat} {name orgCmd : Option String} (henv : env.Sane) (hname : ∀ t ∈ name, Short t)
    (horg : ∀ t ∈ orgCmd, Short t) :
    Refines .ui Exhausted (UpTo env n) (UpTo env (n + 1)) (Registry.insertAlias env name orgCmd k 'u')
      (insertAlias env.toUiEnv name orgCmd k 'u') := by
  rintro r s ⟨hm, hn⟩
  have hn' : s.aliases.length ≤ n + 1 := Nat.le_succ_of_le hn
  rcases name with _ | name
  · exact ⟨rfl, hm, hn'⟩
  rcases orgCmd with _ | orgCmd
  · exact ⟨rfl, hm, hn'⟩
  obtain ⟨es, ha⟩ := hm.aliases
  have hshort : Short name := hname name rfl
  have hshort' : Short orgCmd := horg orgCmd rfl
  -- what is printed leaves the registries as they are
  have hprinted : ∀ o, UpTo env (n + 1) { r with session := { r.session with out := r.session.out ++ [o] } }
      { s with out := s.out ++ [o] } := fun o => by
    refine ⟨⟨?_, hm.commands, hm.aliases, hm.history⟩, hn'⟩
    rw [hm.session]
  have hgrants : s.grants env.toUiEnv = r.session.grants env.toUiEnv := by
    rw [hm.session]
    rfl
  have hgrants' : s.called.grants env.toUiEnv = r.session.called.grants env.toUiEnv := by
    rw [hm.session]
    rfl
  have hgrants'' : s.called.called.grants env.toUiEnv = r.session.called.called.grants env.toUiEnv := by
    rw [hm.session]
    rfl
  refine .of_wp ?_
  unfold Registry.insertAlias
  rw [wp_bind, wp_onAliases]
  refine (wp_findAlias ha hshort).mono (fun p h hp => ?_) (fun _ _ => False.elim) fun _ _ => False.elim
  obtain ⟨rfl, oe, rfl, -, hrel⟩ := hp
  cases hfind : findAlias s.aliases name with
  | some a =>
    rw [hfind] at hrel
    cases hrel
    rw [Option.map_some, Option.isSome_some, wp_ite, if_pos rfl, wp_bind, printStderr, wp_onSession_print, wp_pure]
    exact ⟨_, insertAlias_exists (by rw [hfind]; rfl), hprinted _⟩
  | none =>
    rw [hfind] at hrel
    cases hrel
    rw [Option.map_none, wp_ite, if_neg (by simp), wp_bind]
    refine (wp_lookupCommand hm hshort').imp (fun p r' hp => ?_) fun _ _ => id
    obtain ⟨rfl, hrel⟩ := hp
    cases hlookup : lookupCommand s.aliases orgCmd with
    | none =>
      rw [hlookup] at hrel
      cases hrel
      rw [wp_ite, if_pos Option.isNone_none, wp_bind, printStderr, wp_onSession_print, wp_pure]
      exact ⟨_, insertAlias_unknown hfind hlookup, hprinted _⟩
    | some cmd =>
      rw [hlookup] at hrel
      obtain ⟨c, rfl⟩ : ∃ c, p = some c := by
        cases hrel
        exact ⟨_, rfl⟩
      rw [insertAlias_accepted hfind (by rw [hlookup]; rfl), wp_ite, if_neg (by simp), wp_bind]
      unfold inserted
      refine wp_newItem henv ha hm.commands (fun hno => ?_) fun hyes m a r' hf hs => ?_
      · rw [if_pos (hgrants.trans hno)]
        show wp _ (do
          Registry.onSession (print _)
          pure false) _ _ _
        rw [wp_bind, wp_onSession_print, wp_pure]
        refine ⟨_, rfl, ⟨?_, hm.commands, hm.aliases, hm.history⟩, hn'⟩
        rw [hm.session]
        rfl
      · rw [if_neg (by simp [hgrants, hyes])]
        refine (wp_fillAlias henv hf (mem_names_of_findAlias hfind) hshort hshort').imp (fun b r'' h => ?_) fun _ _ => id
        obtain ⟨hcommands, h⟩ := h
        rw [hs, ← hgrants', ← hgrants''] at h
        split at h
        · rename_i hrefused
          obtain ⟨rfl, hare, hsession⟩ := h
          rw [if_pos hrefused]
          refine ⟨_, rfl, ⟨?_, hcommands, hare, hm.history⟩, hn'⟩
          rw [hsession, hm.session]
          rfl
        · rename_i hgranted
          obtain ⟨rfl, hare, hsession⟩ := h
          rw [if_neg hgranted]
          refine ⟨_, rfl, ⟨?_, hcommands, hare, hm.history⟩, by simpa using hn⟩
          rw [hsession, hm.session]
          rfl

end Insert

end Sylvan
