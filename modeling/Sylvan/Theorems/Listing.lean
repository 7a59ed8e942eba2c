import Sylvan.Theorems.Loading
import Sylvan.Theorems.Segments

/-! The listing of a disassembly: which instructions it has, at which addresses and with which bytes, and where it ends. -/

namespace Sylvan
open Exec

/-- An instruction is not longer than the bytes that it was found in. -/
def UiEnv.Decodes (env : UiEnv) : Prop := ∀ addr bytes instr, env.zydis addr bytes = some instr → instr.length ≤ bytes.length

/-- The bytes of an instruction as text: two upper-case digits for each, with single blanks between them -/
def hexText (bytes : List Byte) : String := String.ofList (List.intercalate [' '] (bytes.map fun b => (hexByte b).toList))

/-- A function ends with it, if only its start is known. -/
def Instruction.IsRet (instr : Instruction) : Prop := instr.text.toList.take 3 = "ret".toList

instance (instr : Instruction) : Decidable instr.IsRet := inferInstanceAs (Decidable (_ = _))

/-- `int is_not_func` -/
def isNotFunc (startAddr endAddr : Addr) : Bool := (endAddr - startAddr).setWidth 32 ≠ 0

/-- The node of an instruction at index `offset` of the bytes -/
def nodeAt (buffer : List Byte) (addr : Addr) (offset : Nat) (instr : Instruction) : Disassembled :=
  ⟨addr, hexText ((buffer.drop offset).take instr.length), instr.text⟩

/-- From index `offset` of the bytes on, which is at `addr`, the instructions follow one another without a gap up to index
    `last`: behind that there is none, unless there was no memory for it, or a function has ended. -/
inductive Listing (env : UiEnv) (notFunc : Bool) (buffer : List Byte) : Addr → Nat → List Disassembled → Nat → Prop where
  | stop {addr offset} (h : env.zydis addr (buffer.drop offset) = none ∨ env.Scarce) : Listing env notFunc buffer addr offset [] offset
  | ret {addr offset instr} (found : env.zydis addr (buffer.drop offset) = some instr) (ends : notFunc = false ∧ instr.IsRet)
    (fits : offset + instr.length ≤ buffer.length) :
    Listing env notFunc buffer addr offset [nodeAt buffer addr offset instr] (offset + instr.length)
  | next {addr offset instr nodes last} (found : env.zydis addr (buffer.drop offset) = some instr)
    (goes : ¬(notFunc = false ∧ instr.IsRet)) (fits : offset + instr.length ≤ buffer.length)
    (rest : Listing env notFunc buffer (addr + BitVec.ofNat 64 instr.length) (offset + instr.length) nodes last) :
    Listing env notFunc buffer addr offset (nodeAt buffer addr offset instr :: nodes) last

/-! ### The text of the bytes -/

section Text
variable {b : Byte} {bytes : List Byte} {block before rest : List Char} {F : Fault → Session → Prop} {E : Int → Session → Prop}
  {s : Session}

theorem hexByte_chars (b : Byte) : (hexByte b).toList.length = 2 ∧ '\x00' ∉ (hexByte b).toList := by
  have hall : (List.range 256).all (fun n => (hexByte (BitVec.ofNat 8 n)).toList.length = 2 ∧
      '\x00' ∉ (hexByte (BitVec.ofNat 8 n)).toList) = true := by decide +kernel
  have hb := List.all_eq_true.mp hall b.toNat (List.mem_range.mpr b.isLt)
  rw [BitVec.ofNat_toNat, BitVec.setWidth_eq] at hb
  exact of_decide_eq_true hb

/-- What is printed for the bytes: a blank after each -/
def cells (bytes : List Byte) : List Char := bytes.flatMap fun b => (hexByte b).toList ++ [' ']

theorem cells_eq (h : bytes ≠ []) : cells bytes = (hexText bytes).toList ++ [' '] := by
  unfold hexText
  rw [String.toList_ofList]
  induction bytes with
  | nil => exact absurd rfl h
  | cons b bytes ih =>
    cases bytes with
    | nil => simp [cells]
    | cons b' bytes =>
      have hrest := ih (List.cons_ne_nil _ _)
      unfold cells at hrest ⊢
      rw [List.flatMap_cons, hrest]
      simp [List.intercalate_cons_cons]

theorem length_cells : (cells bytes).length = 3 * bytes.length := by
  unfold cells
  induction bytes with
  | nil => rfl
  | cons b bytes ih =>
    rw [List.flatMap_cons, List.length_append, ih, List.length_append, (hexByte_chars b).1, List.length_singleton, List.length_cons]
    omega

theorem nul_notMem_cells : '\x00' ∉ cells bytes := by
  intro h
  obtain ⟨b, -, hb⟩ := List.mem_flatMap.mp h
  rcases List.mem_append.mp hb with hb | hb
  · exact (hexByte_chars b).2 hb
  · exact absurd (List.mem_singleton.mp hb) (by decide)

/-- The text and its `'\0'` take no more than three characters for each byte. -/
theorem length_hexText (h : bytes ≠ []) : (hexText bytes).toList.length + 1 = 3 * bytes.length := by
  have := congrArg List.length (cells_eq h)
  rw [length_cells, List.length_append, List.length_singleton] at this
  exact this.symm

/-- A store that fits in the block -/
theorem storeChars_append {cs : List Char} (h : cs.length ≤ rest.length) :
    storeChars (before ++ rest) before.length cs = pure (before ++ (cs ++ rest.drop cs.length)) := by
  unfold storeChars
  rw [when_false (by rw [List.length_append]; omega), pure_bind, List.take_left' rfl, List.drop_append, List.drop_eq_nil_of_le (by omega),
    List.nil_append, Nat.add_sub_cancel_left, List.append_assoc]

/-- The bytes are printed one behind the other. -/
theorem printBytes_eq (h : 3 * bytes.length < rest.length) :
    ∃ tail, 0 < tail.length ∧ printBytes bytes (before ++ rest) before.length =
      pure (before ++ (cells bytes ++ tail), before.length + 3 * bytes.length) := by
  induction bytes generalizing before rest with
  | nil => exact ⟨rest, h, rfl⟩
  | cons b bytes ih =>
    have hlen : ((hexByte b).toList ++ [' ', '\x00']).length = 4 := by rw [List.length_append, (hexByte_chars b).1]; rfl
    have hcell : ((hexByte b).toList ++ [' ']).length = 3 := by rw [List.length_append, (hexByte_chars b).1]; rfl
    rw [List.length_cons] at h
    have hnext := @ih (before ++ ((hexByte b).toList ++ [' '])) ('\x00' :: rest.drop 4)
      (by rw [List.length_cons, List.length_drop]; omega)
    obtain ⟨tail, htail, hrun⟩ := hnext
    refine ⟨tail, htail, ?_⟩
    unfold printBytes
    rw [storeChars_append (by omega), pure_bind, hlen]
    have hblock : before ++ ((hexByte b).toList ++ [' ', '\x00'] ++ rest.drop 4) =
        before ++ ((hexByte b).toList ++ [' ']) ++ '\x00' :: rest.drop 4 := by simp
    rw [List.length_append, hcell] at hrun
    have hend : before.length + 3 + 3 * bytes.length = before.length + 3 * (bytes.length + 1) := by omega
    rw [hblock, hrun, List.length_cons, hend]
    simp only [cells, List.flatMap_cons, List.append_assoc]

/-- The last blank is overwritten. -/
theorem formatOpcodes_eq (h : bytes ≠ []) (stale : List Char) : formatOpcodes bytes stale = pure (hexText bytes) := by
  have hpos : 0 < bytes.length := List.length_pos_iff.mpr h
  have hblock : ((stale ++ List.replicate (bytes.length * 3 + 1) '\x00').take (bytes.length * 3 + 1)).length = bytes.length * 3 + 1 := by
    rw [List.length_take, List.length_append, List.length_replicate]
    omega
  obtain ⟨tail, -, hrun⟩ := @printBytes_eq bytes [] ((stale ++ List.replicate (bytes.length * 3 + 1) '\x00').take (bytes.length * 3 + 1))
    (by omega)
  rw [List.nil_append, List.nil_append, List.length_nil, Nat.zero_add] at hrun
  have htext := length_hexText h
  have hnul : '\x00' ∉ (hexText bytes).toList := fun hmem => nul_notMem_cells (cells_eq h ▸ List.mem_append_left _ hmem)
  have hlast : 3 * bytes.length - 1 = (hexText bytes).toList.length := by omega
  have hp : ¬3 * bytes.length = 0 := by omega
  unfold formatOpcodes
  dsimp only
  rw [hrun, pure_bind]
  dsimp only
  rw [when_false hp, pure_bind, cells_eq h, List.append_assoc, hlast, storeChars_append (by simp), pure_bind]
  unfold blockText
  rw [when_false (by simp), pure_bind, List.takeWhile_append_of_pos fun c hc => by
    simpa using fun heq : c = '\x00' => hnul (heq ▸ hc)]
  simp

end Text

/-! ### Counting -/

/-- `instr_count` is incremented as an `int`. -/
theorem asInt_add (m n : Int) : asInt (asInt m + n) = asInt (m + n) := by
  unfold asInt
  rw [BitVec.ofInt_add, BitVec.ofInt_toInt, BitVec.ofInt_add]

theorem asInt_eq_self_iff {n : Nat} : asInt n = n ↔ n < 2 ^ 31 := by
  unfold asInt
  rw [BitVec.toInt_ofInt, Int.bmod_def]
  omega

/-! ### The loop -/

section Loop
variable {env : UiEnv} {notFunc : Bool} {buffer : List Byte} {addr : Addr} {offset last last' : Nat} {instr : Instruction}
  {nodes nodes' : List Disassembled} {F : Fault → Session → Prop} {E : Int → Session → Prop} {s : Session}

theorem wp_makeNode (hfits : offset + instr.length ≤ buffer.length) :
    wp F (makeNode env addr buffer offset instr)
      (fun r _ => r = some (nodeAt buffer addr offset instr) ∨ r = none ∧ env.Scarce) E s := by
  have hbytes : (buffer.drop offset).take instr.length ≠ [] := by
    have hpos := instr.pos
    refine List.length_pos_iff.mp ?_
    rw [List.length_take, List.length_drop]
    omega
  unfold makeNode
  rw [wp_bind, wp_sys]
  refine wp_malloc_scarce fun node x hnode => ?_
  rw [wp_ite]
  split
  · rename_i hfailed
    exact Or.inr ⟨rfl, hnode hfailed⟩
  rw [wp_bind, wp_sys]
  refine wp_malloc_scarce fun opcodes y hopcodes => ?_
  rw [wp_ite]
  split
  · rename_i hfailed
    exact Or.inr ⟨rfl, hopcodes hfailed⟩
  rw [when_false (by omega), pure_bind, wp_bind, wp_sys, wp_tick, formatOpcodes_eq hbytes, pure_bind, wp_bind, wp_sys]
  refine wp_malloc_scarce fun instruction z hinstruction => ?_
  rw [wp_ite]
  split
  · rename_i hfailed
    exact Or.inr ⟨rfl, hinstruction hfailed⟩
  · exact Or.inl rfl

theorem fits_of_found (hd : env.Decodes) (hoffset : offset ≤ buffer.length) (hfound : env.zydis addr (buffer.drop offset) = some instr) :
    offset + instr.length ≤ buffer.length := by
  have := hd _ _ _ hfound
  rw [List.length_drop] at this
  omega

/-- Each turn takes at least one byte of the buffer. -/
theorem wp_disassembleLoop (hd : env.Decodes) (fuel : Nat) (m : Int) (hoffset : offset ≤ buffer.length)
    (hfuel : buffer.length < fuel + offset) :
    wp F (disassembleLoop env buffer notFunc fuel addr offset (asInt m))
      (fun r _ => Listing env notFunc buffer addr offset r.1 r.2.1 ∧ r.2.2 = asInt (m + r.1.length)) E s := by
  induction fuel generalizing addr offset m s with
  | zero => omega
  | succ fuel ih =>
    unfold disassembleLoop
    cases hfound : env.zydis addr (buffer.drop offset) with
    | none => exact ⟨.stop (Or.inl hfound), congrArg asInt (Int.add_zero m).symm⟩
    | some instr =>
      have hfits := fits_of_found hd hoffset hfound
      have hpos := instr.pos
      dsimp only
      rw [wp_bind]
      refine (wp_makeNode hfits).imp (fun r t hr => ?_) fun _ _ => id
      rcases hr with rfl | ⟨rfl, hscarce⟩
      · dsimp only
        rw [asInt_add]
        by_cases hret : notFunc = false ∧ instr.IsRet
        · have hcond : ¬notFunc = true ∧ instr.text.toList.take 3 = "ret".toList := ⟨by simp [hret.1], hret.2⟩
          rw [if_pos hcond]
          exact ⟨.ret hfound hret hfits, rfl⟩
        · have hcond : ¬(¬notFunc = true ∧ instr.text.toList.take 3 = "ret".toList) := fun h => hret ⟨by simpa using h.1, h.2⟩
          rw [if_neg hcond, if_neg (Nat.not_lt.mpr hfits), wp_bind]
          refine (ih (m + 1) hfits (by omega)).imp (fun r u hr => ?_) fun _ _ => id
          refine ⟨.next hfound hret hfits hr.1, hr.2.trans (congrArg asInt ?_)⟩
          rw [List.length_cons]
          omega
      · exact ⟨.stop (Or.inr hscarce), congrArg asInt (Int.add_zero m).symm⟩

/-- The instructions are within the bytes. -/
theorem Listing.le (h : Listing env notFunc buffer addr offset nodes last) (hoffset : offset ≤ buffer.length) :
    offset ≤ last ∧ last ≤ buffer.length := by
  induction h with
  | stop _ => exact ⟨Nat.le_refl _, hoffset⟩
  | ret _ _ fits => exact ⟨Nat.le_add_right .., fits⟩
  | next _ _ fits _ ih => exact ⟨Nat.le_trans (Nat.le_add_right ..) (ih fits).1, (ih fits).2⟩

/-- Where there is memory, the bytes and the start say what the listing is. -/
theorem Listing.unique (hmem : ¬env.Scarce) (h : Listing env notFunc buffer addr offset nodes last)
    (h' : Listing env notFunc buffer addr offset nodes' last') : nodes = nodes' ∧ last = last' := by
  induction h generalizing nodes' last' with
  | stop h =>
    have hnone := h.resolve_right hmem
    cases h' with
    | stop _ => exact ⟨rfl, rfl⟩
    | ret found _ _ => cases hnone.symm.trans found
    | next found _ _ _ => cases hnone.symm.trans found
  | ret found ends fits =>
    cases h' with
    | stop h => cases found.symm.trans (h.resolve_right hmem)
    | ret found' _ _ =>
      cases found.symm.trans found'
      exact ⟨rfl, rfl⟩
    | next found' goes _ _ =>
      cases found.symm.trans found'
      exact absurd ends goes
  | next found goes fits rest ih =>
    cases h' with
    | stop h => cases found.symm.trans (h.resolve_right hmem)
    | ret found' ends _ =>
      cases found.symm.trans found'
      exact absurd ends goes
    | next found' _ _ rest' =>
      cases found.symm.trans found'
      obtain ⟨rfl, rfl⟩ := ih rest'
      exact ⟨rfl, rfl⟩

end Loop

/-! ### A disassembly -/

/-- The size that is left of a range: no more than there is in the segment, and all of that for a function -/
def clampedSize (size maxSize : BitVec 64) : BitVec 64 := if maxSize < size ∨ size = 0 then maxSize else size

/-- The bytes of a range in the file, if they can be read -/
def codeBytes (file : OpenFile) (startAddr endAddr : Addr) : Option (List Byte) :=
  (mapping file startAddr).bind fun m =>
    let size := clampedSize (endAddr - startAddr) m.2
    let bytes := (file.bytes.drop m.1.toNat).take size.toNat
    if file.seeks m.1 ∧ bytes.length = size.toNat then some bytes else none

/-- What a disassembly returns. -/
inductive Disassembles (env : UiEnv) (s : Session) (startAddr endAddr : Addr) : Option (List Disassembled × Int) → Prop where
  | refused (h : s.state.inf.realpath = none ∨ endAddr < startAddr ∨ env.Scarce ∨
      (∀ file, env.fopen s.state.scratch.clock s.state.inf.realpath = .ok file → codeBytes file startAddr endAddr = none)) :
    Disassembles env s startAddr endAddr none
  | listed (file : OpenFile) (bytes : List Byte) (nodes : List Disassembled) (last : Nat)
    (opened : env.fopen s.state.scratch.clock s.state.inf.realpath = .ok file) (found : codeBytes file startAddr endAddr = some bytes)
    (listing : Listing env (isNotFunc startAddr endAddr) bytes startAddr 0 nodes last) :
    Disassembles env s startAddr endAddr
      (if bytes.length ≤ last ∨ 0 < asInt nodes.length then some (nodes, asInt nodes.length) else none)

section Disassembly
variable {env : UiEnv} {startAddr endAddr : Addr} {file : OpenFile} {F : Fault → Session → Prop} {E : Int → Session → Prop}
  {s t : Session}

theorem wp_disassembleRange {fileOffset size : BitVec 64} (hd : env.Decodes) (notFunc : Bool)
    {Q : Option (List Disassembled × Int) → Session → Prop}
    (hnone : ∀ t, env.Scarce ∨
      ¬(file.seeks fileOffset ∧ ((file.bytes.drop fileOffset.toNat).take size.toNat).length = size.toNat) → Q none t)
    (hlisted : ∀ nodes last t, ((file.bytes.drop fileOffset.toNat).take size.toNat).length = size.toNat → file.seeks fileOffset →
      Listing env notFunc ((file.bytes.drop fileOffset.toNat).take size.toNat) startAddr 0 nodes last →
      Q (if size.toNat ≤ last ∨ 0 < asInt nodes.length then some (nodes, asInt nodes.length) else none) t) :
    wp F (disassembleRange env file startAddr fileOffset size notFunc) Q E s := by
  unfold disassembleRange
  rw [wp_bind, wp_sys]
  refine wp_malloc_scarce fun b x hb => ?_
  rw [wp_ite]
  split
  · rename_i hfailed
    exact hnone _ (Or.inl (hb hfailed))
  rw [wp_ite]
  split
  · rename_i hneg
    exact hnone _ (Or.inr fun h => Bool.noConfusion (hneg.symm.trans h.1))
  rename_i hseek
  dsimp only
  rw [wp_ite]
  split
  · rename_i hshort
    exact hnone _ (Or.inr fun h => hshort h.2)
  rename_i hread
  rw [ne_eq, not_not] at hread
  rw [wp_bind]
  refine (wp_disassembleLoop hd _ 0 (Nat.zero_le _) (by omega)).imp (fun r t hr => ?_) fun _ _ => id
  have hcount : r.2.2 = asInt r.1.length := by rw [hr.2, Int.zero_add]
  have := hlisted r.1 r.2.1 t hread (Bool.not_eq_false _ ▸ hseek) hr.1
  rw [← hcount] at this
  exact this

theorem wp_disassemble (hd : env.Decodes) :
    wp F (disassemble env startAddr endAddr) (fun r _ => Disassembles env s startAddr endAddr r) E s := by
  unfold disassemble
  rw [wp_bind, wp_inferior, wp_ite]
  split
  · rename_i hargs
    exact .refused (hargs.imp_right Or.inl)
  rw [wp_bind, wp_sys]
  refine wp_answered_answer (fun file hopen => ?_) fun e hopen => ?_
  · dsimp only
    rw [wp_bind]
    refine wp_getFileOffsetFromVaddr.imp (fun r t hr => ?_) fun _ _ => id
    have hnone : codeBytes file startAddr endAddr = none → Disassembles env s startAddr endAddr none := fun h =>
      .refused (Or.inr (Or.inr (Or.inr fun file' hfile => by
        cases hopen.symm.trans hfile
        exact h)))
    cases r with
    | none => exact hnone (by rw [codeBytes, ← hr.1]; rfl)
    | some m =>
      obtain ⟨fileOffset, maxSize⟩ := m
      have hcode : codeBytes file startAddr endAddr =
          if file.seeks fileOffset ∧ ((file.bytes.drop fileOffset.toNat).take (clampedSize (endAddr - startAddr) maxSize).toNat).length =
            (clampedSize (endAddr - startAddr) maxSize).toNat
          then some ((file.bytes.drop fileOffset.toNat).take (clampedSize (endAddr - startAddr) maxSize).toNat) else none := by
        rw [codeBytes, ← hr.1]
        rfl
      refine wp_disassembleRange hd _ (fun t h => ?_) fun nodes last t hread hseek hl => ?_
      · rcases h with hscarce | hbad
        · exact .refused (Or.inr (Or.inr (Or.inl hscarce)))
        · exact hnone (hcode.trans (if_neg hbad))
      · have := Disassembles.listed file _ nodes last hopen (hcode.trans (if_pos ⟨hseek, hread⟩)) hl
        have hlen : ((file.bytes.drop fileOffset.toNat).take (clampedSize (endAddr - startAddr) maxSize).toNat).length =
            (clampedSize (endAddr - startAddr) maxSize).toNat := hread
        rw [hlen] at this
        exact this
  · exact .refused (Or.inr (Or.inr (Or.inr fun file hfile => by cases hopen.symm.trans hfile)))

end Disassembly

/-- The call returns, and what it returns with 0 is the listing of the bytes of the range, and the number of its nodes. -/
def ListsFaithfully (env : UiEnv) (s : Session) (startAddr endAddr : Addr) : Prop :=
  wp (fun _ _ => False) (disassemble env startAddr endAddr)
    (fun r _ => ∀ nodes count, r = some (nodes, count) → count = nodes.length ∧ ∃ file bytes last,
      env.fopen s.state.scratch.clock s.state.inf.realpath = .ok file ∧ codeBytes file startAddr endAddr = some bytes ∧
        last ≤ bytes.length ∧ Listing env (isNotFunc startAddr endAddr) bytes startAddr 0 nodes last)
    (fun _ _ => False) s

/-- The instructions in the bytes of the range can be counted by an `int`, or they are so many that the count is not positive, and do
    not take all of the bytes. -/
def Countable (env : UiEnv) (s : Session) (startAddr endAddr : Addr) : Prop :=
  ∀ file bytes nodes last, s.state.inf.realpath ≠ none → ¬endAddr < startAddr →
    env.fopen s.state.scratch.clock s.state.inf.realpath = .ok file → codeBytes file startAddr endAddr = some bytes →
      Listing env (isNotFunc startAddr endAddr) bytes startAddr 0 nodes last →
        nodes.length < 2 ^ 31 ∨ ¬(bytes.length ≤ last ∨ 0 < asInt nodes.length)

section Faithful
variable {env : UiEnv} {startAddr endAddr : Addr} {s : Session}

theorem lists_of_countable (hd : env.Decodes) (hc : Countable env s startAddr endAddr) : ListsFaithfully env s startAddr endAddr := by
  unfold ListsFaithfully disassemble
  by_cases hargs : s.state.inf.realpath = none ∨ endAddr < startAddr
  · rw [wp_bind, wp_inferior, wp_ite, if_pos hargs]
    rintro nodes count ⟨⟩
  rw [not_or] at hargs
  refine (wp_disassemble hd).imp (fun r t hr => ?_) fun _ _ => id
  cases hr with
  | refused _ => rintro nodes count ⟨⟩
  | listed file bytes nodes last opened found listing =>
    intro nodes' count hsome
    split at hsome
    · rename_i hsucceeds
      cases hsome
      have hcount := (hc file bytes nodes last hargs.1 hargs.2 opened found listing).resolve_right (not_not.mpr hsucceeds)
      exact ⟨asInt_eq_self_iff.mpr hcount, file, bytes, last, opened, found, (listing.le (Nat.zero_le _)).2, listing⟩
    · cases hsome

theorem countable_of_lists (hd : env.Decodes) (hmem : ¬env.Scarce) (h : ListsFaithfully env s startAddr endAddr) :
    Countable env s startAddr endAddr := by
  intro file bytes nodes last hpath hrange hopened hfound hlisting
  by_contra hall
  rw [not_or, not_not] at hall
  obtain ⟨hlarge, hsucceeds⟩ := hall
  have hruns : wp (fun _ _ => False) (disassemble env startAddr endAddr) (fun r _ => Disassembles env s startAddr endAddr r)
      (fun _ _ => False) s := wp_disassemble hd
  refine not_wp_false ((h.and hruns).imp (fun r t hr => ?_) fun _ _ => And.left)
  obtain ⟨hfaithful, hr⟩ := hr
  cases hr with
  | refused hbad =>
    rcases hbad with hnone | hlt | hscarce | hbytes
    · exact hpath hnone
    · exact hrange hlt
    · exact hmem hscarce
    · cases hfound.symm.trans (hbytes file hopened)
  | listed file' bytes' nodes' last' opened found listing =>
    cases opened.symm.trans hopened
    cases found.symm.trans hfound
    obtain ⟨rfl, rfl⟩ := listing.unique hmem hlisting
    have hcount := (hfaithful nodes' (asInt nodes'.length) (if_pos hsucceeds)).1
    exact hlarge (asInt_eq_self_iff.mp hcount)

end Faithful

/-- Where there is memory, a disassembly that returns 0 lists the instructions of its range without a gap, with their bytes and their
    number, if and only if an `int` can count them, or the wrong count makes it fail. -/
theorem listing_faithful_iff (env : UiEnv) (hd : env.Decodes) (hmem : ¬env.Scarce) (s : Session) (startAddr endAddr : Addr) :
    ListsFaithfully env s startAddr endAddr ↔ Countable env s startAddr endAddr :=
  ⟨countable_of_lists hd hmem, lists_of_countable hd⟩

/-! ### A program of `nop`s -/

def nop : Instruction := ⟨1, Nat.one_pos, "nop"⟩

/-- The file that is opened is `file`, and every byte is an instruction. -/
def UiEnv.ofFile (file : OpenFile) : UiEnv :=
  { UiEnv.on .compliant with
    fopen := fun _ _ => .ok file
    zydis := fun _ bytes => if bytes = [] then none else some nop }

/-- The header of a program of `n` bytes at `0x1000` -/
def codeHeader (n : BitVec 64) : ProgramHeader := ⟨PT_LOAD, 120, 0x1000, n, n⟩

/-- A program of `n` instructions -/
def nops (n : BitVec 64) : OpenFile := .whole (oneSegment (codeHeader n) (List.replicate n.toNat 0x90))

/-- A session whose file is known -/
@[irreducible]
def Session.loaded : Session := .on (State.blank.setInf { State.blank.inf with realpath := some "/bin/nops" })

section Nops
variable {file : OpenFile} {buffer : List Byte} {notFunc : Bool} {addr : Addr} {offset last k : Nat} {nodes : List Disassembled} {n : BitVec 64}

theorem realpath_loaded : Session.loaded.state.inf.realpath ≠ none := by
  unfold Session.loaded
  exact Option.some_ne_none _

theorem fopen_ofFile (file : OpenFile) (t : Nat) (path : Option String) : (UiEnv.ofFile file).fopen t path = .ok file := rfl

theorem decodes_ofFile (file : OpenFile) : (UiEnv.ofFile file).Decodes := by
  intro addr bytes instr h
  have h : (if bytes = [] then none else some nop) = some instr := h
  split at h
  · cases h
  · rename_i hne
    cases h
    exact List.length_pos_iff.mpr hne

theorem not_scarce_ofFile (file : OpenFile) : ¬(UiEnv.ofFile file).Scarce := fun ⟨_, h⟩ => Bool.noConfusion h

/-- Each instruction takes a byte. -/
theorem Listing.length_le {env : UiEnv} (h : Listing env notFunc buffer addr offset nodes last) : nodes.length + offset ≤ last := by
  induction h with
  | stop _ => exact Nat.le_of_eq (Nat.zero_add _)
  | @ret _ _ instr _ _ _ =>
    have := instr.pos
    rw [List.length_singleton]
    omega
  | @next _ _ instr _ _ _ _ _ _ ih =>
    have := instr.pos
    rw [List.length_cons]
    omega

theorem listing_nops (h : offset + k = buffer.length) :
    ∃ nodes, nodes.length = k ∧ Listing (UiEnv.ofFile file) notFunc buffer addr offset nodes buffer.length := by
  induction k generalizing addr offset with
  | zero =>
    obtain rfl : offset = buffer.length := h
    exact ⟨[], rfl, .stop (Or.inl (by rw [List.drop_length]; rfl))⟩
  | succ k ih =>
    have hne : buffer.drop offset ≠ [] := fun hnil => by
      have := List.drop_eq_nil_iff.mp hnil
      omega
    have hret : ¬(notFunc = false ∧ nop.IsRet) := fun hret => absurd hret.2 (by decide)
    have hfits : offset + nop.length ≤ buffer.length := by
      show offset + 1 ≤ buffer.length
      omega
    obtain ⟨nodes, hlen, hrest⟩ := @ih (addr + BitVec.ofNat 64 nop.length) (offset + nop.length)
      (by show offset + 1 + k = buffer.length; omega)
    exact ⟨_ :: nodes, congrArg Nat.succ hlen, .next (if_neg hne) hret hfits hrest⟩

/-- The whole program is the range from `0x1000` on. -/
theorem codeBytes_nops (hread : readPhdr (oneSegment (codeHeader n) []) 64 = some (codeHeader n))
    (hholds : (codeHeader n).Holds 0x1000) : codeBytes (nops n) 0x1000 (0x1000 + n) = some (List.replicate n.toNat 0x90) := by
  have hoffset : (codeHeader n).offsetOf 0x1000 = 120 := by
    show (120 : BitVec 64) + (0x1000 - 0x1000) = 120
    decide
  have hsize : (codeHeader n).sizeFrom 0x1000 = n := by
    show n - (0x1000 - 0x1000) = n
    rw [BitVec.sub_self, BitVec.sub_zero]
  have hrange : 0x1000 + n - 0x1000 = n := by rw [BitVec.add_comm, BitVec.add_sub_cancel]
  have hclamped : clampedSize n n = n := ite_self n
  have hbytes : ((nops n).bytes.drop (120 : BitVec 64).toNat).take n.toNat = List.replicate n.toNat 0x90 := by
    show ((oneSegment _ _).drop 120).take n.toNat = _
    rw [drop_oneSegment, List.take_of_length_le (Nat.le_of_eq (List.length_replicate ..))]
  unfold codeBytes
  rw [nops, mapping_oneSegment hread hholds, hoffset, hsize, Option.bind_some, ← nops]
  dsimp only
  rw [hrange, hclamped, hbytes, if_pos ⟨OpenFile.seeks_whole .., List.length_replicate ..⟩]

end Nops

theorem listing_faithful_iff_nops : ListsFaithfully (UiEnv.ofFile (nops 3)) .loaded 0x1000 0x1003 := by
  refine (listing_faithful_iff (UiEnv.ofFile (nops 3)) (decodes_ofFile _) (not_scarce_ofFile _) .loaded 0x1000 0x1003).mpr ?_
  intro file bytes nodes last _ _ hopened hfound hlisting
  obtain rfl := Except.ok.inj ((fopen_ofFile _ _ _).symm.trans hopened)
  have hcode := codeBytes_nops (n := 3) (by decide +kernel) (by decide)
  cases hfound.symm.trans hcode
  have hlen := hlisting.length_le
  have hlast := (hlisting.le (Nat.zero_le _)).2
  refine Or.inl (Nat.lt_of_le_of_lt (Nat.le_trans hlen hlast) ?_)
  decide

/-- With `2 ^ 31` instructions in a range the count is negative. -/
theorem listing_uncounted : ¬ListsFaithfully (UiEnv.ofFile (nops 0x80000000)) .loaded 0x1000 (0x1000 + 0x80000000) := by
  intro h
  have hcode := codeBytes_nops (n := 0x80000000) (by decide +kernel) (by decide)
  obtain ⟨nodes, hlen, hlisting⟩ := @listing_nops (nops 0x80000000) (List.replicate (0x80000000 : BitVec 64).toNat 0x90)
    (isNotFunc 0x1000 (0x1000 + 0x80000000)) 0x1000 0 _ (by rw [Nat.zero_add, List.length_replicate])
  have hcountable := countable_of_lists (decodes_ofFile _) (not_scarce_ofFile _) h
  rcases hcountable (nops 0x80000000) _ nodes _ realpath_loaded (by decide) (fopen_ofFile _ _ _) hcode hlisting with hsmall | hfails
  · exact Nat.lt_irrefl _ (hlen ▸ hsmall)
  · exact hfails (Or.inl (Nat.le_refl _))

end Sylvan
