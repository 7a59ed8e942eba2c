import Mathlib.Data.List.Basic
import Sylvan.Theorems.Commands

/-! Whether a command depends on its tokens only: two command lines of the same tokens, with anything in the slots behind
    the `NULL` and in the bytes behind each token, have the same effects. -/

namespace Sylvan
open Exec

/-- The handler does the same on any two command lines of these tokens. -/
def Handler.OnlyTokens (h : Handler) (tokens : List String) : Prop :=
  ∀ (env : UiEnv) (a b : Argv), a.texts = tokens → b.texts = tokens → h.call env a = h.call env b

/-- A text that `memory_read` takes for a number of rows -/
def RowsText (text : String) : Prop := ∃ n, Numeral.Denotes 10 text.toList n ∧ ¬Numeral.Overflows n ∧ 0 < asInt n

/-- The texts that `memory_read` takes for an address and for a number of rows -/
def readTexts : List String → Option (String × Option String)
  | _ :: text :: texts =>
    if "-t".toList.isPrefixOf text.toList then texts.head?.map fun addr => (addr, texts.tail.head?)
    else some (text, texts.head?)
  | _ => none

/-- The address that follows `-a` has a second character. -/
def TargetWithin (texts : List String) : Prop := ∀ t text rest, texts = t :: "-a" :: text :: rest → text.length ≠ 1

/-- Where a handler skips two characters of a token, the token has a second one; and no handler comes to look behind the
    `NULL`. -/
def Handler.Within : Handler → List String → Prop
  | setReg, texts =>
    texts.length ≠ 3 ∧ ∀ t name value u, texts = [t, name, value, u] → (findRegisterByName name).isSome → value ≠ "0"
  | breakpointSet, texts => ∀ t text, texts = [t, text] → text.length ≠ 1
  | disableBreakpoint, texts => TargetWithin texts
  | enableBreakpoint, texts => TargetWithin texts
  | deleteBreakpoint, texts => TargetWithin texts
  | readMemory, texts => ∀ addr rows, readTexts texts = some (addr, rows) → (∀ r, rows = some r → RowsText r) → addr.length ≠ 1
  | writeMemory, texts => ∀ t text value rest, texts = t :: text :: value :: rest → text.length ≠ 1
  | _, _ => True

/-! ### The tokens of a line -/

theorem texts_tokens (line : CStr) (beyond : Nat → List Char) :
    (line.tokens beyond).map CStr.text = strtok ' ' line.text := by
  refine List.ext_getElem? fun i => ?_
  unfold CStr.tokens
  rw [List.getElem?_map, List.getElem?_mapIdx, Option.map_map]
  exact (List.getElem?_map (f := Subtype.val) ..).symm.trans (by rw [List.attach_map_subtype_val])

theorem ne_empty_of_mem_strtok {sep : Char} {line token : String} (h : token ∈ strtok sep line) : token ≠ "" := by
  obtain ⟨w, hw, rfl⟩ := List.mem_map.mp h
  rintro heq
  obtain rfl := String.ofList_eq_empty_iff.mp heq
  simpa using (List.mem_filter.mp hw).2

section
variable {env : UiEnv} {s : Session} {F : Fault → Session → Prop} {E : Int → Session → Prop}

theorem wp_collectArgs (tokens args : List CStr) (size : Nat) (s : Session) :
    wp (fun _ _ => True) (collectArgs env tokens args size) (fun r _ => ∀ l, r = some l → l = args ++ tokens)
      (fun _ _ => True) s := by
  induction tokens generalizing args size s with
  | nil =>
    unfold collectArgs
    rw [wp_bind, wp_when]
    split
    · trivial
    · rintro l ⟨⟩
      exact (List.append_nil _).symm
  | cons token tokens ih =>
    have next : ∀ size s, wp (fun _ _ => True) (collectArgs env tokens (args ++ [token]) size)
        (fun r _ => ∀ l, r = some l → l = args ++ token :: tokens) (fun _ _ => True) s := fun size s => by
      simpa only [List.append_assoc, List.singleton_append] using ih (args ++ [token]) size s
    unfold collectArgs
    rw [wp_bind, wp_when]
    split
    · trivial
    · rw [wp_bind, wp_sys]
      refine wp_malloc fun copied x => ?_
      split
      · rintro l ⟨⟩
      · split
        · rw [wp_bind, wp_sys]
          refine wp_malloc fun grown y => ?_
          split
          · rintro l ⟨⟩
          · exact next _ _
        · exact next _ _

end

/-! ### Command lines of the same tokens -/

section
variable {a b : Argv} {k : Nat}

/-- At a position up to the `NULL`, both have a token of the same text, or both have the `NULL`. -/
theorem arg_cases (h : a.texts = b.texts) (hk : k ≤ a.texts.length) :
    (a.arg k = none ∧ b.arg k = none) ∨
      ∃ c d, a.arg k = some c ∧ b.arg k = some d ∧ c.text = d.text ∧ a.texts[k]? = some c.text ∧ k + 1 ≤ a.texts.length := by
  rcases Nat.lt_or_eq_of_le hk with hlt | heq
  · obtain ⟨c, hc, hct⟩ := Argv.arg_some (List.getElem?_eq_getElem hlt)
    obtain ⟨d, hd, hdt⟩ := Argv.arg_some (show b.texts[k]? = some a.texts[k] by rw [← h, List.getElem?_eq_getElem hlt])
    exact Or.inr ⟨c, d, hc, hd, hct.trans hdt.symm, hct ▸ List.getElem?_eq_getElem hlt, hlt⟩
  · exact Or.inl ⟨Argv.arg_none heq.symm, Argv.arg_none (h ▸ heq.symm)⟩

theorem isSome_arg (h : a.texts = b.texts) (hk : k ≤ a.texts.length) : (a.arg k).isSome = (b.arg k).isSome := by
  rcases arg_cases h hk with ⟨ha, hb⟩ | ⟨c, d, ha, hb, -⟩
  · rw [ha, hb]
  · rw [ha, hb]
    rfl

theorem extra_same {x : UiM Unit} (h : a.texts = b.texts) (hk : k ≤ a.texts.length) :
    Exec.when (a.arg k).isSome x = Exec.when (b.arg k).isSome x := by
  rw [isSome_arg h hk]

variable {c d : CStr}

theorem strtol_same (base : Nat) (hb : base ≤ 36) (h : c.text = d.text) (hk : k ≤ c.text.length) :
    Numeral.strtol base (c.from k) = Numeral.strtol base (d.from k) := by
  rw [CStr.strtol_from hb hk, CStr.strtol_from hb (h ▸ hk), h]

theorem parseAddr_same (h : c.text = d.text) (hk : k ≤ c.text.length) (outputs : List Output) :
    parseAddr (c.from k) outputs = parseAddr (d.from k) outputs := by
  rw [parseAddr, strtol_same 16 (by decide) h hk, parseAddr]

theorem parseRows_same (h : c.text = d.text) : parseRows (some c) = parseRows (some d) := by
  rw [parseRows, strtol_same 10 (by decide) h (Nat.zero_le _), parseRows]

theorem char_same (h : c.text = d.text) (hk : k ≤ c.text.length) : c.char k = d.char k := by
  rw [CStr.char_eq hk, CStr.char_eq (h ▸ hk), h]

end

/-! ### What depends on the tokens only -/

section
variable {env : UiEnv} {a b : Argv}

theorem handleHelp_same (h : a.texts = b.texts) (h1 : 1 ≤ a.texts.length) : handleHelp a = handleHelp b := by
  unfold handleHelp
  rcases arg_cases h h1 with ⟨ha, hb⟩ | ⟨c, d, ha, hb, hcd, -⟩
  · rw [ha, hb]
  · rw [ha, hb, Option.any_some, Option.any_some, hcd]

theorem handleFile_same (h : a.texts = b.texts) (h1 : 1 ≤ a.texts.length) : handleFile env a = handleFile env b := by
  unfold handleFile
  rcases arg_cases h h1 with ⟨ha, hb⟩ | ⟨c, d, ha, hb, hcd, -, h2⟩
  · rw [ha, hb]
  · simp only [ha, hb, hcd, extra_same (k := 2) h h2]

theorem handleAttach_same (h : a.texts = b.texts) (h1 : 1 ≤ a.texts.length) : handleAttach env a = handleAttach env b := by
  unfold handleAttach
  rcases arg_cases h h1 with ⟨ha, hb⟩ | ⟨c, d, ha, hb, hcd, -, h2⟩
  · rw [ha, hb]
  · simp only [ha, hb, extra_same (k := 2) h h2, strtol_same 10 (by decide) hcd (Nat.zero_le _), hcd]

theorem handleSetAlias_same (h : a.texts = b.texts) (h1 : 1 ≤ a.texts.length) :
    handleSetAlias env a = handleSetAlias env b := by
  unfold handleSetAlias
  rcases arg_cases h h1 with ⟨ha, hb⟩ | ⟨c, d, ha, hb, -, -, h2⟩
  · simp only [ha, hb]
  · rcases arg_cases h h2 with ⟨ha2, hb2⟩ | ⟨c2, d2, ha2, hb2, hcd2, -, h3⟩
    · simp only [ha, hb, ha2, hb2]
    · have hcmd : (a.arg 3).map CStr.text = (b.arg 3).map CStr.text := by
        rw [Argv.arg_text h3, Argv.arg_text (h ▸ h3), h]
      simp only [ha, hb, ha2, hb2, hcd2, hcmd]

theorem handleDisassemble_same (h : a.texts = b.texts) (h1 : 1 ≤ a.texts.length) :
    handleDisassemble env a = handleDisassemble env b := by
  unfold handleDisassemble
  rcases arg_cases h h1 with ⟨ha, hb⟩ | ⟨c, d, ha, hb, hcd, -, h2⟩
  · simp only [ha, hb]
  · have hrange : ∀ rip, parseRange c (a.arg 2) rip = parseRange d (b.arg 2) rip := by
      intro rip
      unfold parseRange
      rcases arg_cases h h2 with ⟨ha2, hb2⟩ | ⟨c2, d2, ha2, hb2, hcd2, -⟩
      · rw [ha2, hb2]
      · simp only [ha2, hb2, parseAddr_same hcd (Nat.zero_le _), hcd, parseEnd,
          strtol_same 16 (by decide) hcd2 (Nat.zero_le _), hcd2]
    simp only [ha, hb, hcd, hrange]

/-! ### Where two characters are skipped -/

theorem exists_eq_cons {texts : List String} {x : String} (h : texts[1]? = some x) : ∃ t rest, texts = t :: x :: rest := by
  rcases texts with _ | ⟨t, _ | ⟨u, rest⟩⟩
  · cases h
  · cases h
  · cases h
    exact ⟨t, rest, rfl⟩

theorem exists_eq_cons_cons {texts : List String} {x y : String} (h1 : texts[1]? = some x) (h2 : texts[2]? = some y) :
    ∃ t rest, texts = t :: x :: y :: rest := by
  obtain ⟨t, _ | ⟨z, rest⟩, rfl⟩ := exists_eq_cons h1
  · cases h2
  · cases h2
    exact ⟨t, rest, rfl⟩

theorem two_le_length {text : String} (hne : text ≠ "") (h1 : text.length ≠ 1) : 2 ≤ text.length := by
  have : text.length ≠ 0 := fun h => hne (String.length_eq_zero_iff.mp h)
  omega

/-- The address of `breakpoint`, also where a function is named -/
theorem handleBreakpointSet_same (h : a.texts = b.texts) (hne : ∀ t ∈ a.texts, t ≠ "") (h1 : 1 ≤ a.texts.length)
    (hw : Handler.breakpointSet.Within a.texts) : handleBreakpointSet env a = handleBreakpointSet env b := by
  unfold handleBreakpointSet
  rcases arg_cases h h1 with ⟨ha, hb⟩ | ⟨c, d, ha, hb, hcd, htext, h2⟩
  · rw [ha, hb]
  · rcases arg_cases h h2 with ⟨ha2, hb2⟩ | ⟨c2, d2, ha2, hb2, -⟩
    · have hlen : 2 ≤ c.text.length := by
        refine two_le_length (hne _ (List.mem_of_getElem? htext)) ?_
        rcases htexts : a.texts with _ | ⟨t, _ | ⟨u, _ | ⟨v, rest⟩⟩⟩
        · simp [htexts] at h1
        · simp [htexts] at htext
        · rw [htexts] at htext
          cases htext
          exact hw t c.text htexts
        · have := Argv.arg_text (a := a) h2
          rw [ha2, htexts] at this
          cases this
      simp only [ha, hb, strtol_same 16 (by decide) hcd hlen, char_same hcd (Nat.zero_le _), hcd, extra_same (k := 2) h h2]
    · simp only [ha, hb, ha2, hb2, Option.isSome_some, when_true, invalidArguments, reject_bind]

theorem parseId_same {c d : CStr} (h : c.text = d.text) (tooLarge : String) : parseId c tooLarge = parseId d tooLarge := by
  rw [parseId, strtol_same 10 (by decide) h (Nat.zero_le _), parseId]

theorem withTarget_same (h : a.texts = b.texts) (hne : ∀ t ∈ a.texts, t ≠ "") (h1 : 1 ≤ a.texts.length)
    (hw : TargetWithin a.texts) (usage : List Output) (tooLarge invalid : String) (byId : Nat → UiM Unit) (byAddr : Addr → UiM Unit) :
    withTarget usage tooLarge invalid byId byAddr a = withTarget usage tooLarge invalid byId byAddr b := by
  unfold withTarget
  rcases arg_cases h h1 with ⟨ha, hb⟩ | ⟨c, d, ha, hb, hcd, htext, h2⟩
  · rw [ha, hb]
  · rcases arg_cases h h2 with ⟨ha2, hb2⟩ | ⟨c2, d2, ha2, hb2, hcd2, htext2, -⟩
    · simp only [ha, hb, ha2, hb2, hcd, parseId_same hcd]
    · by_cases hoption : c.text = "-a"
      · obtain ⟨t, rest, htexts⟩ := exists_eq_cons_cons htext htext2
        have hlen := two_le_length (hne _ (List.mem_of_getElem? htext2)) (hw t c2.text rest (hoption ▸ htexts))
        simp only [ha, hb, ha2, hb2, hcd, parseId_same hcd, parseAddr_same hcd2 hlen]
      · have hoption' : d.text ≠ "-a" := hcd ▸ hoption
        simp only [ha, hb, ne_eq, hoption, hoption', not_false_eq_true, if_true, parseId_same hcd]

/-- `memory_read` does not come to its address where it refuses the number of rows. -/
theorem parseRows_refuse {α : Type} {c : CStr} (h : ¬RowsText c.text) (f g : Nat → UiM α) :
    (parseRows (some c) >>= f) = (parseRows (some c) >>= g) := by
  unfold parseRows
  generalize hr : Numeral.strtol 10 (c.from 0) = r
  have hbad : r.range = true ∨ asInt r.value ≤ 0 ∨ ¬r.atEnd = true := by
    rw [CStr.strtol_from (by decide) (Nat.zero_le _), List.drop_zero] at hr
    subst hr
    by_contra hgood
    obtain ⟨hrange, hpos, hend⟩ := accepted_iff.mp hgood
    rcases Numeral.denotes_of_strtol c.nonul hrange hend with hempty | ⟨hden, hn⟩
    · rw [hempty] at hpos
      exact hpos (by decide)
    · exact h ⟨_, hden, hn, Int.not_le.mp hpos⟩
  simp only [Exec.bind_assoc, converted_bind, hr, when_reject_bind hbad, reject_bind]

/-- The part of `handle_read_memory` after its texts are told apart -/
theorem readMemory_same {c d : CStr} {r r' : Option CStr} (hcd : c.text = d.text) (hne : c.text ≠ "")
    (hrows : r.map CStr.text = r'.map CStr.text) (hw : (∀ x, r = some x → RowsText x.text) → c.text.length ≠ 1)
    (f : Nat → Addr → UiM Unit) :
    (parseRows r >>= fun n => do
      Exec.when (c.text = "0x") (reject [.error "Invalid Address" [], .instruction "Ex: memory_read 0x1234"])
      f n (← parseAddr (c.from 2) [.error "Invalid address: %s" [.str c.text]])) =
    (parseRows r' >>= fun n => do
      Exec.when (d.text = "0x") (reject [.error "Invalid Address" [], .instruction "Ex: memory_read 0x1234"])
      f n (← parseAddr (d.from 2) [.error "Invalid address: %s" [.str d.text]])) := by
  have hr : parseRows r = parseRows r' := by
    cases r with
    | none =>
      obtain rfl : r' = none := Option.map_eq_none_iff.mp hrows.symm
      rfl
    | some x =>
      obtain ⟨y, rfl, hxy⟩ := Option.map_eq_some_iff.mp hrows.symm
      exact parseRows_same hxy.symm
  by_cases hlen : c.text.length = 1
  · rw [← hr]
    obtain ⟨x, rfl, hx⟩ : ∃ x, r = some x ∧ ¬RowsText x.text := by
      by_contra hall
      exact hw (fun x hx => by_contra fun hnot => hall ⟨x, hx, hnot⟩) hlen
    exact parseRows_refuse hx _ _
  · have hwhen : ∀ x : UiM Unit, Exec.when (c.text = "0x") x = Exec.when (d.text = "0x") x := fun x => by rw [hcd]
    simp only [hr, hwhen, parseAddr_same hcd (two_le_length hne hlen), hcd]

theorem readTexts_table {t option addr : String} {texts : List String} (h : "-t".toList.isPrefixOf option.toList = true) :
    readTexts (t :: option :: addr :: texts) = some (addr, texts.head?) := if_pos h

theorem readTexts_plain {t text : String} {texts : List String} (h : ¬"-t".toList.isPrefixOf text.toList = true) :
    readTexts (t :: text :: texts) = some (text, texts.head?) := if_neg h

theorem handleReadMemory_same (h : a.texts = b.texts) (hne : ∀ t ∈ a.texts, t ≠ "") (h1 : 1 ≤ a.texts.length)
    (hw : Handler.readMemory.Within a.texts) : handleReadMemory env a = handleReadMemory env b := by
  have hsame : ∀ {k : Nat}, k ≤ a.texts.length → (a.arg k).map CStr.text = (b.arg k).map CStr.text := fun hk => by
    rw [Argv.arg_text hk, Argv.arg_text (h ▸ hk), h]
  have hrows : ∀ {k : Nat}, k ≤ a.texts.length → (∀ x, a.arg k = some x → RowsText x.text) →
      ∀ r, a.texts[k]? = some r → RowsText r := fun hk hall r hr => by
    obtain ⟨x, hx, rfl⟩ := Option.map_eq_some_iff.mp ((Argv.arg_text hk).trans hr)
    exact hall x hx
  unfold handleReadMemory
  rcases arg_cases h h1 with ⟨ha, hb⟩ | ⟨c, d, ha, hb, hcd, htext, h2⟩
  · simp only [ha, hb, Option.any_none, Bool.false_eq_true, if_false]
  · have hstart : d.startsWith "-t" = c.startsWith "-t" := by rw [CStr.startsWith, CStr.startsWith, hcd]
    simp only [ha, hb, Option.any_some, hstart]
    by_cases ht : c.startsWith "-t" = true
    · simp only [if_pos ht]
      rcases arg_cases h h2 with ⟨ha2, hb2⟩ | ⟨c2, d2, ha2, hb2, hcd2, htext2, h3⟩
      · simp only [ha2, hb2]
      · simp only [ha2, hb2]
        refine readMemory_same hcd2 (hne _ (List.mem_of_getElem? htext2)) (hsame h3) (fun hall => ?_)
          (readAt env (c.startsWith "-t"))
        obtain ⟨t, rest, htexts⟩ := exists_eq_cons_cons htext htext2
        rw [htexts] at hw
        refine hw c2.text rest.head? (readTexts_table ht) fun r hr => hrows h3 hall r ?_
        rw [htexts, ← hr, List.head?_eq_getElem?]
        rfl
    · simp only [if_neg ht]
      refine readMemory_same hcd (hne _ (List.mem_of_getElem? htext)) (hsame h2) (fun hall => ?_)
        (readAt env (c.startsWith "-t"))
      obtain ⟨t, rest, htexts⟩ := exists_eq_cons htext
      rw [htexts] at hw
      refine hw c.text rest.head? (readTexts_plain ht) fun r hr => hrows h2 hall r ?_
      rw [htexts, ← hr, List.head?_eq_getElem?]
      rfl

theorem strtoul_same {base k : Nat} {c d : CStr} (hb : base ≤ 36) (h : c.text = d.text) (hk : k ≤ c.text.length) :
    Numeral.strtoul base (c.from k) = Numeral.strtoul base (d.from k) := by
  rw [CStr.strtoul_from hb hk, CStr.strtoul_from hb (h ▸ hk), h]

/-- A value has two characters where two are skipped. -/
theorem two_le_of_hex {c : CStr} (hne : c.text ≠ "") (hx : c.char 1 = 'x') : 2 ≤ c.text.length := by
  refine two_le_length hne fun h1 => ?_
  rw [CStr.char_eq (Nat.le_of_eq h1.symm), List.drop_eq_nil_of_le (by rw [String.length_toList, h1])] at hx
  exact absurd hx (by decide)

/-- The bytes of the values -/
theorem collectBytes_same : ∀ (as bs : List CStr) (bytes : List Byte), as.map CStr.text = bs.map CStr.text →
    (∀ c ∈ as, c.text ≠ "") → collectBytes as bytes = collectBytes bs bytes
  | [], [], _, _, _ => rfl
  | [], _ :: _, _, h, _ => by cases h
  | _ :: _, [], _, h, _ => by cases h
  | c :: as, d :: bs, bytes, h, hne => by
    obtain ⟨hcd, hrest⟩ := List.cons.inj h
    have hc := hne c (List.mem_cons_self ..)
    have ih := fun bytes => collectBytes_same as bs bytes hrest fun x hx => hne x (List.mem_cons_of_mem _ hx)
    have h0 : c.char 0 = d.char 0 := char_same hcd (Nat.zero_le _)
    have h1 : c.char 1 = d.char 1 := char_same hcd (Nat.pos_of_ne_zero fun h => hc (String.length_eq_zero_iff.mp h))
    unfold collectBytes
    rw [h0, h1, hcd]
    by_cases hhex : d.char 0 = '0' ∧ d.char 1 = 'x'
    · have hr := strtoul_same (show 16 ≤ 36 by decide) hcd (two_le_of_hex hc (h1.trans hhex.2))
      simp only [if_pos hhex, hr, ih]
    · have hr := strtoul_same (show 10 ≤ 36 by decide) hcd (Nat.zero_le _)
      simp only [if_neg hhex, hr, ih]

theorem handleWriteMemory_same (h : a.texts = b.texts) (hne : ∀ t ∈ a.texts, t ≠ "") (h1 : 1 ≤ a.texts.length)
    (hw : Handler.writeMemory.Within a.texts) : handleWriteMemory env a = handleWriteMemory env b := by
  unfold handleWriteMemory
  rcases arg_cases h h1 with ⟨ha, hb⟩ | ⟨c, d, ha, hb, hcd, htext, h2⟩
  · rw [ha, hb]
  · rcases arg_cases h h2 with ⟨ha2, hb2⟩ | ⟨c2, d2, ha2, hb2, hcd2, htext2, -⟩
    · simp only [ha, hb, ha2, hb2]
    · obtain ⟨t, rest, htexts⟩ := exists_eq_cons_cons htext htext2
      have hlen := two_le_length (hne _ (List.mem_of_getElem? htext)) (hw t c.text c2.text rest htexts)
      have hvalues : ∀ addr, writeAt env (a.tokens.drop 2) addr = writeAt env (b.tokens.drop 2) addr := fun addr => by
        unfold writeAt
        rw [collectBytes_same (a.tokens.drop 2) (b.tokens.drop 2)]
        · rw [List.map_drop, List.map_drop]
          exact congrArg (List.drop 2) h
        · intro x hx
          exact hne _ (List.mem_map_of_mem (List.mem_of_mem_drop hx))
      have hwhen : ∀ x : UiM Unit, Exec.when (c.text = "0x") x = Exec.when (d.text = "0x") x := fun x => by rw [hcd]
      simp only [ha, hb, ha2, hb2, hwhen, parseAddr_same hcd hlen, hcd2, hvalues]

/-- A text of one character does not begin like a hexadecimal number. -/
theorem one_char {c : CStr} (hlen : c.text.length = 1) (hzero : c.text ≠ "0") : c.char 1 ≠ 'x' ∧ c.char 0 ≠ '0' := by
  obtain ⟨x, hx⟩ := List.length_eq_one_iff.mp ((String.length_toList (s := c.text)).trans hlen)
  rw [CStr.char_eq (Nat.le_of_eq hlen.symm), CStr.char_eq (Nat.zero_le _), hx]
  refine ⟨(by decide : '\x00' ≠ 'x'), ?_⟩
  rintro rfl
  exact hzero (String.toList_inj.mp hx)

/-- The value of `set_reg`, and the slot behind the `NULL` that it comes to look at -/
theorem handleSetReg_same (h : a.texts = b.texts) (hne : ∀ t ∈ a.texts, t ≠ "") (h1 : 1 ≤ a.texts.length)
    (hw : Handler.setReg.Within a.texts) : handleSetReg env a = handleSetReg env b := by
  unfold handleSetReg
  rcases arg_cases h h1 with ⟨ha, hb⟩ | ⟨c, d, ha, hb, hcd, htext, h2⟩
  · simp only [ha, hb]
  · rcases arg_cases h h2 with ⟨ha2, hb2⟩ | ⟨c2, d2, ha2, hb2, hcd2, htext2, h3⟩
    · simp only [ha, hb, ha2, hb2]
    · have hc2 := hne _ (List.mem_of_getElem? htext2)
      obtain ⟨t, _ | ⟨u, rest⟩, htexts⟩ := exists_eq_cons_cons htext htext2
      · exact absurd (congrArg List.length htexts) hw.1
      · have h4 : 4 ≤ a.texts.length := by simp [htexts]
        rcases arg_cases h h4 with ⟨ha4, hb4⟩ | ⟨c4, d4, ha4, hb4, -, htext4, -⟩
        · have hrest : rest[0]? = none := by
            have := Argv.arg_text h4
            rw [ha4, htexts] at this
            exact this.symm
          obtain rfl := List.getElem?_eq_none_iff.mp hrest |> List.eq_nil_of_length_eq_zero ∘ Nat.le_zero.mp
          have hinvalid : ∀ x : UiM Unit, Exec.when (c2.char 1 ≠ 'x' ∧ c2.char 0 ≠ '0') x =
              Exec.when (d2.char 1 ≠ 'x' ∧ d2.char 0 ≠ '0') x := fun x => by
            rw [char_same hcd2 (Nat.zero_le _),
              char_same hcd2 (Nat.pos_of_ne_zero fun h => hc2 (String.length_eq_zero_iff.mp h))]
          simp only [ha, hb, ha2, hb2, extra_same h h4, hcd, hinvalid]
          cases hreg : findRegisterByName d.text with
          | none => rfl
          | some reg =>
            by_cases hlen : c2.text.length = 1
            · have hzero : c2.text ≠ "0" := hw.2 t c.text c2.text u htexts (by rw [hcd, hreg]; rfl)
              have hbad := one_char (hcd2 ▸ hlen) (hcd2 ▸ hzero)
              simp only [when_reject_bind hbad]
            · simp only [strtol_same 16 (by decide) hcd2 (two_le_length hc2 hlen), hcd2]
        · simp only [ha, hb, ha2, hb2, ha4, hb4, Option.isSome_some, invalidArguments, when_reject_bind]

/-- On command lines of the same tokens, a handler that stays within them does the same. -/
theorem Handler.onlyTokens_of_within {handler : Handler} {tokens : List String} (hne : ∀ t ∈ tokens, t ≠ "")
    (htokens : tokens ≠ []) (hw : handler.Within tokens) : handler.OnlyTokens tokens := by
  rintro env a b rfl hb
  have h : a.texts = b.texts := hb.symm
  have h1 : 1 ≤ a.texts.length := List.length_pos_iff.mpr htokens
  have hbody : handler.body env a = handler.body env b := by
    cases handler with
    | help => exact handleHelp_same h h1
    | exit => rfl
    | «continue» => rfl
    | breakpointSet => exact handleBreakpointSet_same h hne h1 hw
    | file => exact handleFile_same h h1
    | attach => exact handleAttach_same h h1
    | disassemble => exact handleDisassemble_same h h1
    | disableBreakpoint => exact withTarget_same h hne h1 hw _ _ _ _ _
    | enableBreakpoint => exact withTarget_same h hne h1 hw _ _ _ _ _
    | deleteBreakpoint => exact withTarget_same h hne h1 hw _ _ _ _ _
    | readMemory => exact handleReadMemory_same h hne h1 hw
    | writeMemory => exact handleWriteMemory_same h hne h1 hw
    | setArgs => simp only [Handler.body, handleSetArgs, h]
    | setReg => exact handleSetReg_same h hne h1 hw
    | setAlias => exact handleSetAlias_same h h1
    | info => simp only [Handler.body, handleInfo, isSome_arg h h1]
    | set => simp only [Handler.body, handleSet, isSome_arg h h1]
    | addInferior => simp only [Handler.body, handleAddInferior, extra_same h h1]
    | run => simp only [Handler.body, handleRun, extra_same h h1]
    | stepInst => simp only [Handler.body, handleStepInst, extra_same h h1]
    | infoRegisters => simp only [Handler.body, handleInfoRegisters, extra_same h h1]
    | infoArgs => simp only [Handler.body, handleInfoArgs, extra_same h h1]
    | infoAuxv => simp only [Handler.body, handleInfoAuxv, extra_same h h1]
    | infoBreakpoints => simp only [Handler.body, handleInfoBreakpoints, extra_same h h1]
    | infoInferiors => simp only [Handler.body, handleInfoInferiors, extra_same h h1]
    | infoAlias => simp only [Handler.body, handleInfoAlias, extra_same h h1]
  rw [Handler.call, hbody, Handler.call]

end

/-! ### What depends on more

Of two command lines of the same tokens, one has nothing behind them, and the other has the digits of a number that is too
large behind each, or a slot that is not `NULL`. -/

section
variable {handler : Handler} {line : CStr} {s : Session}

/-- The command line of `line`, with `beyond` behind each token -/
def CStr.argv (line : CStr) (beyond : List Char) (slots : List (Option CStr)) : Argv :=
  ⟨line.tokens fun _ => beyond, slots⟩

theorem texts_argv {beyond : List Char} {slots : List (Option CStr)} : (line.argv beyond slots).texts = strtok ' ' line.text :=
  texts_tokens line _

theorem argv_arg (beyond : List Char) (slots : List (Option CStr)) {texts : List String} (htexts : strtok ' ' line.text = texts)
    (k : Nat) {text : String} (h : texts[k]? = some text) :
    ∃ c, (line.argv beyond slots).arg k = some c ∧ c.text = text ∧ c.beyond = beyond := by
  have htexts : (line.argv beyond slots).texts = texts := texts_argv.trans htexts
  obtain ⟨c, hc, htext⟩ := Argv.arg_some ((congrArg (·[k]?) htexts).trans h)
  refine ⟨c, hc, htext, ?_⟩
  obtain ⟨hk, -⟩ := List.getElem?_eq_some_iff.mp h
  rw [← htexts, Argv.length_texts] at hk
  rw [Argv.arg_of_lt hk] at hc
  cases hc
  simp [CStr.argv, CStr.tokens]

theorem argv_none {beyond : List Char} {slots : List (Option CStr)} {texts : List String} {k : Nat}
    (htexts : strtok ' ' line.text = texts) (hk : texts.length = k) : ¬((line.argv beyond slots).arg k).isSome = true := by
  rw [Argv.arg_none ((congrArg List.length (texts_argv.trans htexts)).trans hk)]
  exact Bool.false_ne_true

/-- The slot behind the `NULL` -/
theorem argv_slot {beyond : List Char} {slot : Option CStr} {texts : List String} (htexts : strtok ' ' line.text = texts) :
    (line.argv beyond [slot]).arg (texts.length + 1) = slot := by
  have hlen : (line.tokens fun _ => beyond).length = texts.length := by
    rw [← htexts, ← texts_tokens line fun _ => beyond, List.length_map]
  unfold Argv.arg CStr.argv
  rw [List.getElem?_append_right (by simp [hlen])]
  simp [hlen]

theorem not_onlyTokens {env : UiEnv} {a b : Argv} {tokens : List String} (P : Session → Prop) (ha : a.texts = tokens)
    (hb : b.texts = tokens) (hholds : wp (fun _ _ => False) (handler.body env a) (fun _ => P) (fun _ => P) s)
    (hfails : wp (fun _ _ => False) (handler.body env b) (fun _ t => ¬P t) (fun _ t => ¬P t) s) :
    ¬handler.OnlyTokens tokens := by
  intro h
  have hcall : ∀ {R : Session → Prop} {command : Argv},
      wp (fun _ _ => False) (handler.body env command) (fun _ => R) (fun _ => R) s →
      wp (fun _ _ => False) (handler.call env command) (fun _ => R) (fun _ _ => False) s := fun hbody => by
    unfold Handler.call
    rw [wp_catching, wp_bind]
    exact hbody
  have hboth := hcall hholds
  rw [h env a b ha hb] at hboth
  exact not_wp_false ((hboth.and (hcall hfails)).imp (fun _ _ hP => hP.2 hP.1) fun _ _ hP => hP.2)

/-- What is behind a token of one character decides on `errno`. -/
inductive Behind : List Char → Errno → Prop where
  | nothing : Behind [] 0
  | tooLarge : Behind (List.replicate 16 'f') ERANGE

variable {beyond : List Char} {e : Errno}

theorem Behind.errno_eq (hb : Behind beyond e) : (if (Numeral.strtol 16 beyond).range then ERANGE else 0) = e := by
  cases hb <;> decide

/-- A system without memory -/
def UiEnv.starved : UiEnv := UiEnv.on { Env.compliant with malloc := fun _ => false }

/-- A command leaves `errno` with the value `e`. -/
structure Leaves {α : Type} (e : Errno) (x : UiM α) (s : Session) : Prop where
  run : wp (fun _ _ => False) x (fun _ t => t.state.scratch.errno = e) (fun _ t => t.state.scratch.errno = e) s

theorem Handler.not_onlyTokens_of_leaves (env : UiEnv) (s : Session)
    (h : ∀ {beyond e}, Behind beyond e → Leaves e (handler.body env (line.argv beyond [])) s) :
    ¬handler.OnlyTokens (strtok ' ' line.text) :=
  not_onlyTokens (fun t => t.state.scratch.errno = 0) texts_argv texts_argv (h .nothing).run
    ((h .tooLarge).run.imp (fun _ _ herrno => herrno ▸ by decide) fun _ _ herrno => herrno ▸ by decide)

theorem leaves_parseAddr {c : CStr} {α : Type} {f : Addr → UiM α} (hb : Behind beyond e) (hc : c.beyond = beyond)
    (hlen : c.text.length = 1) (outputs : List Output) (s : Session) : Leaves e (parseAddr (c.from 2) outputs >>= f) s := by
  rw [CStr.from_two hlen, hc]
  have hbad : (Numeral.strtol 16 beyond).range = true ∨ asAddr (Numeral.strtol 16 beyond).value = 0 := by
    cases hb
    · exact Or.inr (by decide)
    · exact Or.inl (by decide)
  rw [parseAddr_refuse rfl (hbad.imp_right Or.inl), hb.errno_eq]
  refine ⟨?_⟩
  simp only [Exec.bind_assoc, reject_bind, wp_bind, wp_sys, wp_setErrno, wp_reject]
  rfl

theorem leaves_withTarget {t text : String} {rest : List String} (hb : Behind beyond e)
    (htexts : strtok ' ' line.text = t :: "-a" :: text :: rest) (hlen : text.length = 1) (usage : List Output)
    (tooLarge invalid : String) (byId : Nat → UiM Unit) (byAddr : Addr → UiM Unit) (s : Session) :
    Leaves e (withTarget usage tooLarge invalid byId byAddr (line.argv beyond [])) s := by
  obtain ⟨c, hc, hct, -⟩ := argv_arg beyond [] htexts 1 rfl
  obtain ⟨d, hd, rfl, hdb⟩ := argv_arg beyond [] htexts 2 rfl
  unfold withTarget
  simp only [hc, hct, hd]
  exact leaves_parseAddr hb hdb hlen _ s

theorem leaves_parseRows {rows : Option CStr} (h : ∀ r, rows = some r → RowsText r.text) {f : Nat → UiM Unit}
    (hf : ∀ n s, Leaves e (f n) s) (s : Session) : Leaves e (parseRows rows >>= f) s := by
  cases rows with
  | none => exact hf 1 s
  | some r =>
    obtain ⟨n, hden, hover, hpos⟩ := h r rfl
    have hgood : ¬((false : Bool) = true ∨ asInt n ≤ 0 ∨ ¬(true : Bool) = true) := accepted_iff.mpr ⟨rfl, Int.not_le.mpr hpos, rfl⟩
    simp only [parseRows, CStr.strtol_from (show 10 ≤ 36 by decide) (Nat.zero_le _), List.drop_zero,
      hden.strtol_eq (show 10 ≤ 36 by decide) hover, converted_bind, Exec.bind_assoc, when_false hgood, pure_bind]
    refine ⟨?_⟩
    simp only [wp_bind, wp_sys, wp_setErrno]
    split
    · exact (hf 16 _).run
    · exact (hf _ _).run

theorem leaves_readMemory {addr : String} {rows : Option String} (hb : Behind beyond e)
    (htexts : readTexts (strtok ' ' line.text) = some (addr, rows)) (hrows : ∀ r, rows = some r → RowsText r)
    (hlen : addr.length = 1) (s : Session) : Leaves e (handleReadMemory .starved (line.argv beyond [])) s := by
  have hne : ∀ {c : CStr}, c.text = addr → ¬c.text = "0x" := fun hc h => by
    rw [← hc, h] at hlen
    exact absurd hlen (by decide)
  have hrow : ∀ {k : Nat} {r : CStr}, k ≤ (strtok ' ' line.text).length → (line.argv beyond []).arg k = some r →
      (strtok ' ' line.text)[k]? = rows → RowsText r.text := fun {k r} hk hr heq => by
    have htext : some r.text = (line.argv beyond []).texts[k]? := by
      rw [← Argv.arg_text (by rwa [texts_argv]), hr, Option.map_some]
    rw [texts_argv] at htext
    exact hrows _ (heq.symm.trans htext.symm)
  rcases hline : strtok ' ' line.text with _ | ⟨t, _ | ⟨option, texts⟩⟩
  · rw [hline] at htexts
    cases htexts
  · rw [hline] at htexts
    cases htexts
  obtain ⟨c, hc, hct, hcb⟩ := argv_arg beyond [] hline 1 rfl
  rw [hline] at htexts
  unfold handleReadMemory
  by_cases ht : "-t".toList.isPrefixOf option.toList = true
  · have hstart : c.startsWith "-t" = true := by rw [CStr.startsWith, hct, ht]
    rcases texts with _ | ⟨text, texts⟩
    · rw [readTexts, if_pos ht] at htexts
      cases htexts
    · rw [readTexts_table ht] at htexts
      cases htexts
      obtain ⟨d, hd, hdt, hdb⟩ := argv_arg beyond [] hline 2 rfl
      simp only [hc, hd, Option.any_some, hstart, if_true, when_false (hne hdt), pure_bind]
      refine leaves_parseRows (fun r hr => hrow (by simp [hline]) hr ?_) (fun n s => leaves_parseAddr hb hdb (hdt ▸ hlen) _ s) s
      rw [hline, List.head?_eq_getElem?]
      rfl
  · have hstart : ¬c.startsWith "-t" = true := by rwa [CStr.startsWith, hct]
    rw [readTexts_plain ht] at htexts
    cases htexts
    simp only [hc, Option.any_some, if_neg hstart, when_false (hne hct), pure_bind]
    refine leaves_parseRows (fun r hr => hrow (by simp [hline]) hr ?_) (fun n s => leaves_parseAddr hb hcb (hct ▸ hlen) _ s) s
    rw [hline, List.head?_eq_getElem?]
    rfl

theorem leaves_writeMemory {t text value : String} {rest : List String} (hb : Behind beyond e)
    (htexts : strtok ' ' line.text = t :: text :: value :: rest) (hlen : text.length = 1) (s : Session) :
    Leaves e (handleWriteMemory .starved (line.argv beyond [])) s := by
  obtain ⟨c, hc, rfl, hcb⟩ := argv_arg beyond [] htexts 1 rfl
  obtain ⟨d, hd, hdt, -⟩ := argv_arg beyond [] htexts 2 rfl
  have hne : c.text ≠ "0x" := fun h => by rw [h] at hlen; exact absurd hlen (by decide)
  unfold handleWriteMemory
  simp only [hc, hd, when_false hne, pure_bind]
  exact leaves_parseAddr hb hcb hlen _ s

/-- No symbols are there. -/
theorem leaves_setBreakpointFunction (function : String) {x : Scratch} :
    Leaves x.errno (orLastError (setBreakpointFunction UiEnv.starved.toEnv function)) (Session.on (State.blank.withScratch x)) := by
  refine ⟨?_⟩
  simp only [wp_orLastError, setBreakpointFunction, wp_bind]
  exact rfl

theorem leaves_setAt {x : Scratch} : Leaves x.errno (setAt .starved 0) (Session.on (State.blank.withScratch x)) := by
  refine ⟨?_⟩
  simp only [setAt, wp_bind, wp_orLastError]
  exact rfl

theorem leaves_breakpointSet {t text : String} (hb : Behind beyond e) (htexts : strtok ' ' line.text = [t, text])
    (hlen : text.length = 1) : Leaves e (handleBreakpointSet .starved (line.argv beyond [])) (Session.on State.blank) := by
  obtain ⟨c, hc, rfl, hcb⟩ := argv_arg beyond [] htexts 1 rfl
  have h2 : ¬((line.argv beyond []).arg 2).isSome = true := argv_none htexts rfl
  unfold handleBreakpointSet
  have haddr : (if (Numeral.strtol 16 beyond).range = true ∨ ¬(Numeral.strtol 16 beyond).atEnd = true then 0
      else asAddr (Numeral.strtol 16 beyond).value) = 0 := by
    cases hb <;> decide
  simp only [hc, when_false h2, pure_bind, CStr.from_two hlen, hcb, converted_bind, haddr, hb.errno_eq]
  refine ⟨?_⟩
  simp only [wp_bind, wp_sys, wp_setErrno]
  split
  · exact wp_bind.mpr ((leaves_setBreakpointFunction c.text).run.imp (fun _ _ => id) fun _ _ => id)
  · exact leaves_setAt.run

theorem leaves_setReg {t name u : String} (hb : Behind beyond e) (htexts : strtok ' ' line.text = [t, name, "0", u])
    (hreg : (findRegisterByName name).isSome) (s : Session) :
    Leaves e (handleSetReg .starved (line.argv beyond [])) s := by
  obtain ⟨c, hc, rfl, -⟩ := argv_arg beyond [] htexts 1 rfl
  obtain ⟨d, hd, hdt, hdb⟩ := argv_arg beyond [] htexts 2 rfl
  have h4 : ¬((line.argv beyond []).arg 4).isSome = true := argv_none htexts rfl
  have hzero : ¬(d.char 1 ≠ 'x' ∧ d.char 0 ≠ '0') := by
    rw [CStr.char_eq (k := 0) (Nat.zero_le _), hdt]
    exact fun h => h.2 rfl
  obtain ⟨reg, hreg⟩ := Option.isSome_iff_exists.mp hreg
  unfold handleSetReg
  simp only [hc, hd, hreg, when_false h4, when_false hzero, pure_bind, CStr.from_two (show d.text.length = 1 by rw [hdt]; rfl), hdb,
    converted_bind, hb.errno_eq]
  refine ⟨?_⟩
  simp only [wp_bind, wp_sys, wp_setErrno, wp_when]
  split
  · rfl
  · simp only [wp_orLastError, readRegs]
    rfl

/-- With three tokens, `set_reg` looks at the slot behind the `NULL`. -/
theorem not_onlyTokens_setReg {t name value : String} (htexts : strtok ' ' line.text = [t, name, value]) :
    ¬Handler.setReg.OnlyTokens (strtok ' ' line.text) := by
  have harg : ∀ slot, ∃ c d, (line.argv [] [slot]).arg 1 = some c ∧ (line.argv [] [slot]).arg 2 = some d ∧
      (line.argv [] [slot]).arg 4 = slot := fun slot => by
    obtain ⟨c, hc, -⟩ := argv_arg [] [slot] htexts 1 rfl
    obtain ⟨d, hd, -⟩ := argv_arg [] [slot] htexts 2 rfl
    have hslot := @argv_slot line [] slot _ htexts
    exact ⟨c, d, hc, hd, hslot⟩
  have hnull : ¬(none : Option CStr).isSome = true := Bool.false_ne_true
  let garbage : CStr := ⟨"", by decide, []⟩
  obtain ⟨c, d, hc, hd, h4⟩ := harg none
  obtain ⟨c', d', hc', hd', h4'⟩ := harg (some garbage)
  refine not_onlyTokens (s := Session.on State.blank) (fun t => t.out ≠ [.error "Invalid Arguments" []])
    (a := line.argv [] [none]) (b := line.argv [] [some garbage]) texts_argv texts_argv (show wp _ (Handler.body .starved _ _) _ _ _ from ?_) ?_
  · simp only [Handler.body, handleSetReg, hc, hd]
    rw [h4, when_false hnull, pure_bind]
    split
    · simp [Session.on]
    · simp only [wp_bind, wp_when, wp_reject, wp_converted, wp_orLastError]
      split
      · simp [Session.on]
      · split
        · simp [Session.on]
        · exact (by decide : ([Output.error "Invalid argument" []] : List Output) ≠ [.error "Invalid Arguments" []])
  · simp only [Handler.body, handleSetReg, hc', hd', h4', Option.isSome_some, invalidArguments, when_reject_bind, wp_reject]
    exact not_not.mpr rfl

theorem not_onlyTokens_target (hw : ¬TargetWithin (strtok ' ' line.text))
    (hbody : ∀ env, ∃ usage tooLarge invalid byId byAddr, handler.body env = withTarget usage tooLarge invalid byId byAddr) :
    ¬handler.OnlyTokens (strtok ' ' line.text) := by
  simp only [TargetWithin, not_forall, not_not] at hw
  obtain ⟨t, text, rest, htexts, hlen⟩ := hw
  obtain ⟨usage, tooLarge, invalid, byId, byAddr, heq⟩ := hbody .starved
  refine Handler.not_onlyTokens_of_leaves .starved (Session.on State.blank) fun hb => ?_
  rw [heq]
  exact leaves_withTarget hb htexts hlen _ _ _ _ _ _

/-- A handler that does the same on any two command lines of the tokens of a line stays within them. -/
theorem Handler.within_of_onlyTokens (h : handler.OnlyTokens (strtok ' ' line.text)) :
    handler.Within (strtok ' ' line.text) := by
  by_contra hw
  revert h
  cases handler with
  | setReg =>
    by_cases h3 : (strtok ' ' line.text).length = 3
    · obtain ⟨t, name, value, htexts⟩ := List.length_eq_three.mp h3
      exact not_onlyTokens_setReg htexts
    · obtain ⟨t, name, value, u, htexts, hreg, hzero⟩ : ∃ t name value u, strtok ' ' line.text = [t, name, value, u] ∧
          (findRegisterByName name).isSome ∧ value = "0" := by
        by_contra hall
        exact hw ⟨h3, fun t name value u htexts hreg hzero => hall ⟨t, name, value, u, htexts, hreg, hzero⟩⟩
      subst hzero
      exact Handler.not_onlyTokens_of_leaves .starved (Session.on State.blank) fun hb => leaves_setReg hb htexts hreg (Session.on State.blank)
  | breakpointSet =>
    simp only [Handler.Within, not_forall, not_not] at hw
    obtain ⟨t, text, htexts, hlen⟩ := hw
    exact Handler.not_onlyTokens_of_leaves .starved (Session.on State.blank) fun hb => leaves_breakpointSet hb htexts hlen
  | disableBreakpoint => exact not_onlyTokens_target hw fun env => ⟨_, _, _, _, _, rfl⟩
  | enableBreakpoint => exact not_onlyTokens_target hw fun env => ⟨_, _, _, _, _, rfl⟩
  | deleteBreakpoint => exact not_onlyTokens_target hw fun env => ⟨_, _, _, _, _, rfl⟩
  | readMemory =>
    simp only [Handler.Within, not_forall, not_not] at hw
    obtain ⟨addr, rows, htexts, hrows, hlen⟩ := hw
    exact Handler.not_onlyTokens_of_leaves .starved (Session.on State.blank) fun hb => leaves_readMemory hb htexts hrows hlen (Session.on State.blank)
  | writeMemory =>
    simp only [Handler.Within, not_forall, not_not] at hw
    obtain ⟨t, text, value, rest, htexts, hlen⟩ := hw
    exact Handler.not_onlyTokens_of_leaves .starved (Session.on State.blank) fun hb => leaves_writeMemory hb htexts hlen (Session.on State.blank)
  | _ => exact absurd trivial hw

end

/-- A command depends on its tokens only if and only if it does not come to look behind the `NULL` and each token that it
    skips two characters of has a second one. -/
theorem commands_depend_on_tokens_iff (handler : Handler) (line : CStr) (hline : strtok ' ' line.text ≠ []) :
    handler.OnlyTokens (strtok ' ' line.text) ↔ handler.Within (strtok ' ' line.text) :=
  ⟨Handler.within_of_onlyTokens, Handler.onlyTokens_of_within (fun _ => ne_empty_of_mem_strtok) hline⟩

theorem commands_depend_on_tokens_iff_breakpoint : Handler.breakpointSet.OnlyTokens (strtok ' ' "breakpoint 0x40") := by
  have htokens : strtok ' ' "breakpoint 0x40" = ["breakpoint", "0x40"] := by decide
  refine (commands_depend_on_tokens_iff .breakpointSet ⟨"breakpoint 0x40", by decide, []⟩ (by decide)).mpr ?_
  intro t text htexts
  cases htokens.symm.trans htexts
  decide

/-- `set_reg rax 0x40` is refused where the slot behind its `NULL` happens not to be `NULL`. -/
theorem set_reg_looks_behind_null :
    ¬∀ (handler : Handler) (line : CStr), strtok ' ' line.text ≠ [] → handler.OnlyTokens (strtok ' ' line.text) := by
  intro h
  let line : CStr := ⟨"set_reg rax 0x40", by decide, []⟩
  have htexts : strtok ' ' line.text = ["set_reg", "rax", "0x40"] := by decide
  exact not_onlyTokens_setReg htexts (h .setReg line (by decide))

end Sylvan
