import Sylvan.Theorems.Listing

/-! Where an address is mapped to: inside the content of a segment or not, and what a disassembly from there decodes. -/

namespace Sylvan
open Exec

namespace ProgramHeader

/-- The segment has a byte of file content for `vaddr`. -/
def HasContent (h : ProgramHeader) (vaddr : Addr) : Prop :=
  h.pType = PT_LOAD ∧ h.pVaddr ≤ vaddr ∧ vaddr.toNat - h.pVaddr.toNat < h.pFilesz.toNat

/-- The `size` bytes at `offset` are content of the segment from `vaddr` on. -/
def Within (h : ProgramHeader) (vaddr : Addr) (offset size : Nat) : Prop :=
  h.HasContent vaddr ∧ offset = h.pOffset.toNat + (vaddr.toNat - h.pVaddr.toNat) ∧ 0 < size ∧
    offset + size ≤ h.pOffset.toNat + h.pFilesz.toNat ∧ offset + size < 2 ^ 64

/-- The content does not end before `vaddr`, and not behind the largest offset. -/
def Reaches (h : ProgramHeader) (vaddr : Addr) : Prop :=
  vaddr.toNat - h.pVaddr.toNat < h.pFilesz.toNat ∧ h.pOffset.toNat + h.pFilesz.toNat < 2 ^ 64

instance (h : ProgramHeader) (vaddr : Addr) : Decidable (h.HasContent vaddr) := inferInstanceAs (Decidable (_ ∧ _))

instance (h : ProgramHeader) (vaddr : Addr) (offset size : Nat) : Decidable (h.Within vaddr offset size) :=
  inferInstanceAs (Decidable (_ ∧ _))

instance (h : ProgramHeader) (vaddr : Addr) : Decidable (h.Reaches vaddr) := inferInstanceAs (Decidable (_ ∧ _))

/-- The place in the file, without a wrap -/
def place (h : ProgramHeader) (vaddr : Addr) : Nat := h.pOffset.toNat + (vaddr.toNat - h.pVaddr.toNat)

/-- Where the content ends in the file, without a wrap -/
def contentEnd (h : ProgramHeader) : Nat := h.pOffset.toNat + h.pFilesz.toNat

/-- The place of `vaddr` is larger than every offset, by as much as there are offsets above that of another segment, whose content
    goes on at least as far: the ends are both that far from each other, or both are offsets. -/
def BeyondBy (h h' : ProgramHeader) (vaddr : Addr) : Prop :=
  h'.HasContent vaddr ∧ h.place vaddr = h'.place vaddr + 2 ^ 64 ∧
    (h.place vaddr < h.contentEnd ∧ h.contentEnd ≤ h'.contentEnd + 2 ^ 64 ∨ h.contentEnd < 2 ^ 64 ∧ h.contentEnd ≤ h'.contentEnd)

variable {h h' : ProgramHeader} {vaddr : Addr}

/-- The sum wraps at most once. -/
theorem toNat_offsetOf (hle : h.pVaddr ≤ vaddr) :
    h.place vaddr = (h.offsetOf vaddr).toNat ∨ h.place vaddr = (h.offsetOf vaddr).toNat + 2 ^ 64 := by
  have hoffset := h.pOffset.isLt
  have hlt := vaddr.isLt
  unfold offsetOf place
  rw [BitVec.toNat_add, BitVec.toNat_sub_of_le hle]
  omega

/-- The difference wraps where the content ends before `vaddr`. -/
theorem toNat_sizeFrom (hle : h.pVaddr ≤ vaddr) :
    h.place vaddr ≤ h.contentEnd ∧ h.place vaddr + (h.sizeFrom vaddr).toNat = h.contentEnd ∨
      h.contentEnd < h.place vaddr ∧ h.place vaddr + (h.sizeFrom vaddr).toNat = h.contentEnd + 2 ^ 64 := by
  have hfilesz := h.pFilesz.isLt
  have hlt := vaddr.isLt
  unfold sizeFrom place contentEnd
  rw [BitVec.toNat_sub, BitVec.toNat_sub_of_le hle]
  omega

theorem within_of_reaches (hholds : h.Holds vaddr) (hreaches : h.Reaches vaddr) :
    h.Within vaddr (h.offsetOf vaddr).toNat (h.sizeFrom vaddr).toNat := by
  obtain ⟨hcontent, hend⟩ := hreaches
  have hoffset := toNat_offsetOf hholds.2.1
  have hsize := toNat_sizeFrom hholds.2.1
  unfold place contentEnd at *
  refine ⟨⟨hholds.1, hholds.2.1, hcontent⟩, ?_, ?_, ?_, ?_⟩ <;> omega

theorem within_of_beyond (hholds : h.Holds vaddr) (hbeyond : h.BeyondBy h' vaddr) :
    h'.Within vaddr (h.offsetOf vaddr).toNat (h.sizeFrom vaddr).toNat := by
  obtain ⟨hcontent, hplace, hends⟩ := hbeyond
  have hfilesz := h.pFilesz.isLt
  have hpOffset := h.pOffset.isLt
  have hoffset := toNat_offsetOf hholds.2.1
  have hsize := toNat_sizeFrom hholds.2.1
  have hlt := (h.offsetOf vaddr).isLt
  have hnext := hcontent.2.2
  unfold place contentEnd at *
  refine ⟨hcontent, ?_, ?_, ?_, ?_⟩ <;> omega

/-- There is no other way for the two numbers to be in the content of a segment. -/
theorem reaches_or_beyond (hholds : h.Holds vaddr) (hwithin : h'.Within vaddr (h.offsetOf vaddr).toNat (h.sizeFrom vaddr).toNat) :
    h.Reaches vaddr ∨ h.BeyondBy h' vaddr := by
  obtain ⟨hcontent, hplace, hpos, hfits, hend⟩ := hwithin
  have hoffset := toNat_offsetOf hholds.2.1
  have hsize := toNat_sizeFrom hholds.2.1
  unfold Reaches BeyondBy place contentEnd at *
  by_cases hinside : vaddr.toNat - h.pVaddr.toNat < h.pFilesz.toNat ∧ h.pOffset.toNat + h.pFilesz.toNat < 2 ^ 64
  · exact Or.inl hinside
  · refine Or.inr ⟨hcontent, ?_, ?_⟩ <;> omega

end ProgramHeader

/-- Some segment is loaded so that the byte `b` of the file is at `a`. -/
def LoadedAt (file : OpenFile) (a : Addr) (b : Byte) : Prop :=
  ∃ h ∈ programHeaders file, h.pType = PT_LOAD ∧ (a - h.pVaddr).toNat < h.pFilesz.toNat ∧
    file.bytes[h.pOffset.toNat + (a - h.pVaddr).toNat]? = some b

/-- What the address is mapped to is inside of the content of a segment. -/
def MapsInside (file : OpenFile) (vaddr : Addr) : Prop :=
  ∀ size s, wp (fun _ _ => False) (getFileOffsetFromVaddr file vaddr size)
    (fun r _ => ∀ offset maxSize, r = some (offset, maxSize) → ∃ h ∈ programHeaders file, h.Within vaddr offset.toNat maxSize.toNat)
    (fun _ _ => False) s

/-- A disassembly from the address decodes bytes that are loaded where it says that they are. -/
def DecodesLoaded (file : OpenFile) (vaddr : Addr) : Prop :=
  ∀ (env : UiEnv) s endAddr, env.Decodes → env.fopen s.state.scratch.clock s.state.inf.realpath = .ok file →
    wp (fun _ _ => False) (disassemble env vaddr endAddr)
      (fun r _ => ∀ nodes count, r = some (nodes, count) → ∃ bytes last, Listing env (isNotFunc vaddr endAddr) bytes vaddr 0 nodes last ∧
        ∀ k b, bytes[k]? = some b → LoadedAt file (vaddr + BitVec.ofNat 64 k) b)
      (fun _ _ => False) s

/-- The first segment whose memory holds the address has content from there up to its end; or its place there is beyond that of
    another one with content for the address, by all the offsets there are. -/
def ContentFrom (file : OpenFile) (vaddr : Addr) : Prop :=
  ∀ h, IsElf file → segmentOf file vaddr = some h → h.Reaches vaddr ∨ ∃ h' ∈ programHeaders file, h.BeyondBy h' vaddr

section
variable {file : OpenFile} {bytes : List Byte} {vaddr endAddr : Addr} {h : ProgramHeader} {m : BitVec 64 × BitVec 64}

theorem of_segmentOf (hseg : segmentOf file vaddr = some h) : h ∈ programHeaders file ∧ h.Holds vaddr :=
  ⟨List.mem_of_find?_eq_some hseg, by simpa using List.find?_some hseg⟩

theorem mapping_eq_some (hm : mapping file vaddr = some m) :
    IsElf file ∧ ∃ h, segmentOf file vaddr = some h ∧ m = (h.offsetOf vaddr, h.sizeFrom vaddr) := by
  unfold mapping at hm
  split at hm
  · rename_i helf
    obtain ⟨h, hseg, rfl⟩ := Option.map_eq_some_iff.mp hm
    exact ⟨helf, h, hseg, rfl⟩
  · cases hm

theorem mapsInside_iff : MapsInside file vaddr ↔
    ∀ m, mapping file vaddr = some m → ∃ h ∈ programHeaders file, h.Within vaddr m.1.toNat m.2.toNat := by
  constructor
  · intro hinside m hm
    by_contra hnone
    have hruns : wp (fun _ _ => False) (getFileOffsetFromVaddr file vaddr 0)
        (fun r t => r = mapping file vaddr ∧ (Session.on State.blank).Printed t) (fun _ _ => False) (.on State.blank) :=
      wp_getFileOffsetFromVaddr
    refine not_wp_false (((hinside 0 _).and hruns).imp (fun r t hr => ?_) fun _ _ => And.left)
    exact hnone (hr.1 m.1 m.2 (hr.2.1.trans hm))
  · intro hm size s
    refine wp_getFileOffsetFromVaddr.imp (fun r t hr => ?_) fun _ _ => id
    intro offset maxSize hsome
    exact hm (offset, maxSize) (hr.1.symm.trans hsome)

theorem contentFrom_iff : ContentFrom file vaddr ↔
    ∀ m, mapping file vaddr = some m → ∃ h ∈ programHeaders file, h.Within vaddr m.1.toNat m.2.toNat := by
  constructor
  · intro hcontent m hm
    obtain ⟨helf, h, hseg, rfl⟩ := mapping_eq_some hm
    obtain ⟨hmem, hholds⟩ := of_segmentOf hseg
    rcases hcontent h helf hseg with hreaches | ⟨h', hmem', hbeyond⟩
    · exact ⟨h, hmem, h.within_of_reaches hholds hreaches⟩
    · exact ⟨h', hmem', h.within_of_beyond hholds hbeyond⟩
  · intro hm h helf hseg
    obtain ⟨hmem, hholds⟩ := of_segmentOf hseg
    obtain ⟨h', hmem', hwithin⟩ := hm (h.offsetOf vaddr, h.sizeFrom vaddr) (by
      unfold mapping
      rw [if_pos helf, hseg]
      rfl)
    exact (h.reaches_or_beyond hholds hwithin).imp_right fun hbeyond => ⟨h', hmem', hbeyond⟩

/-- No more bytes than there are in the segment are left of a range. -/
theorem clampedSize_le (size maxSize : BitVec 64) : (clampedSize size maxSize).toNat ≤ maxSize.toNat := by
  unfold clampedSize
  split
  · exact Nat.le_refl _
  · rename_i h
    exact Nat.not_lt.mp fun hlt => h (Or.inl hlt)

theorem loaded_of_within (hcode : codeBytes file vaddr endAddr = some bytes)
    (hm : ∀ m, mapping file vaddr = some m → ∃ h ∈ programHeaders file, h.Within vaddr m.1.toNat m.2.toNat) {k : Nat} {b : Byte}
    (hb : bytes[k]? = some b) : LoadedAt file (vaddr + BitVec.ofNat 64 k) b := by
  obtain ⟨m, hmap, hbytes⟩ := Option.bind_eq_some_iff.mp hcode
  obtain ⟨h, hmem, ⟨htype, hle, hlt⟩, hoffset, -, hsize, hend⟩ := hm m hmap
  have hclamped := clampedSize_le (endAddr - vaddr) m.2
  dsimp only at hbytes
  split at hbytes
  · cases hbytes
    have hk : k < (clampedSize (endAddr - vaddr) m.2).toNat := by
      have := (List.getElem?_eq_some_iff.mp hb).1
      rw [List.length_take] at this
      omega
    have hplace : (vaddr + BitVec.ofNat 64 k - h.pVaddr).toNat = vaddr.toNat - h.pVaddr.toNat + k := by
      have hfilesz := h.pFilesz.isLt
      have hle' : h.pVaddr.toNat ≤ vaddr.toNat := hle
      have hv := vaddr.isLt
      rw [BitVec.toNat_sub, BitVec.toNat_add, BitVec.toNat_ofNat]
      omega
    rw [List.getElem?_take_of_lt hk, List.getElem?_drop] at hb
    refine ⟨h, hmem, htype, by omega, ?_⟩
    rw [hplace, ← Nat.add_assoc, ← hoffset]
    exact hb
  · cases hbytes

theorem decodesLoaded_of_within
    (hm : ∀ m, mapping file vaddr = some m → ∃ h ∈ programHeaders file, h.Within vaddr m.1.toNat m.2.toNat) :
    DecodesLoaded file vaddr := by
  intro env s endAddr hd hopen
  refine (wp_disassemble hd).imp (fun r t hr => ?_) fun _ _ => id
  intro nodes count hsome
  cases hr with
  | refused _ => cases hsome
  | listed file' bytes nodes' last opened found listing =>
    cases opened.symm.trans hopen
    split at hsome
    · cases hsome
      exact ⟨bytes, last, listing, fun k b hb => loaded_of_within found hm hb⟩
    · cases hsome

end

/-- An address is mapped inside of the content of a segment, so that a disassembly from there decodes what is loaded there, if and
    only if the first segment whose memory holds the address has content for it, with an end that is an offset, or an overlapping one
    has content for it exactly `2 ^ 64` before. -/
theorem maps_inside_iff (file : OpenFile) (vaddr : Addr) :
    MapsInside file vaddr ∧ DecodesLoaded file vaddr ↔ ContentFrom file vaddr := by
  constructor
  · intro h
    exact contentFrom_iff.mpr (mapsInside_iff.mp h.1)
  · intro h
    have hm := contentFrom_iff.mp h
    exact ⟨mapsInside_iff.mpr hm, decodesLoaded_of_within hm⟩

/-- A segment with sixteen bytes of content, and sixteen more in memory -/
def bssHeader : ProgramHeader := ⟨PT_LOAD, 120, 0x1000, 16, 32⟩

@[irreducible]
def bssProgram : OpenFile := .whole (oneSegment bssHeader (List.replicate 16 0x90))

/-- The difference of the sizes wraps for an address behind the content. -/
theorem bss_mapped_outside : ¬(MapsInside bssProgram 0x1018 ∧ DecodesLoaded bssProgram 0x1018) := by
  rintro ⟨hinside, -⟩
  have hread : readPhdr (oneSegment bssHeader []) 64 = some bssHeader := by decide +kernel
  have hmapping : mapping bssProgram 0x1018 = some (bssHeader.offsetOf 0x1018, bssHeader.sizeFrom 0x1018) := by
    rw [bssProgram, mapping_oneSegment hread (by decide)]
  have hsegments : programHeaders bssProgram = [bssHeader] := by rw [bssProgram, programHeaders_oneSegment hread]
  obtain ⟨h', hmem, hwithin⟩ := mapsInside_iff.mp hinside _ hmapping
  rw [hsegments, List.mem_singleton] at hmem
  subst hmem
  exact absurd hwithin (by decide)

end Sylvan
