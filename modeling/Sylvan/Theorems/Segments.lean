import Mathlib.Data.List.Basic
import Sylvan.Theorems.Commands

/-! The mapping of addresses to the file: by the first program header of type `PT_LOAD` whose range in memory holds the
    address. -/

namespace Sylvan
open Exec

/-! ### Program headers -/

/-- The program headers from `pos` on, at most `n`, as far as the file has them -/
def headersFrom (file : List Byte) : Nat → Nat → List ProgramHeader
  | 0, _ => []
  | n + 1, pos =>
    match readPhdr file pos with
    | none => []
    | some phdr => phdr :: headersFrom file n (pos + sizeofPhdr)

/-- Where the program headers are read -/
def phdrPos (file : OpenFile) : Nat :=
  if file.seeks (fileField file.bytes 32 8) then (fileField file.bytes 32 8).toNat else sizeofEhdr

/-- The program header table -/
def programHeaders (file : OpenFile) : List ProgramHeader :=
  headersFrom file.bytes (fileField file.bytes 56 2).toNat (phdrPos file)

/-- There is an ELF header. -/
def IsElf (file : OpenFile) : Prop := sizeofEhdr ≤ file.bytes.length ∧ file.bytes.take 4 = ELFMAG

instance (file : OpenFile) : Decidable (IsElf file) := inferInstanceAs (Decidable (_ ∧ _))

namespace ProgramHeader

/-- The range in memory holds `vaddr`, by sums of 64 bits. -/
def Holds (h : ProgramHeader) (vaddr : Addr) : Prop := h.pType = PT_LOAD ∧ h.pVaddr ≤ vaddr ∧ vaddr < h.pVaddr + h.pMemsz

instance (h : ProgramHeader) (vaddr : Addr) : Decidable (h.Holds vaddr) := inferInstanceAs (Decidable (_ ∧ _))

/-- `p_offset + (vaddr - p_vaddr)` -/
def offsetOf (h : ProgramHeader) (vaddr : Addr) : BitVec 64 := h.pOffset + (vaddr - h.pVaddr)

/-- `p_filesz - (vaddr - p_vaddr)` -/
def sizeFrom (h : ProgramHeader) (vaddr : Addr) : BitVec 64 := h.pFilesz - (vaddr - h.pVaddr)

end ProgramHeader

/-- The header that `vaddr` is mapped by -/
def segmentOf (file : OpenFile) (vaddr : Addr) : Option ProgramHeader := (programHeaders file).find? fun h => h.Holds vaddr

/-- What the address is mapped to: the offset in the file, and how many bytes are left there -/
def mapping (file : OpenFile) (vaddr : Addr) : Option (BitVec 64 × BitVec 64) :=
  if IsElf file then (segmentOf file vaddr).map fun h => (h.offsetOf vaddr, h.sizeFrom vaddr) else none

section
variable {file : OpenFile} {bytes : List Byte} {vaddr : Addr} {size : BitVec 64} {s : Session} {F : Fault → Session → Prop} {E : Int → Session → Prop}

/-- Something is printed, and nothing else changes. -/
def Session.Printed (s t : Session) : Prop := ∃ outputs, t = { s with out := s.out ++ outputs }

theorem Session.Printed.refl : s.Printed s := ⟨[], by rw [List.append_nil]⟩

theorem Session.Printed.one {o : Output} : s.Printed { s with out := s.out ++ [o] } := ⟨[o], rfl⟩

theorem wp_findSegment (n i pos : Nat) :
    wp F (findSegment bytes vaddr size n i pos)
      (fun r t => r = (((headersFrom bytes n pos).find? fun h => h.Holds vaddr).map fun h => (h.offsetOf vaddr, h.sizeFrom vaddr)) ∧
        s.Printed t) E s := by
  induction n generalizing i pos with
  | zero => exact ⟨rfl, Session.Printed.one⟩
  | succ n ih =>
    unfold findSegment headersFrom
    cases readPhdr bytes pos with
    | none => exact ⟨rfl, Session.Printed.one⟩
    | some phdr =>
      dsimp only
      by_cases hholds : phdr.Holds vaddr
      · have hcond : phdr.pType = PT_LOAD ∧ phdr.pVaddr ≤ vaddr ∧ vaddr < phdr.pVaddr + phdr.pMemsz := hholds
        rw [if_pos hcond, List.find?_cons_of_pos (by simpa using hholds), wp_bind, wp_when]
        split
        · exact ⟨rfl, Session.Printed.one⟩
        · exact ⟨rfl, Session.Printed.refl⟩
      · have hcond : ¬(phdr.pType = PT_LOAD ∧ phdr.pVaddr ≤ vaddr ∧ vaddr < phdr.pVaddr + phdr.pMemsz) := hholds
        rw [if_neg hcond, List.find?_cons_of_neg (by simpa using hholds)]
        exact ih _ _

theorem wp_getFileOffsetFromVaddr :
    wp F (getFileOffsetFromVaddr file vaddr size) (fun r t => r = mapping file vaddr ∧ s.Printed t) E s := by
  unfold getFileOffsetFromVaddr mapping
  by_cases hshort : file.bytes.length < sizeofEhdr
  · rw [if_pos hshort, if_neg fun h => Nat.not_le.mpr hshort h.1]
    exact ⟨rfl, Session.Printed.one⟩
  rw [if_neg hshort]
  by_cases hmagic : file.bytes.take 4 ≠ ELFMAG
  · rw [if_pos hmagic, if_neg fun h => hmagic h.2]
    exact ⟨rfl, Session.Printed.one⟩
  rw [if_neg hmagic, if_pos ⟨Nat.not_lt.mp hshort, not_not.mp hmagic⟩]
  exact wp_findSegment _ _ _

end

/-! ### A file with one segment -/

/-- A word as it is in the file -/
def fileWord (w : BitVec 64) : List Byte := (List.range 8).map (ByteMemory.byteAt w)

/-- An executable with the one program header `h`, and `body` behind it -/
def oneSegment (h : ProgramHeader) (body : List Byte) : List Byte :=
  ELFMAG ++ List.replicate 28 0 ++ fileWord 64 ++ List.replicate 16 0 ++ [1] ++ List.replicate 7 0 ++
    fileWord h.pType ++ fileWord h.pOffset ++ fileWord h.pVaddr ++ fileWord 0 ++ fileWord h.pFilesz ++ fileWord h.pMemsz ++
      fileWord 0 ++ body

section OneSegment
variable {h : ProgramHeader} {body : List Byte}

theorem oneSegment_eq : oneSegment h body = oneSegment h [] ++ body := by
  unfold oneSegment
  rw [List.append_nil]

theorem length_oneSegment_nil : (oneSegment h []).length = 120 := by simp [oneSegment, fileWord, ELFMAG]

theorem length_oneSegment : (oneSegment h body).length = 120 + body.length := by
  rw [oneSegment_eq, List.length_append, length_oneSegment_nil]

theorem drop_oneSegment : (oneSegment h body).drop 120 = body := by
  rw [oneSegment_eq]
  exact List.drop_left' length_oneSegment_nil

theorem fileField_oneSegment {pos n : Nat} (hpos : pos + n ≤ 120) :
    fileField (oneSegment h body) pos n = fileField (oneSegment h []) pos n := by
  have hwithin : pos + n ≤ (oneSegment h []).length := by rwa [length_oneSegment_nil]
  unfold fileField
  rw [oneSegment_eq, ByteMemory.take_drop_append hwithin]

theorem readPhdr_oneSegment : readPhdr (oneSegment h body) 64 = readPhdr (oneSegment h []) 64 := by
  have hlen : ∀ body, 64 + sizeofPhdr ≤ (oneSegment h body).length := by
    intro body
    rw [length_oneSegment]
    exact Nat.le_add_right ..
  unfold readPhdr
  rw [if_pos (hlen body), if_pos (hlen [])]
  simp only [fileField_oneSegment (show 64 + 4 ≤ 120 by decide), fileField_oneSegment (show 64 + 8 + 8 ≤ 120 by decide),
    fileField_oneSegment (show 64 + 16 + 8 ≤ 120 by decide), fileField_oneSegment (show 64 + 32 + 8 ≤ 120 by decide),
    fileField_oneSegment (show 64 + 40 + 8 ≤ 120 by decide)]

theorem isElf_oneSegment : IsElf (.whole (oneSegment h body)) := by
  refine ⟨?_, ?_⟩
  · show sizeofEhdr ≤ (oneSegment h body).length
    rw [length_oneSegment]
    exact Nat.le_trans (by decide) (Nat.le_add_right ..)
  · show (oneSegment h body).take 4 = ELFMAG
    rw [oneSegment_eq, List.take_append_of_le_length (by rw [length_oneSegment_nil]; decide)]
    rfl

/-- Where the header is read as it was written. -/
theorem programHeaders_oneSegment (hread : readPhdr (oneSegment h []) 64 = some h) :
    programHeaders (.whole (oneSegment h body)) = [h] := by
  have hphoff : fileField (oneSegment h body) 32 8 = 64 := by
    have hbytes : ((oneSegment h []).drop 32).take 8 = [64, 0, 0, 0, 0, 0, 0, 0] := rfl
    rw [fileField_oneSegment (by decide), fileField, hbytes]
    decide
  have hphnum : fileField (oneSegment h body) 56 2 = 1 := by
    have hbytes : ((oneSegment h []).drop 56).take 2 = [1, 0] := rfl
    rw [fileField_oneSegment (by decide), fileField, hbytes]
    decide
  have hpos : phdrPos (.whole (oneSegment h body)) = 64 := by
    show (if OpenFile.seeks _ (fileField (oneSegment h body) 32 8) then (fileField (oneSegment h body) 32 8).toNat else _) = _
    rw [hphoff, OpenFile.seeks_whole]
    rfl
  show headersFrom (oneSegment h body) (fileField (oneSegment h body) 56 2).toNat (phdrPos _) = _
  rw [hpos, hphnum]
  show headersFrom _ 1 64 = _
  unfold headersFrom
  rw [readPhdr_oneSegment, hread]
  rfl

theorem mapping_oneSegment {vaddr : Addr} (hread : readPhdr (oneSegment h []) 64 = some h) (hholds : h.Holds vaddr) :
    mapping (.whole (oneSegment h body)) vaddr = some (h.offsetOf vaddr, h.sizeFrom vaddr) := by
  unfold mapping segmentOf
  rw [if_pos isElf_oneSegment, programHeaders_oneSegment hread, List.find?_cons_of_pos (by simpa using hholds)]
  rfl

end OneSegment

end Sylvan
