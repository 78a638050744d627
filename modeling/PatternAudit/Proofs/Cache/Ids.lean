/-
Ids as names of files.

An id is short, and all its characters are letters and digits, so no id can lead out of the
directory of the cache: with its ending it is one name, and the file of an id is the entry
of that name (`file?_of_isId`). Every new id is an id (`isId_mintId`).
-/
import PatternAudit.Cache.Basic
import PatternAudit.Proofs.Files.Removed
import PatternAudit.Proofs.Lists

set_option autoImplicit false

namespace PatternAudit.Cache

open Files (Path IsName)

theorem isId_iff {s : String} :
    isId s = true ↔ s ≠ "" ∧ s.utf8ByteSize ≤ maxIdLength ∧ ∀ c ∈ s.toList, isIdChar c = true := by
  simp [isId, and_assoc]

/-! ## New ids -/

/-- Hexadecimal digits may stand in an id. -/
theorem isIdChar_of_mem_toDigits {n : Nat} {c : Char} (h : c ∈ Nat.toDigits 16 n) :
    isIdChar c = true := by
  have hdigit : ∀ k < 16, isIdChar (Nat.digitChar k) = true := by decide
  exact of_mem_toDigits (p := fun c => isIdChar c = true) (by decide) hdigit h

/-- A character of an id takes one byte. -/
theorem utf8Size_of_isIdChar {c : Char} (h : isIdChar c = true) : c.utf8Size = 1 := by
  simp only [isIdChar, Text.isLetterAscii, Text.isUpper, Text.isLower, Text.isDigit,
    Bool.or_eq_true, Bool.and_eq_true, decide_eq_true_eq, Char.le_def,
    UInt32.le_iff_toNat_le] at h
  have hZ : 'Z'.val.toNat = 90 := rfl
  have hz : 'z'.val.toNat = 122 := rfl
  have h9 : '9'.val.toNat = 57 := rfl
  have hle : c.val ≤ UInt32.ofNatLT 127 (by decide) := by
    rw [UInt32.le_iff_toNat_le]
    show c.val.toNat ≤ 127
    omega
  rw [Char.utf8Size, if_pos hle]

theorem utf8ByteSize_of_isIdChar {cs : List Char} (h : ∀ c ∈ cs, isIdChar c = true) :
    (String.ofList cs).utf8ByteSize = cs.length := by
  induction cs with
  | nil => rfl
  | cons c cs ih =>
    have hc := utf8Size_of_isIdChar (h c List.mem_cons_self)
    have hcs := ih fun a ha => h a (List.mem_cons_of_mem _ ha)
    rw [String.ofList_cons, String.utf8ByteSize_append, String.utf8ByteSize_singleton, hc, hcs,
      List.length_cons, Nat.add_comm]

theorem isId_eightDigits (n : UInt32) : isId (eightDigits n) = true := by
  have hdigits : (Nat.toDigits 16 n.toNat).length ≤ 8 :=
    (Nat.length_toDigits_le_iff (by decide) (by decide)).2 n.toNat_lt
  rw [eightDigits]
  generalize hcs : List.replicate (8 - (Nat.toDigits 16 n.toNat).length) '0'
    ++ Nat.toDigits 16 n.toNat = cs
  have hlength : cs.length = 8 := by
    rw [← hcs, List.length_append, List.length_replicate]
    omega
  have hchars : ∀ c ∈ cs, isIdChar c = true := by
    intro c hc
    rw [← hcs] at hc
    rcases List.mem_append.1 hc with hzero | hdigit
    · rw [List.eq_of_mem_replicate hzero]
      decide
    · exact isIdChar_of_mem_toDigits hdigit
  have hsize := utf8ByteSize_of_isIdChar hchars
  refine isId_iff.2 ⟨?_, ?_, ?_⟩
  · intro hempty
    rw [hempty, hlength] at hsize
    cases hsize
  · rw [hsize, hlength]
    decide
  · rw [String.toList_ofList]
    exact hchars

/-- Every new id is an id. -/
theorem isId_mintId (now made : Nat) : isId (mintId now made) = true := by
  rw [mintId]
  exact isId_eightDigits _

/-! ## The file of an id -/

section FileName

variable {id : String} (h : isId id = true)

include h

/-- With its ending, an id is one name. -/
theorem isName_of_isId : IsName (id ++ ".json") := by
  obtain ⟨hne, -, -⟩ := isId_iff.1 h
  have hlength : 5 < (id ++ ".json").length := by
    have hpos : 0 < id.length := Nat.pos_of_ne_zero (by simpa using hne)
    rw [String.length_append]
    show 5 < id.length + 5
    omega
  constructor <;> intro hname <;> rw [hname] at hlength <;> revert hlength <;> decide

theorem ofText_of_isId : Path.ofText (id ++ ".json") = ⟨false, [id ++ ".json"]⟩ := by
  have hslash : '/' ∉ (id ++ ".json").toList := by
    rw [String.toList_append, List.mem_append]
    rintro (hc | hc)
    · have hchar := (isId_iff.1 h).2.2 _ hc
      revert hchar
      decide
    · revert hc
      decide
  rw [Path.ofText, Path.split_of_no_slash hslash]
  split
  · rename_i heq
    simp at heq
  · simp

theorem file?_of_isId (c : Cache) :
    c.file? id = c.directory.map fun p => p.append ⟨false, [id ++ ".json"]⟩ := by
  rw [file?, ofText_of_isId h]

end FileName

end PatternAudit.Cache
