import Mathlib.Algebra.Group.Nat.Defs
import Mathlib.Data.List.Basic
import Mathlib.Data.List.Infix
import Mathlib.Tactic.SplitIfs
import RfnmDriver.Vspa.Image

/-!
# The walk to the identity of any file

`findIdentWalk` is `rfnm_vspa_find_ident` in the arithmetic of the source, with reads that may miss
the file and a loop that may run on. For no file do they: `findIdentWalk_eq`. What it returns is
compared with `Points`: the payload of the first section whose whole name is `.rfnm_ident`. A name
that the end of the string table cuts off is taken for it as well, and `points_iff` says when that
matters.
-/

namespace RfnmDriver.Vspa

/-! ## The walk -/

/-- A read beyond the file, or a loop that has not come to its end. -/
inductive Fault
  | outside
  | running
  deriving DecidableEq, Repr

abbrev Walk := Except Fault

def readByte (data : List Byte) (off : UInt64) : Walk Byte :=
  match data[off.toNat]? with
  | some byte => .ok byte
  | none => .error .outside

def readLe16 (data : List Byte) (off : UInt64) : Walk UInt32 := do
  let low ← readByte data off
  let high ← readByte data (off + 1)
  pure (low.toUInt32 + 256 * high.toUInt32)

def readLe32 (data : List Byte) (off : UInt64) : Walk UInt32 := do
  let low ← readLe16 data off
  let high ← readLe16 data (off + 2)
  pure (low + 65536 * high)

/-- The bytes from an offset on are these; the first other one is the last that is read. -/
def readEq (data : List Byte) (off : UInt64) : List Byte → Walk Bool
  | [] => pure true
  | c :: rest => do
      let byte ← readByte data off
      if byte = c then readEq data (off + 1) rest else pure false

/-- `strncmp` with the string at an offset, and whether it comes to 0. -/
def strncmp (data : List Byte) (off : UInt64) : List Byte → Nat → Walk Bool
  | _, 0 => pure true
  | [], _ + 1 => do
      let byte ← readByte data off
      pure (byte == 0)
  | c :: rest, n + 1 => do
      let byte ← readByte data off
      if byte = c then strncmp data (off + 1) rest n else pure false

/-- The variables of `rfnm_vspa_find_ident` at its loop. -/
structure Words where
  shoff : UInt32
  shentsz : UInt32
  shnum : UInt32
  stroff : UInt32
  strsz : UInt32

/-- Up to the loop. -/
def walkSections (data : List Byte) (size : UInt32) : Walk (Option Words) := do
  if size < 0x34 then return none
  if !(← readEq data 0 [0x7f, 0x45, 0x4C, 0x46]) then return none
  if !(← readEq data 4 [1, 1]) then return none
  let shoff ← readLe32 data 0x20
  let shentsz ← readLe16 data 0x2E
  let shnum ← readLe16 data 0x30
  let shstrndx ← readLe16 data 0x32
  if shoff = 0 ∨ shentsz < 0x28 ∨ shnum = 0 ∨ shstrndx ≥ shnum then return none
  if shoff.toUInt64 + shnum.toUInt64 * shentsz.toUInt64 > size.toUInt64 then return none
  let names := shoff.toUInt64 + shstrndx.toUInt64 * shentsz.toUInt64
  let stroff ← readLe32 data (names + 0x10)
  let strsz ← readLe32 data (names + 0x14)
  if stroff.toUInt64 + strsz.toUInt64 > size.toUInt64 then return none
  return some ⟨shoff, shentsz, shnum, stroff, strsz⟩

/-- The loop, with the passes it may still take. -/
def walkHeaders (data : List Byte) (size : UInt32) (words : Words) :
    Nat → UInt32 → Walk (Option UInt64)
  | 0, _ => .error .running
  | fuel + 1, i =>
      if i < words.shnum then do
        let header := words.shoff.toUInt64 + i.toUInt64 * words.shentsz.toUInt64
        let nameoff ← readLe32 data header
        let off ← readLe32 data (header + 0x10)
        let sz ← readLe32 data (header + 0x14)
        if nameoff ≥ words.strsz then walkHeaders data size words fuel (i + 1)
        else if ← strncmp data (words.stroff.toUInt64 + nameoff.toUInt64) identSection
            (words.strsz - nameoff).toNat then
          if sz < 104 ∨ off.toUInt64 + sz.toUInt64 > size.toUInt64 then return none
          else return some off.toUInt64
        else walkHeaders data size words fuel (i + 1)
      else return none

/-- `rfnm_vspa_find_ident`. -/
def findIdentWalk (fuel : Nat) (data : List Byte) (size : UInt32) : Walk (Option UInt64) := do
  match ← walkSections data size with
  | none => return none
  | some words => walkHeaders data size words fuel 0

/-- What the registry passes of a file: its `size_t` becomes an `u32`. -/
def seen (data : List Byte) : List Byte := data.take (data.length % 2 ^ 32)

/-- `rfnm_vspa_find_ident` of a file. -/
def findIdentOf (fuel : Nat) (data : List Byte) : Walk (Option UInt64) :=
  findIdentWalk fuel (seen data) (UInt32.ofNat data.length)

/-! ## What it is to find -/

/-- The bytes at an offset. -/
def BytesAt (data : List Byte) (off : Nat) : List Byte → Prop
  | [] => True
  | c :: rest => byteAt data off = c ∧ BytesAt data (off + 1) rest

/-- The file is a 32 bit little-endian ELF file with this table of sections, and the table and the
section names are in the file. -/
structure SectionTable (data : List Byte) (sections : Sections) : Prop where
  length : 0x34 ≤ data.length
  ident : BytesAt data 0 [0x7f, 0x45, 0x4C, 0x46, 1, 1]
  shoff : sections.shoff = le32 data 0x20 ∧ sections.shoff ≠ 0
  shentsz : sections.shentsz = le16 data 0x2E ∧ 0x28 ≤ sections.shentsz
  shnum : sections.shnum = le16 data 0x30
  shstrndx : le16 data 0x32 < sections.shnum
  within : sections.shoff + sections.shnum * sections.shentsz ≤ data.length
  stroff : sections.stroff =
    le32 data (sections.shoff + le16 data 0x32 * sections.shentsz + 0x10)
  strsz : sections.strsz =
    le32 data (sections.shoff + le16 data 0x32 * sections.shentsz + 0x14)
  names : sections.stroff + sections.strsz ≤ data.length

namespace Sections

variable (sections : Sections) (data : List Byte) (i : Nat)

/-- `sh_name`. -/
def nameoff : Nat := le32 data (sections.shoff + i * sections.shentsz)

/-- The section names from the name of a section on. -/
def tail : List Byte :=
  (data.drop (sections.stroff + sections.nameoff data i)).take
    (sections.strsz - sections.nameoff data i)

/-- The whole name of the section, with the NUL that ends it, is the one looked for. -/
def Whole : Prop := identSection ++ [0] <+: sections.tail data i

/-- The section names end within the name looked for. -/
def Cut : Prop := sections.tail data i ≠ [] ∧ sections.tail data i <+: identSection

instance : Decidable (sections.Whole data i) := inferInstanceAs (Decidable (_ <+: _))

instance : Decidable (sections.Cut data i) := inferInstanceAs (Decidable (_ ∧ _ <+: _))

/-- Where the payload of a section is, if it is in the file and an identity fits in it. -/
def payload : Option Nat :=
  let off := le32 data (sections.shoff + i * sections.shentsz + 0x10)
  let sz := le32 data (sections.shoff + i * sections.shentsz + 0x14)
  if identSize ≤ sz ∧ off + sz ≤ data.length then some off else none

end Sections

/-- The payload of the first section with the whole name. -/
def Points (data : List Byte) (off : Nat) : Prop :=
  ∃ sections, SectionTable data sections ∧
    ∃ i < sections.shnum, sections.Whole data i ∧ (∀ j < i, ¬ sections.Whole data j) ∧
      sections.payload data i = some off

/-- Where the first section with the name or a cut piece of it has a cut one, with a payload, it is
the payload of the first section with the whole name. -/
def CutHarmless (data : List Byte) : Prop :=
  ∀ sections, SectionTable data sections → ∀ i < sections.shnum, sections.Cut data i →
    (∀ j < i, ¬ sections.Whole data j ∧ ¬ sections.Cut data j) →
    ∀ off, sections.payload data i = some off →
      ∃ j < sections.shnum, sections.Whole data j ∧ (∀ k < j, ¬ sections.Whole data k) ∧
        sections.payload data j = some off

/-! ## Reads within the file -/

theorem ok_bind {α β : Type} (value : α) (rest : α → Walk β) :
    (Except.ok value : Walk α) >>= rest = rest value := rfl

theorem le16_lt (data : List Byte) (off : Nat) : le16 data off < 65536 := by
  have hlow := (byteAt data off).toNat_lt
  have hhigh := (byteAt data (off + 1)).toNat_lt
  unfold le16
  omega

section Reads

variable {data : List Byte} (hlen : data.length < 4294967296)

theorem readByte_of_lt {off : UInt64} (h : off.toNat < data.length) :
    readByte data off = .ok (byteAt data off.toNat) := by
  unfold readByte byteAt
  rw [List.getD_eq_getElem?_getD, List.getElem?_eq_getElem h]
  rfl

include hlen

/-- Offsets into the file do not wrap. -/
theorem toNat_off_add {off word : UInt64} (h : off.toNat + word.toNat ≤ data.length) :
    (off + word).toNat = off.toNat + word.toNat := by
  rw [UInt64.toNat_add]
  exact Nat.mod_eq_of_lt (by omega)

theorem toNat_off_succ {off : UInt64} (h : off.toNat < data.length) :
    (off + 1).toNat = off.toNat + 1 := toNat_off_add hlen h

theorem readLe16_of_le {off : UInt64} (h : off.toNat + 2 ≤ data.length) :
    ∃ word, readLe16 data off = .ok word ∧ word.toNat = le16 data off.toNat := by
  have hnext : (off + 1).toNat = off.toNat + 1 := toNat_off_succ hlen (by omega)
  have hlow := (byteAt data off.toNat).toNat_lt
  have hhigh := (byteAt data (off.toNat + 1)).toNat_lt
  refine ⟨(byteAt data off.toNat).toUInt32 + 256 * (byteAt data (off + 1).toNat).toUInt32, ?_, ?_⟩
  · rw [readLe16, readByte_of_lt (by omega), ok_bind, readByte_of_lt (by omega), ok_bind]
    rfl
  · rw [hnext, UInt32.toNat_add, UInt32.toNat_mul, UInt8.toNat_toUInt32, UInt8.toNat_toUInt32]
    unfold le16
    simp
    omega

theorem readLe32_of_le {off : UInt64} (h : off.toNat + 4 ≤ data.length) :
    ∃ word, readLe32 data off = .ok word ∧ word.toNat = le32 data off.toNat := by
  have hnext : (off + 2).toNat = off.toNat + 2 :=
    toNat_off_add hlen (by show off.toNat + 2 ≤ _; omega)
  obtain ⟨low, hreadLow, hlow⟩ := readLe16_of_le hlen (by omega : off.toNat + 2 ≤ data.length)
  obtain ⟨high, hreadHigh, hhigh⟩ :=
    readLe16_of_le hlen (by omega : (off + 2).toNat + 2 ≤ data.length)
  have hlowLt := le16_lt data off.toNat
  have hhighLt := le16_lt data (off + 2).toNat
  refine ⟨low + 65536 * high, ?_, ?_⟩
  · rw [readLe32, hreadLow, ok_bind, hreadHigh, ok_bind]
    rfl
  · rw [UInt32.toNat_add, UInt32.toNat_mul, hlow, hhigh, hnext]
    rw [hnext] at hhighLt
    unfold le32
    simp
    omega

/-- A field of a header. -/
theorem readLe32_field (word : UInt64) {off : UInt64} {header : Nat} (hoff : off.toNat = header)
    (hword : word.toNat + 4 ≤ 0x28) (h : header + 0x28 ≤ data.length) :
    ∃ value, readLe32 data (off + word) = .ok value ∧
      value.toNat = le32 data (header + word.toNat) := by
  have hfield : (off + word).toNat = header + word.toNat :=
    hoff ▸ toNat_off_add hlen (by omega)
  rw [← hfield]
  exact readLe32_of_le hlen (by omega)

theorem readEq_of_le {off : UInt64} {expected : List Byte}
    (h : off.toNat + expected.length ≤ data.length) :
    ∃ same, readEq data off expected = .ok same ∧
      (same = true ↔ BytesAt data off.toNat expected) := by
  induction expected generalizing off with
  | nil => exact ⟨true, rfl, iff_of_true rfl trivial⟩
  | cons c rest ih =>
      rw [List.length_cons] at h
      have hnext : (off + 1).toNat = off.toNat + 1 := toNat_off_succ hlen (by omega)
      obtain ⟨same, hread, hsame⟩ := ih (by omega : (off + 1).toNat + rest.length ≤ data.length)
      rw [readEq, readByte_of_lt (by omega), ok_bind]
      by_cases hbyte : byteAt data off.toNat = c
      · rw [if_pos hbyte]
        exact ⟨same, hread, hsame.trans (hnext ▸ (and_iff_right hbyte).symm)⟩
      · rw [if_neg hbyte]
        exact ⟨false, rfl, iff_of_false Bool.false_ne_true fun hbytes => hbyte hbytes.1⟩

/-- The comparison stays within its bound. -/
theorem strncmp_of_le {off : UInt64} {name : List Byte} {n : Nat}
    (h : off.toNat + n ≤ data.length) :
    strncmp data off name n = .ok (strncmpEq data off.toNat name n) := by
  induction name generalizing off n with
  | nil =>
      cases n with
      | zero => rfl
      | succ n =>
          rw [strncmp, readByte_of_lt (by omega), ok_bind]
          rfl
  | cons c rest ih =>
      cases n with
      | zero => rfl
      | succ n =>
          have hnext : (off + 1).toNat = off.toNat + 1 := toNat_off_succ hlen (by omega)
          rw [strncmp, readByte_of_lt (by omega), ok_bind, strncmpEq]
          by_cases hbyte : byteAt data off.toNat = c
          · rw [if_pos hbyte, ih (by omega), hnext, hbyte, beq_self_eq_true, Bool.true_and]
          · rw [if_neg hbyte, beq_false_of_ne hbyte, Bool.false_and]
            rfl

end Reads

/-! ## The walk of any file -/

/-- The words as the numbers they are. -/
def Words.sections (words : Words) : Sections :=
  ⟨words.shoff.toNat, words.shentsz.toNat, words.shnum.toNat, words.stroff.toNat,
    words.strsz.toNat⟩

/-- The walk comes to these sections, or to none. -/
def Walked (walk : Walk (Option Words)) (found : Option Sections) : Prop :=
  ∃ words, walk = .ok words ∧ words.map Words.sections = found

theorem walked_none : Walked (pure none) none := ⟨none, rfl, rfl⟩

theorem walked_ite {refused refused' : Prop} [Decidable refused] [Decidable refused']
    {walk : Walk (Option Words)} {found : Option Sections} (hiff : refused ↔ refused')
    (h : ¬ refused' → Walked walk found) :
    Walked (if refused then pure none else walk) (if refused' then none else found) := by
  by_cases hrefused : refused
  · rw [if_pos hrefused, if_pos (hiff.mp hrefused)]
    exact walked_none
  · rw [if_neg hrefused, if_neg fun hrefused' => hrefused (hiff.mpr hrefused')]
    exact h fun hrefused' => hrefused (hiff.mpr hrefused')

/-- The header of a section lies in the table of the sections. -/
theorem header_within {shoff shentsz shnum length i : Nat} (hi : i < shnum)
    (hunit : 0x28 ≤ shentsz) (hwithin : shoff + shnum * shentsz ≤ length) :
    shoff + i * shentsz + 0x28 ≤ length := by
  have hlast : (i + 1) * shentsz ≤ shnum * shentsz := Nat.mul_le_mul_right _ hi
  rw [Nat.succ_mul] at hlast
  omega

section Walk

variable {data : List Byte} {size : UInt32} (hsize : size.toNat = data.length)

/-- Sums and products of the words do not wrap in 64 bits. -/
theorem toNat_span {base count unit : UInt32} (hcount : count.toNat < 65536)
    (hunit : unit.toNat < 65536) :
    (base.toUInt64 + count.toUInt64 * unit.toUInt64).toNat =
      base.toNat + count.toNat * unit.toNat := by
  have hbase := base.toNat_lt
  have hproduct : count.toNat * unit.toNat < 65536 * 65536 := Nat.mul_lt_mul'' hcount hunit
  rw [UInt64.toNat_add, UInt64.toNat_mul, UInt32.toNat_toUInt64, UInt32.toNat_toUInt64,
    UInt32.toNat_toUInt64]
  omega

theorem toNat_sum {first second : UInt32} :
    (first.toUInt64 + second.toUInt64).toNat = first.toNat + second.toNat := by
  have hfirst := first.toNat_lt
  have hsecond := second.toNat_lt
  rw [UInt64.toNat_add, UInt32.toNat_toUInt64, UInt32.toNat_toUInt64]
  omega

include hsize

theorem walkSections_eq : Walked (walkSections data size) (findSections data) := by
  have hlen : data.length < 4294967296 := hsize ▸ size.toNat_lt
  have hshort : size < 0x34 ↔ data.length < 0x34 := by
    rw [UInt32.lt_iff_toNat_lt, hsize]
    rfl
  have hsizeWord : size.toUInt64.toNat = data.length := UInt32.toNat_toUInt64 _ ▸ hsize
  unfold walkSections findSections
  rw [ite_or]
  -- each test of the source in its order: the same answer, or the walk goes on
  refine walked_ite hshort fun hlong => ?_
  obtain ⟨magic, hreadMagic, hmagic⟩ : ∃ same, readEq data 0 [0x7f, 0x45, 0x4C, 0x46] = .ok same ∧
      (same = true ↔ BytesAt data 0 [0x7f, 0x45, 0x4C, 0x46]) :=
    readEq_of_le hlen (by show 0 + 4 ≤ _; omega)
  rw [hreadMagic, ok_bind]
  refine walked_ite ?_ fun _ => ?_
  · rw [Bool.not_eq_true', Bool.eq_false_iff, ne_eq, hmagic]
    simp only [BytesAt, and_true, not_and_or]
  obtain ⟨kind, hreadKind, hkind⟩ : ∃ same, readEq data 4 [1, 1] = .ok same ∧
      (same = true ↔ BytesAt data 4 [1, 1]) := readEq_of_le hlen (by show 4 + 2 ≤ _; omega)
  rw [hreadKind, ok_bind]
  refine walked_ite ?_ fun _ => ?_
  · rw [Bool.not_eq_true', Bool.eq_false_iff, ne_eq, hkind]
    simp only [BytesAt, and_true, not_and_or]
  obtain ⟨shoff, hreadShoff, hshoff⟩ : ∃ word, readLe32 data 0x20 = .ok word ∧
      word.toNat = le32 data 0x20 := readLe32_of_le hlen (by show 0x20 + 4 ≤ _; omega)
  obtain ⟨shentsz, hreadShentsz, hshentsz⟩ : ∃ word, readLe16 data 0x2E = .ok word ∧
      word.toNat = le16 data 0x2E := readLe16_of_le hlen (by show 0x2E + 2 ≤ _; omega)
  obtain ⟨shnum, hreadShnum, hshnum⟩ : ∃ word, readLe16 data 0x30 = .ok word ∧
      word.toNat = le16 data 0x30 := readLe16_of_le hlen (by show 0x30 + 2 ≤ _; omega)
  obtain ⟨shstrndx, hreadShstrndx, hshstrndx⟩ : ∃ word, readLe16 data 0x32 = .ok word ∧
      word.toNat = le16 data 0x32 := readLe16_of_le hlen (by show 0x32 + 2 ≤ _; omega)
  rw [hreadShoff, ok_bind, hreadShentsz, ok_bind, hreadShnum, ok_bind, hreadShstrndx, ok_bind]
  dsimp only
  rw [← hshoff, ← hshentsz, ← hshnum, ← hshstrndx]
  refine walked_ite ?_ fun hheader => ?_
  · rw [← UInt32.toNat_inj, UInt32.lt_iff_toNat_lt, ← UInt32.toNat_inj, ge_iff_le,
      UInt32.le_iff_toNat_le]
    exact Iff.rfl
  have hnum : shnum.toNat < 65536 := hshnum ▸ le16_lt data _
  have hunit : shentsz.toNat < 65536 := hshentsz ▸ le16_lt data _
  have hndx : shstrndx.toNat < 65536 := hshstrndx ▸ le16_lt data _
  refine walked_ite ?_ fun hwithin => ?_
  · rw [gt_iff_lt, UInt64.lt_iff_toNat_lt, toNat_span hnum hunit, hsizeWord]
  have hnames : (shoff.toUInt64 + shstrndx.toUInt64 * shentsz.toUInt64).toNat =
      shoff.toNat + shstrndx.toNat * shentsz.toNat := toNat_span hndx hunit
  have hbound : shoff.toNat + shstrndx.toNat * shentsz.toNat + 0x28 ≤ data.length :=
    header_within (by omega : shstrndx.toNat < shnum.toNat) (by omega) (not_lt.mp hwithin)
  obtain ⟨stroff, hreadStroff, hstroff⟩ := readLe32_field hlen 0x10 hnames (by decide) hbound
  obtain ⟨strsz, hreadStrsz, hstrsz⟩ := readLe32_field hlen 0x14 hnames (by decide) hbound
  rw [hreadStroff, ok_bind, hreadStrsz, ok_bind]
  have hstroff' : le32 data (shoff.toNat + shstrndx.toNat * shentsz.toNat + 0x10) = stroff.toNat :=
    hstroff.symm
  have hstrsz' : le32 data (shoff.toNat + shstrndx.toNat * shentsz.toNat + 0x14) = strsz.toNat :=
    hstrsz.symm
  rw [hstroff', hstrsz']
  refine walked_ite ?_ fun _ => ⟨_, rfl, rfl⟩
  rw [gt_iff_lt, UInt64.lt_iff_toNat_lt, toNat_sum, hsizeWord]

end Walk

/-- The sections that are found are the ones of the table. -/
theorem findSections_eq_some {data : List Byte} {sections : Sections} :
    findSections data = some sections ↔ SectionTable data sections := by
  unfold findSections
  dsimp only
  simp only [Option.ite_none_left_eq_some, Option.some.injEq, not_or, not_not, not_lt, ge_iff_le,
    not_le, gt_iff_lt]
  constructor
  · rintro ⟨⟨hlength, h0, h1, h2, h3⟩, ⟨h4, h5⟩, ⟨hshoff, hunit, -, hndx⟩, hwithin, hnames, rfl⟩
    exact ⟨hlength, ⟨h0, h1, h2, h3, h4, h5, trivial⟩, ⟨rfl, hshoff⟩, ⟨rfl, hunit⟩, rfl, hndx,
      hwithin, rfl, rfl, hnames⟩
  · rintro ⟨hlength, ⟨h0, h1, h2, h3, h4, h5, -⟩, ⟨hshoff, hne⟩, ⟨hshentsz, hunit⟩, hshnum, hndx,
      hwithin, hstroff, hstrsz, hnames⟩
    obtain ⟨shoff, shentsz, shnum, stroff, strsz⟩ := sections
    dsimp only at hshoff hne hshentsz hunit hshnum hndx hwithin hstroff hstrsz hnames
    subst hshoff hshentsz hshnum hstroff hstrsz
    exact ⟨⟨hlength, h0, h1, h2, h3⟩, ⟨h4, h5⟩, ⟨hne, hunit, by omega, hndx⟩, hwithin, hnames, rfl⟩

/-- The walk of a file in terms of its sections. -/
theorem findIdent_eq (data : List Byte) :
    findIdent data = (findSections data).bind fun sections =>
      ((List.range sections.shnum).find? (sections.named data)).bind (sections.payload data) := by
  unfold findIdent
  cases findSections data with
  | none => rfl
  | some sections =>
      dsimp only [Option.bind_some]
      cases (List.range sections.shnum).find? (sections.named data) with
      | none => rfl
      | some i =>
          dsimp only [Option.bind_some]
          unfold Sections.payload
          dsimp only
          split_ifs <;> first | rfl | omega

/-! ## Names -/

section Names

variable {data : List Byte}

theorem take_drop_succ {off n : Nat} (h : off < data.length) :
    (data.drop off).take (n + 1) = byteAt data off :: (data.drop (off + 1)).take n := by
  have hbyte : byteAt data off = data[off] := by
    rw [byteAt, List.getD_eq_getElem?_getD, List.getElem?_eq_getElem h]
    rfl
  rw [List.drop_eq_getElem_cons h, List.take_succ_cons, hbyte]

/-- A comparison that stops at the end of the string table. -/
theorem strncmpEq_iff {name : List Byte} {off n : Nat} (h : off + n ≤ data.length) :
    strncmpEq data off name n = true ↔
      name ++ [0] <+: (data.drop off).take n ∨ (data.drop off).take n <+: name := by
  induction name generalizing off n with
  | nil =>
      cases n with
      | zero => simp [strncmpEq]
      | succ n =>
          rw [take_drop_succ (by omega), strncmpEq, beq_iff_eq, List.nil_append,
            List.cons_prefix_cons, List.prefix_nil, eq_comm]
          simp
  | cons c rest ih =>
      cases n with
      | zero => simp [strncmpEq]
      | succ n =>
          rw [take_drop_succ (by omega), strncmpEq, Bool.and_eq_true, beq_iff_eq, ih (by omega),
            List.cons_append, List.cons_prefix_cons, List.cons_prefix_cons, and_or_left, eq_comm]

variable {sections : Sections} {i : Nat}

/-- The walk takes a section with the name, or with a cut piece of it. -/
theorem named_iff (hnames : sections.stroff + sections.strsz ≤ data.length) :
    sections.named data i = true ↔ sections.Whole data i ∨ sections.Cut data i := by
  have hnamed : sections.named data i = true ↔ sections.nameoff data i < sections.strsz ∧
      strncmpEq data (sections.stroff + sections.nameoff data i) identSection
        (sections.strsz - sections.nameoff data i) = true := by
    rw [← decide_eq_true_iff (p := sections.nameoff data i < sections.strsz), ← Bool.and_eq_true]
    rfl
  rw [hnamed]
  by_cases hlt : sections.nameoff data i < sections.strsz
  · have htail : sections.tail data i ≠ [] := by
      rw [Sections.tail, List.ne_nil_iff_length_pos, List.length_take, List.length_drop]
      omega
    rw [strncmpEq_iff (by omega), and_iff_right hlt]
    exact or_congr_right (and_iff_right htail).symm
  · have htail : sections.tail data i = [] := by
      rw [Sections.tail, Nat.sub_eq_zero_of_le (not_lt.mp hlt), List.take_zero]
    refine iff_of_false (fun h => hlt h.1) ?_
    rintro (hwhole | hcut)
    · rw [Sections.Whole, htail, List.prefix_nil] at hwhole
      exact List.append_ne_nil_of_right_ne_nil _ (List.cons_ne_nil _ _) hwhole
    · exact hcut.1 htail

end Names

/-! ## The loop -/

section Loop

variable {data : List Byte} {size : UInt32} {words : Words}

/-- The first section from a given one on that the walk takes. -/
def Sections.foundFrom (sections : Sections) (data : List Byte) (i : Nat) : Option Nat :=
  (List.range' i (sections.shnum - i)).find? (sections.named data)

theorem Sections.foundFrom_of_lt {sections : Sections} {i : Nat} (h : i < sections.shnum) :
    sections.foundFrom data i =
      if sections.named data i then some i else sections.foundFrom data (i + 1) := by
  obtain ⟨n, hn⟩ : ∃ n, sections.shnum - i = n + 1 := ⟨sections.shnum - i - 1, by omega⟩
  unfold Sections.foundFrom
  rw [hn, List.range'_succ, List.find?_cons, show sections.shnum - (i + 1) = n by omega]
  cases sections.named data i <;> rfl

/-- How the loop looks at a name. -/
theorem named_words {nameoff : UInt32} {i : Nat}
    (hnameoff : nameoff.toNat = words.sections.nameoff data i) :
    words.sections.named data i = if nameoff ≥ words.strsz then false else
      strncmpEq data (words.stroff.toUInt64 + nameoff.toUInt64).toNat identSection
        (words.strsz - nameoff).toNat := by
  unfold Sections.named
  unfold Sections.nameoff at hnameoff
  rw [← hnameoff, toNat_sum]
  dsimp only
  by_cases hlast : nameoff ≥ words.strsz
  · have hnot : ¬ nameoff.toNat < words.sections.strsz :=
      not_lt.mpr (UInt32.le_iff_toNat_le.mp hlast)
    rw [if_pos hlast, decide_eq_false hnot, Bool.false_and]
  · have hlt : nameoff.toNat < words.sections.strsz :=
      not_le.mp (mt UInt32.le_iff_toNat_le.mpr hlast)
    rw [if_neg hlast, decide_eq_true hlt, Bool.true_and, UInt32.toNat_sub_of_le _ _
      (UInt32.le_iff_toNat_le.mpr hlt.le)]
    rfl

/-- How it looks at a payload. -/
theorem payload_words {off sz : UInt32} {i : Nat} (hsize : size.toUInt64.toNat = data.length)
    (hoff : off.toNat = le32 data (words.sections.shoff + i * words.sections.shentsz + 0x10))
    (hsz : sz.toNat = le32 data (words.sections.shoff + i * words.sections.shentsz + 0x14)) :
    words.sections.payload data i =
      if sz < 104 ∨ off.toUInt64 + sz.toUInt64 > size.toUInt64 then none else some off.toNat := by
  have hrefused : (sz < 104 ∨ off.toUInt64 + sz.toUInt64 > size.toUInt64) ↔
      ¬ (identSize ≤ sz.toNat ∧ off.toNat + sz.toNat ≤ data.length) := by
    rw [gt_iff_lt, UInt64.lt_iff_toNat_lt, toNat_sum, hsize, UInt32.lt_iff_toNat_lt, not_and_or,
      not_le, not_le]
    exact Iff.rfl
  unfold Sections.payload
  rw [← hoff, ← hsz]
  dsimp only
  by_cases hpayload : identSize ≤ sz.toNat ∧ off.toNat + sz.toNat ≤ data.length
  · rw [if_pos hpayload, if_neg fun h => hrefused.mp h hpayload]
  · rw [if_neg hpayload, if_pos (hrefused.mpr hpayload)]

/-- From any pass on, with passes enough, the loop finds what the sections say. -/
theorem walkHeaders_eq (hsize : size.toNat = data.length)
    (htable : SectionTable data words.sections) (fuel : Nat) (i : UInt32)
    (hi : i.toNat ≤ words.shnum.toNat) (hfuel : words.shnum.toNat < fuel + i.toNat) :
    ∃ found, walkHeaders data size words fuel i = .ok found ∧ found.map UInt64.toNat =
      (words.sections.foundFrom data i.toNat).bind (words.sections.payload data) := by
  have hlen : data.length < 4294967296 := hsize ▸ size.toNat_lt
  have hsizeWord : size.toUInt64.toNat = data.length := UInt32.toNat_toUInt64 _ ▸ hsize
  have hnum : words.shnum.toNat < 65536 := by
    have hword : words.shnum.toNat = le16 data 0x30 := htable.shnum
    exact hword ▸ le16_lt data _
  have hunit : words.shentsz.toNat < 65536 := by
    have hword : words.shentsz.toNat = le16 data 0x2E := htable.shentsz.1
    exact hword ▸ le16_lt data _
  -- the loop over the section headers; all sums stay far below 2^64
  induction fuel generalizing i with
  | zero => omega
  | succ fuel ih =>
      unfold walkHeaders
      by_cases hlast : i.toNat < words.shnum.toNat
      · rw [if_pos (UInt32.lt_iff_toNat_lt.mpr hlast)]
        have hheader : (words.shoff.toUInt64 + i.toUInt64 * words.shentsz.toUInt64).toNat =
            words.sections.shoff + i.toNat * words.sections.shentsz :=
          toNat_span (by omega) hunit
        have hbound : words.sections.shoff + i.toNat * words.sections.shentsz + 0x28 ≤ data.length :=
          header_within hlast htable.shentsz.2 htable.within
        obtain ⟨nameoff, hreadName, hnameoff⟩ := readLe32_of_le hlen
          (hheader ▸ by omega : (words.shoff.toUInt64 + i.toUInt64 * words.shentsz.toUInt64).toNat +
            4 ≤ data.length)
        obtain ⟨off, hreadOff, hoff⟩ := readLe32_field hlen 0x10 hheader (by decide) hbound
        obtain ⟨sz, hreadSz, hsz⟩ := readLe32_field hlen 0x14 hheader (by decide) hbound
        dsimp only
        rw [hreadName, ok_bind, hreadOff, ok_bind, hreadSz, ok_bind]
        have hnext : (i + 1).toNat = i.toNat + 1 := by
          rw [UInt32.toNat_add]
          exact Nat.mod_eq_of_lt (by show i.toNat + 1 < _; omega)
        obtain ⟨found, hrest, hfound⟩ := ih (i + 1) (by omega) (by omega)
        rw [hnext] at hfound
        rw [Sections.foundFrom_of_lt hlast]
        rw [hheader] at hnameoff
        have hnamed := named_words hnameoff
        by_cases hskip : nameoff ≥ words.strsz
        · -- the name begins behind the string table
          rw [if_pos hskip] at hnamed ⊢
          rw [hnamed]
          exact ⟨found, hrest, hfound⟩
        · rw [if_neg hskip] at hnamed ⊢
          -- the comparison stops at the end of the string table, which is in the file
          have hlt : nameoff.toNat < words.strsz.toNat :=
            not_le.mp (mt UInt32.le_iff_toNat_le.mpr hskip)
          have hnames : (words.stroff.toUInt64 + nameoff.toUInt64).toNat +
              (words.strsz - nameoff).toNat ≤ data.length := by
            have hwithin : words.stroff.toNat + words.strsz.toNat ≤ data.length := htable.names
            rw [toNat_sum, UInt32.toNat_sub_of_le _ _ (UInt32.le_iff_toNat_le.mpr hlt.le)]
            omega
          rw [strncmp_of_le hlen hnames, ok_bind, ← hnamed]
          cases words.sections.named data i.toNat with
          | false => exact ⟨found, hrest, hfound⟩
          | true =>
              rw [if_pos rfl, if_pos rfl, Option.bind_some, payload_words hsizeWord hoff hsz]
              split
              · exact ⟨none, rfl, rfl⟩
              · exact ⟨some off.toUInt64, rfl, congrArg some (UInt32.toNat_toUInt64 off)⟩
      · rw [if_neg (mt UInt32.lt_iff_toNat_lt.mp hlast)]
        refine ⟨none, rfl, ?_⟩
        have hend : words.sections.shnum - i.toNat = 0 := by
          show words.shnum.toNat - i.toNat = 0
          omega
        rw [Sections.foundFrom, hend]
        rfl

/-- The walk reads nothing but the file and comes to its end, at what `findIdent` says. -/
theorem findIdentWalk_eq (hsize : size.toNat = data.length) {fuel : Nat} (hfuel : 65536 ≤ fuel) :
    ∃ found, findIdentWalk fuel data size = .ok found ∧ found.map UInt64.toNat = findIdent data := by
  obtain ⟨words, hwalk, hwords⟩ := walkSections_eq hsize
  rw [findIdentWalk, hwalk, ok_bind, findIdent_eq, ← hwords]
  cases words with
  | none => exact ⟨none, rfl, rfl⟩
  | some words =>
      have htable : SectionTable data words.sections := findSections_eq_some.mp hwords.symm
      have hnum : words.shnum.toNat < 65536 := by
        have hword : words.shnum.toNat = le16 data 0x30 := htable.shnum
        exact hword ▸ le16_lt data _
      obtain ⟨found, hfound, hsame⟩ := walkHeaders_eq hsize htable fuel 0 (Nat.zero_le _)
        (lt_of_lt_of_le hnum hfuel)
      refine ⟨found, hfound, ?_⟩
      rw [hsame, Option.map_some, Option.bind_some, List.range_eq_range']
      rfl

end Loop

/-! ## The pointer -/

section Pointer

variable {data : List Byte} {sections : Sections} {i off : Nat}

/-- The section that the walk takes. -/
theorem findIdent_eq_some_iff :
    findIdent data = some off ↔ ∃ sections, SectionTable data sections ∧ ∃ i < sections.shnum,
      (sections.Whole data i ∨ sections.Cut data i) ∧
        (∀ j < i, ¬ sections.Whole data j ∧ ¬ sections.Cut data j) ∧
        sections.payload data i = some off := by
  rw [findIdent_eq, Option.bind_eq_some_iff]
  refine exists_congr fun sections => ?_
  rw [findSections_eq_some]
  refine and_congr_right fun htable => ?_
  simp only [Option.bind_eq_some_iff, List.find?_range_eq_some, List.mem_range, Bool.not_eq_true',
    Bool.eq_false_iff, ne_eq, named_iff htable.names, not_or]
  exact exists_congr fun i => by tauto

theorem sectionTable_unique {other : Sections} (h : SectionTable data sections)
    (hother : SectionTable data other) : other = sections :=
  Option.some.inj ((findSections_eq_some.mpr hother).symm.trans (findSections_eq_some.mpr h))

/-- What is returned is the payload wanted exactly if no cut name is in the way. -/
theorem points_iff : (∀ off, findIdent data = some off → Points data off) ↔ CutHarmless data := by
  constructor
  · intro h sections htable i hi hcut hbefore off hpayload
    obtain ⟨other, hother, hpoints⟩ := h off (findIdent_eq_some_iff.mpr
      ⟨sections, htable, i, hi, .inr hcut, hbefore, hpayload⟩)
    obtain rfl := sectionTable_unique htable hother
    exact hpoints
  · intro h off hfound
    obtain ⟨sections, htable, i, hi, hwhole | hcut, hbefore, hpayload⟩ :=
      findIdent_eq_some_iff.mp hfound
    · exact ⟨sections, htable, i, hi, hwhole, fun j hj => (hbefore j hj).1, hpayload⟩
    · exact ⟨sections, htable, h sections htable i hi hcut hbefore off hpayload⟩

end Pointer

/-- Of every file, `rfnm_vspa_find_ident` reads only bytes that are there, comes to its end, and
returns no pointer but the one wanted, exactly if no cut name is in the way. -/
theorem find_ident_sound_iff (data : List Byte) (more : Nat) :
    ∃ found, findIdentOf (65536 + more) data = .ok found ∧
      ((∀ off ∈ found, Points (seen data) off.toNat) ↔ CutHarmless (seen data)) := by
  have hlength : data.length % 2 ^ 32 ≤ data.length := Nat.mod_le _ _
  have hsize : (UInt32.ofNat data.length).toNat = (seen data).length := by
    rw [seen, List.length_take, min_eq_left hlength]
    rfl
  obtain ⟨found, hwalk, hfound⟩ := findIdentWalk_eq hsize (Nat.le_add_right 65536 more)
  refine ⟨found, hwalk, ?_⟩
  rw [← points_iff, ← hfound]
  simp [Option.map_eq_some_iff]

/-! ## A cut name -/

/-- An image with one section beside its string table, `.data`, of whose name the table has the dot
only. -/
def cutImage : List Byte :=
  [0x7f, 0x45, 0x4C, 0x46, 1, 1] ++ leBytes 26 0 ++ leBytes 4 0x34 ++ leBytes 10 0 ++
    leBytes 2 0x28 ++ leBytes 2 2 ++ leBytes 2 0 ++
    sectionHeader 11 132 1 ++ sectionHeader 0 144 104 ++
    [0x2E, 0x64, 0x61, 0x74, 0x61] ++ leBytes 111 0

theorem cut_name_found :
    ∃ off, findIdentOf 65536 cutImage = .ok (some off) ∧ ¬ Points (seen cutImage) off.toNat := by
  have hsize : (UInt32.ofNat cutImage.length).toNat = (seen cutImage).length := by decide +kernel
  have hident : findIdent (seen cutImage) = some 144 := by decide +kernel
  have hsections : findSections (seen cutImage) = some ⟨52, 40, 2, 132, 1⟩ := by decide +kernel
  have hnames : ∀ i < 2, ¬ Sections.Whole ⟨52, 40, 2, 132, 1⟩ (seen cutImage) i := by
    decide +kernel
  obtain ⟨found, hwalk, hfound⟩ := findIdentWalk_eq hsize (le_refl 65536)
  rw [hident, Option.map_eq_some_iff] at hfound
  obtain ⟨off, rfl, -⟩ := hfound
  refine ⟨off, hwalk, fun ⟨_, htable, i, hi, hwhole, _⟩ => ?_⟩
  obtain rfl := Option.some.inj (hsections.symm.trans (findSections_eq_some.mpr htable))
  exact hnames i hi hwhole

end RfnmDriver.Vspa
