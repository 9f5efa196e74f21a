import Mathlib.Data.List.Basic

/-!
# Self-describing VSPA images

A VSPA image is an ELF file with a `.rfnm_ident` section that says what it is: its capabilities,
its rank among the images that have them, and a sum over the file as it was before the stamp.
`findIdent` is the walk over the section headers, and `checked` what the registry asks of an image
before it takes it.
-/

namespace RfnmDriver.Vspa

abbrev Byte := UInt8

/-- `struct rfnm_vspa_ident`. -/
structure Ident where
  magic : UInt32
  abi : UInt32
  caps : UInt32
  rank : UInt32
  name : List Byte
  githash : List Byte
  buildtime : List Byte
  payloadCsum : UInt32
  origSize : UInt32
  deriving DecidableEq, Repr

/-- `sizeof(struct rfnm_vspa_ident)`. -/
def identSize : Nat := 104

/-- `RFNM_VSPA_IDENT_MAGIC`. -/
def identMagic : UInt32 := 0x52464E49

/-- `RFNM_VSPA_ABI_CURRENT`. -/
def abiCurrent : UInt32 := 1

/-- `RFNM_VSPA_IDENT_SECTION`: `.rfnm_ident`. -/
def identSection : List Byte :=
  [0x2E, 0x72, 0x66, 0x6E, 0x6D, 0x5F, 0x69, 0x64, 0x65, 0x6E, 0x74]

/-- The byte of a file at an offset. -/
def byteAt (data : List Byte) (off : Nat) : Byte :=
  data.getD off 0

/-- `le16_to_cpu` of the two bytes at an offset. -/
def le16 (data : List Byte) (off : Nat) : Nat :=
  (byteAt data off).toNat + 256 * (byteAt data (off + 1)).toNat

/-- `le32_to_cpu` of the four bytes at an offset. -/
def le32 (data : List Byte) (off : Nat) : Nat :=
  le16 data off + 65536 * le16 data (off + 2)

/-- `rfnm_vspa_wordsum` over the first bytes of a file. -/
def wordsum (data : List Byte) (size : Nat) : UInt32 :=
  let words := (List.range (size / 4)).foldl
    (fun csum ci => csum + UInt32.ofNat (le32 data (4 * ci))) 0
  (List.range (size % 4)).foldl
    (fun csum ci => csum + (byteAt data (4 * (size / 4) + ci)).toUInt32) words

/-- `strncmp` finds the bytes at an offset equal to a string, in the first `n`. -/
def strncmpEq (data : List Byte) (off : Nat) : List Byte → Nat → Bool
  | _, 0 => true
  | [], _ + 1 => byteAt data off == 0
  | c :: rest, n + 1 => byteAt data off == c && strncmpEq data (off + 1) rest n

/-- The identity at an offset. -/
def identAt (data : List Byte) (off : Nat) : Ident where
  magic := UInt32.ofNat (le32 data off)
  abi := UInt32.ofNat (le32 data (off + 4))
  caps := UInt32.ofNat (le32 data (off + 8))
  rank := UInt32.ofNat (le32 data (off + 12))
  name := (data.drop (off + 16)).take 32
  githash := (data.drop (off + 48)).take 24
  buildtime := (data.drop (off + 72)).take 24
  payloadCsum := UInt32.ofNat (le32 data (off + 96))
  origSize := UInt32.ofNat (le32 data (off + 100))

/-- The section header table and the section names, as far as they are in the file. -/
structure Sections where
  shoff : Nat
  shentsz : Nat
  shnum : Nat
  stroff : Nat
  strsz : Nat
  deriving DecidableEq, Repr

/-- `rfnm_vspa_find_ident` up to its loop. -/
def findSections (data : List Byte) : Option Sections :=
  if data.length < 0x34 ∨ byteAt data 0 ≠ 0x7f ∨ byteAt data 1 ≠ 0x45 ∨ byteAt data 2 ≠ 0x4C ∨
      byteAt data 3 ≠ 0x46 then none
  else if byteAt data 4 ≠ 1 ∨ byteAt data 5 ≠ 1 then none
  else
    let shoff := le32 data 0x20
    let shentsz := le16 data 0x2E
    let shnum := le16 data 0x30
    let shstrndx := le16 data 0x32
    if shoff = 0 ∨ shentsz < 0x28 ∨ shnum = 0 ∨ shstrndx ≥ shnum then none
    else if shoff + shnum * shentsz > data.length then none
    else
      let stroff := le32 data (shoff + shstrndx * shentsz + 0x10)
      let strsz := le32 data (shoff + shstrndx * shentsz + 0x14)
      if stroff + strsz > data.length then none
      else some ⟨shoff, shentsz, shnum, stroff, strsz⟩

/-- A section bears the name. -/
def Sections.named (sections : Sections) (data : List Byte) (i : Nat) : Bool :=
  let nameoff := le32 data (sections.shoff + i * sections.shentsz)
  decide (nameoff < sections.strsz) &&
    strncmpEq data (sections.stroff + nameoff) identSection (sections.strsz - nameoff)

/-- `rfnm_vspa_find_ident`: where the identity is. The first section of that name decides. -/
def findIdent (data : List Byte) : Option Nat :=
  match findSections data with
  | none => none
  | some sections =>
      match (List.range sections.shnum).find? (sections.named data) with
      | none => none
      | some i =>
          let off := le32 data (sections.shoff + i * sections.shentsz + 0x10)
          let sz := le32 data (sections.shoff + i * sections.shentsz + 0x14)
          if sz < identSize ∨ off + sz > data.length then none else some off

/-- The identity of a file that passes the checks of `rfnm_vspa_registry_register`. -/
def checked (data : List Byte) : Option Ident :=
  match findIdent data with
  | none => none
  | some off =>
      let id := identAt data off
      if id.magic ≠ identMagic then none
      else if id.abi ≠ abiCurrent then none
      else if id.origSize.toNat > data.length ∨
          wordsum data id.origSize.toNat ≠ id.payloadCsum then none
      else some id

/-- `struct firmware`: a file as `request_firmware` reads it, of `INT_MAX` bytes at most. -/
structure Firmware where
  data : List Byte
  length_lt : data.length < 2147483648

/-- An identity that is found lies within the file. -/
theorem findIdent_within {data : List Byte} {off : Nat} (h : findIdent data = some off) :
    off + identSize ≤ data.length := by
  unfold findIdent at h
  split at h
  · cases h
  split at h
  · cases h
  dsimp only at h
  split at h
  · cases h
  case isFalse hbounds =>
    obtain rfl := Option.some.inj h
    omega

/-- The file carries this identity, it is stamped for this driver, and its sum is right. -/
structure Stamped (data : List Byte) (id : Ident) : Prop where
  found : ∃ off, findIdent data = some off ∧ identAt data off = id
  magic : id.magic = identMagic
  abi : id.abi = abiCurrent
  origSize_le : id.origSize.toNat ≤ data.length
  csum : wordsum data id.origSize.toNat = id.payloadCsum

/-- The checks let pass what is stamped. -/
theorem checked_iff {data : List Byte} {id : Ident} :
    checked data = some id ↔ Stamped data id := by
  unfold checked
  constructor
  · intro h
    split at h
    · cases h
    case h_2 off hoff =>
      dsimp only at h
      split at h
      · cases h
      case isFalse hmagic =>
        split at h
        · cases h
        case isFalse habi =>
          split at h
          · cases h
          case isFalse hsum =>
            obtain rfl := Option.some.inj h
            rw [not_or] at hsum
            exact ⟨⟨off, hoff, rfl⟩, not_not.mp hmagic, not_not.mp habi, Nat.le_of_not_lt hsum.1,
              not_not.mp hsum.2⟩
  · rintro ⟨⟨off, hoff, rfl⟩, hmagic, habi, hsize, hcsum⟩
    rw [hoff]
    simp [hmagic, habi, hcsum, Nat.not_lt.mpr hsize]

/-! ## A small image -/

/-- The bytes of a number, the lowest first. -/
def leBytes : Nat → Nat → List Byte
  | 0, _ => []
  | n + 1, value => UInt8.ofNat value :: leBytes n (value / 256)

/-- A section header with a name, an offset and a size. -/
def sectionHeader (name off size : Nat) : List Byte :=
  leBytes 4 name ++ leBytes 12 0 ++ leBytes 4 off ++ leBytes 4 size ++ leBytes 16 0

/-- An image without payload: the header, the headers of its two sections, the section names, and
the identity. -/
def stampedImage (caps : Nat) : List Byte :=
  [0x7f, 0x45, 0x4C, 0x46, 1, 1] ++ leBytes 26 0 ++ leBytes 4 0x34 ++ leBytes 10 0 ++
    leBytes 2 0x28 ++ leBytes 2 2 ++ leBytes 2 0 ++
    sectionHeader 11 132 12 ++ sectionHeader 0 144 104 ++ (identSection ++ [0]) ++
    leBytes 4 0x52464E49 ++ leBytes 4 1 ++ leBytes 4 caps ++ leBytes 92 0

@[simp]
theorem length_leBytes (n value : Nat) : (leBytes n value).length = n := by
  induction n generalizing value with
  | zero => rfl
  | succ n ih => rw [leBytes, List.length_cons, ih]

/-- The image as `request_firmware` reads it. -/
def stampedFirmware (caps : Nat) : Firmware where
  data := stampedImage caps
  length_lt := by simp [stampedImage, sectionHeader, identSection]

example : (checked (stampedImage 3)).map Ident.caps = some 3 := by decide +kernel

end RfnmDriver.Vspa
