import Mathlib.Data.List.GetD
import RfnmDriver.Lime.DbmMap
import RfnmDriver.Vspa.Image

/-!
# The file of the power map

`rfnm_lime_txdbm_load` takes the map from a file: a header of 16 bytes with the number of records
and the range of the levels, and the records as the driver has them in memory. `load_fileOf` says
that every map with fewer than 65536 records is the map of a file.
-/

namespace RfnmDriver.Lime

open Vspa (Byte byteAt le16 le32 leBytes)

/-- `txdbm_map`, `txdbm_amin` and `txdbm_amax`. -/
structure DbmEngine where
  map : TxdbmMap
  amin : Int16
  amax : Int16
  deriving DecidableEq, Repr

/-- A signed half word of a file. -/
def int16At (data : List Byte) (off : Nat) : Int16 := (UInt16.ofNat (le16 data off)).toInt16

/-- The record at an offset. -/
def recAt (data : List Byte) (off : Nat) : TxdbmRec where
  freqKhz := UInt32.ofNat (le32 data off)
  mask := byteAt data (off + 4)
  code := byteAt data (off + 5)
  cdbm := int16At data (off + 6)

/-- `sizeof(struct rfnm_txdbm_rec)`. -/
def recSize : Nat := 8

/-- `RFTX`. -/
def mapMagic : List Byte := [0x52, 0x46, 0x54, 0x58]

/-- `rfnm_lime_txdbm_load`, with what `request_firmware_direct` reads and whether there is memory
for the records. -/
def DbmEngine.load (engine : DbmEngine) (file : Option (List Byte)) (allocated : Bool) : DbmEngine :=
  match file with
  | none => engine
  | some data =>
      if data.length < 16 ∨ data.take 4 ≠ mapMagic ∨ byteAt data 4 ≠ 1 then engine
      else
        let count := le16 data 6
        { map :=
            if data.length < 16 + count * recSize ∨ !allocated then []
            else (List.range count).map fun i => recAt data (16 + recSize * i)
          amin := int16At data 8
          amax := int16At data 10 }

/-! ## Files of maps -/

def int16Bytes (v : Int16) : List Byte := leBytes 2 v.toUInt16.toNat

def recBytes (rec : TxdbmRec) : List Byte :=
  leBytes 4 rec.freqKhz.toNat ++ [rec.mask, rec.code] ++ int16Bytes rec.cdbm

/-- The header: magic, version, number of records, and range. -/
def DbmEngine.header (engine : DbmEngine) : List Byte :=
  mapMagic ++ [1, 0] ++ (leBytes 2 engine.map.length ++ (int16Bytes engine.amin ++
    (int16Bytes engine.amax ++ leBytes 4 0)))

def DbmEngine.fileOf (engine : DbmEngine) : List Byte :=
  engine.header ++ engine.map.flatMap recBytes

theorem byteAt_append (before rest : List Byte) (off : Nat) :
    byteAt (before ++ rest) (before.length + off) = byteAt rest off := by
  unfold byteAt
  rw [List.getD_append_right _ _ _ _ (Nat.le_add_right ..), Nat.add_sub_cancel_left]

theorem le16_append (before rest : List Byte) (off : Nat) :
    le16 (before ++ rest) (before.length + off) = le16 rest off := by
  unfold le16
  rw [byteAt_append, Nat.add_assoc, byteAt_append]

theorem le32_append (before rest : List Byte) (off : Nat) :
    le32 (before ++ rest) (before.length + off) = le32 rest off := by
  unfold le32
  rw [le16_append, Nat.add_assoc, le16_append]

theorem int16At_append (before rest : List Byte) (off : Nat) :
    int16At (before ++ rest) (before.length + off) = int16At rest off :=
  congrArg (fun n => (UInt16.ofNat n).toInt16) (le16_append before rest off)

/-- Two bytes of a number read back. -/
theorem le16_leBytes {value : Nat} (h : value < 65536) (rest : List Byte) :
    le16 (leBytes 2 value ++ rest) 0 = value := by
  show (UInt8.ofNat value).toNat + 256 * (UInt8.ofNat (value / 256)).toNat = value
  rw [UInt8.toNat_ofNat', UInt8.toNat_ofNat']
  omega

theorem le32_leBytes {value : Nat} (h : value < 4294967296) (rest : List Byte) :
    le32 (leBytes 4 value ++ rest) 0 = value := by
  show (UInt8.ofNat value).toNat + 256 * (UInt8.ofNat (value / 256)).toNat +
      65536 * ((UInt8.ofNat (value / 256 / 256)).toNat +
        256 * (UInt8.ofNat (value / 256 / 256 / 256)).toNat) = value
  simp only [UInt8.toNat_ofNat']
  omega

theorem int16At_int16Bytes (v : Int16) (rest : List Byte) :
    int16At (int16Bytes v ++ rest) 0 = v := by
  unfold int16At int16Bytes
  rw [le16_leBytes v.toUInt16.toNat_lt]
  simp

theorem recAt_append (before rest : List Byte) (off : Nat) :
    recAt (before ++ rest) (before.length + off) = recAt rest off := by
  unfold recAt
  rw [le32_append]
  simp only [Nat.add_assoc, byteAt_append, int16At_append]

@[simp] theorem length_recBytes (rec : TxdbmRec) : (recBytes rec).length = recSize := by
  simp [recBytes, int16Bytes, recSize]

/-- A record reads back. -/
theorem recAt_recBytes (rec : TxdbmRec) (rest : List Byte) :
    recAt (recBytes rec ++ rest) 0 = rec := by
  obtain ⟨freqKhz, mask, code, cdbm⟩ := rec
  have hfreq : le32 (recBytes ⟨freqKhz, mask, code, cdbm⟩ ++ rest) 0 = freqKhz.toNat := by
    rw [recBytes, List.append_assoc, List.append_assoc]
    exact le32_leBytes freqKhz.toNat_lt _
  have hcdbm : int16At (recBytes ⟨freqKhz, mask, code, cdbm⟩ ++ rest) 6 = cdbm := by
    rw [recBytes, List.append_assoc]
    exact (int16At_append (leBytes 4 freqKhz.toNat ++ [mask, code]) _ 0).trans
      (int16At_int16Bytes cdbm rest)
  unfold recAt
  rw [hfreq, hcdbm, UInt32.ofNat_toNat]
  rfl

/-- The records read back. -/
theorem map_recAt (before : List Byte) (map : TxdbmMap) :
    (List.range map.length).map (fun i =>
      recAt (before ++ map.flatMap recBytes) (before.length + recSize * i)) = map := by
  induction map generalizing before with
  | nil => rfl
  | cons rec rest ih =>
      have hrest := ih (before ++ recBytes rec)
      have hlength : ∀ i, (before ++ recBytes rec).length + recSize * i =
          before.length + recSize * (i + 1) := by
        intro i
        rw [List.length_append, length_recBytes, Nat.mul_succ]
        omega
      rw [List.append_assoc] at hrest
      simp only [hlength] at hrest
      rw [List.length_cons, List.range_succ_eq_map, List.map_cons, List.map_map]
      refine congrArg₂ List.cons ?_ hrest
      exact (recAt_append before _ 0).trans (recAt_recBytes rec _)

@[simp] theorem length_header (engine : DbmEngine) : engine.header.length = 16 := by
  simp [DbmEngine.header, mapMagic, int16Bytes]

theorem length_flatMap_recBytes (map : TxdbmMap) :
    (map.flatMap recBytes).length = map.length * recSize := by
  induction map with
  | nil => rfl
  | cons rec rest ih => rw [List.flatMap_cons, List.length_append, ih, length_recBytes,
      List.length_cons, Nat.succ_mul, Nat.add_comm]

/-- Every map of fewer than 65536 records is the map of a file. -/
theorem load_fileOf (engine before : DbmEngine) (h : engine.map.length < 65536) :
    before.load (some engine.fileOf) true = engine := by
  have hlength : engine.fileOf.length = 16 + engine.map.length * recSize := by
    rw [DbmEngine.fileOf, List.length_append, length_header, length_flatMap_recBytes]
  have hcount : le16 engine.fileOf 6 = engine.map.length := by
    rw [DbmEngine.fileOf, DbmEngine.header, List.append_assoc, List.append_assoc]
    exact (le16_append (mapMagic ++ [1, 0]) _ 0).trans (le16_leBytes h _)
  have hamin : int16At engine.fileOf 8 = engine.amin := by
    have hsplit : engine.fileOf = mapMagic ++ [1, 0] ++ leBytes 2 engine.map.length ++
        (int16Bytes engine.amin ++ (int16Bytes engine.amax ++ leBytes 4 0 ++
          engine.map.flatMap recBytes)) := by
      simp [DbmEngine.fileOf, DbmEngine.header]
    rw [hsplit]
    exact (int16At_append _ _ 0).trans (int16At_int16Bytes _ _)
  have hamax : int16At engine.fileOf 10 = engine.amax := by
    have hsplit : engine.fileOf = mapMagic ++ [1, 0] ++ leBytes 2 engine.map.length ++
        int16Bytes engine.amin ++ (int16Bytes engine.amax ++ (leBytes 4 0 ++
          engine.map.flatMap recBytes)) := by
      simp [DbmEngine.fileOf, DbmEngine.header]
    rw [hsplit]
    exact (int16At_append _ _ 0).trans (int16At_int16Bytes _ _)
  have hmap : (List.range engine.map.length).map
      (fun i => recAt engine.fileOf (16 + recSize * i)) = engine.map := by
    have hrecords := map_recAt engine.header engine.map
    rwa [length_header] at hrecords
  -- the file has a whole header, with the magic and the version
  have hmagic : ¬ (engine.fileOf.length < 16 ∨ engine.fileOf.take 4 ≠ mapMagic ∨
      byteAt engine.fileOf 4 ≠ 1) := by
    rintro (hshort | hwrong | hversion)
    · omega
    · exact hwrong rfl
    · exact hversion rfl
  unfold DbmEngine.load
  dsimp only
  rw [if_neg hmagic, hcount, hamin, hamax, hmap]
  simp [hlength]

end RfnmDriver.Lime
