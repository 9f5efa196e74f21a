import Mathlib.Data.BitVec
import RfnmDriver.Library.Patches
import RfnmDriver.Vspa.Image

/-!
# Loading a VSPA image

`la9310_load_vspa_image` of `la9310_main_vspa.c`, down to the transfers it gives to the DMA engine.
What a transfer does to the memories of the core is `DmaReq.patch`. `load_transfers` says which
transfers are made, and `load_inPlace_iff` which sections are then in place: of a section that is
64 KiB or longer in whole bus words nothing is sent, and the load succeeds nevertheless.
-/

namespace RfnmDriver.Vspa.SectionLoad

open Patches

/-- `struct section_header`, as far as it is read. -/
structure SectionHeader where
  secName : BitVec 32
  secAddr : BitVec 32
  secOffset : BitVec 32
  secSize : BitVec 32
  deriving DecidableEq, Repr

/-- `struct program_header`, as far as it is read. -/
structure ProgramHeader where
  prgVaddr : BitVec 32
  prgPaddr : BitVec 32
  deriving DecidableEq, Repr

/-- `struct dma_param`, with `phys` counted from the start of the file. -/
structure DmaParam where
  xfrCtrl : BitVec 32
  offset : BitVec 32
  phys : Nat
  size : BitVec 32
  deriving DecidableEq, Repr

/-- What `dma_raw_transmit` is given, and where the staged bytes come from. -/
structure DmaReq where
  source : Nat
  dmemAddr : BitVec 32
  byteCnt : BitVec 32
  xfrCtrl : BitVec 32
  deriving DecidableEq, Repr

/-- The places of `vspa_sec_info`. -/
inductive SecType
  | vpram
  | vdram
  | cmdbuff
  | ipram
  | idram
  | ocramvspa
  deriving DecidableEq, Repr

namespace SecType

/-- `.vpram`, `.vdram`, `.dmem_cmdbuf`, `.ipram`, `.idram` and `.ocram_vspa`. -/
def secName : SecType → List Byte
  | vpram => [0x2E, 0x76, 0x70, 0x72, 0x61, 0x6D]
  | vdram => [0x2E, 0x76, 0x64, 0x72, 0x61, 0x6D]
  | cmdbuff => [0x2E, 0x64, 0x6D, 0x65, 0x6D, 0x5F, 0x63, 0x6D, 0x64, 0x62, 0x75, 0x66]
  | ipram => [0x2E, 0x69, 0x70, 0x72, 0x61, 0x6D]
  | idram => [0x2E, 0x69, 0x64, 0x72, 0x61, 0x6D]
  | ocramvspa => [0x2E, 0x6F, 0x63, 0x72, 0x61, 0x6D, 0x5F, 0x76, 0x73, 0x70, 0x61]

/-- `PRAM`, `DMEM_NC`, `IPPUPRAM` or `NO_LOAD`. -/
def transMode : SecType → BitVec 32
  | vpram => 0x200
  | vdram | idram => 0
  | ipram => 0x300
  | cmdbuff | ocramvspa => 0xFFFFFFFF

/-- In the order of the table. -/
def all : List SecType := [vpram, vdram, cmdbuff, ipram, idram, ocramvspa]

end SecType

/-- The places of `overlay_sec_info`. -/
inductive OverlayName
  | vpramOverlay
  | iqDataOvlDdr
  | calOvlDdr
  deriving DecidableEq, Repr

namespace OverlayName

/-- `.vpram_overlay`, `.IQ_data_ovl_ddr` and `.CAL_ovl_ddr`. -/
def secName : OverlayName → List Byte
  | vpramOverlay =>
      [0x2E, 0x76, 0x70, 0x72, 0x61, 0x6D, 0x5F, 0x6F, 0x76, 0x65, 0x72, 0x6C, 0x61, 0x79]
  | iqDataOvlDdr =>
      [0x2E, 0x49, 0x51, 0x5F, 0x64, 0x61, 0x74, 0x61, 0x5F, 0x6F, 0x76, 0x6C, 0x5F, 0x64, 0x64,
        0x72]
  | calOvlDdr => [0x2E, 0x43, 0x41, 0x4C, 0x5F, 0x6F, 0x76, 0x6C, 0x5F, 0x64, 0x64, 0x72]

/-- In the order of the table. -/
def all : List OverlayName := [vpramOverlay, iqDataOvlDdr, calOvlDdr]

end OverlayName

/-- What is stored to `overlay_sec`. -/
inductive OverlayStore
  /-- Place 0, as a whole. -/
  | first (dpram : DmaParam)
  /-- `name`, `dpram.phys` and `dpram.size` of the place `overlay_link_add`. -/
  | link (place : Nat) (name : OverlayName) (phys : Nat) (size : BitVec 32)
  deriving DecidableEq, Repr

/-- The place stored to. -/
def OverlayStore.place : OverlayStore → Nat
  | first _ => 0
  | link place _ _ _ => place

/-- The image in the staging region: the bytes from `file_start` on, and those around them. -/
structure Staged where
  byte : Int → Byte
  fwSize : Nat
  fwSize_lt : fwSize < 2147483648

/-- `PARAM1`, of which the bus width is read. -/
structure Hardware where
  param1 : BitVec 32
  deriving DecidableEq, Repr

/-- `MAX_DMA_TRANSFER`. -/
def maxDmaTransfer : BitVec 32 := 65536

/-- `PRAM_ADDR_MASK`. -/
def pramAddrMask : BitVec 32 := 0x0003FFFF

/-- `DMA_BCNT_MASK`. -/
def dmaBcntMask : BitVec 32 := 0x0000FFFF

/-- `axi_data_width`, in bits. -/
def Hardware.axiDataWidth (hw : Hardware) : BitVec 32 :=
  (32 : BitVec 32) <<< ((hw.param1 >>> 28) &&& 7)

/-- `axi_align`, in bytes. -/
def Hardware.axiAlign (hw : Hardware) : BitVec 32 :=
  hw.axiDataWidth / 8

/-- `align`. -/
def align (x a : BitVec 32) : BitVec 32 :=
  (x + (a - 1)) &&& ~~~(a - 1)

/-- `isaligned`. -/
def isaligned (ptr a : BitVec 32) : Prop :=
  ptr &&& (a - 1) = 0

instance (ptr a : BitVec 32) : Decidable (isaligned ptr a) :=
  inferInstanceAs (Decidable (_ = _))

/-- `_strncmp`. -/
def strncmp (byte : Int → Byte) (s1 : Int) : List Byte → Nat → Int
  | _, 0 => 0
  | [], _ + 1 => (byte s1).toNat
  | c :: rest, n + 1 =>
      if byte s1 ≠ 0 ∧ byte s1 = c then strncmp byte (s1 + 1) rest n
      else (byte s1).toNat - c.toNat

namespace Staged

variable (image : Staged)

/-- A `uint16_t` of the image. -/
def half (off : Int) : BitVec 16 :=
  (image.byte (off + 1)).toBitVec ++ (image.byte off).toBitVec

/-- A `uint32_t` of the image. -/
def word (off : Int) : BitVec 32 :=
  image.half (off + 2) ++ image.half off

/-- `fh_machine`. -/
def machine : BitVec 16 := image.half 18

/-- `fh_phoff`. -/
def phoff : BitVec 32 := image.word 28

/-- `fh_shoff`. -/
def shoff : BitVec 32 := image.word 32

/-- `fh_phnum`. -/
def phnum : BitVec 16 := image.half 44

/-- `fh_shnum`. -/
def shnum : BitVec 16 := image.half 48

/-- `fh_shstrndx`. -/
def shstrndx : BitVec 16 := image.half 50

/-- A section header of the table, of 40 bytes each whatever `fh_shentsize` says. -/
def sectionHeader (index : Nat) : SectionHeader :=
  let start : Int := image.shoff.toNat + 40 * index
  ⟨image.word start, image.word (start + 12), image.word (start + 16), image.word (start + 20)⟩

/-- A program header of the table, of 32 bytes each. -/
def programHeader (index : Nat) : ProgramHeader :=
  let start : Int := image.phoff.toNat + 32 * index
  ⟨image.word (start + 8), image.word (start + 12)⟩

/-- The section headers in the order of the table. -/
def sections : List SectionHeader :=
  (List.range image.shnum.toNat).map image.sectionHeader

/-- The program headers in the order of the table. -/
def programs : List ProgramHeader :=
  (List.range image.phnum.toNat).map image.programHeader

/-- The string table. -/
def str : Int :=
  (image.sectionHeader image.shstrndx.toNat).secOffset.toNat

/-- `getsectiontype`, which compares as many characters with every name as the first name has. -/
def getsectiontype (secNameOffset : Int) : Option SecType :=
  SecType.all.find? fun secType =>
    strncmp image.byte (image.str + secNameOffset) secType.secName SecType.vpram.secName.length == 0

/-- `get_overlay_section`. -/
def getOverlaySection (secNameOffset : Int) : Option OverlayName :=
  OverlayName.all.find? fun name =>
    strncmp image.byte (image.str + secNameOffset) name.secName name.secName.length == 0

/-- `get_lma`: its result, and what `lma` is behind it when it was 0 before. -/
def getLma (vma : BitVec 32) : Int × BitVec 32 :=
  match image.programs.find? fun ph => ph.prgVaddr = vma with
  | some ph => (0, ph.prgPaddr &&& 0xF0FFFFFF)
  | none => (-18, 0)

end Staged

/-- What the load of a section changes. -/
structure Load where
  /-- 0 until the first section with something to load. -/
  axiAlign : BitVec 32
  overlayLinkAdd : Nat
  /-- The stores to `overlay_sec`. -/
  overlaySec : List OverlayStore
  overlaySecLoaded : Option OverlayName
  /-- The transfers given to the engine. -/
  dma : List DmaReq
  deriving Repr

/-- The rounds of `vspa_fw_dma_write` from these parameters on. -/
def dmaRounds (completes : Nat → Bool) (err : Int) :
    Nat → DmaParam → List DmaReq → List DmaReq × Int
  | 0, _, dma => (dma, 0)
  | fuel + 1, linfo, dma =>
      let sizeToXfer := if maxDmaTransfer < linfo.size then maxDmaTransfer else linfo.size
      let req : DmaReq :=
        ⟨linfo.phys, linfo.offset &&& pramAddrMask, sizeToXfer &&& dmaBcntMask, linfo.xfrCtrl⟩
      let rest : DmaParam :=
        ⟨linfo.xfrCtrl, linfo.offset + sizeToXfer, linfo.phys + sizeToXfer.toNat,
          linfo.size - sizeToXfer⟩
      if completes dma.length then
        if rest.size ≠ 0 ∧ err = 0 then dmaRounds completes err fuel rest (dma ++ [req])
        else (dma ++ [req], 0)
      else (dma ++ [req], -70)

/-- `vspa_fw_dma_write`. Its `err` is set to `-LIBVSPA_ERR_EAGAIN` and not again. -/
def vspaFwDmaWrite (completes : Nat → Bool) (linfo : DmaParam) (dma : List DmaReq) :
    List DmaReq × Int :=
  dmaRounds completes (-11) (linfo.size.toNat + 1) linfo dma

section Sections

variable (hw : Hardware) (image : Staged) (completes : Nat → Bool)

/-- The parameters of a section's transfer. -/
def dparam (secType : SecType) (hdr : SectionHeader) (lma : BitVec 32) : DmaParam :=
  ⟨secType.transMode, lma, hdr.secOffset.toNat, align hdr.secSize hw.axiAlign⟩

/-- One turn of `fw_read_and_load_sections`, with 0 where it goes on. -/
def loadSection (st : Load) (hdr : SectionHeader) : Load × Int :=
  match image.getsectiontype hdr.secName.toInt with
  | none =>
      match image.getOverlaySection hdr.secName.toInt with
      | none => (st, 0)
      | some name =>
          let (found, _) := image.getLma hdr.secAddr
          if 0 < found then (st, -18)
          else
            ({ st with
              overlaySec := st.overlaySec ++ [.link st.overlayLinkAdd name hdr.secOffset.toNat
                (align hdr.secSize st.axiAlign)]
              overlayLinkAdd := st.overlayLinkAdd + 1 }, 0)
  | some secType =>
      let (found, lma) := image.getLma hdr.secAddr
      if 0 < found then (st, -18)
      else if hdr.secSize = 0 ∨ secType = .cmdbuff then (st, 0)
      else if image.fwSize < hdr.secSize.toNat then (st, -12)
      else
        let aligned := { st with axiAlign := hw.axiAlign }
        if ¬isaligned lma hw.axiAlign then (aligned, -17)
        else if secType = .ocramvspa then (aligned, 0)
        else
          let named :=
            if image.getOverlaySection hdr.secName.toInt = some .vpramOverlay then
              { aligned with
                overlaySec := st.overlaySec ++ [.first (dparam hw secType hdr lma)]
                overlaySecLoaded := some .vpramOverlay }
            else aligned
          let (dma, ret) := vspaFwDmaWrite completes (dparam hw secType hdr lma) st.dma
          ({ named with dma := dma }, ret)

/-- The loop of `fw_read_and_load_sections`. -/
def loadSections : Load → List SectionHeader → Load × Int
  | st, [] => (st, 0)
  | st, hdr :: rest =>
      let (following, ret) := loadSection hw image completes st hdr
      if ret = 0 then loadSections following rest else (following, ret)

/-- `fw_read_and_load_sections` begins with these. -/
def Load.start : Load := ⟨0, 1, [], none, []⟩

/-- `la9310_load_vspa_image`. -/
def la9310LoadVspaImage : Load × Int :=
  if image.machine ≠ 0xBE ∧ image.machine ≠ 0x40c8 then (Load.start, -8)
  else
    let (st, ret) := loadSections hw image completes Load.start image.sections
    (st, if ret = 0 then 0 else -5)

/-! ## The transfers -/

/-- The type of a section that is moved to the core. -/
def Staged.moved (hdr : SectionHeader) : Option SecType :=
  (image.getsectiontype hdr.secName.toInt).filter fun secType =>
    hdr.secSize ≠ 0 ∧ secType ≠ .cmdbuff ∧ secType ≠ .ocramvspa

/-- Where a section goes; 0 if no program header has its address. -/
def Staged.lma (hdr : SectionHeader) : BitVec 32 :=
  (image.getLma hdr.secAddr).2

/-- A section that has something to load is not larger than the file, and aligned to the bus. -/
def Accepted (hdr : SectionHeader) : Prop :=
  ∀ secType, image.getsectiontype hdr.secName.toInt = some secType → secType ≠ .cmdbuff →
    hdr.secSize ≠ 0 → hdr.secSize.toNat ≤ image.fwSize ∧ isaligned (image.lma hdr) hw.axiAlign

/-- The bytes of a section that are sent, 64 KiB being none. -/
def sent (size : BitVec 32) : BitVec 32 :=
  (if maxDmaTransfer < size then maxDmaTransfer else size) &&& dmaBcntMask

/-- The transfer of a section. -/
def request (secType : SecType) (hdr : SectionHeader) : DmaReq :=
  ⟨hdr.secOffset.toNat, image.lma hdr &&& pramAddrMask, sent (align hdr.secSize hw.axiAlign),
    secType.transMode⟩

/-- The transfers of the sections that are moved. -/
def requests (hdrs : List SectionHeader) : List DmaReq :=
  hdrs.filterMap fun hdr => (image.moved hdr).map fun secType => request hw image secType hdr

variable {hw image completes} {st : Load} {hdr : SectionHeader}

/-- The caller asks for a positive result, and an error is negative. -/
theorem not_getLma_pos (image : Staged) (vma : BitVec 32) : ¬0 < (image.getLma vma).1 := by
  unfold Staged.getLma
  split
  · exact lt_irrefl 0
  · exact (by decide)

/-- The loop of the write takes one round. -/
theorem vspaFwDmaWrite_eq (linfo : DmaParam) (dma : List DmaReq) :
    vspaFwDmaWrite completes linfo dma =
      (dma ++ [⟨linfo.phys, linfo.offset &&& pramAddrMask, sent linfo.size, linfo.xfrCtrl⟩],
        if completes dma.length then 0 else -70) := by
  have hagain : ∀ size : BitVec 32, ¬(size ≠ 0 ∧ (-11 : Int) = 0) :=
    fun _ hboth => absurd hboth.2 (by decide)
  unfold vspaFwDmaWrite dmaRounds
  by_cases hdone : completes dma.length = true
  · rw [if_pos hdone, if_neg (hagain _), if_pos hdone]
    rfl
  · rw [if_neg hdone, if_neg hdone]
    rfl

/-- A section is passed over, or sent, or refused. -/
theorem loadSection_cases (hw : Hardware) (image : Staged) (completes : Nat → Bool) (st : Load)
    (hdr : SectionHeader) :
    (Accepted hw image hdr ∧ image.moved hdr = none ∧
      (loadSection hw image completes st hdr).1.dma = st.dma ∧
      (loadSection hw image completes st hdr).2 = 0) ∨
    (∃ secType, Accepted hw image hdr ∧ image.moved hdr = some secType ∧
      (loadSection hw image completes st hdr).1.dma = st.dma ++ [request hw image secType hdr] ∧
      (loadSection hw image completes st hdr).2 = if completes st.dma.length then 0 else -70) ∨
    (¬Accepted hw image hdr ∧ (loadSection hw image completes st hdr).1.dma = st.dma ∧
      (loadSection hw image completes st hdr).2 ≠ 0) := by
  have hfound := not_getLma_pos image hdr.secAddr
  unfold loadSection Staged.moved Accepted
  cases htype : image.getsectiontype hdr.secName.toInt with
  | none =>
      refine .inl ⟨nofun, rfl, ?_⟩
      cases image.getOverlaySection hdr.secName.toInt with
      | none => exact ⟨rfl, rfl⟩
      | some name =>
          dsimp only
          rw [if_neg hfound]
          exact ⟨rfl, rfl⟩
  | some secType =>
      dsimp only
      rw [if_neg hfound]
      by_cases hskip : hdr.secSize = 0 ∨ secType = .cmdbuff
      · rw [if_pos hskip]
        refine .inl ⟨?_, ?_, rfl, rfl⟩
        · rintro other hother hcmd hsize
          obtain rfl := Option.some.inj hother
          exact absurd hskip (not_or.mpr ⟨hsize, hcmd⟩)
        · refine Option.filter_eq_none_iff.mpr ?_
          rintro other hother hmoved
          obtain rfl := Option.some.inj hother
          simp only [decide_eq_true_eq] at hmoved
          exact absurd hskip (not_or.mpr ⟨hmoved.1, hmoved.2.1⟩)
      rw [if_neg hskip]
      obtain ⟨hsize, hcmd⟩ := not_or.mp hskip
      by_cases hbig : image.fwSize < hdr.secSize.toNat
      · rw [if_pos hbig]
        refine .inr (.inr ⟨fun hall => ?_, rfl, show (-12 : Int) ≠ 0 by decide⟩)
        exact absurd (hall secType rfl hcmd hsize).1 (Nat.not_le.mpr hbig)
      rw [if_neg hbig]
      by_cases haligned : isaligned (image.getLma hdr.secAddr).2 hw.axiAlign
      · have haccepted : ∀ other, some secType = some other → other ≠ .cmdbuff →
            hdr.secSize ≠ 0 →
            hdr.secSize.toNat ≤ image.fwSize ∧ isaligned (image.lma hdr) hw.axiAlign :=
          fun _ _ _ _ => ⟨Nat.le_of_not_lt hbig, haligned⟩
        rw [if_neg (not_not.mpr haligned)]
        by_cases hocram : secType = .ocramvspa
        · rw [if_pos hocram]
          refine .inl ⟨haccepted, ?_, rfl, rfl⟩
          simp [hocram]
        · rw [if_neg hocram]
          refine .inr (.inl ⟨secType, haccepted, ?_, ?_⟩)
          · exact Option.filter_eq_some_iff.mpr ⟨rfl, decide_eq_true ⟨hsize, hcmd, hocram⟩⟩
          · rw [vspaFwDmaWrite_eq]
            exact ⟨rfl, rfl⟩
      · rw [if_pos haligned]
        refine .inr (.inr ⟨fun hall => ?_, rfl, show (-17 : Int) ≠ 0 by decide⟩)
        exact absurd (hall secType rfl hcmd hsize).2 haligned

/-- A section that is passed over adds no transfer. -/
theorem requests_of_none {rest : List SectionHeader} (h : image.moved hdr = none) :
    requests hw image (hdr :: rest) = requests hw image rest :=
  List.filterMap_cons_none (by rw [h, Option.map_none])

/-- A section that is moved adds its own. -/
theorem requests_of_some {rest : List SectionHeader} {secType : SecType}
    (h : image.moved hdr = some secType) :
    requests hw image (hdr :: rest) = request hw image secType hdr :: requests hw image rest :=
  List.filterMap_cons_some (by rw [h, Option.map_some])

/-- A load that succeeds has accepted every section and seen every transfer complete; and whatever
comes of it, the transfers are made in the order of the sections. -/
theorem loadSections_spec (hw : Hardware) (image : Staged) (completes : Nat → Bool)
    (hdrs : List SectionHeader) (st : Load) :
    ((loadSections hw image completes st hdrs).2 = 0 ↔
      (∀ hdr ∈ hdrs, Accepted hw image hdr) ∧
        ∀ n < (requests hw image hdrs).length, completes (st.dma.length + n) = true) ∧
    (loadSections hw image completes st hdrs).1.dma <+: st.dma ++ requests hw image hdrs ∧
    ((loadSections hw image completes st hdrs).2 = 0 →
      (loadSections hw image completes st hdrs).1.dma = st.dma ++ requests hw image hdrs) := by
  induction hdrs generalizing st with
  | nil =>
      refine ⟨iff_of_true rfl ⟨List.forall_mem_nil _, fun n hn => ?_⟩, ?_, ?_⟩
      · exact absurd hn (Nat.not_lt_zero n)
      · exact List.prefix_append _ _
      · exact fun _ => (List.append_nil _).symm
  | cons hdr rest ih =>
      unfold loadSections
      obtain ⟨haccepted, hmoved, hdma, hret⟩ | ⟨secType, haccepted, hmoved, hdma, hret⟩ |
        ⟨hrefused, hdma, hret⟩ :=
          loadSection_cases hw image completes st hdr
      · dsimp only
        rw [if_pos hret, requests_of_none hmoved, List.forall_mem_cons]
        have hrest := ih (loadSection hw image completes st hdr).1
        rw [hdma] at hrest
        obtain ⟨hiff, hpre, hall⟩ := hrest
        refine ⟨hiff.trans ?_, hpre, hall⟩
        exact ⟨fun h => ⟨⟨haccepted, h.1⟩, h.2⟩, fun h => ⟨h.1.2, h.2⟩⟩
      · rw [requests_of_some hmoved, List.forall_mem_cons]
        dsimp only
        by_cases hdone : completes st.dma.length = true
        · rw [if_pos hdone] at hret
          rw [if_pos hret]
          have hrest := ih (loadSection hw image completes st hdr).1
          rw [hdma, List.append_assoc, List.length_append] at hrest
          obtain ⟨hiff, hpre, hall⟩ := hrest
          refine ⟨hiff.trans ?_, hpre, hall⟩
          constructor
          · rintro ⟨hothers, hcompletes⟩
            refine ⟨⟨haccepted, hothers⟩, fun n hn => ?_⟩
            cases n with
            | zero => exact hdone
            | succ n =>
                have hnext := hcompletes n (Nat.lt_of_succ_lt_succ hn)
                rw [List.length_singleton, Nat.add_assoc, Nat.add_comm 1] at hnext
                exact hnext
          · rintro ⟨⟨-, hothers⟩, hcompletes⟩
            refine ⟨hothers, fun n hn => ?_⟩
            rw [List.length_singleton, Nat.add_assoc, Nat.add_comm 1]
            exact hcompletes (n + 1) (Nat.succ_lt_succ hn)
        · rw [if_neg hdone] at hret
          have hfailed : (loadSection hw image completes st hdr).2 ≠ 0 := by
            rw [hret]
            decide
          rw [if_neg hfailed]
          refine ⟨iff_of_false hfailed fun h => ?_, ?_, fun h => absurd h hfailed⟩
          · exact hdone (h.2 0 (Nat.succ_pos _))
          · rw [hdma]
            exact ⟨requests hw image rest, List.append_assoc _ _ _⟩
      · dsimp only
        rw [if_neg hret, hdma]
        refine ⟨iff_of_false hret fun h => ?_, List.prefix_append _ _, fun h => absurd h hret⟩
        exact hrefused (h.1 hdr List.mem_cons_self)

/-- `la9310_load_vspa_image` returns 0 exactly if the machine is right, every section is accepted
and every transfer completes; the transfers are those of the sections in their order, as far as it
gets, and all of them where it returns 0. -/
theorem load_transfers (hw : Hardware) (image : Staged) (completes : Nat → Bool) :
    ((la9310LoadVspaImage hw image completes).2 = 0 ↔
      (image.machine = 0xBE ∨ image.machine = 0x40c8) ∧
        (∀ hdr ∈ image.sections, Accepted hw image hdr) ∧
          ∀ n < (requests hw image image.sections).length, completes n = true) ∧
    (la9310LoadVspaImage hw image completes).1.dma <+: requests hw image image.sections ∧
    ((la9310LoadVspaImage hw image completes).2 = 0 →
      (la9310LoadVspaImage hw image completes).1.dma = requests hw image image.sections) := by
  have hspec := loadSections_spec hw image completes image.sections Load.start
  have hzero : ∀ n, Load.start.dma.length + n = n := Nat.zero_add
  simp only [hzero] at hspec
  obtain ⟨hiff, hpre, hall⟩ := hspec
  unfold la9310LoadVspaImage
  by_cases hmachine : image.machine ≠ 0xBE ∧ image.machine ≠ 0x40c8
  · have hbad : ¬(image.machine = 0xBE ∨ image.machine = 0x40c8) := not_or.mpr hmachine
    rw [if_pos hmachine]
    refine ⟨iff_of_false (show (-8 : Int) ≠ 0 by decide) fun h => hbad h.1, ?_, ?_⟩
    · exact List.nil_prefix
    · exact fun h => absurd h (show (-8 : Int) ≠ 0 by decide)
  · rw [if_neg hmachine]
    have hgood : image.machine = 0xBE ∨ image.machine = 0x40c8 := by
      by_contra hnot
      exact hmachine (not_or.mp hnot)
    have hret : ∀ ret : Int, (if ret = 0 then (0 : Int) else -5) = 0 ↔ ret = 0 := by
      intro ret
      by_cases hok : ret = 0
      · rw [if_pos hok]
        exact iff_of_true rfl hok
      · rw [if_neg hok]
        exact iff_of_false (by decide) hok
    refine ⟨(hret _).trans (hiff.trans ?_), hpre, fun h => hall ((hret _).mp h)⟩
    exact ⟨fun h => ⟨hgood, h⟩, fun h => h.2⟩

/-! ## What the core then has -/

/-- What the engine does: it copies the staged bytes to the memory that the mode selects. -/
def DmaReq.patch (byte : Int → Byte) (req : DmaReq) : Patch (BitVec 32 × Nat) Byte where
  covers := fun (mode, addr) => mode == req.xfrCtrl && decide (req.dmemAddr.toNat ≤ addr) &&
    decide (addr < req.dmemAddr.toNat + req.byteCnt.toNat)
  value := fun (_, addr) => byte (req.source + (addr - req.dmemAddr.toNat : Nat))

/-- The address of a section in the memory of the core. -/
def Staged.dest (image : Staged) (hdr : SectionHeader) : Nat :=
  (image.lma hdr &&& pramAddrMask).toNat

/-- The length of a section in whole bus words. -/
def alignedSize (hw : Hardware) (hdr : SectionHeader) : Nat :=
  (align hdr.secSize hw.axiAlign).toNat

/-- Two sections that are moved do not overlap. -/
def PlacedApart (hw : Hardware) (image : Staged) (hdr other : SectionHeader) : Prop :=
  ∀ secType ∈ image.moved hdr, ∀ otherType ∈ image.moved other,
    secType.transMode ≠ otherType.transMode ∨
      image.dest hdr + alignedSize hw hdr ≤ image.dest other ∨
        image.dest other + alignedSize hw other ≤ image.dest hdr

/-- The memories of the core behind the transfers of a load. -/
def memoryAfter (hw : Hardware) (image : Staged) (completes : Nat → Bool)
    (before : BitVec 32 × Nat → Byte) : BitVec 32 × Nat → Byte :=
  applyAll before ((la9310LoadVspaImage hw image completes).1.dma.map (DmaReq.patch image.byte))

/-- The core has the bytes of the section. -/
def InPlace (image : Staged) (memory : BitVec 32 × Nat → Byte) (secType : SecType)
    (hdr : SectionHeader) : Prop :=
  ∀ k < hdr.secSize.toNat,
    memory (secType.transMode, image.dest hdr + k) = image.byte (hdr.secOffset.toNat + k)

theorem sent_of_lt {size : BitVec 32} (h : size.toNat < 65536) : sent size = size := by
  have hmax : ¬maxDmaTransfer < size := by
    rw [BitVec.lt_def]
    exact Nat.not_lt.mpr (Nat.le_of_lt h)
  unfold sent
  rw [if_neg hmax]
  apply BitVec.eq_of_toNat_eq
  show size.toNat &&& (2 ^ 16 - 1) = size.toNat
  rw [Nat.and_two_pow_sub_one_eq_mod, Nat.mod_eq_of_lt h]

/-- From 64 KiB on the masked count is 0. -/
theorem sent_of_le {size : BitVec 32} (h : 65536 ≤ size.toNat) : sent size = 0 := by
  unfold sent
  by_cases hmax : maxDmaTransfer < size
  · rw [if_pos hmax]
    decide
  · have hsize : size = maxDmaTransfer := by
      apply BitVec.eq_of_toNat_eq
      rw [BitVec.lt_def] at hmax
      exact Nat.le_antisymm (Nat.le_of_not_lt hmax) h
    rw [if_neg hmax, hsize]
    decide

theorem toNat_sent_le (size : BitVec 32) : (sent size).toNat ≤ size.toNat := by
  obtain hlt | hle := Nat.lt_or_ge size.toNat 65536
  · rw [sent_of_lt hlt]
  · rw [sent_of_le hle]
    exact Nat.zero_le _

/-- The bus is 512 bytes wide at most. -/
theorem toNat_axiAlign_sub_one_le (hw : Hardware) : (hw.axiAlign - 1).toNat ≤ 511 := by
  have hwidths : ∀ code < 8, ((32 : BitVec 32) <<< code / 8 - 1).toNat ≤ 511 := by decide
  have hcode : ((hw.param1 >>> 28) &&& 7).toNat < 8 := by
    rw [BitVec.toNat_and]
    exact Nat.lt_succ_of_le Nat.and_le_right
  exact hwidths _ hcode

/-- Without overflow a size is not rounded down. -/
theorem toNat_le_align {x a : BitVec 32} (h : x.toNat + (a - 1).toNat < 2 ^ 32) :
    x.toNat ≤ (align x a).toNat := by
  have hsum : (x + (a - 1)).toNat = x.toNat + (a - 1).toNat := by
    rw [BitVec.toNat_add, Nat.mod_eq_of_lt h]
  -- the sum is its low bits and its high bits
  have hparts : ((x + (a - 1)) &&& (a - 1)) + align x a = x + (a - 1) := by
    unfold align
    rw [BitVec.add_eq_or_of_and_eq_zero]
    · ext bit hbit
      simp only [BitVec.getElem_or, BitVec.getElem_and, BitVec.getElem_not]
      cases (x + (a - 1))[bit] with
      | false => rfl
      | true => cases (a - 1)[bit] with
        | false => rfl
        | true => rfl
    · ext bit hbit
      simp only [BitVec.getElem_and, BitVec.getElem_not, BitVec.getElem_zero]
      cases (x + (a - 1))[bit] with
      | false => rfl
      | true => cases (a - 1)[bit] with
        | false => rfl
        | true => rfl
  have hlow : ((x + (a - 1)) &&& (a - 1)).toNat ≤ (a - 1).toNat := by
    rw [BitVec.toNat_and]
    exact Nat.and_le_right
  have hle : (x + (a - 1)).toNat ≤ ((x + (a - 1)) &&& (a - 1)).toNat + (align x a).toNat := by
    conv_lhs => rw [← hparts]
    rw [BitVec.toNat_add]
    exact Nat.mod_le _ _
  omega

/-- A section that is accepted is not rounded down. -/
theorem Accepted.secSize_le (h : Accepted hw image hdr) {secType : SecType}
    (hmoved : image.moved hdr = some secType) : hdr.secSize.toNat ≤ alignedSize hw hdr := by
  obtain ⟨htype, hkept⟩ := Option.filter_eq_some_iff.mp hmoved
  obtain ⟨hsize, hcmd, -⟩ := of_decide_eq_true hkept
  have hfile := (h secType htype hcmd hsize).1
  have hlt := image.fwSize_lt
  have hbus := toNat_axiAlign_sub_one_le hw
  exact toNat_le_align (by omega)

/-- A transfer covers no more than the section in whole bus words. -/
theorem covers_request {secType : SecType} {mode : BitVec 32} {addr : Nat}
    (h : ((request hw image secType hdr).patch image.byte).covers (mode, addr) = true) :
    mode = secType.transMode ∧ image.dest hdr ≤ addr ∧
      addr < image.dest hdr + (sent (align hdr.secSize hw.axiAlign)).toNat := by
  simp only [DmaReq.patch, request, Bool.and_eq_true, beq_iff_eq] at h
  exact ⟨h.1.1, of_decide_eq_true h.1.2, of_decide_eq_true h.2⟩

/-- Sections that do not overlap make transfers that do not. -/
theorem PlacedApart.patches {other : SectionHeader} (h : PlacedApart hw image hdr other)
    {secType otherType : SecType} (hmoved : image.moved hdr = some secType)
    (hother : image.moved other = some otherType) :
    ((request hw image secType hdr).patch image.byte).Apart
      ((request hw image otherType other).patch image.byte) := by
  rintro ⟨mode, addr⟩ ⟨hcovers, hcoversOther⟩
  obtain ⟨hmode, hlow, hhigh⟩ := covers_request hcovers
  obtain ⟨hmodeOther, hlowOther, hhighOther⟩ := covers_request hcoversOther
  have hsent := toNat_sent_le (align hdr.secSize hw.axiAlign)
  have hsentOther := toNat_sent_le (align other.secSize hw.axiAlign)
  obtain hmodes | hbefore | hbehind := h secType hmoved otherType hother
  · exact hmodes (hmode.symm.trans hmodeOther)
  · unfold alignedSize at hbefore
    omega
  · unfold alignedSize at hbehind
    omega

instance PlacedApart.symm : Std.Symm (PlacedApart hw image) where
  symm hdr other h := by
    intro secType hmoved otherType hother
    obtain hmodes | hbefore | hbehind := h otherType hother secType hmoved
    · exact .inl hmodes.symm
    · exact .inr (.inr hbefore)
    · exact .inr (.inl hbehind)

/-- The pieces that sections which do not overlap leave. -/
theorem pairwise_patches {hdrs : List SectionHeader}
    (hapart : hdrs.Pairwise (PlacedApart hw image)) :
    ((requests hw image hdrs).map (DmaReq.patch image.byte)).Pairwise Patch.Apart := by
  unfold requests
  rw [List.pairwise_map, List.pairwise_filterMap]
  refine hapart.imp fun {hdr other} hplaced req hreq otherReq hotherReq => ?_
  obtain ⟨secType, hmoved, rfl⟩ := Option.map_eq_some_iff.mp hreq
  obtain ⟨otherType, hother, rfl⟩ := Option.map_eq_some_iff.mp hotherReq
  exact hplaced.patches hmoved hother

/-- A section that is too long is covered by no transfer. -/
theorem uncovered_of_le {hdrs : List SectionHeader}
    (hapart : hdrs.Pairwise (PlacedApart hw image)) (hmem : hdr ∈ hdrs) {secType : SecType}
    (hmoved : image.moved hdr = some secType) (hlong : 65536 ≤ alignedSize hw hdr) {k : Nat}
    (hk : k < alignedSize hw hdr) :
    ∀ patch ∈ (requests hw image hdrs).map (DmaReq.patch image.byte),
      patch.covers (secType.transMode, image.dest hdr + k) = false := by
  intro patch hpatch
  obtain ⟨req, hreq, rfl⟩ := List.mem_map.mp hpatch
  obtain ⟨other, hother, hsome⟩ := List.mem_filterMap.mp hreq
  obtain ⟨otherType, hotherMoved, rfl⟩ := Option.map_eq_some_iff.mp hsome
  refine Bool.eq_false_iff.mpr fun hcovers => ?_
  obtain ⟨hmode, hlow, hhigh⟩ := covers_request hcovers
  by_cases hsame : other = hdr
  · rw [hsame, sent_of_le hlong] at hhigh
    rw [hsame] at hlow
    exact absurd hhigh (Nat.not_lt.mpr hlow)
  · -- two headers that differ stand at different places of the table
    have hplaced := hapart.forall hother hmem hsame
    have hsent := toNat_sent_le (align other.secSize hw.axiAlign)
    obtain hmodes | hbefore | hbehind := hplaced otherType hotherMoved secType hmoved
    · exact hmodes hmode.symm
    · unfold alignedSize at hbefore
      omega
    · omega

/-- A section that is moved is not empty. -/
theorem secSize_pos {secType : SecType} (hmoved : image.moved hdr = some secType) :
    0 < hdr.secSize.toNat := by
  obtain ⟨-, hkept⟩ := Option.filter_eq_some_iff.mp hmoved
  have hsize : hdr.secSize ≠ 0 := (of_decide_eq_true hkept).1
  exact Nat.pos_of_ne_zero fun hzero => hsize (BitVec.eq_of_toNat_eq hzero)

/-- A section that is short enough is in place, as it is there in full. -/
theorem inPlace_of_lt (haccepted : Accepted hw image hdr)
    (hapart : image.sections.Pairwise (PlacedApart hw image)) {secType : SecType}
    (hmoved : image.moved hdr = some secType)
    (hreq : request hw image secType hdr ∈ requests hw image image.sections)
    (hshort : alignedSize hw hdr < 65536) (before : BitVec 32 × Nat → Byte) :
    InPlace image (applyAll before
      ((requests hw image image.sections).map (DmaReq.patch image.byte))) secType hdr := by
  intro k hk
  have hsize := haccepted.secSize_le hmoved
  have hcovers : ((request hw image secType hdr).patch image.byte).covers
      (secType.transMode, image.dest hdr + k) = true := by
    simp only [DmaReq.patch, request, Bool.and_eq_true, beq_iff_eq]
    refine ⟨⟨trivial, decide_eq_true (Nat.le_add_right _ k)⟩, decide_eq_true ?_⟩
    rw [sent_of_lt hshort]
    exact Nat.add_lt_add_left (Nat.lt_of_lt_of_le hk hsize) _
  rw [applyAll_of_mem (pairwise_patches hapart) (List.mem_map_of_mem hreq) hcovers]
  show image.byte (hdr.secOffset.toNat + (image.dest hdr + k - image.dest hdr : Nat)) = _
  rw [Nat.add_sub_cancel_left]

/-- Where the load succeeds, the memories are those behind the transfers of all sections. -/
theorem memoryAfter_eq (hok : (la9310LoadVspaImage hw image completes).2 = 0)
    (before : BitVec 32 × Nat → Byte) :
    memoryAfter hw image completes before =
      applyAll before ((requests hw image image.sections).map (DmaReq.patch image.byte)) := by
  obtain ⟨-, -, hall⟩ := load_transfers hw image completes
  rw [memoryAfter, hall hok]

/-- A transfer of a section has 0 bytes only from 64 KiB on. -/
theorem byteCnt_eq_zero_iff {secType : SecType} (hpos : 0 < alignedSize hw hdr) :
    (request hw image secType hdr).byteCnt = 0 ↔ 65536 ≤ alignedSize hw hdr := by
  constructor
  · intro hnone
    by_contra hshort
    have hcount : alignedSize hw hdr = 0 := by
      rw [alignedSize, ← sent_of_lt (Nat.not_le.mp hshort)]
      exact congrArg BitVec.toNat hnone
    exact absurd hcount (Nat.ne_of_gt hpos)
  · exact sent_of_le

/-- A section of which nothing is sent is not in place in a memory that differs from it. -/
theorem not_inPlace_of_kept {secType : SecType} (hmoved : image.moved hdr = some secType)
    (hkept : ∀ before, memoryAfter hw image completes before (secType.transMode, image.dest hdr) =
      before (secType.transMode, image.dest hdr)) :
    ¬∀ before, InPlace image (memoryAfter hw image completes before) secType hdr := by
  intro hplace
  have hfirst := hplace (fun _ => image.byte hdr.secOffset.toNat + 1) 0 (secSize_pos hmoved)
  rw [Nat.add_zero, hkept] at hfirst
  have hbyte : image.byte hdr.secOffset.toNat + 1 = image.byte hdr.secOffset.toNat := by
    rw [hfirst]
    exact congrArg image.byte (Int.add_zero _)
  simp at hbyte

/-- Where the load succeeds and no two sections overlap, a section that is moved is in place,
whatever the memories held before, exactly if it is shorter than 64 KiB in whole bus words. Each is
sent in one transfer; from 64 KiB on that is a transfer of 0 bytes, and the memories of the core
keep what they held where the section should be. -/
theorem load_inPlace_iff (hw : Hardware) (image : Staged) (completes : Nat → Bool)
    (hok : (la9310LoadVspaImage hw image completes).2 = 0)
    (hapart : image.sections.Pairwise (PlacedApart hw image)) {hdr : SectionHeader}
    {secType : SecType} (hmem : hdr ∈ image.sections) (hmoved : image.moved hdr = some secType) :
    ((∀ before, InPlace image (memoryAfter hw image completes before) secType hdr) ↔
        alignedSize hw hdr < 65536) ∧
      (∀ dma, (vspaFwDmaWrite completes (dparam hw secType hdr (image.lma hdr)) dma).1 =
        dma ++ [request hw image secType hdr]) ∧
      request hw image secType hdr ∈ (la9310LoadVspaImage hw image completes).1.dma ∧
      ((request hw image secType hdr).byteCnt = 0 ↔ 65536 ≤ alignedSize hw hdr) ∧
      (65536 ≤ alignedSize hw hdr → ∀ before, ∀ k < alignedSize hw hdr,
        memoryAfter hw image completes before (secType.transMode, image.dest hdr + k) =
          before (secType.transMode, image.dest hdr + k)) := by
  have hspec := load_transfers hw image completes
  have haccepted := (hspec.1.mp hok).2.1 hdr hmem
  have hpos := Nat.lt_of_lt_of_le (secSize_pos hmoved) (haccepted.secSize_le hmoved)
  have hreq : request hw image secType hdr ∈ requests hw image image.sections :=
    List.mem_filterMap.mpr ⟨hdr, hmem, by rw [hmoved, Option.map_some]⟩
  have hkept (hlong : 65536 ≤ alignedSize hw hdr) (before : BitVec 32 × Nat → Byte) (k : Nat)
      (hk : k < alignedSize hw hdr) :
      memoryAfter hw image completes before (secType.transMode, image.dest hdr + k) =
        before (secType.transMode, image.dest hdr + k) := by
    rw [memoryAfter_eq hok]
    exact applyAll_of_uncovered (uncovered_of_le hapart hmem hmoved hlong hk)
  refine ⟨⟨fun hplace => ?_, fun hshort before => ?_⟩, fun dma => ?_, ?_,
    byteCnt_eq_zero_iff hpos, hkept⟩
  · by_contra hlong
    exact not_inPlace_of_kept hmoved
      (fun before => hkept (Nat.le_of_not_lt hlong) before 0 hpos) hplace
  · rw [memoryAfter_eq hok]
    exact inPlace_of_lt haccepted hapart hmoved hreq hshort before
  · rw [vspaFwDmaWrite_eq]
    rfl
  · rw [hspec.2.2 hok]
    exact hreq

/-! ## The overlay table -/

/-- A section that gets the next place of `overlay_sec`. -/
def Staged.links (image : Staged) (hdr : SectionHeader) : Bool :=
  (image.getsectiontype hdr.secName.toInt).isNone &&
    (image.getOverlaySection hdr.secName.toInt).isSome

/-- The places from 1 up to the next one have been stored to, and besides those only place 0. -/
structure Linked (st : Load) : Prop where
  pos : 0 < st.overlayLinkAdd
  stored : ∀ place, 0 < place →
    ((∃ store ∈ st.overlaySec, store.place = place) ↔ place < st.overlayLinkAdd)

/-- A store to place 0 does not matter. -/
theorem Linked.first (h : Linked st) (dpram : DmaParam) {following : Load}
    (hadd : following.overlayLinkAdd = st.overlayLinkAdd)
    (hsec : following.overlaySec = st.overlaySec ++ [.first dpram]) : Linked following := by
  constructor
  · rw [hadd]
    exact h.pos
  · intro place hplace
    rw [hadd, ← h.stored place hplace, hsec]
    constructor
    · rintro ⟨store, hstore, hat⟩
      obtain hbefore | hlast := List.mem_append.mp hstore
      · exact ⟨store, hbefore, hat⟩
      · rw [List.mem_singleton.mp hlast] at hat
        exact absurd hat (Nat.ne_of_lt hplace)
    · rintro ⟨store, hstore, hat⟩
      exact ⟨store, List.mem_append_left _ hstore, hat⟩

theorem Linked.link (h : Linked st) (name : OverlayName) (phys : Nat) (size : BitVec 32) :
    Linked { st with
      overlaySec := st.overlaySec ++ [.link st.overlayLinkAdd name phys size]
      overlayLinkAdd := st.overlayLinkAdd + 1 } := by
  refine ⟨Nat.succ_pos _, fun place hplace => ?_⟩
  show (∃ store ∈ st.overlaySec ++ [.link st.overlayLinkAdd name phys size],
    store.place = place) ↔ place < st.overlayLinkAdd + 1
  rw [Nat.lt_succ_iff_lt_or_eq, ← h.stored place hplace]
  constructor
  · rintro ⟨store, hstore, hat⟩
    obtain hbefore | hlast := List.mem_append.mp hstore
    · exact .inl ⟨store, hbefore, hat⟩
    · rw [List.mem_singleton.mp hlast] at hat
      exact .inr hat.symm
  · rintro (⟨store, hstore, hat⟩ | hnew)
    · exact ⟨store, List.mem_append_left _ hstore, hat⟩
    · exact ⟨.link st.overlayLinkAdd name phys size, List.mem_append_right _ List.mem_cons_self,
        hnew.symm⟩

/-- The variables that the overlays are in are the same. -/
theorem Linked.of_eq (h : Linked st) {following : Load}
    (hadd : following.overlayLinkAdd = st.overlayLinkAdd)
    (hsec : following.overlaySec = st.overlaySec) : Linked following := by
  constructor
  · rw [hadd]
    exact h.pos
  · rw [hadd, hsec]
    exact h.stored

/-- Whatever comes of a section, it takes a place if it is one that gets one. -/
theorem Linked.loadSection (h : Linked st) (hw : Hardware) (image : Staged)
    (completes : Nat → Bool) (hdr : SectionHeader) :
    Linked (loadSection hw image completes st hdr).1 ∧
      (loadSection hw image completes st hdr).1.overlayLinkAdd =
        st.overlayLinkAdd + if image.links hdr then 1 else 0 := by
  have hfound := not_getLma_pos image hdr.secAddr
  unfold SectionLoad.loadSection Staged.links
  cases htype : image.getsectiontype hdr.secName.toInt with
  | none =>
      cases image.getOverlaySection hdr.secName.toInt with
      | none => exact ⟨h, rfl⟩
      | some name =>
          dsimp only
          rw [if_neg hfound]
          exact ⟨h.link name _ _, rfl⟩
  | some secType =>
      dsimp only
      rw [if_neg hfound]
      split
      · exact ⟨h, rfl⟩
      split
      · exact ⟨h, rfl⟩
      split
      · exact ⟨h.of_eq rfl rfl, rfl⟩
      split
      · exact ⟨h.of_eq rfl rfl, rfl⟩
      · dsimp only
        split
        · exact ⟨h.first _ rfl rfl, rfl⟩
        · exact ⟨h.of_eq rfl rfl, rfl⟩

/-- A load takes no more places than there are sections that get one, and as many where it
succeeds. -/
theorem Linked.loadSections (hw : Hardware) (image : Staged) (completes : Nat → Bool)
    (hdrs : List SectionHeader) {st : Load} (h : Linked st) :
    Linked (loadSections hw image completes st hdrs).1 ∧
      (loadSections hw image completes st hdrs).1.overlayLinkAdd ≤
        st.overlayLinkAdd + hdrs.countP image.links ∧
      ((loadSections hw image completes st hdrs).2 = 0 →
        (loadSections hw image completes st hdrs).1.overlayLinkAdd =
          st.overlayLinkAdd + hdrs.countP image.links) := by
  induction hdrs generalizing st with
  | nil => exact ⟨h, le_refl _, fun _ => rfl⟩
  | cons hdr rest ih =>
      obtain ⟨hfollowing, hadd⟩ := h.loadSection hw image completes hdr
      unfold SectionLoad.loadSections
      dsimp only
      rw [List.countP_cons]
      by_cases hret : (SectionLoad.loadSection hw image completes st hdr).2 = 0
      · rw [if_pos hret]
        obtain ⟨hlinked, hle, heq⟩ := ih hfollowing
        rw [hadd] at hle heq
        exact ⟨hlinked, by omega, fun hok => by have := heq hok; omega⟩
      · rw [if_neg hret]
        refine ⟨hfollowing, ?_, fun hok => absurd hok hret⟩
        rw [hadd]
        omega

/-- The stores stay in the table while its next place is not behind the third. -/
theorem Linked.within_iff (h : Linked st) :
    (∀ store ∈ st.overlaySec, store.place < 3) ↔ st.overlayLinkAdd ≤ 3 := by
  constructor
  · intro hwithin
    by_contra hmore
    obtain ⟨store, hstore, hat⟩ := (h.stored 3 (by decide)).mpr (Nat.lt_of_not_le hmore)
    exact absurd (hwithin store hstore) (Nat.not_lt.mpr (Nat.le_of_eq hat.symm))
  · intro hnext store hstore
    by_contra hout
    have hplace : 0 < store.place := Nat.lt_of_lt_of_le (by decide) (Nat.le_of_not_lt hout)
    exact hout (Nat.lt_of_lt_of_le ((h.stored _ hplace).mp ⟨store, hstore, rfl⟩) hnext)

/-- No store leaves the three places of `overlay_sec` if at most two sections get a place by their
name; and a load that succeeds without leaving them has met no more. -/
theorem overlaySec_within (hw : Hardware) (image : Staged) (completes : Nat → Bool) :
    (image.sections.countP image.links ≤ 2 →
      ∀ store ∈ (la9310LoadVspaImage hw image completes).1.overlaySec, store.place < 3) ∧
    ((la9310LoadVspaImage hw image completes).2 = 0 →
      (∀ store ∈ (la9310LoadVspaImage hw image completes).1.overlaySec, store.place < 3) →
        image.sections.countP image.links ≤ 2) := by
  have hstart : Linked Load.start := by
    refine ⟨Nat.one_pos, fun place hplace => iff_of_false ?_ (Nat.not_lt.mpr hplace)⟩
    rintro ⟨store, hstore, -⟩
    cases hstore
  have hone : Load.start.overlayLinkAdd = 1 := rfl
  obtain ⟨hlinked, hle, heq⟩ := Linked.loadSections hw image completes image.sections hstart
  rw [hone] at hle heq
  unfold la9310LoadVspaImage
  by_cases hmachine : image.machine ≠ 0xBE ∧ image.machine ≠ 0x40c8
  · rw [if_pos hmachine]
    refine ⟨fun _ store hstore => ?_, fun hok => absurd hok (show (-8 : Int) ≠ 0 by decide)⟩
    cases hstore
  · rw [if_neg hmachine]
    dsimp only
    rw [hlinked.within_iff]
    refine ⟨fun hfew => by omega, fun hok hnext => ?_⟩
    by_cases hret : (loadSections hw image completes Load.start image.sections).2 = 0
    · have hplaces := heq hret
      omega
    · rw [if_neg hret] at hok
      exact absurd hok (show (-5 : Int) ≠ 0 by decide)

end Sections

/-! ## An image with a section that is too long -/

/-- A file that begins with these bytes, with zeros behind them. -/
def ofFile (data : List Byte) (size : Nat) (h : size < 2147483648) : Staged where
  byte := fun off => if 0 ≤ off then data.getD off.toNat 0 else 0
  fwSize := size
  fwSize_lt := h

/-- A section header with a name, an address, an offset and a size. -/
def headerAt (name addr off size : Nat) : List Byte :=
  leBytes 4 name ++ leBytes 8 0 ++ leBytes 4 addr ++ leBytes 4 off ++ leBytes 4 size ++
    leBytes 16 0

/-- A program header that puts an address of the program at one of the core. -/
def programAt (vaddr paddr : Nat) : List Byte :=
  leBytes 8 0 ++ leBytes 4 vaddr ++ leBytes 4 paddr ++ leBytes 16 0

/-- The header, those of the section names and of two sections `.vpram`, the names, the four bytes
of the first, and the program headers that put that at `0x40` and the other, of 64 KiB, at
`0x10000`. -/
def longFile : List Byte :=
  leBytes 18 0 ++ leBytes 2 0xBE ++ leBytes 8 0 ++ leBytes 4 184 ++ leBytes 4 52 ++ leBytes 8 0 ++
    leBytes 2 2 ++ leBytes 2 0 ++ leBytes 2 3 ++ leBytes 2 0 ++
    headerAt 6 0 172 8 ++ headerAt 0 0x1000 180 4 ++ headerAt 0 0x2000 248 65536 ++
    SecType.vpram.secName ++ [0, 0] ++ [1, 2, 3, 4] ++
    programAt 0x1000 0x40 ++ programAt 0x2000 0x10000

def longImage : Staged :=
  ofFile longFile 65784 (by decide)

instance (hw : Hardware) (image : Staged) (hdr other : SectionHeader) :
    Decidable (PlacedApart hw image hdr other) :=
  inferInstanceAs (Decidable (∀ secType ∈ image.moved hdr, ∀ otherType ∈ image.moved other, _))

/-- The load succeeds; the four bytes are in place, and of the 64 KiB there is nothing. -/
theorem load_inPlace_iff_longImage :
    (la9310LoadVspaImage ⟨0x10000000⟩ longImage fun _ => true).2 = 0 ∧
      (∀ before, InPlace longImage
        (memoryAfter ⟨0x10000000⟩ longImage (fun _ => true) before) .vpram
        (longImage.sectionHeader 1)) ∧
      ∀ before, ∀ k < 65536,
        memoryAfter ⟨0x10000000⟩ longImage (fun _ => true) before (0x200, 0x10000 + k) =
          before (0x200, 0x10000 + k) := by
  have hok : (la9310LoadVspaImage ⟨0x10000000⟩ longImage fun _ => true).2 = 0 := by
    decide +kernel
  have hapart : longImage.sections.Pairwise (PlacedApart ⟨0x10000000⟩ longImage) := by
    decide +kernel
  have hfirst : longImage.sectionHeader 1 ∈ longImage.sections := by decide +kernel
  have hsecond : longImage.sectionHeader 2 ∈ longImage.sections := by decide +kernel
  have hshort : alignedSize ⟨0x10000000⟩ (longImage.sectionHeader 1) < 65536 := by
    decide +kernel
  have hlong : alignedSize ⟨0x10000000⟩ (longImage.sectionHeader 2) = 65536 := by
    decide +kernel
  have hdest : longImage.dest (longImage.sectionHeader 2) = 0x10000 := by decide +kernel
  refine ⟨hok, ?_, fun before k hk => ?_⟩
  · exact (load_inPlace_iff ⟨0x10000000⟩ longImage (fun _ => true) hok hapart hfirst
      (by decide +kernel)).1.mpr hshort
  · have hkept := (load_inPlace_iff ⟨0x10000000⟩ longImage (fun _ => true) hok hapart hsecond
      (show longImage.moved (longImage.sectionHeader 2) = some .vpram by decide +kernel)).2.2.2.2
      (Nat.le_of_eq hlong.symm) before k (by rw [hlong]; exact hk)
    rw [hdest] at hkept
    exact hkept

end RfnmDriver.Vspa.SectionLoad
