import Mathlib.Data.List.Nodup
import RfnmDriver.Daughterboard.CapabilityFrame

/-!
# Whose number an apply uses

`abs_id` names a channel in the apply mask and in the result codes; the lists that are served and
applied name it by its position. A registration numbers the channels of its direction anew, over
both slots; removing a board does not, and an applied list writes back the number it carries.
`numbering_coherent_iff` says for which boards and lists number and position stay the same.
-/

namespace RfnmDriver.Daughterboard

open StepSystem

variable {Ch Edit Other : Type}

/-- `rfnm_dgb[2]`: the board in each slot. -/
structure Slots where
  first : Option Nat
  second : Option Nat
  deriving DecidableEq, Repr

/-- A slot gets another board, or none. -/
def Slots.put (slots : Slots) (slot : Fin 2) (board : Option Nat) : Slots :=
  if slot.val = 0 then { slots with first := board } else { slots with second := board }

/-- The channels of one direction on the boards in the slots. -/
def Slots.boards (slots : Slots) (channels : Nat → List Ch) : Boards Ch where
  first := slots.first.elim [] channels
  second := slots.second.elim [] channels

/-- The channels of the boards in the slots are written. -/
def Slots.store (slots : Slots) (channels : Nat → List Ch) (boards : Boards Ch) :
    Nat → List Ch := fun board =>
  if slots.first = some board then boards.first
  else if slots.second = some board then boards.second
  else channels board

/-- The channels of one slot are others. -/
def Boards.replace (boards : Boards Ch) (slot : Fin 2) (list : List Ch) : Boards Ch :=
  if slot.val = 0 then { boards with first := list } else { boards with second := list }

/-- What there is of one direction: the channels of every board driver's `struct rfnm_dgb`, in a
slot or not, and the results of the last list. -/
structure Table (Ch : Type) where
  channels : Nat → List Ch
  ecodes : Nat → Int
  rej : Nat → Reject
  cc : Nat

/-- Both directions. -/
structure Registry (Tx Rx : Type) where
  slots : Slots
  tx : Table Tx
  rx : Table Rx

/-- A registration, a removal, or a channel list. -/
inductive RegistryEvent (Tx Rx : Type)
  /-- `rfnm_dgb_reg_tx_ch`. -/
  | regTx (board : Nat) (ch : Tx)
  /-- `rfnm_dgb_reg_rx_ch`. -/
  | regRx (board : Nat) (ch : Rx)
  /-- `rfnm_dgb_unreg`. -/
  | unreg (board : Nat)
  /-- `rfnm_apply_dev_tx_chlist_work`. -/
  | applyTx (list : ChList Tx) (outcome : Outcome)
  /-- `rfnm_apply_dev_rx_chlist_work`. -/
  | applyRx (list : ChList Rx) (outcome : Outcome)

/-- `rfnm_dgb_reg_tx_ch`, `rfnm_dgb_reg_rx_ch`, the board being in its slot already. -/
def Table.register (side : Side Ch Edit) (slots : Slots) (table : Table Ch) (slot : Fin 2)
    (board : Nat) (ch : Ch) : Table Ch :=
  let grown := Function.update table.channels board
    (table.channels board ++ [side.enroll slot (table.channels board).length ch])
  { table with channels := slots.store grown ((slots.boards grown).renumber side) }

/-- What the work function finds: the list, and the channels of the boards in the slots. -/
def Table.start (slots : Slots) (table : Table Ch) (list : ChList Ch) : Data Ch where
  list := list
  channels d := (slots.boards table.channels).walk[d]?.getD (list.ch d)
  ecodes := table.ecodes
  rej := table.rej
  cc := table.cc

/-- The work function over the boards in the slots. -/
def Table.applied (dir : Direction Ch) (slots : Slots) (table : Table Ch) (list : ChList Ch)
    (outcome : Outcome) : Data Ch :=
  application dir (slots.boards table.channels).walk.length (table.start slots list) outcome

/-- The channels the walk has written, back on their boards. -/
def Boards.written (boards : Boards Ch) (channels : Nat → Ch) : Boards Ch where
  first := boards.first.mapIdx fun q _ => channels q
  second := boards.second.mapIdx fun q _ => channels (q + boards.first.length)

/-- `rfnm_apply_dev_tx_chlist_work`, `rfnm_apply_dev_rx_chlist_work`. -/
def Table.apply (dir : Direction Ch) (slots : Slots) (table : Table Ch) (list : ChList Ch)
    (outcome : Outcome) : Table Ch :=
  let data := table.applied dir slots list outcome
  { channels := slots.store table.channels
      ((slots.boards table.channels).written data.channels)
    ecodes := data.ecodes
    rej := data.rej
    cc := data.cc }

variable {Tx Rx TxE RxE : Type}

/-- One step. `dgbId` is the slot a board is in. -/
def Registry.next (tx : Side Tx TxE) (rx : Side Rx RxE) (dgbId : Nat → Fin 2)
    (registry : Registry Tx Rx) : RegistryEvent Tx Rx → Option (Registry Tx Rx)
  | .regTx board ch =>
      let slots := registry.slots.put (dgbId board) (some board)
      some { registry with
        slots := slots, tx := registry.tx.register tx slots (dgbId board) board ch }
  | .regRx board ch =>
      let slots := registry.slots.put (dgbId board) (some board)
      some { registry with
        slots := slots, rx := registry.rx.register rx slots (dgbId board) board ch }
  | .unreg board => some { registry with slots := registry.slots.put (dgbId board) none }
  | .applyTx list outcome =>
      some { registry with tx := registry.tx.apply tx.dir registry.slots list outcome }
  | .applyRx list outcome =>
      some { registry with rx := registry.rx.apply rx.dir registry.slots list outcome }

/-- No board has registered a channel yet. -/
def Table.blank : Table Ch where
  channels _ := []
  ecodes _ := 0
  rej _ := .none
  cc := 0

/-- The module is loaded, no board is. -/
def Registry.blank : Registry Tx Rx := ⟨⟨none, none⟩, .blank, .blank⟩

/-! ## Numbers and positions -/

/-- The channels are numbered in order from this number on. -/
def NumberedFrom (dir : Direction Ch) (start : Nat) (channels : List Ch) : Prop :=
  channels.map dir.absId = List.range' start channels.length

/-- `rfnm_populate_dev_tx_chlist`, `rfnm_populate_dev_rx_chlist`: the entry at a position. -/
def Boards.populated (boards : Boards Ch) (zeroed : Ch) (d : Nat) : Ch :=
  boards.walk[d]?.getD zeroed

/-- The code for the entry of a channel that the list asks for. -/
def replyCode (dir : Direction Ch) (list : ChList Ch) (d : Nat) (device : Int) : Int :=
  let ecode := (dir.validate (list.ch d)).1
  if ecode ≠ 0 then ecode else -device

/-- What the codes of a channel list say, if position, mask bit and code are one. -/
def answerCode (dir : Direction Ch) (list : ChList Ch) (devices : Nat → Int) (ret : Int)
    (d : Nat) : Int :=
  let code := if list.apply.getLsbD d then replyCode dir list d (devices d) else 0
  if ret ≠ 0 ∧ code = 0 then streamApiError dir ret else code

/-- What a channel list makes of a channel, if position and mask bit are one. -/
def answerCh (dir : Direction Ch) (list : ChList Ch) (live : Ch) (d : Nat) : Ch :=
  if list.apply.getLsbD d ∧ (dir.validate (list.ch d)).1 ≠ 0 then live
  else dir.receive live (list.ch d)

/-- The numbers of the served channels are distinct and are their positions; and the mask bit, the
entry and the result code of an apply are those of one channel. -/
structure Table.Coherent (dir : Direction Ch) (slots : Slots) (table : Table Ch) : Prop where
  distinct : ((slots.boards table.channels).walk.map dir.absId).Nodup
  position : ∀ (zeroed : Ch), ∀ d < (slots.boards table.channels).walk.length,
    dir.absId ((slots.boards table.channels).populated zeroed d) = d
  apply : ∀ (list : ChList Ch) (devices : Nat → Int) (ret : Int),
    ∀ d < (slots.boards table.channels).walk.length, d < 8 →
      let data := table.applied dir slots list (.walked devices ret)
      data.ecodes d = answerCode dir list devices ret d ∧
        data.channels d = answerCh dir list ((table.start slots list).channels d) d

/-- Both directions are coherent. -/
def Registry.Coherent (tx : Side Tx TxE) (rx : Side Rx RxE) (registry : Registry Tx Rx) : Prop :=
  registry.tx.Coherent tx.dir registry.slots ∧ registry.rx.Coherent rx.dir registry.slots

/-- A board's channels fit into a slot without new numbers: they carry the numbers that the slot
has, and if the other slot's channels come behind them, there are as many as before. -/
def Boards.Fits (dir : Direction Ch) (boards : Boards Ch) (slot : Fin 2) (list : List Ch) :
    Prop :=
  if slot.val = 0 then
    NumberedFrom dir 0 list ∧ (boards.second = [] ∨ list.length = boards.first.length)
  else NumberedFrom dir boards.first.length list

/-- Every entry that is copied carries its position as its number. -/
def ChList.KeepsNumbers (dir : Direction Ch) (count : Nat) (list : ChList Ch) : Outcome → Prop
  | .gaveUp _ => True
  | .walked _ _ => ∀ d < count,
      (list.apply.getLsbD d → (dir.validate (list.ch d)).1 = 0) → dir.absId (list.ch d) = d

/-- A registration brings along channels of the other direction, and a removal no channels, that
fit into the slot; and the lists keep the numbers. -/
def Registry.Fitting (tx : Side Tx TxE) (rx : Side Rx RxE) (dgbId : Nat → Fin 2)
    (registry : Registry Tx Rx) : RegistryEvent Tx Rx → Prop
  | .regTx board _ =>
      (registry.slots.boards registry.rx.channels).Fits rx.dir (dgbId board)
        (registry.rx.channels board)
  | .regRx board _ =>
      (registry.slots.boards registry.tx.channels).Fits tx.dir (dgbId board)
        (registry.tx.channels board)
  | .unreg board =>
      (registry.slots.boards registry.tx.channels).Fits tx.dir (dgbId board) [] ∧
        (registry.slots.boards registry.rx.channels).Fits rx.dir (dgbId board) []
  | .applyTx list outcome =>
      list.KeepsNumbers tx.dir (registry.slots.boards registry.tx.channels).walk.length outcome
  | .applyRx list outcome =>
      list.KeepsNumbers rx.dir (registry.slots.boards registry.rx.channels).walk.length outcome

instance (dir : Direction Ch) (start : Nat) (channels : List Ch) :
    Decidable (NumberedFrom dir start channels) :=
  inferInstanceAs (Decidable (_ = _))

instance [DecidableEq Ch] (dir : Direction Ch) (boards : Boards Ch) (slot : Fin 2)
    (list : List Ch) : Decidable (boards.Fits dir slot list) := by
  unfold Boards.Fits
  infer_instance

instance (dir : Direction Ch) (count : Nat) (list : ChList Ch) (outcome : Outcome) :
    Decidable (list.KeepsNumbers dir count outcome) := by
  cases outcome <;> unfold ChList.KeepsNumbers <;> infer_instance

instance [DecidableEq Tx] [DecidableEq Rx] (tx : Side Tx TxE) (rx : Side Rx RxE)
    (dgbId : Nat → Fin 2) (registry : Registry Tx Rx) (event : RegistryEvent Tx Rx) :
    Decidable (registry.Fitting tx rx dgbId event) := by
  cases event <;> unfold Registry.Fitting <;> infer_instance

/-! ## Numbers of a list -/

variable {dir : Direction Ch} {boards : Boards Ch} {slots : Slots} {table : Table Ch}
  {list : ChList Ch} {devices : Nat → Int} {dgbId : Nat → Fin 2}

/-- Channels one behind the other are numbered in order exactly when each part is. -/
theorem numberedFrom_append (start : Nat) (channels others : List Ch) :
    NumberedFrom dir start (channels ++ others) ↔
      NumberedFrom dir start channels ∧ NumberedFrom dir (start + channels.length) others := by
  unfold NumberedFrom
  rw [List.map_append, List.length_append, ← List.range'_append_1]
  constructor
  · intro h
    exact List.append_inj h (by simp)
  · rintro ⟨hchannels, hothers⟩
    rw [hchannels, hothers]

/-- The number of a channel in order, by its position. -/
theorem numberedFrom_iff (start : Nat) (channels : List Ch) :
    NumberedFrom dir start channels ↔
      ∀ d, (h : d < channels.length) → dir.absId channels[d] = start + d := by
  constructor
  · intro h d hd
    have hget : (channels.map dir.absId)[d]? = (List.range' start channels.length)[d]? := by
      rw [h]
    simpa [hd] using hget
  · intro h
    refine List.ext_getElem (by simp) fun d hd _ => ?_
    rw [List.length_map] at hd
    simpa using h d hd

/-- Numbered channels are at their numbers. -/
theorem NumberedFrom.absId_getD {channels : List Ch} (h : NumberedFrom dir 0 channels) {d : Nat}
    (hd : d < channels.length) (other : Ch) : dir.absId (channels[d]?.getD other) = d := by
  rw [List.getElem?_eq_getElem hd, Option.getD_some, (numberedFrom_iff 0 channels).mp h d hd,
    Nat.zero_add]

/-- The same channels cannot be numbered from two places. -/
theorem NumberedFrom.start_eq {start other : Nat} {channels : List Ch}
    (h : NumberedFrom dir start channels) :
    NumberedFrom dir other channels ↔ channels = [] ∨ other = start := by
  unfold NumberedFrom at h ⊢
  rw [h, List.range'_inj, List.length_eq_zero_iff]
  simp [eq_comm]

/-- Numbers go over both slots. -/
theorem numberedFrom_walk (boards : Boards Ch) :
    NumberedFrom dir 0 boards.walk ↔
      NumberedFrom dir 0 boards.first ∧ NumberedFrom dir boards.first.length boards.second := by
  rw [Boards.walk, numberedFrom_append, Nat.zero_add]

/-- What a registration leaves is numbered. -/
theorem numberedFrom_renumber (side : Side Ch Edit) (boards : Boards Ch) :
    NumberedFrom side.dir 0 (boards.renumber side).walk := by
  rw [numberedFrom_iff]
  intro d hd
  rw [Nat.zero_add]
  exact Boards.absId_renumber (List.getElem?_eq_getElem hd)

/-- Other channels in a slot leave both slots numbered exactly when they fit. -/
theorem numberedFrom_replace (h : NumberedFrom dir 0 boards.walk) (slot : Fin 2)
    (list : List Ch) :
    NumberedFrom dir 0 (boards.replace slot list).walk ↔ boards.Fits dir slot list := by
  obtain ⟨hfirst, hsecond⟩ := (numberedFrom_walk boards).mp h
  unfold Boards.replace Boards.Fits
  split
  · -- the second slot keeps its numbers, so its channels must come as late as before
    rw [numberedFrom_walk, hsecond.start_eq]
  · rw [numberedFrom_walk, and_iff_right hfirst]

/-! ## Boards and slots -/

/-- Each slot has a board that belongs there. -/
structure Slots.InPlace (dgbId : Nat → Fin 2) (slots : Slots) : Prop where
  first : ∀ board, slots.first = some board → (dgbId board).val = 0
  second : ∀ board, slots.second = some board → (dgbId board).val ≠ 0

/-- A board goes into its own slot. -/
theorem Slots.InPlace.put (h : slots.InPlace dgbId) (board : Nat) :
    (slots.put (dgbId board) (some board)).InPlace dgbId := by
  unfold Slots.put
  split
  case isTrue hslot =>
    refine ⟨fun other hother => ?_, h.second⟩
    obtain rfl := Option.some.inj hother
    exact hslot
  case isFalse hslot =>
    refine ⟨h.first, fun other hother => ?_⟩
    obtain rfl := Option.some.inj hother
    exact hslot

/-- A slot may be emptied. -/
theorem Slots.InPlace.clear (h : slots.InPlace dgbId) (slot : Fin 2) :
    (slots.put slot none).InPlace dgbId := by
  unfold Slots.put
  split
  · exact ⟨(fun _ hother => nomatch hother), h.second⟩
  · exact ⟨h.first, fun _ hother => nomatch hother⟩

/-- A slot has the channels of its board. -/
theorem boards_put (slots : Slots) (slot : Fin 2) (board : Option Nat)
    (channels : Nat → List Ch) :
    (slots.put slot board).boards channels =
      (slots.boards channels).replace slot (board.elim [] channels) := by
  unfold Slots.put Boards.replace
  split <;> rfl

/-- The slots have what was stored, if nothing was stored for an empty one. -/
theorem boards_store (h : slots.InPlace dgbId) (channels : Nat → List Ch)
    (hfirst : slots.first = none → boards.first = [])
    (hsecond : slots.second = none → boards.second = []) :
    slots.boards (slots.store channels boards) = boards := by
  have hone : slots.first.elim [] (slots.store channels boards) = boards.first := by
    cases hslot : slots.first with
    | none => exact (hfirst hslot).symm
    | some board => simp [Slots.store, hslot]
  have htwo : slots.second.elim [] (slots.store channels boards) = boards.second := by
    cases hslot : slots.second with
    | none => exact (hsecond hslot).symm
    | some board =>
        have hother : slots.first ≠ some board := fun hsame =>
          h.second board hslot (h.first board hsame)
        simp [Slots.store, hslot, hother]
  rw [Slots.boards, hone, htwo]

/-- A registration leaves the channels of its direction numbered. -/
theorem numberedFrom_register (side : Side Ch Edit) (h : slots.InPlace dgbId) (table : Table Ch)
    (slot : Fin 2) (board : Nat) (ch : Ch) :
    NumberedFrom side.dir 0
      (slots.boards (table.register side slots slot board ch).channels).walk := by
  unfold Table.register
  dsimp only
  rw [boards_store h]
  · exact numberedFrom_renumber side _
  · intro hnone
    simp [Boards.renumber, Slots.boards, hnone]
  · intro hnone
    simp [Boards.renumber, Slots.boards, hnone]

/-- The walk writes its channels in order. -/
theorem walk_written (boards : Boards Ch) (channels : Nat → Ch) :
    (boards.written channels).walk = boards.walk.mapIdx fun d _ => channels d := by
  rw [Boards.walk, Boards.walk, List.mapIdx_append]
  rfl

/-- The channels after a list are those of the walk. -/
theorem walk_apply (h : slots.InPlace dgbId) (dir : Direction Ch) (table : Table Ch)
    (list : ChList Ch) (outcome : Outcome) :
    (slots.boards (table.apply dir slots list outcome).channels).walk =
      (slots.boards table.channels).walk.mapIdx fun d _ =>
        (table.applied dir slots list outcome).channels d := by
  unfold Table.apply
  dsimp only
  rw [boards_store h]
  · exact walk_written _ _
  · intro hnone
    simp [Boards.written, Slots.boards, hnone]
  · intro hnone
    simp [Boards.written, Slots.boards, hnone]

/-! ## Mask bits and result codes -/

/-- The mask has the bit of a channel exactly when it asks for its number. -/
theorem requested_iff (dir : Direction Ch) (list : ChList Ch) (live : Ch) :
    Requested dir list live ↔ list.apply.getLsbD (dir.absId live) = true := by
  have hbit : ∀ i, (list.apply &&& 1#8 <<< dir.absId live).getLsbD i =
      (list.apply.getLsbD i && decide (i = dir.absId live)) := by
    intro i
    by_cases hi : i < 8
    · rw [BitVec.getLsbD_and, BitVec.getLsbD_shiftLeft, BitVec.getLsbD_one]
      by_cases hlt : i < dir.absId live
      · simp [hlt, Nat.ne_of_lt hlt]
      · have : (i - dir.absId live = 0) = (i = dir.absId live) := by
          rw [eq_iff_iff]
          omega
        simp [hi, hlt, this]
    · simp [BitVec.getLsbD_of_ge _ _ (Nat.le_of_not_lt hi)]
  unfold Requested
  constructor
  · intro hne
    by_contra hclear
    refine hne (BitVec.eq_of_getLsbD_eq fun i _ => ?_)
    rw [hbit, BitVec.getLsbD_zero]
    by_cases hi : i = dir.absId live
    · rw [hi, Bool.not_eq_true _ |>.mp hclear, Bool.false_and]
    · simp [hi]
  · intro hset hzero
    have hsame := hbit (dir.absId live)
    rw [hzero, hset] at hsame
    simp at hsame

/-- What a channel that bears its position gets. -/
theorem visited_of_position {start : Data Ch} {d : Nat}
    (hd : dir.absId (start.channels d) = d) :
    visited dir start d = answerCh dir start.list (start.channels d) d := by
  unfold visited answerCh Applied
  simp only [requested_iff, hd]
  refine if_congr ?_ rfl rfl
  tauto

/-- A visit writes the code of its channel if the mask has the bit, and sees the channel. -/
theorem visit_ecodes (walk : Walk Ch) (d : Nat) (device : Int)
    (hd : dir.absId (walk.1.channels d) = d) :
    (∀ i, (visit dir walk d device).1.ecodes i =
        if i = d ∧ walk.1.list.apply.getLsbD d then replyCode dir walk.1.list d device
        else walk.1.ecodes i) ∧
      (visit dir walk d device).2 = walk.2 ||| 1#8 <<< d := by
  obtain ⟨data, present⟩ := walk
  have hrequested := requested_iff dir data.list (data.channels d)
  rw [Requested, hd] at hrequested
  unfold visit replyCode
  simp only [hd, hrequested]
  split
  case isTrue h =>
    refine ⟨fun i => ?_, rfl⟩
    by_cases hi : i = d
    · subst hi
      simp [h]
    · simp [hi]
  case isFalse h =>
    split
    case isTrue hbit =>
      have hvalid : (dir.validate (data.list.ch d)).1 = 0 := by
        by_contra hinvalid
        exact h ⟨hbit, hinvalid⟩
      refine ⟨fun i => ?_, rfl⟩
      by_cases hi : i = d
      · subst hi
        simp [hbit, hvalid]
      · simp [hi]
    case isFalse hbit =>
      exact ⟨fun i => by simp [hbit], rfl⟩

/-- The walk writes the code of every channel whose bit the mask has, and sees the first eight. -/
theorem visitAll_ecodes {start : Data Ch} (devices : Nat → Int) (n : Nat)
    (hplaces : ∀ d < n, dir.absId (start.channels d) = d) :
    (∀ i, (visitAll dir start devices n).1.ecodes i =
        if i < n ∧ start.list.apply.getLsbD i then replyCode dir start.list i (devices i)
        else start.ecodes i) ∧
      ∀ i < 8, i < n → (visitAll dir start devices n).2.getLsbD i = true := by
  induction n with
  | zero => exact ⟨fun i => by simp [visitAll], fun i _ hi => absurd hi (Nat.not_lt_zero i)⟩
  | succ n ih =>
      obtain ⟨hcodes, hseen⟩ := ih fun d hd => hplaces d (by omega)
      obtain ⟨hchannels, hlist, hmask⟩ := visitAll_data dir start devices n
      have hlive : dir.absId ((visitAll dir start devices n).1.channels n) = n := by
        rw [hchannels n, if_neg (by omega)]
        exact hplaces n (by omega)
      obtain ⟨hwritten, hmarked⟩ := visit_ecodes (visitAll dir start devices n) n (devices n) hlive
      have hcode : replyCode dir (visitAll dir start devices n).1.list n (devices n) =
          replyCode dir start.list n (devices n) := by
        rw [replyCode, replyCode, hlist n (by omega)]
      refine ⟨fun i => ?_, fun i hi hin => ?_⟩
      · show (visit dir (visitAll dir start devices n) n (devices n)).1.ecodes i = _
        rw [hwritten i, hcodes i, hmask, hcode]
        by_cases hi : i = n
        · subst hi
          simp
        · have hlt : i < n + 1 ↔ i < n := by omega
          simp [hi, hlt]
      · show (visit dir (visitAll dir start devices n) n (devices n)).2.getLsbD i = true
        rw [hmarked, BitVec.getLsbD_or]
        by_cases hsame : i = n
        · subst hsame
          simp [hi]
        · rw [hseen i hi (by omega), Bool.true_or]

/-- Where every channel bears its position, an application answers by positions. -/
theorem application_of_position {start : Data Ch} {count : Nat}
    (hplaces : ∀ d < count, dir.absId (start.channels d) = d) (ret : Int) {d : Nat}
    (hcount : d < count) (hd : d < 8) :
    (application dir count start (.walked devices ret)).ecodes d =
        answerCode dir start.list devices ret d ∧
      (application dir count start (.walked devices ret)).channels d =
        answerCh dir start.list (start.channels d) d := by
  have hcleared : ∀ d < count, dir.absId ((clearEcodes (clearRej start)).channels d) = d := hplaces
  obtain ⟨hcodes, hseen⟩ := visitAll_ecodes devices count hcleared
  constructor
  · have hcode := hcodes d
    have hmarked : (markMissing dir (visitAll dir (clearEcodes (clearRej start)) devices
        count)).ecodes d = if start.list.apply.getLsbD d then
          replyCode dir start.list d (devices d) else 0 := by
      have hmissing : ((visitAll dir (clearEcodes (clearRej start)) devices count).1.list.apply &&&
          ~~~ (visitAll dir (clearEcodes (clearRej start)) devices count).2).getLsbD d = false := by
        rw [BitVec.getLsbD_and, BitVec.getLsbD_not, hseen d hd hcount]
        simp
      simp only [markMissing, hmissing]
      rw [if_neg Bool.false_ne_true, hcode]
      simp only [hcount, true_and]
      rfl
    simp only [application, stamp, noteStream, answerCode]
    by_cases hret : ret = 0
    · simpa [hret] using hmarked
    · simp only [if_neg hret, hmarked]
      simp [hret, hd]
  · rw [application_channels, if_pos hcount]
    exact visited_of_position (hplaces d hcount)

/-! ## Coherence -/

/-- A direction is coherent exactly when the channels in the slots are numbered in order. -/
theorem coherent_iff_numbered (dir : Direction Ch) (slots : Slots) (table : Table Ch) :
    table.Coherent dir slots ↔ NumberedFrom dir 0 (slots.boards table.channels).walk := by
  constructor
  · intro h
    rw [numberedFrom_iff]
    intro d hd
    rw [Nat.zero_add]
    have hposition := h.position ((slots.boards table.channels).walk[d]) d hd
    rwa [Boards.populated, List.getElem?_eq_getElem hd, Option.getD_some] at hposition
  · intro h
    refine ⟨?_, fun zeroed d hd => h.absId_getD hd zeroed, fun list devices ret d hcount hd => ?_⟩
    · rw [h]
      exact List.nodup_range' _
    · exact application_of_position (fun d hd => h.absId_getD hd (list.ch d)) ret hcount hd

/-- A list keeps the channels numbered exactly when the entries that are copied are. -/
theorem numberedFrom_apply (side : Side Ch Edit) (hplace : slots.InPlace dgbId)
    (h : NumberedFrom side.dir 0 (slots.boards table.channels).walk) (list : ChList Ch)
    (outcome : Outcome) :
    NumberedFrom side.dir 0
        (slots.boards (table.apply side.dir slots list outcome).channels).walk ↔
      list.KeepsNumbers side.dir (slots.boards table.channels).walk.length outcome := by
  have hplaces : ∀ d < (slots.boards table.channels).walk.length,
      side.dir.absId ((table.start slots list).channels d) = d := fun d hd =>
    h.absId_getD hd (list.ch d)
  rw [walk_apply hplace, numberedFrom_iff]
  simp only [List.length_mapIdx, List.getElem_mapIdx, Nat.zero_add]
  cases outcome with
  | gaveUp ret => exact ⟨fun _ => trivial, fun _ => hplaces⟩
  | walked devices ret =>
      refine forall₂_congr fun d hd => ?_
      rw [Table.applied, application_channels, if_pos hd, visited_of_position (hplaces d hd)]
      unfold answerCh
      split
      case isTrue hkept =>
        -- the entry is refused, and the channel is in its place already
        exact ⟨fun _ hcopied => absurd (hcopied hkept.1) hkept.2, fun _ => hplaces d hd⟩
      case isFalse hcopied =>
        rw [side.absId_eq, side.identity_receive, ← side.absId_eq]
        refine ⟨fun hnumber _ => hnumber, fun hnumber => hnumber fun hbit => ?_⟩
        by_contra hinvalid
        exact hcopied ⟨hbit, hinvalid⟩

/-- What holds as long as every step fits: each slot has its own board, and the channels are
numbered in order. -/
structure Registry.Numbered (tx : Side Tx TxE) (rx : Side Rx RxE) (dgbId : Nat → Fin 2)
    (registry : Registry Tx Rx) : Prop where
  inPlace : registry.slots.InPlace dgbId
  tx : NumberedFrom tx.dir 0 (registry.slots.boards registry.tx.channels).walk
  rx : NumberedFrom rx.dir 0 (registry.slots.boards registry.rx.channels).walk

variable {tx : Side Tx TxE} {rx : Side Rx RxE} {registry following : Registry Tx Rx}

/-- A step of numbered channels leaves them numbered exactly when it fits, and each slot with its
own board in any case. -/
theorem next_numbered (h : registry.Numbered tx rx dgbId) (event : RegistryEvent Tx Rx)
    (hnext : registry.next tx rx dgbId event = some following) :
    following.slots.InPlace dgbId ∧
      (NumberedFrom tx.dir 0 (following.slots.boards following.tx.channels).walk ∧
          NumberedFrom rx.dir 0 (following.slots.boards following.rx.channels).walk ↔
        registry.Fitting tx rx dgbId event) := by
  -- a registration replaces the channels of one board, an apply leaves the boards in place
  cases event with
  | regTx board ch =>
      obtain rfl := Option.some.inj hnext
      have hput := h.inPlace.put board
      refine ⟨hput, ?_⟩
      have hown := numberedFrom_register tx hput registry.tx (dgbId board) board ch
      rw [and_iff_right hown, boards_put]
      exact numberedFrom_replace h.rx (dgbId board) _
  | regRx board ch =>
      obtain rfl := Option.some.inj hnext
      have hput := h.inPlace.put board
      refine ⟨hput, ?_⟩
      have hown := numberedFrom_register rx hput registry.rx (dgbId board) board ch
      rw [and_iff_left hown, boards_put]
      exact numberedFrom_replace h.tx (dgbId board) _
  | unreg board =>
      obtain rfl := Option.some.inj hnext
      refine ⟨h.inPlace.clear (dgbId board), ?_⟩
      rw [boards_put, boards_put]
      exact and_congr (numberedFrom_replace h.tx (dgbId board) [])
        (numberedFrom_replace h.rx (dgbId board) [])
  | applyTx list outcome =>
      obtain rfl := Option.some.inj hnext
      refine ⟨h.inPlace, ?_⟩
      rw [and_iff_left h.rx]
      exact numberedFrom_apply tx h.inPlace h.tx list outcome
  | applyRx list outcome =>
      obtain rfl := Option.some.inj hnext
      refine ⟨h.inPlace, ?_⟩
      rw [and_iff_right h.tx]
      exact numberedFrom_apply rx h.inPlace h.rx list outcome

/-- Numbered channels are coherent. -/
theorem coherent_of_numbered (h : registry.Numbered tx rx dgbId) : registry.Coherent tx rx :=
  ⟨(coherent_iff_numbered _ _ _).mpr h.tx, (coherent_iff_numbered _ _ _).mpr h.rx⟩

/-- From the loading of the module on, number and position are one for every served channel exactly
as long as every board and every list fits. -/
theorem numbering_coherent_iff (Other : Type) (codes : Codes) (hcodes : codes.apiNotSupported ≠ 0)
    (dgbId : Nat → Fin 2) (events : List (RegistryEvent (TxEntry Other) (RxEntry Other))) :
    Always (Registry.next (txSide Other codes hcodes) (rxSide Other codes hcodes) dgbId)
        (Registry.Coherent (txSide Other codes hcodes) (rxSide Other codes hcodes)) .blank events ↔
      Guarded (Registry.next (txSide Other codes hcodes) (rxSide Other codes hcodes) dgbId)
        (Registry.Fitting (txSide Other codes hcodes) (rxSide Other codes hcodes) dgbId)
        .blank events := by
  have hstart : Registry.Numbered (txSide Other codes hcodes) (rxSide Other codes hcodes) dgbId
      .blank := ⟨⟨nofun, nofun⟩, rfl, rfl⟩
  refine always_iff_everyStep (fun registry event following h hfits hnext => ?_)
    (fun registry => coherent_of_numbered) (fun registry event following h hnext hcoherent => ?_)
    hstart
  · obtain ⟨hplace, hiff⟩ := next_numbered h event hnext
    obtain ⟨htx, hrx⟩ := hiff.mpr hfits
    exact ⟨hplace, htx, hrx⟩
  · obtain ⟨htx, hrx⟩ := hcoherent
    exact (next_numbered h event hnext).2.mp
      ⟨(coherent_iff_numbered _ _ _).mp htx, (coherent_iff_numbered _ _ _).mp hrx⟩

/-- A TX channel as a board driver registers it. -/
def boardTx : TxEntry Unit where
  absId := 0
  freq := 0
  freqMin := 600
  freqMax := 6300
  rficLpfBw := 0
  power := 0
  powerMin := -40
  powerMax := 30
  enable := 0
  stream := 1
  biasTee := 0
  dgbId := 0
  dgbChId := 0
  dacId := 0
  other := ()

/-- Board 0 is in the first slot, every other board in the second. -/
def sampleDgbId (board : Nat) : Fin 2 :=
  if board = 0 then ⟨0, Nat.two_pos⟩ else ⟨1, Nat.one_lt_two⟩

/-- A list that repeats the served TX channels and tunes them. -/
def tuneTx (apply : BitVec 8) : ChList (TxEntry Unit) where
  cc := 1
  apply := apply
  ch d := { boardTx with absId := d, freq := 900, enable := 1 }

/-- Both boards come, the second one first; a list tunes both; the second one goes, and comes
back. -/
theorem numbering_coherent_iff_run :
    Always (Registry.next (txSide Unit sampleCodes (by decide))
        (rxSide Unit sampleCodes (by decide)) sampleDgbId)
      (Registry.Coherent (txSide Unit sampleCodes (by decide))
        (rxSide Unit sampleCodes (by decide))) .blank
      [.regTx 1 boardTx, .regRx 1 (boardRx 0), .regTx 0 boardTx, .regRx 0 (boardRx 0),
        .applyTx (tuneTx 0x3#8) (.walked (fun _ => 0) 0), .unreg 1, .regTx 2 boardTx] :=
  (numbering_coherent_iff Unit sampleCodes (by decide) sampleDgbId _).mpr (by decide)

/-- With a TX channel in each slot the first board goes. The other one's channel is served at
position 0, and an apply knows it as channel 1. -/
theorem removal_leaves_numbers :
    ¬ Always (Registry.next (txSide Unit sampleCodes (by decide))
        (rxSide Unit sampleCodes (by decide)) sampleDgbId)
      (Registry.Coherent (txSide Unit sampleCodes (by decide))
        (rxSide Unit sampleCodes (by decide))) .blank
      [.regTx 0 boardTx, .regTx 1 boardTx, .unreg 0] := by
  intro h
  have hposition := (h.final rfl).1.position boardTx 0 (by decide)
  revert hposition
  decide

end RfnmDriver.Daughterboard
