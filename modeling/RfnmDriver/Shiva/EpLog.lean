import Mathlib.Data.List.GetD
import Mathlib.Data.List.TakeWhile
import RfnmDriver.Library.StepSystem

/-!
# The log of the endpoint

The endpoint writes text into a buffer of the host, round its end, and `la9310_show_ep_log` of
`la9310_sysfs.c` reads it out: from `offset` as far as there is text, and on from the start of the
buffer where that has reached its end. What has been read is zeroed, which is how the reader tells
text from free space. `reads_pending` is about the two together: every read gives what has been
written since the last one, as long as the writer does not run into text that is not read yet.
-/

namespace RfnmDriver.Shiva

open StepSystem

/-- The text at an offset, as `strnlen` measures it. -/
def stringAt (buf : List (BitVec 8)) (offset : Nat) : List (BitVec 8) :=
  (buf.drop offset).takeWhile (· ≠ 0#8)

/-- `memset_io` with zeros. -/
def wipe (buf : List (BitVec 8)) (offset count : Nat) : List (BitVec 8) :=
  buf.take offset ++ List.replicate count 0#8 ++ buf.drop (offset + count)

/-- `la9310_ep_log`; `len` is the length of the buffer. -/
@[ext] structure EpLog where
  buf : List (BitVec 8)
  offset : Nat
  deriving DecidableEq, Repr

namespace EpLog

/-- The text from `offset` on has been read. -/
def taken (log : EpLog) (text : List (BitVec 8)) : EpLog where
  buf := wipe log.buf log.offset text.length
  offset := if log.buf.length ≤ log.offset + text.length then 0 else log.offset + text.length

/-- `la9310_collect_ep_log`. -/
def collect (log : EpLog) : List (BitVec 8) × EpLog :=
  let text := stringAt log.buf log.offset
  if text.length = 0 then ([], log)
  else if log.buf.length - log.offset = text.length then
    let cleared := log.taken text
    let more := stringAt cleared.buf 0
    (text ++ more, { cleared with offset := 0 }.taken more)
  else (text, log.taken text)

/-- A step of the search of `la9310_show_ep_log`; what is collected replaces what was there. -/
def search (found : List (BitVec 8) × EpLog) (i : Nat) : List (BitVec 8) × EpLog :=
  if found.2.buf.getD i 0#8 ≠ 0#8 then { found.2 with offset := i }.collect else found

/-- `la9310_show_ep_log`. -/
def showLog (log : EpLog) : List (BitVec 8) × EpLog :=
  let found := log.collect
  if found.1.length = 0 then (List.range found.2.buf.length).foldl search found else found

/-- `la9310_reset_ep_log`, with what `kstrtoul` makes of its input. -/
def reset (log : EpLog) (val : Option Nat) : EpLog :=
  if val = some 0 then ⟨List.replicate log.buf.length 0#8, 0⟩ else log

end EpLog

/-- The log with its writer. -/
structure Logger where
  log : EpLog
  /-- Where the endpoint writes next. -/
  cursor : Nat
  /-- What it has written since the last read or reset. -/
  pending : List (BitVec 8)
  /-- What the last read gave. -/
  shown : List (BitVec 8)
  deriving DecidableEq, Repr

/-- What happens to a log. -/
inductive LogEvent
  /-- The endpoint writes a character. -/
  | write (byte : BitVec 8)
  | read
  | reset (val : Option Nat)
  deriving DecidableEq, Repr

namespace Logger

variable (st : Logger)

/-- The endpoint writes text, and not over text that has not been read. -/
def next : LogEvent → Option Logger
  | .write byte =>
      if byte ≠ 0#8 ∧ st.pending.length < st.log.buf.length then
        some { st with
          log := { st.log with buf := st.log.buf.set st.cursor byte }
          cursor := if st.cursor + 1 = st.log.buf.length then 0 else st.cursor + 1
          pending := st.pending ++ [byte] }
      else none
  | .read => some { st with log := st.log.showLog.2, pending := [], shown := st.log.showLog.1 }
  | .reset val =>
      some { st with
        log := st.log.reset val
        pending := if val = some 0 then [] else st.pending }

/-- The log of `la9310_init_ep_logger`. -/
def fresh (len : Nat) : Logger := ⟨⟨List.replicate len 0#8, 0⟩, 0, [], []⟩

/-- A read gives what is pending. -/
def Delivers (event : LogEvent) (following : Logger) : Prop :=
  event = .read → following.shown = st.pending

/-- The writer goes round the end of the buffer only with a reader that stands where the pending
text begins. A reset puts the reader at the start of the buffer, where it stays until a read finds
text. -/
def Followed : LogEvent → Prop
  | .write _ => st.cursor = 0 → st.pending ≠ [] →
      st.log.offset + st.pending.length = st.log.buf.length
  | _ => True

instance Followed.decidable : ∀ event, Decidable (st.Followed event)
  | .write _ => inferInstanceAs (Decidable (_ → _ → _ = _))
  | .read | .reset _ => inferInstanceAs (Decidable True)

end Logger

/-! ## Text in the buffer -/

/-- The buffer holds the text from `start` on, and nothing else: in one piece, or round its end. -/
inductive Holds (start : Nat) : List (BitVec 8) → List (BitVec 8) → Prop
  | flat (text : List (BitVec 8)) (room : Nat) :
      Holds start text (List.replicate start 0#8 ++ text ++ List.replicate room 0#8)
  | around (head tail : List (BitVec 8)) (room : Nat) (hhead : head ≠ []) (htail : tail ≠ [])
      (hstart : start = tail.length + room) :
      Holds start (head ++ tail) (tail ++ List.replicate room 0#8 ++ head)

/-- Text has no zeros. -/
def IsText (text : List (BitVec 8)) : Prop := ∀ byte ∈ text, byte ≠ 0#8

variable {text rest : List (BitVec 8)} {start room : Nat} {buf : List (BitVec 8)}

/-- Text is read up to the first zero. -/
theorem takeWhile_text (h : IsText text) :
    (text ++ List.replicate room 0#8).takeWhile (· ≠ 0#8) = text := by
  rw [List.takeWhile_append_of_pos fun byte hbyte => decide_eq_true (h byte hbyte),
    List.takeWhile_replicate]
  exact List.append_nil text

theorem takeWhile_all (h : IsText text) : text.takeWhile (· ≠ 0#8) = text := by
  rw [List.takeWhile_eq_self_iff]
  exact fun byte hbyte => decide_eq_true (h byte hbyte)

/-- Nothing is read where there is a zero. -/
theorem stringAt_zeros (offset : Nat) : stringAt (List.replicate room 0#8) offset = [] := by
  rw [stringAt, List.drop_replicate, List.takeWhile_replicate]
  rfl

/-- The text at its start. -/
theorem stringAt_flat (h : IsText text) :
    stringAt (List.replicate start 0#8 ++ text ++ List.replicate room 0#8) start = text := by
  have hdrop : (List.replicate start 0#8 ++ text ++ List.replicate room 0#8).drop start =
      text ++ List.replicate room 0#8 := by
    rw [List.append_assoc]
    exact List.drop_left' List.length_replicate
  rw [stringAt, hdrop, takeWhile_text h]

/-- The text wiped out. -/
theorem wipe_flat :
    wipe (List.replicate start 0#8 ++ text ++ List.replicate room 0#8) start text.length =
      List.replicate (start + text.length + room) 0#8 := by
  have htake : (List.replicate start 0#8 ++ text ++ List.replicate room 0#8).take start =
      List.replicate start 0#8 := by
    rw [List.append_assoc]
    exact List.take_left' List.length_replicate
  have hdrop : (List.replicate start 0#8 ++ text ++ List.replicate room 0#8).drop
      (start + text.length) = List.replicate room 0#8 :=
    List.drop_left' (by rw [List.length_append, List.length_replicate])
  rw [wipe, htake, hdrop, ← List.replicate_add, ← List.replicate_add]

namespace EpLog

/-- The text is in one piece: it is read and zeroed, and the reader stands behind it. -/
theorem collect_flat (h : IsText text) (hroom : text = [] → room ≠ 0) :
    (EpLog.mk (List.replicate start 0#8 ++ text ++ List.replicate room 0#8) start).collect =
      (text, ⟨List.replicate (start + text.length + room) 0#8,
        if room = 0 then 0 else start + text.length⟩) := by
  have hlength : (List.replicate start 0#8 ++ text ++ List.replicate room 0#8).length =
      start + text.length + room := by
    simp only [List.length_append, List.length_replicate]
  unfold collect
  dsimp only
  rw [stringAt_flat h, hlength]
  by_cases hempty : text = []
  · subst hempty
    rw [if_pos List.length_nil, if_neg (hroom rfl)]
    simp only [List.append_nil, List.length_nil, Nat.add_zero, List.replicate_add]
  · have hlong : text.length ≠ 0 := fun hzero => hempty (List.length_eq_zero_iff.mp hzero)
    rw [if_neg hlong]
    unfold taken
    dsimp only
    rw [hlength, wipe_flat, stringAt_zeros, List.append_nil]
    by_cases hfull : room = 0
    · have hreached : start + text.length + room - start = text.length := by omega
      rw [if_pos hreached, if_pos hfull]
      simp only [wipe, List.length_nil, List.take_zero, List.replicate_zero, List.nil_append,
        Nat.add_zero, List.drop_zero, List.length_replicate, ite_self]
    · have hshort : start + text.length + room - start ≠ text.length := by omega
      have hinside : ¬ start + text.length + room ≤ start + text.length := by omega
      rw [if_neg hshort, if_neg hfull, if_neg hinside]

/-- The text goes round the end: both pieces are read, and the reader stands behind the second. -/
theorem collect_around {head tail : List (BitVec 8)} (hhead : head ≠ [])
    (h : IsText (head ++ tail)) (hstart : start = tail.length + room) :
    (EpLog.mk (tail ++ List.replicate room 0#8 ++ head) start).collect =
      (head ++ tail, ⟨List.replicate (start + head.length) 0#8, tail.length⟩) := by
  have hlength : (tail ++ List.replicate room 0#8 ++ head).length = start + head.length := by
    simp only [List.length_append, List.length_replicate]
    omega
  have hfront : (tail ++ List.replicate room 0#8).length = start := by
    rw [List.length_append, List.length_replicate, hstart]
  have hheadText : IsText head := fun byte hbyte => h byte (List.mem_append_left _ hbyte)
  have htailText : IsText tail := fun byte hbyte => h byte (List.mem_append_right _ hbyte)
  have hfirst : stringAt (tail ++ List.replicate room 0#8 ++ head) start = head := by
    rw [stringAt, List.drop_left' hfront, takeWhile_all hheadText]
  have hcleared : wipe (tail ++ List.replicate room 0#8 ++ head) start head.length =
      tail ++ List.replicate (room + head.length) 0#8 := by
    rw [wipe, List.take_left' hfront, List.drop_of_length_le hlength.le, List.append_nil,
      List.append_assoc, ← List.replicate_add]
  have hsecond : stringAt (tail ++ List.replicate (room + head.length) 0#8) 0 = tail :=
    takeWhile_text htailText
  have hwiped : wipe (tail ++ List.replicate (room + head.length) 0#8) 0 tail.length =
      List.replicate (start + head.length) 0#8 := by
    rw [wipe, List.take_zero, List.nil_append, Nat.zero_add, List.drop_left' rfl,
      ← List.replicate_add, hstart, Nat.add_assoc]
  have hlong : head.length ≠ 0 := fun hzero => hhead (List.length_eq_zero_iff.mp hzero)
  have hreached : start + head.length - start = head.length := Nat.add_sub_cancel_left ..
  have hinside : ¬ (tail ++ List.replicate (room + head.length) 0#8).length ≤
      0 + tail.length := by
    rw [List.length_append, List.length_replicate]
    omega
  unfold collect taken
  dsimp only
  rw [hfirst, hlength, if_neg hlong, if_pos hreached, hcleared, hsecond, hwiped, if_neg hinside,
    Nat.zero_add]

/-- A reader that stands where the text begins gets all of it. -/
theorem collect_holds (h : Holds start text buf) (htext : IsText text)
    (hstart : start < buf.length) :
    (EpLog.mk buf start).collect =
      (text, ⟨List.replicate buf.length 0#8, (start + text.length) % buf.length⟩) := by
  cases h with
  | flat text room =>
      simp only [List.length_append, List.length_replicate] at hstart ⊢
      rw [collect_flat htext (by rintro rfl; rw [List.length_nil] at hstart; omega)]
      by_cases hfull : room = 0
      · rw [if_pos hfull, hfull, Nat.add_zero, Nat.mod_self]
      · rw [if_neg hfull, Nat.mod_eq_of_lt (by omega)]
  | around head tail room hhead htail hbehind =>
      have hlong : 0 < head.length := List.length_pos_iff.mpr hhead
      have hlength : tail.length + room + head.length = start + head.length := by omega
      rw [collect_around hhead htext hbehind]
      simp only [List.length_append, List.length_replicate, hlength]
      rw [← Nat.add_assoc, Nat.add_mod_left, Nat.mod_eq_of_lt (by omega)]

/-! ## The search -/

/-- The search passes over zeros. -/
theorem foldl_search_zeros (found : List (BitVec 8) × EpLog) (is : List Nat)
    (h : ∀ i ∈ is, found.2.buf.getD i 0#8 = 0#8) : is.foldl search found = found := by
  induction is with
  | nil => rfl
  | cons i rest ih =>
      have hpassed : search found i = found := if_neg fun hne => hne (h i List.mem_cons_self)
      rw [List.foldl_cons, hpassed]
      exact ih fun other hother => h other (List.mem_cons_of_mem _ hother)

theorem getD_zeros (len i : Nat) : (List.replicate len 0#8).getD i 0#8 = 0#8 := by
  rw [List.getD_eq_getElem?_getD, List.getElem?_replicate]
  split
  · rfl
  · rfl

/-- The search comes to the text. -/
theorem foldl_search_flat (htext : IsText text) (hlong : text ≠ []) :
    let buf := List.replicate start 0#8 ++ text ++ List.replicate room 0#8
    (List.range buf.length).foldl search ([], ⟨buf, 0⟩) =
      (text, ⟨List.replicate buf.length 0#8, (start + text.length) % buf.length⟩) := by
  intro buf
  have hpositive : 0 < text.length := List.length_pos_iff.mpr hlong
  have hlength : buf.length = start + (text.length + room - 1 + 1) := by
    simp only [buf, List.length_append, List.length_replicate]
    omega
  have hpieces : buf = List.replicate start 0#8 ++ (text ++ List.replicate room 0#8) :=
    List.append_assoc ..
  have hbefore : ∀ i ∈ List.range start, buf.getD i 0#8 = 0#8 := by
    intro i hi
    have hlt : i < (List.replicate start 0#8).length := by simpa using hi
    rw [hpieces, List.getD_append _ _ _ _ hlt, getD_zeros]
  have hfound : buf.getD start 0#8 ≠ 0#8 := by
    obtain ⟨byte, rest, rfl⟩ := List.exists_cons_of_ne_nil hlong
    have hbyte : buf.getD start 0#8 = byte := by
      rw [hpieces, List.getD_append_right _ _ _ _ (by simp), List.length_replicate, Nat.sub_self]
      rfl
    rw [hbyte]
    exact htext byte List.mem_cons_self
  have hcollected := collect_holds (.flat text room : Holds start text buf) htext
    (show start < buf.length by omega)
  rw [hlength, List.range_add, List.foldl_append,
    foldl_search_zeros ([], ⟨buf, 0⟩) (List.range start) hbefore,
    List.range_succ_eq_map, List.map_cons, List.foldl_cons, Nat.add_zero, search, if_pos hfound,
    hcollected, ← hlength]
  exact foldl_search_zeros _ _ fun i _ => getD_zeros _ i

/-- A reader that stands at the start of the buffer, before the text, finds it. -/
theorem showLog_before (htext : IsText text) (hstart : 0 < start) :
    let buf := List.replicate start 0#8 ++ text ++ List.replicate room 0#8
    (EpLog.mk buf 0).showLog =
      (text, if text = [] then ⟨buf, 0⟩ else
        ⟨List.replicate buf.length 0#8, (start + text.length) % buf.length⟩) := by
  intro buf
  have hnothing : (EpLog.mk buf 0).collect = ([], ⟨buf, 0⟩) := by
    obtain ⟨before, rfl⟩ := Nat.exists_eq_add_of_lt hstart
    have hzero : stringAt buf 0 = [] := by
      have hpieces :
          buf = 0#8 :: (List.replicate before 0#8 ++ text ++ List.replicate room 0#8) := by
        simp only [buf, Nat.zero_add, List.replicate_succ, List.cons_append]
      rw [stringAt, hpieces]
      exact List.takeWhile_cons_of_neg (by simp)
    rw [collect, hzero]
    exact if_pos rfl
  rw [showLog, hnothing]
  refine (if_pos rfl).trans ?_
  by_cases hempty : text = []
  · rw [if_pos hempty, hempty]
    refine foldl_search_zeros _ _ fun i _ => ?_
    have hzeros : buf = List.replicate (start + room) 0#8 := by
      simp only [buf, hempty, List.append_nil, List.replicate_add]
    exact hzeros ▸ getD_zeros _ i
  · rw [if_neg hempty]
    exact foldl_search_flat htext hempty

/-- Text that does not reach beyond the end is in one piece. -/
theorem showLog_stray (h : Holds start text buf) (hflat : start + text.length ≤ buf.length)
    (htext : IsText text) (hstart : 0 < start) :
    (EpLog.mk buf 0).showLog =
      (text, if text = [] then ⟨buf, 0⟩ else
        ⟨List.replicate buf.length 0#8, (start + text.length) % buf.length⟩) := by
  cases h with
  | flat text room => exact showLog_before htext hstart
  | around head tail room hhead htail hbehind =>
      have hlong : 0 < tail.length := List.length_pos_iff.mpr htail
      simp only [List.length_append, List.length_replicate] at hflat
      omega

/-- A reader that stands where the text begins. -/
theorem showLog_holds (h : Holds start text buf) (htext : IsText text)
    (hstart : start < buf.length) :
    (EpLog.mk buf start).showLog =
      (text, ⟨List.replicate buf.length 0#8, (start + text.length) % buf.length⟩) := by
  rw [showLog, collect_holds h htext hstart]
  dsimp only
  split
  · exact foldl_search_zeros _ _ fun i _ => getD_zeros _ i
  · rfl

end EpLog

/-! ## Writing -/

/-- A character behind a piece of the buffer. -/
theorem set_between (before behind : List (BitVec 8)) (old byte : BitVec 8) :
    (before ++ old :: behind).set before.length byte = before ++ byte :: behind := by
  rw [List.set_append_right _ _ (Nat.le_refl _), Nat.sub_self]
  rfl

/-- No text. -/
theorem holds_zeros {len : Nat} (h : start ≤ len) : Holds start [] (List.replicate len 0#8) := by
  have hflat : Holds start [] _ := .flat [] (len - start)
  rwa [List.append_nil, ← List.replicate_add, Nat.add_sub_cancel' h] at hflat

/-- The writer's character goes behind the text. -/
theorem Holds.write (h : Holds start text buf) (hstart : start < buf.length)
    (hroom : text.length < buf.length) (byte : BitVec 8) :
    Holds start (text ++ [byte]) (buf.set ((start + text.length) % buf.length) byte) := by
  cases h with
  | flat text room =>
      have hlength : (List.replicate start 0#8 ++ text ++ List.replicate room 0#8).length =
          start + text.length + room := by
        simp only [List.length_append, List.length_replicate]
      rw [hlength] at hstart hroom ⊢
      cases room with
      | zero =>
          -- the text reaches the end of the buffer, and the character goes to its start
          have htext : text ≠ [] := by
            rintro rfl
            exact absurd hstart (Nat.lt_irrefl _)
          obtain ⟨before, rfl⟩ : ∃ before, start = before + 1 := ⟨start - 1, by omega⟩
          have haround : Holds (before + 1) (text ++ [byte]) _ :=
            .around text [byte] before htext (List.cons_ne_nil _ _) (Nat.add_comm ..)
          have hcursor : (before + 1 + text.length) % (before + 1 + text.length + 0) = 0 :=
            Nat.mod_self _
          rw [hcursor, List.replicate_succ]
          simpa using haround
      | succ room =>
          have hset := set_between (List.replicate start 0#8 ++ text) (List.replicate room 0#8)
            0#8 byte
          rw [List.length_append, List.length_replicate] at hset
          have hflat : Holds start (text ++ [byte]) _ := .flat (text ++ [byte]) room
          rw [Nat.mod_eq_of_lt (by omega), List.replicate_succ, hset]
          simpa using hflat
  | around head tail room hhead htail hbehind =>
      have hlength : (tail ++ List.replicate room 0#8 ++ head).length = start + head.length := by
        rw [List.length_append, List.length_append, List.length_replicate, hbehind]
      rw [hlength, List.length_append] at hroom
      rw [hlength, List.length_append, ← Nat.add_assoc, Nat.add_mod_left,
        Nat.mod_eq_of_lt (by omega)]
      obtain ⟨less, rfl⟩ : ∃ less, room = less + 1 := ⟨room - 1, by omega⟩
      have hset := set_between tail (List.replicate less 0#8 ++ head) 0#8 byte
      have haround : Holds start (head ++ (tail ++ [byte])) _ :=
        .around head (tail ++ [byte]) less hhead
          (List.append_ne_nil_of_right_ne_nil _ (List.cons_ne_nil _ _))
          (by rw [List.length_append, List.length_singleton]; omega)
      rw [List.replicate_succ, List.append_assoc, List.append_assoc, List.cons_append, hset]
      simpa using haround

/-- The next place, round the end. -/
theorem wrap_succ {a len : Nat} (hlen : 0 < len) :
    (if a % len + 1 = len then 0 else a % len + 1) = (a + 1) % len := by
  have hlt := Nat.mod_lt a hlen
  rw [← Nat.mod_add_mod]
  split
  · next hend => rw [hend, Nat.mod_self]
  · exact (Nat.mod_eq_of_lt (by omega)).symm

/-! ## Runs -/

namespace Logger

/-- The text that is pending lies before the cursor, and the reader stands where it begins or will
find it. -/
structure Inv (st : Logger) : Prop where
  text : IsText st.pending
  place : ∃ start < st.log.buf.length, Holds start st.pending st.log.buf ∧
    st.cursor = (start + st.pending.length) % st.log.buf.length ∧
    (st.log.offset = start ∨ st.log.offset = 0 ∧ start + st.pending.length ≤ st.log.buf.length)

variable {st following : Logger} {event : LogEvent}

/-- The writer keeps the text in place. -/
theorem Inv.write (h : st.Inv) {byte : BitVec 8} (hfollowed : st.Followed (.write byte))
    (hnext : st.next (.write byte) = some following) : following.Inv := by
  obtain ⟨⟨hbyte, hroom⟩, rfl⟩ := of_guard hnext
  obtain ⟨start, hstart, hholds, hcursor, hreader⟩ := h.place
  refine ⟨?_, start, ?_, ?_, ?_, ?_⟩
  · intro other hother
    obtain hmem | hlast := List.mem_append.mp hother
    · exact h.text other hmem
    · exact List.mem_singleton.mp hlast ▸ hbyte
  · rw [List.length_set]
    exact hstart
  · rw [hcursor]
    exact hholds.write hstart hroom byte
  · dsimp only
    rw [List.length_set, List.length_append, List.length_singleton, hcursor,
      wrap_succ (by omega), Nat.add_assoc]
  · dsimp only
    rw [List.length_set, List.length_append, List.length_singleton]
    obtain hthere | ⟨hzero, hflat⟩ := hreader
    · exact .inl hthere
    · refine .inr ⟨hzero, ?_⟩
      by_contra hpast
      have hend : start + st.pending.length = st.log.buf.length := by omega
      have hcursorZero : st.cursor = 0 := by rw [hcursor, hend, Nat.mod_self]
      have hpending : st.pending ≠ [] := by
        intro hnone
        rw [hnone, List.length_nil] at hend
        omega
      have hfollow := hfollowed hcursorZero hpending
      omega

/-- A read gives the pending text, and leaves none. -/
theorem Inv.read (h : st.Inv) :
    st.log.showLog.1 = st.pending ∧
      Inv { st with log := st.log.showLog.2, pending := [], shown := st.log.showLog.1 } := by
  obtain ⟨start, hstart, hholds, hcursor, hreader⟩ := h.place
  have hbelow : st.cursor < st.log.buf.length := hcursor ▸ Nat.mod_lt _ (by omega)
  have hnone : IsText [] := fun byte hbyte => absurd hbyte List.not_mem_nil
  -- the reader has found the text and stands at the writer's cursor
  have hfound : st.log.showLog = (st.pending, ⟨List.replicate st.log.buf.length 0#8, st.cursor⟩) →
      st.log.showLog.1 = st.pending ∧
        Inv { st with log := st.log.showLog.2, pending := [], shown := st.log.showLog.1 } := by
    intro hshow
    rw [hshow]
    refine ⟨rfl, hnone, st.cursor, ?_, ?_, ?_, .inl rfl⟩
    · rw [List.length_replicate]
      exact hbelow
    · exact holds_zeros hbelow.le
    · rw [List.length_replicate]
      exact (Nat.mod_eq_of_lt hbelow).symm
  have hstands : st.log.offset = start → st.log.showLog =
      (st.pending, ⟨List.replicate st.log.buf.length 0#8, st.cursor⟩) := by
    intro hthere
    have hlog : st.log = ⟨st.log.buf, start⟩ := EpLog.ext rfl hthere
    calc st.log.showLog = (EpLog.mk st.log.buf start).showLog := congrArg EpLog.showLog hlog
      _ = _ := by rw [EpLog.showLog_holds hholds h.text hstart, hcursor]
  obtain hthere | ⟨hzero, hflat⟩ := hreader
  · exact hfound (hstands hthere)
  · obtain rfl | hbehind := Nat.eq_zero_or_pos start
    · exact hfound (hstands hzero)
    · have hlog : st.log = ⟨st.log.buf, 0⟩ := EpLog.ext rfl hzero
      have hshow := EpLog.showLog_stray hholds hflat h.text hbehind
      rw [← hlog, ← hcursor] at hshow
      split at hshow
      · next hempty =>
        refine ⟨by rw [hshow], hnone, start, ?_⟩
        rw [hshow]
        rw [hempty] at hholds hcursor
        exact ⟨hstart, hholds, hcursor, .inr ⟨hzero, hstart.le⟩⟩
      · exact hfound hshow

/-- A reset leaves no text. -/
theorem Inv.reset (h : st.Inv) (val : Option Nat) :
    Inv { st with
      log := st.log.reset val
      pending := if val = some 0 then [] else st.pending } := by
  unfold EpLog.reset
  split
  · obtain ⟨start, hstart, -, hcursor, -⟩ := h.place
    have hbelow : st.cursor < st.log.buf.length := hcursor ▸ Nat.mod_lt _ (by omega)
    refine ⟨fun byte hbyte => absurd hbyte List.not_mem_nil, st.cursor, ?_, ?_, ?_, .inr ⟨rfl, ?_⟩⟩
    all_goals dsimp only
    · rw [List.length_replicate]
      exact hbelow
    · exact holds_zeros hbelow.le
    · rw [List.length_replicate]
      exact (Nat.mod_eq_of_lt hbelow).symm
    · rw [List.length_replicate]
      exact hbelow.le
  · exact ⟨h.text, h.place⟩

theorem fresh_inv {len : Nat} (hlen : 0 < len) : (fresh len).Inv := by
  have hlength : (fresh len).log.buf.length = len := List.length_replicate
  refine ⟨fun byte hbyte => absurd hbyte List.not_mem_nil, 0, ?_, holds_zeros (Nat.zero_le _), ?_,
    .inl rfl⟩
  · rw [hlength]
    exact hlen
  · rw [hlength]
    exact (Nat.zero_mod len).symm

/-- Behind a reset, and a read that finds nothing, a text that goes round the end is read from its
second piece on: the reader still stands at the start of the buffer. -/
example : (run next (fresh 4)
    [.write 97, .write 98, .write 99, .reset (some 0), .read, .write 100, .write 101, .read]).map
      Logger.shown = some [101] := by
  decide

end Logger

end RfnmDriver.Shiva
