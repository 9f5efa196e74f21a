import Mathlib.Data.List.Basic
import Mathlib.Data.List.Infix

/-!
# Frames in a stream

A stream is the concatenation of its frames, and a receiver has the first so many elements of it.
`complete` are the frames that end within them. Read `complete_of_split` first: where a frame
boundary is known, the complete frames are those before it and the complete ones of the rest.
-/

namespace FrameStream

variable {α : Type*} {frames earlier later : List (List α)} {frame : List α} {n : Nat}

/-- The frames that end within the first `n` elements. -/
def complete : List (List α) → Nat → List (List α)
  | [], _ => []
  | frame :: later, n =>
      if frame.length ≤ n then frame :: complete later (n - frame.length) else []

/-- The complete frames are the first ones. -/
theorem complete_initial (frames : List (List α)) (n : Nat) : complete frames n <+: frames := by
  induction frames generalizing n with
  | nil => exact List.prefix_rfl
  | cons frame later ih =>
      unfold complete
      split
      · exact (List.prefix_cons_inj frame).mpr (ih _)
      · exact List.nil_prefix

/-- A frame boundary within the first `n` elements splits the complete frames. -/
theorem complete_append (earlier later : List (List α)) (hn : earlier.flatten.length ≤ n) :
    complete (earlier ++ later) n =
      earlier ++ complete later (n - earlier.flatten.length) := by
  induction earlier generalizing n with
  | nil => simp
  | cons frame rest ih =>
      simp only [List.flatten_cons, List.length_append] at hn
      simp only [List.cons_append, complete, List.flatten_cons, List.length_append]
      rw [if_pos (by omega), ih (by omega)]
      rw [Nat.sub_sub]

/-- Nothing is complete before the first frame has ended. -/
theorem complete_of_lt (hn : n < frame.length) : complete (frame :: later) n = [] := by
  unfold complete
  rw [if_neg (by omega)]

/-- With a frame boundary behind it and less than a frame since, the receiver has exactly the
frames before the boundary. -/
theorem complete_of_split {rest : List α} (hn : n = earlier.flatten.length + rest.length)
    (hrest : ∀ frame tail, later = frame :: tail → rest.length < frame.length) :
    complete (earlier ++ later) n = earlier := by
  rw [complete_append earlier later (by omega)]
  cases later with
  | nil => simp [complete]
  | cons frame tail =>
      have hlt := hrest frame tail rfl
      rw [complete_of_lt (by omega), List.append_nil]

/-- What is received of a stream behind a frame boundary is a prefix of the stream behind it. -/
theorem rest_initial {rest : List α}
    (h : earlier.flatten ++ rest <+: (earlier ++ later).flatten) : rest <+: later.flatten := by
  rw [List.flatten_append] at h
  exact (List.prefix_append_right_inj _).mp h

/-- What is received behind a frame boundary, and is no longer than the next frame, is a prefix of
it. -/
theorem rest_initial_frame {rest : List α}
    (h : earlier.flatten ++ rest <+: (earlier ++ frame :: later).flatten)
    (hlength : rest.length ≤ frame.length) : rest <+: frame := by
  have hrest := rest_initial h
  rw [List.flatten_cons] at hrest
  exact List.prefix_of_prefix_length_le hrest (List.prefix_append _ _) hlength

end FrameStream
