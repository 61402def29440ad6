import FrameFeed.Wire.Message
/-!
# Pieces by offset

Which piece holds a byte, and which pieces are left once some bytes are gone. Both are counted
from the first byte of the first piece; a piece without bytes holds none and is passed over.

Main statements: `bytesOf_after`, what is left is the rest of the bytes, and `after_after`, bytes
may go in two goes.
-/

namespace FrameFeed

namespace Wire

/-- The piece that holds the byte at `offset`. -/
def pieceAt : List Piece → Nat → Option Piece
  | [], _ => none
  | p :: ps, offset =>
    if offset < p.bytes.length then some p else pieceAt ps (offset - p.bytes.length)

/-- The pieces left once the first `n` bytes are gone; the first of them may have lost its
beginning. -/
def after (n : Nat) : List Piece → List Piece
  | [] => []
  | p :: ps =>
    if n < p.bytes.length then ⟨p.phase, p.bytes.drop n⟩ :: ps else after (n - p.bytes.length) ps

@[simp] theorem after_nil (n : Nat) : after n [] = [] := rfl

theorem after_cons_of_lt {n : Nat} {p : Piece} {ps : List Piece} (h : n < p.bytes.length) :
    after n (p :: ps) = ⟨p.phase, p.bytes.drop n⟩ :: ps := by
  rw [after, if_pos h]

theorem after_cons_of_le {n : Nat} {p : Piece} {ps : List Piece} (h : p.bytes.length ≤ n) :
    after n (p :: ps) = after (n - p.bytes.length) ps := by
  rw [after, if_neg (by omega)]

/-- Pieces that all hold bytes are left as they are. -/
theorem after_zero {ps : List Piece} (h : ∀ p ∈ ps, p.bytes ≠ []) : after 0 ps = ps := by
  cases ps with
  | nil => rfl
  | cons p ps =>
    have hp : 0 < p.bytes.length := List.length_pos_iff.mpr (h p (by simp))
    rw [after_cons_of_lt hp, List.drop_zero]

/-- **What is left is the rest of the bytes.** -/
theorem bytesOf_after (n : Nat) (ps : List Piece) :
    bytesOf (after n ps) = (bytesOf ps).drop n := by
  induction ps generalizing n with
  | nil => simp
  | cons p ps ih =>
    by_cases h : n < p.bytes.length
    · rw [after_cons_of_lt h, bytesOf_cons, bytesOf_cons, List.drop_append_of_le_length (by omega)]
    · rw [after_cons_of_le (by omega), ih, bytesOf_cons, List.drop_append,
        List.drop_eq_nil_of_le (by omega : p.bytes.length ≤ n), List.nil_append]

/-- **Bytes may go in two goes.** -/
theorem after_after (m n : Nat) (ps : List Piece) : after m (after n ps) = after (n + m) ps := by
  induction ps generalizing n with
  | nil => rfl
  | cons p ps ih =>
    by_cases h : n < p.bytes.length
    · -- the first go ends inside this piece, and the second there or past it
      rw [after_cons_of_lt h]
      by_cases hm : n + m < p.bytes.length
      · rw [after_cons_of_lt hm, after_cons_of_lt (by rw [List.length_drop]; omega),
          List.drop_drop]
      · rw [after_cons_of_le (by rw [List.length_drop]; omega), after_cons_of_le (by omega),
          List.length_drop]
        congr 1
        omega
    · rw [after_cons_of_le (by omega), ih, after_cons_of_le (by omega)]
      congr 1
      omega

/-- What is left holds bytes where the pieces did. -/
theorem after_ne_nil {n : Nat} {ps : List Piece} (h : ∀ p ∈ ps, p.bytes ≠ []) :
    ∀ p ∈ after n ps, p.bytes ≠ [] := by
  induction ps generalizing n with
  | nil => simp
  | cons p ps ih =>
    have hps : ∀ q ∈ ps, q.bytes ≠ [] := fun q hq => h q (by simp [hq])
    by_cases hn : n < p.bytes.length
    · rw [after_cons_of_lt hn]
      intro q hq
      rcases List.mem_cons.mp hq with rfl | hq
      · intro he
        have := List.drop_eq_nil_iff.mp he
        omega
      · exact hps q hq
    · rw [after_cons_of_le (by omega)]
      exact ih hps

/-- The piece in front of what is left is the rest of the piece that holds the next byte. -/
theorem phase_pieceAt_of_after {n : Nat} {ps rest : List Piece} {left : Piece}
    (h : after n ps = left :: rest) : (pieceAt ps n).map Piece.phase = some left.phase := by
  induction ps generalizing n with
  | nil => simp at h
  | cons p ps ih =>
    by_cases hn : n < p.bytes.length
    · rw [after_cons_of_lt hn] at h
      obtain ⟨rfl, -⟩ := List.cons.inj h
      rw [pieceAt, if_pos hn]
      rfl
    · rw [after_cons_of_le (by omega)] at h
      rw [pieceAt, if_neg hn]
      exact ih h

/-- Pieces without bytes hold no byte, so it does not matter whether they are there. -/
theorem pieceAt_filter (ps : List Piece) (offset : Nat) :
    pieceAt (ps.filter (·.bytes ≠ [])) offset = pieceAt ps offset := by
  induction ps generalizing offset with
  | nil => rfl
  | cons p ps ih =>
    by_cases hp : p.bytes = []
    · rw [List.filter_cons_of_neg (by simp [hp]), ih, pieceAt, hp]
      simp
    · rw [List.filter_cons_of_pos (by simp [hp]), pieceAt, pieceAt, ih]

/-- Nor for the bytes themselves. -/
theorem bytesOf_filter (ps : List Piece) : bytesOf (ps.filter (·.bytes ≠ [])) = bytesOf ps := by
  induction ps with
  | nil => rfl
  | cons p ps ih =>
    by_cases hp : p.bytes = []
    · rw [List.filter_cons_of_neg (by simp [hp]), ih, bytesOf_cons, hp, List.nil_append]
    · rw [List.filter_cons_of_pos (by simp [hp]), bytesOf_cons, bytesOf_cons, ih]

/-- A byte lies in the pieces in front, or as far into those behind as it lies past the front. -/
theorem pieceAt_append (ps qs : List Piece) (offset : Nat) :
    pieceAt (ps ++ qs) offset =
      if offset < (bytesOf ps).length then pieceAt ps offset
      else pieceAt qs (offset - (bytesOf ps).length) := by
  induction ps generalizing offset with
  | nil => simp
  | cons p ps ih =>
    rw [List.cons_append, pieceAt, pieceAt, bytesOf_cons, List.length_append]
    by_cases hp : offset < p.bytes.length
    · rw [if_pos hp, if_pos hp, if_pos (by omega)]
    · rw [if_neg hp, if_neg hp, ih, Nat.sub_sub]
      by_cases hps : offset - p.bytes.length < (bytesOf ps).length
      · rw [if_pos hps, if_pos (by omega)]
      · rw [if_neg hps, if_neg (by omega)]

/-- Every byte lies in some piece. -/
theorem exists_pieceAt {ps : List Piece} {offset : Nat} (h : offset < (bytesOf ps).length) :
    ∃ p, pieceAt ps offset = some p := by
  induction ps generalizing offset with
  | nil => simp at h
  | cons p ps ih =>
    rw [bytesOf_cons, List.length_append] at h
    by_cases hp : offset < p.bytes.length
    · exact ⟨p, by rw [pieceAt, if_pos hp]⟩
    · obtain ⟨q, hat⟩ := @ih (offset - p.bytes.length) (by omega)
      exact ⟨q, by rw [pieceAt, if_neg hp, hat]⟩

/-- A piece that holds a byte is one of the pieces, and holds bytes. -/
theorem mem_of_pieceAt {ps : List Piece} {offset : Nat} {p : Piece}
    (h : pieceAt ps offset = some p) : p ∈ ps ∧ p.bytes ≠ [] := by
  induction ps generalizing offset with
  | nil => cases h
  | cons q ps ih =>
    rw [pieceAt] at h
    split at h
    next hq =>
      obtain rfl := Option.some.inj h
      exact ⟨by simp, fun he => by simp [he] at hq⟩
    next hq =>
      obtain ⟨hmem, hne⟩ := ih h
      exact ⟨by simp [hmem], hne⟩

/-- Past the last byte there is no piece. -/
theorem pieceAt_eq_none {ps : List Piece} {offset : Nat} (h : (bytesOf ps).length ≤ offset) :
    pieceAt ps offset = none := by
  induction ps generalizing offset with
  | nil => rfl
  | cons p ps ih =>
    rw [bytesOf_cons, List.length_append] at h
    rw [pieceAt, if_neg (by omega)]
    exact ih (by omega)

end Wire

end FrameFeed
