/-!
# Decimal numbers in text

A number is a run of ASCII digits, at least one, with as many leading zeros as its writer likes.
An unsigned number may have a plus sign in front, a signed one a plus or a minus sign. Nothing
else is let by, blanks included, and a number out of range is no number.

Main statements: `digits?_toDigits`, what is written without padding reads back, and
`signed?_toString`, so does a number with its sign.
-/

namespace FrameFeed

namespace Decimal

/-- The value of a run of ASCII digits, of which there must be at least one. -/
def digits? (cs : List Char) : Option Nat :=
  if cs ≠ [] ∧ cs.all Char.isDigit then some (Nat.ofDigitChars 10 cs 0) else none

/-- What follows a plus sign, where there is one. -/
def dropPlus : List Char → List Char
  | '+' :: cs => cs
  | cs => cs

/-- An unsigned number of at most `max`. -/
def unsigned? (max : Nat) (cs : List Char) : Option Nat :=
  (digits? (dropPlus cs)).filter (· ≤ max)

/-- The largest unsigned number of 64 bits. -/
def maxWord : Nat := 0xFFFF_FFFF_FFFF_FFFF

/-- A signed number of 64 bits. -/
def signed? : List Char → Option Int64
  | '-' :: cs => ((digits? cs).filter (· ≤ 0x8000_0000_0000_0000)).map fun n => Int64.ofInt (-n)
  | cs => (unsigned? 0x7FFF_FFFF_FFFF_FFFF cs).map fun n => Int64.ofInt n

/-! ## Reading back -/

theorem all_isDigit_toDigits (n : Nat) : (Nat.toDigits 10 n).all Char.isDigit = true := by
  rw [List.all_eq_true]
  intro c hc
  exact Nat.isDigit_of_mem_toDigits (by decide) (by decide) hc

/-- **The digits of a number read back as that number.** -/
theorem digits?_toDigits (n : Nat) : digits? (Nat.toDigits 10 n) = some n := by
  rw [digits?, if_pos ⟨Nat.toDigits_ne_nil, all_isDigit_toDigits n⟩,
    Nat.ofDigitChars_toDigits (by decide) (by decide)]

/-- A number begins with a digit. -/
theorem exists_toDigits_eq_cons (n : Nat) :
    ∃ c cs, Nat.toDigits 10 n = c :: cs ∧ c.isDigit = true := by
  have hne : Nat.toDigits 10 n ≠ [] := Nat.toDigits_ne_nil
  obtain ⟨c, cs, hdigits⟩ := List.exists_cons_of_ne_nil hne
  refine ⟨c, cs, hdigits, List.all_eq_true.mp (all_isDigit_toDigits n) c ?_⟩
  rw [hdigits]
  exact List.mem_cons_self

/-- The text of a number is its digits. -/
theorem toList_toString (n : Nat) : (toString n).toList = Nat.toDigits 10 n := by
  rw [Nat.toString_eq_repr, Nat.toList_repr]

theorem isDigit_of_mem_toString {n : Nat} {c : Char} (h : c ∈ (toString n).toList) :
    c.isDigit = true := by
  rw [toList_toString] at h
  exact List.all_eq_true.mp (all_isDigit_toDigits n) c h

theorem digits?_toString (n : Nat) : digits? (toString n).toList = some n := by
  rw [toList_toString, digits?_toDigits]

/-- The text of a whole number is its digits, behind a minus sign where it is negative. -/
theorem toList_toString_int (n : Int) :
    (toString n).toList =
      if 0 ≤ n then Nat.toDigits 10 n.toNat else '-' :: Nat.toDigits 10 (-n).toNat := by
  rw [Int.toString_eq_repr, Int.repr_eq_if]
  split
  · exact Nat.toList_repr
  · rw [String.toList_append, Nat.toList_repr]
    rfl

theorem unsigned?_toDigits {max n : Nat} (h : n ≤ max) :
    unsigned? max (Nat.toDigits 10 n) = some n := by
  have hplus : dropPlus (Nat.toDigits 10 n) = Nat.toDigits 10 n := by
    obtain ⟨c, cs, hdigits, hc⟩ := exists_toDigits_eq_cons n
    rw [hdigits]
    unfold dropPlus
    split
    next heq => exact absurd hc (by rw [(List.cons.inj heq).1]; decide)
    next => rfl
  rw [unsigned?, hplus, digits?_toDigits]
  simpa using h

theorem unsigned?_toString {max n : Nat} (h : n ≤ max) :
    unsigned? max (toString n).toList = some n := by
  rw [toList_toString, unsigned?_toDigits h]

/-- **The text of a signed number of 64 bits reads back as that number.** -/
theorem signed?_toString (n : Int64) : signed? (toString n.toInt).toList = some n := by
  have hlow := n.le_toInt
  have hhigh := n.toInt_lt
  rw [toList_toString_int]
  split
  next hnonneg =>
    obtain ⟨c, cs, hdigits, hc⟩ := exists_toDigits_eq_cons n.toInt.toNat
    have hread := unsigned?_toDigits (show n.toInt.toNat ≤ 0x7FFF_FFFF_FFFF_FFFF by omega)
    rw [hdigits] at hread ⊢
    unfold signed?
    split
    next heq => exact absurd hc (by rw [(List.cons.inj heq).1]; decide)
    next =>
      rw [hread]
      change some (Int64.ofInt n.toInt.toNat) = some n
      rw [Int.toNat_of_nonneg hnonneg, Int64.ofInt_toInt]
  next hneg =>
    have hbound : (-n.toInt).toNat ≤ 0x8000_0000_0000_0000 := by omega
    have hback : (-((-n.toInt).toNat : Int)) = n.toInt := by omega
    simp only [signed?, digits?_toDigits, Option.filter_some, hbound, decide_true, if_true]
    change some (Int64.ofInt (-((-n.toInt).toNat : Int))) = some n
    rw [hback, Int64.ofInt_toInt]

end Decimal

end FrameFeed
