/-!
# Fixed-width words as bytes

A number becomes exactly `width` bytes, least significant first, and a run of bytes becomes a
number. Writing drops what lies above the width, so it is exact below `wordBound width`; reading
is exact on every run of bytes. Big-endian words are the same bytes reversed.

Main statements: `ofLittleEndian_littleEndian` and `littleEndian_ofLittleEndian`, the two
round trips.
-/

namespace FrameFeed

namespace Wire

/-- How many numbers a word of `width` bytes can tell apart. -/
def wordBound : Nat → Nat
  | 0 => 1
  | width + 1 => 256 * wordBound width

/-- The `width` bytes of `n`, least significant first. Bits above `8 * width` are dropped. -/
def littleEndian : Nat → Nat → List UInt8
  | 0, _ => []
  | width + 1, n => UInt8.ofNat (n % 256) :: littleEndian width (n / 256)

/-- The number whose bytes these are, least significant first. -/
def ofLittleEndian : List UInt8 → Nat
  | [] => 0
  | b :: bs => b.toNat + 256 * ofLittleEndian bs

/-- The `width` bytes of `n`, most significant first. -/
def bigEndian (width n : Nat) : List UInt8 := (littleEndian width n).reverse

/-- The number whose bytes these are, most significant first. -/
def ofBigEndian (bs : List UInt8) : Nat := ofLittleEndian bs.reverse

/-! ## Round trips -/

@[simp] theorem length_littleEndian (width n : Nat) : (littleEndian width n).length = width := by
  induction width generalizing n with
  | zero => rfl
  | succ width ih => simp [littleEndian, ih]

@[simp] theorem length_bigEndian (width n : Nat) : (bigEndian width n).length = width := by
  simp [bigEndian]

/-- Reading back what was written gives the number, less what the width cannot hold. -/
theorem ofLittleEndian_littleEndian (width n : Nat) :
    ofLittleEndian (littleEndian width n) = n % wordBound width := by
  induction width generalizing n with
  | zero => simp [littleEndian, ofLittleEndian, wordBound, Nat.mod_one]
  | succ width ih =>
    have low : (UInt8.ofNat (n % 256)).toNat = n % 256 :=
      UInt8.toNat_ofNat_of_lt' (Nat.mod_lt n (by decide))
    rw [littleEndian, ofLittleEndian, ih, low, wordBound, Nat.mod_mul]

/-- **Nothing is lost below the width's bound.** -/
theorem ofLittleEndian_littleEndian_of_lt {width n : Nat} (h : n < wordBound width) :
    ofLittleEndian (littleEndian width n) = n := by
  rw [ofLittleEndian_littleEndian, Nat.mod_eq_of_lt h]

theorem ofLittleEndian_lt (bs : List UInt8) : ofLittleEndian bs < wordBound bs.length := by
  induction bs with
  | nil => simp [ofLittleEndian, wordBound]
  | cons b bs ih =>
    have hb : b.toNat < 256 := b.toNat_lt
    rw [ofLittleEndian, List.length_cons, wordBound]
    omega

/-- **Bytes read as a number are the bytes of that number.** -/
theorem littleEndian_ofLittleEndian (bs : List UInt8) :
    littleEndian bs.length (ofLittleEndian bs) = bs := by
  induction bs with
  | nil => rfl
  | cons b bs ih =>
    have hb : b.toNat < 256 := b.toNat_lt
    have hm : (b.toNat + 256 * ofLittleEndian bs) % 256 = b.toNat := by omega
    have hd : (b.toNat + 256 * ofLittleEndian bs) / 256 = ofLittleEndian bs := by omega
    rw [List.length_cons, ofLittleEndian, littleEndian, hm, hd, ih, UInt8.ofNat_toNat]

theorem ofBigEndian_bigEndian_of_lt {width n : Nat} (h : n < wordBound width) :
    ofBigEndian (bigEndian width n) = n := by
  rw [ofBigEndian, bigEndian, List.reverse_reverse, ofLittleEndian_littleEndian_of_lt h]

theorem bigEndian_ofBigEndian (bs : List UInt8) : bigEndian bs.length (ofBigEndian bs) = bs := by
  rw [bigEndian, ofBigEndian, ← List.length_reverse, littleEndian_ofLittleEndian,
    List.reverse_reverse]

end Wire

end FrameFeed
