import FrameFeed.Emit
/-!
# Which texts are durations

A pause is written as a number and a unit behind it, with blanks around the whole. Here the three
parts are described on their own: the text between the blanks (`Trimmed`), numbers
(`Decimal.Numeral`), and a text as a number with its unit (`Duration.Spells`). A text spells at most
one number and unit, although the name of one unit ends in that of the other, since what stands in
front of a unit ends in a digit (`spells_iff`).

Main statements: `reads_ofTrimmed`, what becomes of a text without blanks around it, and
`parse_law`, what becomes of any text.
-/

namespace FrameFeed

/-! ## Blanks at the ends -/

/-- The text `t` is `s` without the blanks at its ends. -/
structure Trimmed (s t : List Char) : Prop where
  /-- What was left out are blanks, -/
  exists_blanks : ∃ front back, s = front ++ t ++ back ∧
    (∀ c ∈ front, isBlank c = true) ∧ ∀ c ∈ back, isBlank c = true
  /-- and what is left neither begins nor ends with one. -/
  not_blank_head : ∀ c, t.head? = some c → isBlank c = false
  not_blank_last : ∀ c, t.getLast? = some c → isBlank c = false

/-- Blanks are dropped up to the first character that is none. -/
theorem dropWhile_blanks {front t : List Char} (hfront : ∀ c ∈ front, isBlank c = true)
    (ht : ∀ c, t.head? = some c → isBlank c = false) : (front ++ t).dropWhile isBlank = t := by
  rw [List.dropWhile_append_of_pos hfront]
  cases t with
  | nil => rfl
  | cons c t => rw [List.dropWhile_cons_of_neg (by simp [ht c rfl])]

/-- What is left once blanks are dropped does not begin with one. -/
theorem not_blank_head_dropWhile (cs : List Char) :
    ∀ c, (cs.dropWhile isBlank).head? = some c → isBlank c = false := by
  intro c hc
  have h := List.head?_dropWhile_not isBlank cs
  rw [hc] at h
  exact h

/-- What is dropped are blanks. -/
theorem blank_of_mem_takeWhile (cs : List Char) :
    ∀ c ∈ cs.takeWhile isBlank, isBlank c = true :=
  List.all_eq_true.mp List.all_takeWhile

theorem trimmed_trimBlanks (s : List Char) : Trimmed s (trimBlanks s) := by
  have hfront := @List.takeWhile_append_dropWhile _ isBlank s
  have hback := @List.takeWhile_append_dropWhile _ isBlank (s.dropWhile isBlank).reverse
  -- what is left once blanks are dropped in front is what is kept and the blanks behind it
  have hsplit : s.dropWhile isBlank =
      trimBlanks s ++ ((s.dropWhile isBlank).reverse.takeWhile isBlank).reverse := by
    rw [trimBlanks, ← List.reverse_append, hback, List.reverse_reverse]
  refine ⟨⟨s.takeWhile isBlank, ((s.dropWhile isBlank).reverse.takeWhile isBlank).reverse,
    ?_, blank_of_mem_takeWhile s, ?_⟩, ?_, ?_⟩
  · rw [List.append_assoc, ← hsplit, hfront]
  · intro c hc
    exact blank_of_mem_takeWhile _ c (List.mem_reverse.mp hc)
  · intro c hc
    refine not_blank_head_dropWhile s c ?_
    rw [hsplit, List.head?_append, hc, Option.some_or]
  · intro c hc
    rw [trimBlanks, List.getLast?_reverse] at hc
    exact not_blank_head_dropWhile _ c hc

/-- **There is one way to cut the blanks off.** -/
theorem trimmed_iff {s t : List Char} : Trimmed s t ↔ t = trimBlanks s := by
  constructor
  · rintro ⟨⟨front, back, rfl, hfront, hback⟩, hhead, hlast⟩
    have hback' : ∀ c ∈ back.reverse, isBlank c = true :=
      fun c hc => hback c (List.mem_reverse.mp hc)
    rw [trimBlanks]
    cases ht : t with
    | nil =>
      -- nothing but blanks: they all go at once
      have hall : (front ++ back).dropWhile isBlank = [] := by
        have hblank : ∀ c ∈ front ++ back, isBlank c = true :=
          fun c hc => (List.mem_append.mp hc).elim (hfront c) (hback c)
        have hdrop : (front ++ back ++ []).dropWhile isBlank = [] :=
          dropWhile_blanks hblank (by simp)
        rwa [List.append_nil] at hdrop
      rw [List.append_nil, hall]
      rfl
    | cons c cs =>
      have hhead' : ∀ d, (t ++ back).head? = some d → isBlank d = false := by
        intro d hd
        rw [ht, List.cons_append, List.head?_cons] at hd
        exact hhead d (by rw [ht, List.head?_cons, hd])
      have hlast' : ∀ d, t.reverse.head? = some d → isBlank d = false := by
        intro d hd
        exact hlast d (by rw [← List.head?_reverse, hd])
      rw [← ht, List.append_assoc, dropWhile_blanks hfront hhead', List.reverse_append,
        dropWhile_blanks hback' hlast', List.reverse_reverse]
  · rintro rfl
    exact trimmed_trimBlanks s

/-! ## Numbers -/

namespace Decimal

/-- The text is an unsigned number of value `n`: digits, at least one, with or without a plus sign
in front. -/
def Numeral (cs : List Char) (n : Nat) : Prop :=
  ∃ digits, (cs = digits ∨ cs = '+' :: digits) ∧ digits ≠ [] ∧ (∀ c ∈ digits, c.isDigit = true) ∧
    n = Nat.ofDigitChars 10 digits 0

theorem digits?_eq_some_iff {cs : List Char} {n : Nat} :
    digits? cs = some n ↔
      cs ≠ [] ∧ (∀ c ∈ cs, c.isDigit = true) ∧ n = Nat.ofDigitChars 10 cs 0 := by
  rw [digits?, Option.ite_none_right_eq_some, List.all_eq_true, Option.some.injEq, and_assoc,
    eq_comm (a := n)]

/-- A plus sign is no digit, so only one that stands in front of the digits is dropped. -/
theorem dropPlus_of_digits {digits : List Char} (h : ∀ c ∈ digits, c.isDigit = true) :
    dropPlus digits = digits := by
  unfold dropPlus
  split
  next cs =>
    have hplus : '+'.isDigit = true := h '+' List.mem_cons_self
    exact absurd hplus (by decide)
  next => rfl

/-- What stands where a plus sign was dropped stood behind it, or stood there alone. -/
theorem eq_dropPlus_or (cs : List Char) : cs = dropPlus cs ∨ cs = '+' :: dropPlus cs := by
  unfold dropPlus
  split
  next rest => exact Or.inr rfl
  next => exact Or.inl rfl

theorem digits?_dropPlus_eq_some_iff {cs : List Char} {n : Nat} :
    digits? (dropPlus cs) = some n ↔ Numeral cs n := by
  rw [digits?_eq_some_iff]
  constructor
  · rintro ⟨hne, hdigits, hn⟩
    exact ⟨dropPlus cs, eq_dropPlus_or cs, hne, hdigits, hn⟩
  · rintro ⟨digits, hcs, hne, hdigits, hn⟩
    have hdrop : dropPlus cs = digits := by
      rcases hcs with rfl | rfl
      · exact dropPlus_of_digits hdigits
      · rfl
    rw [hdrop]
    exact ⟨hne, hdigits, hn⟩

/-- **An unsigned number is found just when there is one, and it is not too large.** -/
theorem unsigned?_eq_some_iff {max n : Nat} {cs : List Char} :
    unsigned? max cs = some n ↔ Numeral cs n ∧ n ≤ max := by
  rw [unsigned?, Option.filter_eq_some_iff, digits?_dropPlus_eq_some_iff, decide_eq_true_eq]

theorem Numeral.unique {cs : List Char} {n m : Nat} (hn : Numeral cs n) (hm : Numeral cs m) :
    n = m := by
  rw [← digits?_dropPlus_eq_some_iff] at hn hm
  exact Option.some.inj (hn.symm.trans hm)

/-- A number ends in a digit. -/
theorem Numeral.isDigit_last {cs : List Char} {n : Nat} (h : Numeral cs n) :
    ∃ c, cs.getLast? = some c ∧ c.isDigit = true := by
  obtain ⟨digits, hcs, hne, hdigits, -⟩ := h
  have hlast : digits.getLast? = some (digits.getLast hne) := List.getLast?_eq_some_getLast hne
  refine ⟨digits.getLast hne, ?_, hdigits _ (List.getLast_mem hne)⟩
  rcases hcs with rfl | rfl
  · exact hlast
  · rw [List.getLast?_cons, hlast, Option.getD_some]

/-- So it does not end in a letter of a unit. -/
theorem Numeral.getLast?_ne {cs : List Char} {n : Nat} (h : Numeral cs n) {c : Char}
    (hc : c.isDigit = false) : cs.getLast? ≠ some c := by
  obtain ⟨last, hlast, hdigit⟩ := h.isDigit_last
  rw [hlast]
  intro heq
  rw [Option.some.inj heq, hc] at hdigit
  cases hdigit

end Decimal

/-! ## Numbers with units -/

namespace Duration

open Decimal

/-- How a unit is written behind a number. Seconds may go without. -/
def Scale.spellings : Scale → List (List Char)
  | .milliseconds => [['m', 's']]
  | .seconds => [['s'], []]

/-- The text is a number of value `n` with a unit right behind it. -/
def Spells (t : List Char) (n : Nat) (scale : Scale) : Prop :=
  ∃ number unit, t = number ++ unit ∧ unit ∈ scale.spellings ∧ Numeral number n

/-- The ways to cut a unit off a text. -/
theorem splitUnit_cases (t : List Char) :
    (∃ number, t = number ++ ['m', 's'] ∧ splitUnit t = (number, "ms")) ∨
      (∃ number, t = number ++ ['s'] ∧ splitUnit t = (number, "s")) ∨
        splitUnit t = (t, "s") := by
  have hreverse : t = t.reverse.reverse := (List.reverse_reverse t).symm
  unfold splitUnit
  split
  next number heq =>
    rw [heq] at hreverse
    exact Or.inl ⟨number.reverse, by simpa using hreverse, rfl⟩
  next number _ heq =>
    rw [heq] at hreverse
    exact Or.inr (Or.inl ⟨number.reverse, by simpa using hreverse, rfl⟩)
  next => exact Or.inr (Or.inr rfl)

theorem splitUnit_milliseconds (number : List Char) :
    splitUnit (number ++ ['m', 's']) = (number, "ms") := by
  simp [splitUnit]

/-- An `s` is the unit only where no `m` stands in front of it. -/
theorem splitUnit_seconds {number : List Char} (h : number.getLast? ≠ some 'm') :
    splitUnit (number ++ ['s']) = (number, "s") := by
  rw [← List.head?_reverse] at h
  have hreverse : (number ++ ['s']).reverse = 's' :: number.reverse := List.reverse_append
  unfold splitUnit
  rw [hreverse]
  split
  next rest heq =>
    rw [(List.cons.inj heq).2, List.head?_cons] at h
    exact absurd rfl h
  next rest _ heq => rw [← (List.cons.inj heq).2, List.reverse_reverse]
  next _ hnot => exact absurd rfl (hnot number.reverse)

theorem splitUnit_bare {number : List Char} (h : number.getLast? ≠ some 's') :
    splitUnit number = (number, "s") := by
  rw [← List.head?_reverse] at h
  unfold splitUnit
  split
  next rest heq =>
    rw [heq, List.head?_cons] at h
    exact absurd rfl h
  next rest _ heq =>
    rw [heq, List.head?_cons] at h
    exact absurd rfl h
  next => rfl

/-- **A text spells what is found by cutting it**, and so no more than one number and unit. -/
theorem spells_iff {t : List Char} {n : Nat} {scale : Scale} :
    Spells t n scale ↔
      Numeral (splitUnit t).1 n ∧ Scale.ofName? (splitUnit t).2 = some scale := by
  constructor
  · rintro ⟨number, unit, rfl, hunit, hn⟩
    cases scale with
    | milliseconds =>
      obtain rfl := List.mem_singleton.mp hunit
      rw [splitUnit_milliseconds]
      exact ⟨hn, rfl⟩
    | seconds =>
      rcases List.mem_cons.mp hunit with rfl | hunit
      · rw [splitUnit_seconds (hn.getLast?_ne (by decide))]
        exact ⟨hn, rfl⟩
      · obtain rfl := List.mem_singleton.mp hunit
        rw [List.append_nil, splitUnit_bare (hn.getLast?_ne (by decide))]
        exact ⟨hn, rfl⟩
  · rintro ⟨hn, hscale⟩
    rcases splitUnit_cases t with ⟨number, ht, hsplit⟩ | ⟨number, ht, hsplit⟩ | hsplit
    · rw [hsplit] at hn hscale
      obtain rfl : Scale.milliseconds = scale := Option.some.inj hscale
      exact ⟨number, ['m', 's'], ht, List.mem_singleton.mpr rfl, hn⟩
    · rw [hsplit] at hn hscale
      obtain rfl : Scale.seconds = scale := Option.some.inj hscale
      exact ⟨number, ['s'], ht, List.mem_cons_self, hn⟩
    · rw [hsplit] at hn hscale
      obtain rfl : Scale.seconds = scale := Option.some.inj hscale
      exact ⟨t, [], (List.append_nil t).symm, by simp [Scale.spellings], hn⟩

theorem Spells.unique {t : List Char} {n m : Nat} {scale other : Scale} (hn : Spells t n scale)
    (hm : Spells t m other) : n = m ∧ scale = other := by
  rw [spells_iff] at hn hm
  exact ⟨hn.1.unique hm.1, Option.some.inj (hn.2.symm.trans hm.2)⟩

/-- Nothing at all spells no number. -/
theorem Spells.ne_nil {t : List Char} {n : Nat} {scale : Scale} (h : Spells t n scale) :
    t ≠ [] := by
  obtain ⟨number, unit, rfl, -, hn⟩ := h
  obtain ⟨last, hlast, -⟩ := hn.isDigit_last
  intro hnil
  rw [(List.append_eq_nil_iff.mp hnil).1] at hlast
  cases hlast

/-- **Every name that is cut off is that of a unit.** -/
theorem exists_ofName? (t : List Char) : ∃ scale, Scale.ofName? (splitUnit t).2 = some scale := by
  rcases splitUnit_cases t with ⟨number, -, hsplit⟩ | ⟨number, -, hsplit⟩ | hsplit
  · exact ⟨.milliseconds, by rw [hsplit]; rfl⟩
  · exact ⟨.seconds, by rw [hsplit]; rfl⟩
  · exact ⟨.seconds, by rw [hsplit]; rfl⟩

/-! ## What becomes of a text -/

/-- What becomes of a text without blanks around it. -/
inductive Reads : List Char → Except DurationError Duration → Prop
  | empty : Reads [] (.error .empty)
  | zero {t : List Char} {scale : Scale} : Spells t 0 scale → Reads t (.error .zero)
  | duration {t : List Char} {n : Nat} {scale : Scale} :
      Spells t n scale → 1 ≤ n → n ≤ maxWord → Reads t (.ok (of n scale))
  | malformed {t : List Char} : t ≠ [] → (∀ n scale, Spells t n scale → maxWord < n) →
      Reads t (.error (.malformed (String.ofList t)))

/-- A text that is not empty is cut, its number is read, and then its unit. -/
theorem ofTrimmed_of_ne_nil {t : List Char} (ht : t ≠ []) :
    ofTrimmed t =
      match unsigned? maxWord (splitUnit t).1 with
      | none => .error (.malformed (String.ofList t))
      | some 0 => .error .zero
      | some n =>
        match Scale.ofName? (splitUnit t).2 with
        | none => .error (.unsupported (splitUnit t).2)
        | some scale => .ok (of n scale) :=
  if_neg ht

/-- **Reading a text comes to one of these**; that its unit is not known is none of them. -/
theorem reads_ofTrimmed (t : List Char) : Reads t (ofTrimmed t) := by
  by_cases ht : t = []
  · subst ht
    exact .empty
  · obtain ⟨scale, hscale⟩ := exists_ofName? t
    rw [ofTrimmed_of_ne_nil ht]
    cases hnumber : unsigned? maxWord (splitUnit t).1 with
    | none =>
      refine .malformed ht fun n other hspells => Nat.lt_of_not_le fun hle => ?_
      have hsome := unsigned?_eq_some_iff.mpr ⟨(spells_iff.mp hspells).1, hle⟩
      rw [hnumber] at hsome
      cases hsome
    | some n =>
      obtain ⟨hn, hle⟩ := unsigned?_eq_some_iff.mp hnumber
      have hspells : Spells t n scale := spells_iff.mpr ⟨hn, hscale⟩
      cases n with
      | zero => exact .zero hspells
      | succ n =>
        rw [hscale]
        exact .duration hspells (Nat.succ_pos n) hle

/-- And to no more than one of them. -/
theorem Reads.unique {t : List Char} {r r' : Except DurationError Duration} (h : Reads t r)
    (h' : Reads t r') : r = r' := by
  cases h with
  | empty =>
    cases h' with
    | empty => rfl
    | zero hspells => exact absurd rfl hspells.ne_nil
    | duration hspells => exact absurd rfl hspells.ne_nil
    | malformed hne => exact absurd rfl hne
  | zero hspells =>
    cases h' with
    | empty => exact absurd rfl hspells.ne_nil
    | zero => rfl
    | duration hspells' hpos =>
      have hzero := (hspells.unique hspells').1
      omega
    | malformed _ hlarge => exact absurd (hlarge _ _ hspells) (Nat.not_lt_zero _)
  | duration hspells hpos hle =>
    cases h' with
    | empty => exact absurd rfl hspells.ne_nil
    | zero hspells' =>
      have hzero := (hspells.unique hspells').1
      omega
    | duration hspells' =>
      obtain ⟨rfl, rfl⟩ := hspells.unique hspells'
      rfl
    | malformed _ hlarge => exact absurd (hlarge _ _ hspells) (Nat.not_lt_of_le hle)
  | malformed hne hlarge =>
    cases h' with
    | empty => exact absurd rfl hne
    | zero hspells => exact absurd (hlarge _ _ hspells) (Nat.not_lt_zero _)
    | duration hspells _ hle => exact absurd (hlarge _ _ hspells) (Nat.not_lt_of_le hle)
    | malformed => rfl

/-! ## The wording of refusals -/

/-- What comes of reading a pause, as the program reports it. -/
def report (result : Except DurationError Duration) : Except Failure Duration :=
  result.mapError fun e => (EmitError.interval e).failure

@[simp] theorem report_ok (d : Duration) : report (.ok d) = .ok d := rfl

@[simp] theorem report_error (e : DurationError) :
    report (.error e) = .error ⟨.usage, e.message⟩ := rfl

theorem head?_toList_append {s : String} {c : Char} (h : s.toList.head? = some c) (t : String) :
    (s ++ t).toList.head? = some c := by
  rw [String.toList_append, List.head?_append, h, Option.some_or]

/-- The letter with which a refusal begins. -/
def initial : DurationError → Char
  | .empty | .zero => 'd'
  | .malformed _ => 'i'
  | .unsupported _ => 'u'

theorem head?_message (e : DurationError) : e.message.toList.head? = some (initial e) := by
  cases e with
  | empty => decide
  | zero => decide
  | malformed text =>
    have hhead : "invalid duration value: ".toList.head? = some 'i' := by decide
    exact head?_toList_append hhead text
  | unsupported unit =>
    have hhead : "unsupported duration unit: ".toList.head? = some 'u' := by decide
    exact head?_toList_append hhead unit

/-- **No two refusals are worded alike.** -/
theorem message_inj {e e' : DurationError} (h : e.message = e'.message) : e = e' := by
  have hinitial : initial e = initial e' := by
    have hhead := congrArg (fun s : String => s.toList.head?) h
    simp only [head?_message, Option.some.injEq] at hhead
    exact hhead
  match e, e' with
  | .empty, .empty | .zero, .zero => rfl
  | .empty, .zero | .zero, .empty => exact absurd h (by decide)
  | .malformed _, .malformed _ => rw [(String.append_right_inj _).mp h]
  | .unsupported _, .unsupported _ => rw [(String.append_right_inj _).mp h]
  -- the others begin with different letters
  | .empty, .malformed _ | .empty, .unsupported _ | .zero, .malformed _ | .zero, .unsupported _
  | .malformed _, .empty | .malformed _, .zero | .malformed _, .unsupported _
  | .unsupported _, .empty | .unsupported _, .zero | .unsupported _, .malformed _ =>
    simp [initial] at hinitial

/-- So the report tells what the refusal was. -/
theorem report_eq_error_iff {result : Except DurationError Duration} {e : DurationError} :
    report result = .error ⟨.usage, e.message⟩ ↔ result = .error e := by
  cases result with
  | ok d => simp
  | error e' =>
    simp only [report_error, Except.error.injEq, Failure.mk.injEq, true_and]
    exact ⟨message_inj, fun h => congrArg _ h⟩

theorem report_eq_ok_iff {result : Except DurationError Duration} {d : Duration} :
    report result = .ok d ↔ result = .ok d := by
  cases result with
  | ok d' => simp
  | error e => simp

/-! ## The whole law -/

/-- What is reported of the text `t`, which has no blanks around it. -/
structure ReportLaw (t : List Char) (reported : Except Failure Duration) : Prop where
  /-- The durations are the numbers above zero that 64 bits can hold, with a unit behind them. -/
  ok_iff : ∀ d, reported = .ok d ↔ ∃ v, 1 ≤ v ∧ v ≤ 0xFFFF_FFFF_FFFF_FFFF ∧
    (Spells t v .milliseconds ∧ d = ⟨v / 1000, v % 1000 * 1_000_000⟩ ∨
      Spells t v .seconds ∧ d = ⟨v, 0⟩)
  /-- Every other text is refused, and the report says what is wrong with it. -/
  empty_iff : reported = .error ⟨.usage, "duration must not be empty"⟩ ↔ t = []
  zero_iff : reported = .error ⟨.usage, "duration must be greater than zero"⟩ ↔
    ∃ scale, Spells t 0 scale
  malformed_iff : reported = .error ⟨.usage, "invalid duration value: " ++ String.ofList t⟩ ↔
    t ≠ [] ∧ ∀ v scale, Spells t v scale → 0xFFFF_FFFF_FFFF_FFFF < v
  /-- There is no other report. -/
  error_cases : ∀ failure, reported = .error failure →
    failure = ⟨.usage, "duration must not be empty"⟩ ∨
      failure = ⟨.usage, "duration must be greater than zero"⟩ ∨
      failure = ⟨.usage, "invalid duration value: " ++ String.ofList t⟩
  /-- In particular a unit is never found to be unknown. -/
  ne_unsupported : ∀ unit, reported ≠ .error ⟨.usage, "unsupported duration unit: " ++ unit⟩

/-- **What a text comes to is reported as the law says.** -/
theorem Reads.law {t : List Char} {result : Except DurationError Duration} (h : Reads t result) :
    ReportLaw t (report result) where
  ok_iff d := by
    rw [report_eq_ok_iff]
    constructor
    · rintro rfl
      cases h with
      | @duration _ v scale hspells hpos hle =>
        refine ⟨v, hpos, hle, ?_⟩
        cases scale with
        | milliseconds => exact Or.inl ⟨hspells, rfl⟩
        | seconds => exact Or.inr ⟨hspells, rfl⟩
    · rintro ⟨v, hpos, hle, ⟨hspells, rfl⟩ | ⟨hspells, rfl⟩⟩
      · exact h.unique (.duration hspells hpos hle)
      · exact h.unique (.duration hspells hpos hle)
  empty_iff := by
    refine (report_eq_error_iff (e := .empty)).trans ⟨?_, ?_⟩
    · rintro rfl
      cases h
      rfl
    · rintro rfl
      exact h.unique .empty
  zero_iff := by
    refine (report_eq_error_iff (e := .zero)).trans ⟨?_, ?_⟩
    · rintro rfl
      cases h with
      | zero hspells => exact ⟨_, hspells⟩
    · rintro ⟨scale, hspells⟩
      exact h.unique (.zero hspells)
  malformed_iff := by
    refine (report_eq_error_iff (e := .malformed (String.ofList t))).trans ⟨?_, ?_⟩
    · rintro rfl
      cases h with
      | malformed hne hlarge => exact ⟨hne, hlarge⟩
    · rintro ⟨hne, hlarge⟩
      exact h.unique (.malformed hne hlarge)
  error_cases failure hfailure := by
    cases h with
    | empty =>
      cases hfailure
      exact Or.inl rfl
    | zero =>
      cases hfailure
      exact Or.inr (Or.inl rfl)
    | duration => cases hfailure
    | malformed =>
      cases hfailure
      exact Or.inr (Or.inr rfl)
  ne_unsupported unit hunit := by
    have hresult := (report_eq_error_iff (e := .unsupported unit)).mp hunit
    rw [hresult] at h
    cases h

/-- **Which texts are durations, and which durations they are.** Blanks around a text do not count.
What is between them is a duration when it is a number above zero that 64 bits can hold, with a unit
of milliseconds or seconds behind it or none; and every other text is refused as a misuse, for
being empty, for being zero, or for not being written so. -/
theorem parse_law (s : String) :
    ∃ t, (∀ other, Trimmed s.toList other ↔ other = t) ∧ ReportLaw t (report (parse s)) :=
  ⟨trimBlanks s.toList, fun _ => trimmed_iff, (reads_ofTrimmed _).law⟩

/-- A sign, zeros in front of the number and blanks around the text change nothing. -/
example : parse "\u3000 +0001500ms\n" = .ok ⟨1, 500_000_000⟩ := by rfl

end Duration

end FrameFeed
