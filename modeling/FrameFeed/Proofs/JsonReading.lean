import FrameFeed.Report.JsonReader
/-!
# What is written as JSON reads back

Reading undoes writing, for every value. The proof follows the value: a part is read back in front
of whatever comes behind it, as long as that does not go on with its last number, and every part
takes no more steps than it has characters.

Main statement: `read?_render`.
-/

namespace FrameFeed

namespace Json

/-! ## Gaps -/

theorem skip_cons {c : Char} (h : isGap c = false) (cs : List Char) : skip (c :: cs) = c :: cs :=
  List.dropWhile_cons_of_neg (by simp [h])

theorem expect?_self {c : Char} (h : isGap c = false) (cs : List Char) :
    expect? c (c :: cs) = some cs := by
  rw [expect?, skip_cons h]
  exact if_pos rfl

/-! ## Strings -/

theorem ofHex?_digitChar {n : Nat} (h : n < 0x20) :
    ofHex? ['0', '0', Nat.digitChar (n / 16), Nat.digitChar (n % 16)] = some (Char.ofNat n) := by
  have hall : ∀ n < 0x20, ofHex? ['0', '0', Nat.digitChar (n / 16), Nat.digitChar (n % 16)] =
      some (Char.ofNat n) := by decide
  exact hall n h

/-- **A character reads back**, escaped or not. -/
theorem string?_escape (c : Char) (rest : List Char) :
    string? (escape c ++ rest) = withFront (some c) (string? rest) := by
  unfold escape
  split
  case h_8 hquote hbackslash _ _ _ _ _ =>
    split
    next hcontrol =>
      have hhex := ofHex?_digitChar hcontrol
      rw [Char.ofNat_toNat] at hhex
      show withFront (ofHex? _) (string? rest) = _
      rw [hhex]
    next hplain =>
      rw [List.cons_append, List.nil_append, string?.eq_def]
      split
      next heq => cases heq
      next heq => exact absurd (List.cons.inj heq).1 hquote
      next heq => exact absurd (List.cons.inj heq).1 hbackslash
      next heq => exact absurd (List.cons.inj heq).1 hbackslash
      next d _ _ _ _ heq =>
        cases heq
        rw [if_neg (not_or.mpr ⟨hbackslash, hplain⟩)]
  all_goals rfl

/-- **A string reads back** up to its closing quote. -/
theorem string?_quoted (cs rest : List Char) :
    string? (cs.flatMap escape ++ '"' :: rest) = some (cs, rest) := by
  induction cs with
  | nil => rfl
  | cons c cs ih =>
    rw [List.flatMap_cons, List.append_assoc, string?_escape, ih]
    rfl

/-! ## Numbers -/

/-- Digits of a number that is not zero do not begin with a zero. -/
theorem head?_toDigits_ne {n : Nat} (h : 0 < n) : (Nat.toDigits 10 n).head? ≠ some '0' := by
  induction n using Nat.strongRecOn with
  | ind n ih =>
    rcases Nat.lt_or_ge n 10 with hlt | hge
    · rw [Nat.toDigits_of_lt_base hlt]
      have hall : ∀ n < 10, 0 < n → [Nat.digitChar n].head? ≠ some '0' := by decide
      exact hall n hlt h
    · have hfront := ih (n / 10) (by omega) (by omega)
      rw [Nat.toDigits_of_base_le (by decide) hge, List.head?_append]
      cases hhead : (Nat.toDigits 10 (n / 10)).head? with
      | none => exact absurd (List.head?_eq_none_iff.mp hhead) Nat.toDigits_ne_nil
      | some c => rwa [hhead] at hfront

theorem natural?_toDigits (n : Nat) : natural? (Nat.toDigits 10 n) = some n := by
  have hzero : ¬((Nat.toDigits 10 n).head? = some '0' ∧ Nat.toDigits 10 n ≠ ['0']) := by
    rintro ⟨hhead, hne⟩
    rcases Nat.eq_zero_or_pos n with rfl | hpos
    · exact hne (Nat.toDigits_zero 10)
    · exact head?_toDigits_ne hpos hhead
  rw [natural?, if_neg hzero, Decimal.digits?_toDigits]

/-- The text does not go on with a number in front of it. -/
def EndsNumber (cs : List Char) : Prop := ∀ c, cs.head? = some c → c.isDigit = false

theorem endsNumber_cons {c : Char} (h : c.isDigit = false) (cs : List Char) :
    EndsNumber (c :: cs) := by
  intro d hd
  rwa [← Option.some.inj hd]

theorem takeWhile_toDigits (n : Nat) {rest : List Char} (h : EndsNumber rest) :
    (Nat.toDigits 10 n ++ rest).takeWhile Char.isDigit = Nat.toDigits 10 n ∧
      (Nat.toDigits 10 n ++ rest).dropWhile Char.isDigit = rest := by
  have hdigits := List.all_eq_true.mp (Decimal.all_isDigit_toDigits n)
  rw [List.takeWhile_append_of_pos hdigits, List.dropWhile_append_of_pos hdigits]
  cases rest with
  | nil => simp
  | cons c rest => simp [h c rfl]

theorem number?_digits (n : Nat) {rest : List Char} (h : EndsNumber rest) :
    number? (Nat.toDigits 10 n ++ rest) = some ((n : Int), rest) := by
  obtain ⟨htake, hdrop⟩ := takeWhile_toDigits n h
  unfold number?
  split
  next cs heq =>
    -- a minus sign is no digit
    obtain ⟨c, ds, hdigits, hc⟩ := Decimal.exists_toDigits_eq_cons n
    rw [hdigits] at heq
    exact absurd hc (by rw [(List.cons.inj heq).1]; decide)
  next =>
    rw [htake, hdrop, natural?_toDigits]

/-- **A number reads back** in front of what does not go on with it. -/
theorem number?_toString (n : Int) {rest : List Char} (h : EndsNumber rest) :
    number? ((toString n).toList ++ rest) = some (n, rest) := by
  rw [Decimal.toList_toString_int]
  split
  next hnonneg =>
    rw [number?_digits _ h, Int.toNat_of_nonneg hnonneg]
  next hneg =>
    obtain ⟨htake, hdrop⟩ := takeWhile_toDigits (-n).toNat h
    rw [List.cons_append]
    simp only [number?, htake, hdrop, natural?_toDigits]
    rw [Int.toNat_of_nonneg (by omega), Int.neg_neg]

/-! ## Brackets -/

theorem length_le_length_intercalate (sep : List Char) {l : List Char} {ls : List (List Char)}
    (h : l ∈ ls) : l.length ≤ (sep.intercalate ls).length := by
  induction ls with
  | nil => cases h
  | cons first ls ih =>
    cases ls with
    | nil =>
      exact Nat.le_of_eq (by rw [List.mem_singleton.mp h, List.intercalate_singleton])
    | cons second ls =>
      rw [List.intercalate_cons_cons, List.length_append, List.length_append]
      rcases List.mem_cons.mp h with rfl | h
      · omega
      · have hle := ih h
        omega

theorem length_le_succ_length_intercalate (c : Char) (ls : List (List Char)) :
    ls.length ≤ ([c].intercalate ls).length + 1 := by
  induction ls with
  | nil => exact Nat.zero_le _
  | cons first ls ih =>
    cases ls with
    | nil => exact Nat.le_add_left _ _
    | cons second ls =>
      rw [List.intercalate_cons_cons, List.length_append, List.length_append, List.length_cons,
        List.length_singleton]
      omega

section

variable {α : Type} {close : Char} {item? : List Char → Option (α × List Char)}
variable {text : α → List Char} {xs : List α} {steps : Nat}

/-- **Items read back** when each of them does, in front of a comma or a bracket. -/
theorem items?_intercalate (hgap : isGap close = false) (hcomma : close ≠ ',')
    (hitem : ∀ x ∈ xs, ∀ c rest, c = ',' ∨ c = close →
      item? (text x ++ c :: rest) = some (x, c :: rest))
    (hne : xs ≠ []) (hsteps : xs.length ≤ steps) (rest : List Char) :
    items? close item? steps ([','].intercalate (xs.map text) ++ close :: rest) =
      some (xs, rest) := by
  induction xs generalizing steps with
  | nil => exact absurd rfl hne
  | cons x xs ih =>
    cases steps with
    | zero => exact absurd hsteps (Nat.not_succ_le_zero _)
    | succ steps =>
      cases xs with
      | nil =>
        rw [List.map_singleton, List.intercalate_singleton, items?,
          hitem x List.mem_cons_self close rest (Or.inr rfl)]
        simp only [skip_cons hgap, if_neg hcomma, if_true]
      | cons y ys =>
        have hrest := ih (fun z hz => hitem z (List.mem_cons_of_mem _ hz)) (List.cons_ne_nil y ys)
          (Nat.le_of_succ_le_succ hsteps)
        have hskip : skip (',' :: ([','].intercalate ((y :: ys).map text) ++ close :: rest)) =
            ',' :: ([','].intercalate ((y :: ys).map text) ++ close :: rest) := skip_cons rfl _
        rw [List.map_cons, List.intercalate_cons_of_ne_nil (by simp), List.append_assoc,
          List.append_assoc, List.singleton_append, items?,
          hitem x List.mem_cons_self ',' _ (Or.inl rfl)]
        simp only [hskip, if_true, hrest, Option.map_some]

/-- **What stands between brackets reads back** when its items do. There are steps enough for every
item where there are more of them than characters between the brackets. -/
theorem bracketed?_intercalate (hgap : isGap close = false) (hcomma : close ≠ ',')
    (hclose : ∀ rest, item? (close :: rest) = none)
    (hitem : ∀ x ∈ xs, (text x).length ≤ steps → ∀ c rest, c = ',' ∨ c = close →
      item? (text x ++ c :: rest) = some (x, c :: rest))
    (hsteps : ([','].intercalate (xs.map text)).length < steps) (rest : List Char) :
    bracketed? close item? steps ([','].intercalate (xs.map text) ++ close :: rest) =
      some (xs, rest) := by
  by_cases hne : xs = []
  · subst hne
    have hnone : items? close item? steps (close :: rest) = none := by
      cases steps with
      | zero => rfl
      | succ steps => rw [items?, hclose]
    rw [List.map_nil, List.intercalate_nil, List.nil_append, bracketed?, hnone,
      expect?_self hgap]
    rfl
  · have hcount := length_le_succ_length_intercalate ',' (xs.map text)
    rw [List.length_map] at hcount
    have hreads : ∀ x ∈ xs, ∀ c rest, c = ',' ∨ c = close →
        item? (text x ++ c :: rest) = some (x, c :: rest) := by
      intro x hx
      have hlen := length_le_length_intercalate [','] (List.mem_map_of_mem (f := text) hx)
      exact hitem x hx (by omega)
    rw [bracketed?, items?_intercalate hgap hcomma hreads hne (by omega)]

end

/-! ## Values -/

/-- Induction over values: an array has a property when its items have it, and an object when the
values of its members have it. -/
theorem induction {motive : Json → Prop} (num : ∀ n, motive (num n)) (str : ∀ s, motive (str s))
    (arr : ∀ items, (∀ item ∈ items, motive item) → motive (arr items))
    (obj : ∀ members, (∀ member ∈ members, motive member.2) → motive (obj members)) :
    ∀ value, motive value
  | .num n => num n
  | .str s => str s
  | .arr items => arr items fun item _ => induction num str arr obj item
  | .obj members => obj members fun member _ => induction num str arr obj member.2
termination_by value => sizeOf value
decreasing_by
  · have hlt := List.sizeOf_lt_of_mem ‹_›
    rw [Json.arr.sizeOf_spec]
    omega
  · have hlt := List.sizeOf_lt_of_mem ‹_›
    have hmember : sizeOf member = 1 + sizeOf member.1 + sizeOf member.2 := by cases member; rfl
    rw [Json.obj.sizeOf_spec]
    omega

theorem renderItems_eq (items : List Json) : renderItems items = items.map render := by
  induction items with
  | nil => rfl
  | cons item items ih => rw [renderItems, ih, List.map_cons]

/-- A member as text. -/
def memberText (member : String × Json) : String := quote member.1 ++ ":" ++ member.2.render

theorem renderMembers_eq (members : List (String × Json)) :
    renderMembers members = members.map memberText := by
  induction members with
  | nil => rfl
  | cons member members ih => rw [renderMembers, ih, List.map_cons, memberText]

theorem toList_quote (s : String) :
    (quote s).toList = '"' :: (s.toList.flatMap escape ++ ['"']) := by
  simp [quote]

theorem toList_render_arr (items : List Json) :
    (arr items).render.toList =
      '[' :: ([','].intercalate (items.map (·.render.toList)) ++ [']']) := by
  simp [render, renderItems_eq, Function.comp_def]

theorem toList_render_obj (members : List (String × Json)) :
    (obj members).render.toList =
      '\x7b' :: ([','].intercalate (members.map (memberText · |>.toList)) ++ ['\x7d']) := by
  simp [render, renderMembers_eq, Function.comp_def]

/-! ## Reading back -/

/-- What begins like a number is read as one. -/
theorem value?_of_head {c : Char} (h : c = '-' ∨ c.isDigit = true) (steps : Nat)
    (cs : List Char) :
    value? (steps + 1) (c :: cs) = (number? (c :: cs)).map fun (n, rest) => (.num n, rest) := by
  have hne : ∀ d, d ≠ '-' → d.isDigit = false → c ≠ d := by
    rintro d hminus hdigit rfl
    rcases h with rfl | h
    · exact hminus rfl
    · rw [hdigit] at h
      cases h
  have hgap : isGap c = false := by
    simp [isGap, hne ' ' (by decide) (by decide), hne '\t' (by decide) (by decide),
      hne '\n' (by decide) (by decide), hne '\r' (by decide) (by decide)]
  rw [value?, skip_cons hgap]
  split
  next heq => exact absurd (List.cons.inj heq).1 (hne '"' (by decide) (by decide))
  next heq => exact absurd (List.cons.inj heq).1 (hne '[' (by decide) (by decide))
  next heq => exact absurd (List.cons.inj heq).1 (hne '\x7b' (by decide) (by decide))
  next => rfl

/-- A number begins like one. -/
theorem exists_head_toString (n : Int) :
    ∃ c cs, (toString n).toList = c :: cs ∧ (c = '-' ∨ c.isDigit = true) := by
  rw [Decimal.toList_toString_int]
  split
  next =>
    obtain ⟨c, cs, hdigits, hc⟩ := Decimal.exists_toDigits_eq_cons n.toNat
    exact ⟨c, cs, hdigits, Or.inr hc⟩
  next => exact ⟨'-', _, rfl, Or.inl rfl⟩

/-- **A member reads back** when its value does. -/
theorem member?_memberText {value? : List Char → Option (Json × List Char)}
    {member : String × Json} {rest : List Char}
    (h : value? (member.2.render.toList ++ rest) = some (member.2, rest)) :
    member? value? ((memberText member).toList ++ rest) = some (member, rest) := by
  have htext : (memberText member).toList ++ rest =
      '"' :: (member.1.toList.flatMap escape ++
        '"' :: ':' :: (member.2.render.toList ++ rest)) := by
    simp [memberText, toList_quote]
  rw [htext, member?, expect?_self (by rfl)]
  simp [string?_quoted, expect?_self (show isGap ':' = false from rfl), h]

/-- **A value reads back** in front of what does not go on with a number, with as many steps as it
has characters. -/
theorem value?_render (value : Json) {steps : Nat} {rest : List Char}
    (hsteps : value.render.toList.length ≤ steps) (hrest : EndsNumber rest) :
    value? steps (value.render.toList ++ rest) = some (value, rest) := by
  induction value using induction generalizing steps rest with
  | num n =>
    obtain ⟨c, cs, htext, hhead⟩ := exists_head_toString n
    have hnumber := number?_toString n hrest
    rw [render, htext] at hsteps ⊢
    rw [htext] at hnumber
    obtain ⟨steps, rfl⟩ := Nat.exists_eq_add_of_le' (Nat.le_trans (by simp) hsteps : 1 ≤ steps)
    rw [List.cons_append, value?_of_head hhead, ← List.cons_append, hnumber]
    rfl
  | str s =>
    rw [render, toList_quote] at hsteps ⊢
    obtain ⟨steps, rfl⟩ := Nat.exists_eq_add_of_le' (Nat.le_trans (by simp) hsteps : 1 ≤ steps)
    rw [List.cons_append, List.append_assoc, List.singleton_append, value?, skip_cons (by rfl)]
    simp only [string?_quoted, Option.map_some, String.ofList_toList]
  | arr items ih =>
    rw [toList_render_arr] at hsteps ⊢
    obtain ⟨steps, rfl⟩ := Nat.exists_eq_add_of_le' (Nat.le_trans (by simp) hsteps : 1 ≤ steps)
    simp only [List.length_cons, List.length_append, List.length_nil] at hsteps
    have hitem : ∀ item ∈ items, item.render.toList.length ≤ steps → ∀ c rest, c = ',' ∨ c = ']' →
        value? steps (item.render.toList ++ c :: rest) = some (item, c :: rest) := by
      intro item hmem hlen c rest hc
      refine ih item hmem hlen (endsNumber_cons ?_ rest)
      rcases hc with rfl | rfl <;> rfl
    have hnone : ∀ rest, value? steps (']' :: rest) = none := by
      intro rest
      cases steps <;> rfl
    have hread := bracketed?_intercalate (by rfl) (by decide) hnone hitem (by omega) rest
    rw [List.cons_append, List.append_assoc, List.singleton_append, value?, skip_cons (by rfl)]
    simp only [hread, Option.map_some]
  | obj members ih =>
    rw [toList_render_obj] at hsteps ⊢
    obtain ⟨steps, rfl⟩ := Nat.exists_eq_add_of_le' (Nat.le_trans (by simp) hsteps : 1 ≤ steps)
    simp only [List.length_cons, List.length_append, List.length_nil] at hsteps
    have hmember : ∀ member ∈ members, (memberText member).toList.length ≤ steps →
        ∀ c rest, c = ',' ∨ c = '\x7d' →
          member? (value? steps) ((memberText member).toList ++ c :: rest) =
            some (member, c :: rest) := by
      intro member hmem hlen c rest hc
      have hvalue : member.2.render.toList.length ≤ (memberText member).toList.length := by
        simp [memberText]
        omega
      refine member?_memberText (ih member hmem (by omega) (endsNumber_cons ?_ rest))
      rcases hc with rfl | rfl <;> rfl
    have hnone : ∀ rest, member? (value? steps) ('\x7d' :: rest) = none := fun _ => rfl
    have hread := bracketed?_intercalate (by rfl) (by decide) hnone hmember (by omega) rest
    rw [List.cons_append, List.append_assoc, List.singleton_append, value?, skip_cons (by rfl)]
    simp only [hread, Option.map_some]

/-- **Reading undoes writing.** -/
theorem read?_render (value : Json) : read? value.render = some value := by
  have hread : value? value.render.length (value.render.toList ++ []) = some (value, []) :=
    value?_render value (Nat.le_of_eq String.length_toList) fun _ h => by cases h
  rw [List.append_nil] at hread
  rw [read?, hread]
  rfl

/-- Blanks between the parts do not count, and an escape is the character it stands for. -/
example : read? "\x7b \"a\\u0062\" : [ -1, \x7b\x7d ]\n\x7d" =
    some (.obj [("ab", .arr [.num (-1), .obj []])]) := by rfl

end Json

end FrameFeed
