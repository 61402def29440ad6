import FrameFeed.Proofs.Durations
import FrameFeed.Report.Reader
import Mathlib.Data.List.Forall2
/-!
# Tables keep their cells

A table's columns are as wide as their longest cells, so that no cell is ever wider than its column
and all lines come out alike. Between the bars of a row stand its cells, with nothing around them
but blanks.

Main statements: `length_of_mem_lines`, how wide the lines are, and `filterMap_row?_lines`, the rows
that are read back from them.
-/

namespace FrameFeed

open Report

/-! ## Cells -/

/-- A text that can be told from the blanks and bars around it. -/
structure IsCell (s : String) : Prop where
  not_bar : '┆' ∉ s.toList
  not_blank_head : ∀ c, s.toList.head? = some c → isBlank c = false
  not_blank_last : ∀ c, s.toList.getLast? = some c → isBlank c = false

/-- **A cell is found again between blanks.** -/
theorem IsCell.trim_eq {s : String} (h : IsCell s) {front back : List Char}
    (hfront : ∀ c ∈ front, isBlank c = true) (hback : ∀ c ∈ back, isBlank c = true) :
    trim (front ++ s.toList ++ back) = s := by
  have htrimmed : Trimmed (front ++ s.toList ++ back) s.toList :=
    ⟨⟨front, back, rfl, hfront, hback⟩, h.not_blank_head, h.not_blank_last⟩
  rw [trim, ← trimmed_iff.mp htrimmed, String.ofList_toList]

namespace Table

/-! ## Widths -/

/-- The columns are wide enough for the cells. -/
def Fits (ws : List Nat) (cells : List String) : Prop :=
  List.Forall₂ (fun w cell => cell.length ≤ w) ws cells

/-- Columns made as wide as the cells of a row are. -/
def widen (ws : List Nat) (row : List String) : List Nat :=
  List.zipWith (fun w cell => max w cell.length) ws row

theorem widths_eq (header : List String) (rows : List (List String)) :
    widths header rows = rows.foldl widen (header.map String.length) := rfl

/-- A row fits in columns made as wide as its cells, -/
theorem fits_widen_self {ws : List Nat} {row : List String} (h : row.length = ws.length) :
    Fits (widen ws row) row := by
  induction ws generalizing row with
  | nil =>
    obtain rfl := List.length_eq_zero_iff.mp h
    exact .nil
  | cons w ws ih =>
    cases row with
    | nil => cases h
    | cons cell row => exact .cons (Nat.le_max_right _ _) (ih (Nat.succ.inj h))

/-- and so does what fitted before. -/
theorem Fits.widen {ws : List Nat} {cells row : List String} (h : Fits ws cells)
    (hrow : row.length = ws.length) : Fits (widen ws row) cells := by
  induction h generalizing row with
  | nil =>
    obtain rfl := List.length_eq_zero_iff.mp hrow
    exact .nil
  | cons hle _ ih =>
    cases row with
    | nil => cases hrow
    | cons cell row => exact .cons (Nat.le_trans hle (Nat.le_max_left _ _)) (ih (Nat.succ.inj hrow))

theorem length_widen {ws : List Nat} {row : List String} (h : row.length = ws.length) :
    (widen ws row).length = ws.length := by
  rw [widen, List.length_zipWith, h, Nat.min_self]

theorem fits_foldl_widen {rows : List (List String)} {ws : List Nat}
    (hrows : ∀ row ∈ rows, row.length = ws.length) :
    (∀ cells, Fits ws cells → Fits (rows.foldl widen ws) cells) ∧
      ∀ row ∈ rows, Fits (rows.foldl widen ws) row := by
  induction rows generalizing ws with
  | nil => exact ⟨fun _ h => h, fun _ h => nomatch h⟩
  | cons row rows ih =>
    have hrow := hrows row List.mem_cons_self
    obtain ⟨hkept, hfits⟩ := @ih (widen ws row) fun other hother => by
      rw [length_widen hrow]
      exact hrows other (List.mem_cons_of_mem _ hother)
    refine ⟨fun cells h => hkept cells (h.widen hrow), fun other hother => ?_⟩
    rcases List.mem_cons.mp hother with rfl | hother
    · exact hkept _ (fits_widen_self hrow)
    · exact hfits other hother

/-- **No cell is wider than its column.** -/
theorem fits_widths {header : List String} {rows : List (List String)}
    (hrows : ∀ row ∈ rows, row.length = header.length) :
    ∀ row ∈ header :: rows, Fits (widths header rows) row := by
  rw [widths_eq]
  have hlength : ∀ row ∈ rows, row.length = (header.map String.length).length := by
    simpa using hrows
  obtain ⟨hkept, hfits⟩ := fits_foldl_widen hlength
  have hheader : Fits (header.map String.length) header :=
    List.forall₂_map_left_iff.mpr (List.forall₂_same.mpr fun _ _ => Nat.le_refl _)
  intro row hrow
  rcases List.mem_cons.mp hrow with rfl | hrow
  · exact hkept _ hheader
  · exact hfits row hrow

/-! ## Lines -/

theorem length_intercalate (sep : String) (texts : List String) (h : texts ≠ []) :
    (sep.intercalate texts).length + sep.length =
      (texts.map String.length).foldr (fun n rest => n + sep.length + rest) 0 := by
  induction texts with
  | nil => exact absurd rfl h
  | cons text texts ih =>
    cases texts with
    | nil => simp
    | cons next texts =>
      have hrest := ih (List.cons_ne_nil next texts)
      rw [String.intercalate_cons_cons, String.length_append, String.length_append, List.map_cons,
        List.foldr_cons, ← hrest]
      omega

/-- How wide a table is: a bar, and for each column its cells, a blank on either side and a bar. -/
def width (ws : List Nat) : Nat := ws.foldr (fun w rest => w + 3 + rest) 0 + 1

/-- **Every rule is as wide as the table.** -/
theorem length_rule {left cross right : String} (hleft : left.length = 1)
    (hcross : cross.length = 1) (hright : right.length = 1) (fill : Char) {ws : List Nat}
    (hne : ws ≠ []) : (rule left fill cross right ws).length = width ws := by
  have hlen := length_intercalate cross
    (ws.map fun w => String.ofList (List.replicate (w + 2) fill)) (by simpa using hne)
  have hlengths : (ws.map fun w => String.ofList (List.replicate (w + 2) fill)).map
      String.length = ws.map (· + 2) := by
    simp
  rw [hlengths, hcross, List.foldr_map] at hlen
  change _ = ws.foldr (fun w rest => w + 3 + rest) 0 at hlen
  rw [rule, String.length_append, String.length_append, hleft, hright, width]
  omega

/-- Cells that fit fill their columns. -/
theorem Fits.map_length {ws : List Nat} {cells : List String} (h : Fits ws cells) :
    (List.zipWith padRight ws cells).map String.length = ws := by
  induction h with
  | nil => rfl
  | cons hle _ ih =>
    rw [List.zipWith_cons_cons, List.map_cons, ih, length_padRight, Nat.max_eq_left hle]

/-- **Every row is as wide as the table.** -/
theorem length_line {ws : List Nat} {cells : List String} (h : Fits ws cells) (hne : ws ≠ []) :
    (line ws cells).length = width ws := by
  have hcells : List.zipWith padRight ws cells ≠ [] := by
    intro hnil
    have hlen := h.map_length
    rw [hnil] at hlen
    exact hne hlen.symm
  have hlen := length_intercalate " ┆ " _ hcells
  have hbar : "│ ".length = 2 ∧ " │".length = 2 ∧ " ┆ ".length = 3 := by decide
  rw [h.map_length, hbar.2.2] at hlen
  rw [line, String.length_append, String.length_append, hbar.1, hbar.2.1, width]
  omega

theorem mem_intersperse {α : Type} {sep x : α} {xs : List α} (h : x ∈ xs.intersperse sep) :
    x = sep ∨ x ∈ xs := by
  induction xs with
  | nil => cases h
  | cons y xs ih =>
    cases xs with
    | nil => exact Or.inr h
    | cons z zs =>
      rw [List.intersperse_cons_cons] at h
      rcases List.mem_cons.mp h with rfl | h
      · exact Or.inr List.mem_cons_self
      · rcases List.mem_cons.mp h with rfl | h
        · exact Or.inl rfl
        · exact (ih h).imp_right (List.mem_cons_of_mem _)

/-- The strokes of the four rules: the left end, what fills the columns, the crossings and the right
end. -/
def strokes : List (String × Char × String × String) :=
  [("┌", '─', "┬", "┐"), ("╞", '═', "╪", "╡"), ("├", '╌', "┼", "┤"), ("└", '─', "┴", "┘")]

/-- A line of a table is a row or a rule. -/
theorem mem_lines {header : List String} {rows : List (List String)} {text : String}
    (h : text ∈ lines header rows) :
    (∃ row ∈ header :: rows, text = line (widths header rows) row) ∨
      ∃ left fill cross right, (left, fill, cross, right) ∈ strokes ∧
        text = rule left fill cross right (widths header rows) := by
  rw [lines, List.mem_append, List.mem_cons, List.mem_cons, List.mem_cons, List.mem_singleton] at h
  rcases h with (rfl | rfl | rfl | h) | rfl
  · exact Or.inr ⟨_, _, _, _, by decide, rfl⟩
  · exact Or.inl ⟨header, List.mem_cons_self, rfl⟩
  · exact Or.inr ⟨_, _, _, _, by decide, rfl⟩
  · rcases mem_intersperse h with rfl | h
    · exact Or.inr ⟨_, _, _, _, by decide, rfl⟩
    · obtain ⟨row, hrow, rfl⟩ := List.mem_map.mp h
      exact Or.inl ⟨row, List.mem_cons_of_mem _ hrow, rfl⟩
  · exact Or.inr ⟨_, _, _, _, by decide, rfl⟩

/-- **All lines of a table are equally wide.** -/
theorem length_of_mem_lines {header : List String} {rows : List (List String)}
    (hne : header ≠ []) (hrows : ∀ row ∈ rows, row.length = header.length) {text : String}
    (h : text ∈ lines header rows) : text.length = width (widths header rows) := by
  have hfits := fits_widths hrows
  have hwidths : widths header rows ≠ [] := by
    intro hnil
    have hlen := (hfits header List.mem_cons_self).length_eq
    rw [hnil] at hlen
    exact hne (List.length_eq_zero_iff.mp hlen.symm)
  rcases mem_lines h with ⟨row, hrow, rfl⟩ | ⟨left, fill, cross, right, hstrokes, rfl⟩
  · exact length_line (hfits row hrow) hwidths
  · have hone : ∀ s ∈ strokes, s.1.length = 1 ∧ s.2.2.1.length = 1 ∧ s.2.2.2.length = 1 := by
      decide
    obtain ⟨hleft, hcross, hright⟩ := hone _ hstrokes
    exact length_rule hleft hcross hright fill hwidths

/-! ## Reading rows back -/

theorem row?_eq_none {text : String} (h : text.toList.head? ≠ some '│') : row? text = none := by
  unfold row?
  split
  next heq => exact absurd (by rw [heq]; rfl) h
  next => rfl

/-- A rule does not begin with the bar of a row. -/
theorem row?_rule {left cross right : String} {fill : Char}
    (h : (left, fill, cross, right) ∈ strokes) (ws : List Nat) :
    row? (rule left fill cross right ws) = none := by
  have hends : ∀ s ∈ strokes, s.1.toList.head? ≠ none ∧ s.1.toList.head? ≠ some '│' := by decide
  obtain ⟨hsome, hbar⟩ := hends _ h
  refine row?_eq_none ?_
  rw [rule, String.append_assoc, String.toList_append, List.head?_append]
  cases hhead : left.toList.head? with
  | none => exact absurd hhead hsome
  | some c =>
    rw [Option.some_or, ← hhead]
    exact hbar

/-- Blanks beside the bars may as well stand beside the cells. -/
theorem intercalate_bars {cells : List (List Char)} (h : cells ≠ []) :
    [' '] ++ [' ', '┆', ' '].intercalate cells ++ [' '] =
      ['┆'].intercalate (cells.map fun cell => [' '] ++ cell ++ [' ']) := by
  induction cells with
  | nil => exact absurd rfl h
  | cons cell cells ih =>
    cases cells with
    | nil => simp
    | cons next cells =>
      have hrest := ih (List.cons_ne_nil next cells)
      rw [List.map_cons] at hrest ⊢
      rw [List.map_cons, List.intercalate_cons_cons, List.intercalate_cons_cons, ← hrest]
      simp

/-- The cells of a row with the blanks around them, as they stand between the bars. -/
def padded (ws : List Nat) (cells : List String) : List (List Char) :=
  (List.zipWith padRight ws cells).map fun cell => [' '] ++ cell.toList ++ [' ']

theorem toList_line {ws : List Nat} {cells : List String} (h : Fits ws cells) (hne : cells ≠ []) :
    (line ws cells).toList = '│' :: (['┆'].intercalate (padded ws cells) ++ ['│']) := by
  have hcells : (List.zipWith padRight ws cells).map String.toList ≠ [] := by
    cases h with
    | nil => exact absurd rfl hne
    | cons => simp
  have hbars := intercalate_bars hcells
  rw [List.map_map] at hbars
  rw [padded, ← Function.comp_def (fun cell => [' '] ++ cell ++ [' ']) String.toList, ← hbars, line,
    String.toList_append, String.toList_append, String.toList_intercalate]
  simp

/-- A cell is found again in its column. -/
theorem trim_padded {w : Nat} {cell : String} (h : IsCell cell) :
    trim ([' '] ++ (padRight w cell).toList ++ [' ']) = cell := by
  have hblank : isBlank ' ' = true := by decide
  rw [toList_padRight, ← List.append_assoc, List.append_assoc]
  refine h.trim_eq ?_ ?_
  · simp [hblank]
  · intro c hc
    rcases List.mem_append.mp hc with hc | hc
    · rw [List.eq_of_mem_replicate hc, hblank]
    · rw [List.mem_singleton.mp hc, hblank]

theorem map_trim_padded {ws : List Nat} {cells : List String} (hfits : Fits ws cells)
    (hcells : ∀ cell ∈ cells, IsCell cell) : (padded ws cells).map trim = cells := by
  induction hfits with
  | nil => rfl
  | @cons w cell ws cells _ _ ih =>
    rw [padded, List.zipWith_cons_cons, List.map_cons, List.map_cons,
      trim_padded (hcells cell List.mem_cons_self)]
    exact congrArg (cell :: ·) (ih fun other hother => hcells other (List.mem_cons_of_mem _ hother))

theorem not_bar_of_mem_padded {ws : List Nat} {cells : List String}
    (hcells : ∀ cell ∈ cells, IsCell cell) : ∀ text ∈ padded ws cells, '┆' ∉ text := by
  induction cells generalizing ws with
  | nil => simp [padded]
  | cons cell cells ih =>
    cases ws with
    | nil => simp [padded]
    | cons w ws =>
      intro text htext
      rcases List.mem_cons.mp htext with rfl | htext
      · have hbar := (hcells cell List.mem_cons_self).not_bar
        simp [toList_padRight, hbar]
      · exact ih (fun other hother => hcells other (List.mem_cons_of_mem _ hother)) text htext

/-- **The cells of a row are read back.** -/
theorem row?_line {ws : List Nat} {cells : List String} (hfits : Fits ws cells)
    (hcells : ∀ cell ∈ cells, IsCell cell) (hne : cells ≠ []) :
    row? (line ws cells) = some cells := by
  have hpadded : padded ws cells ≠ [] := by
    intro hnil
    have htrim := map_trim_padded hfits hcells
    rw [hnil] at htrim
    exact hne htrim.symm
  rw [row?, toList_line hfits hne]
  simp only [List.getLast?_concat, List.dropLast_concat, if_true,
    List.splitOn_intercalate '┆' (not_bar_of_mem_padded hcells) hpadded,
    map_trim_padded hfits hcells]

theorem filterMap_intersperse {α β : Type} {f : α → Option β} {sep : α} (h : f sep = none)
    (xs : List α) : (xs.intersperse sep).filterMap f = xs.filterMap f := by
  induction xs with
  | nil => rfl
  | cons x xs ih =>
    cases xs with
    | nil => rfl
    | cons y ys =>
      rw [List.intersperse_cons_cons, List.filterMap_cons, List.filterMap_cons_none h, ih,
        ← List.filterMap_cons]

/-- **The header and the rows are read back from the lines of a table**, and nothing else is. -/
theorem filterMap_row?_lines {header : List String} {rows : List (List String)}
    (hne : header ≠ []) (hrows : ∀ row ∈ rows, row.length = header.length)
    (hcells : ∀ row ∈ header :: rows, ∀ cell ∈ row, IsCell cell) :
    (lines header rows).filterMap row? = header :: rows := by
  have hread : ∀ row ∈ header :: rows, row? (line (widths header rows) row) = some row := by
    intro row hrow
    have hnonempty : row ≠ [] := by
      rcases List.mem_cons.mp hrow with rfl | hmem
      · exact hne
      · intro hnil
        have hlen := hrows row hmem
        rw [hnil] at hlen
        exact hne (List.length_eq_zero_iff.mp hlen.symm)
    exact row?_line (fits_widths hrows row hrow) (hcells row hrow) hnonempty
  have hrule : ∀ left fill cross right, (left, fill, cross, right) ∈ strokes →
      row? (rule left fill cross right (widths header rows)) = none :=
    fun _ _ _ _ h => row?_rule h _
  have hmap : (rows.map (line (widths header rows))).filterMap row? = rows := by
    rw [List.filterMap_map, List.filterMap_congr (g := some), List.filterMap_some]
    exact fun row hrow => hread row (List.mem_cons_of_mem _ hrow)
  rw [lines, List.filterMap_append, List.filterMap_cons_none (hrule _ _ _ _ (by decide)),
    List.filterMap_cons_some (hread header List.mem_cons_self),
    List.filterMap_cons_none (hrule _ _ _ _ (by decide)),
    filterMap_intersperse (hrule _ _ _ _ (by decide)), hmap,
    List.filterMap_cons_none (hrule _ _ _ _ (by decide)), List.filterMap_nil, List.append_nil]

end Table

end FrameFeed
