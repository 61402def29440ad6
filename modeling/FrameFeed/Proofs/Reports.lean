import FrameFeed.Proofs.JsonReading
import FrameFeed.Proofs.Layout
import FrameFeed.Proofs.Tables
/-!
# Reports lose nothing

Every report on a layout, in whatever form, is read back to the same spans and totals. JSON holds
whatever it is given. Columns hold what fits in them, and all that a message can have does: the last
offset is little more than `2 ^ 32` and so has ten digits at the most. A table's columns are made to
fit, and its bars stand in no cell.

Main statements: `readJson?_render`, `ofColumns?_column` and `linesOf_table`, the three forms, and
`reports_lossless`, what becomes of every size that has a layout.
-/

namespace FrameFeed

namespace Report

open Wire Decimal

/-! ## What reports are to say -/

/-- What a report says of a span. -/
def entry (s : Span) : Entry := ⟨s.offset, s.len, s.phase.name, s.label⟩

/-- What a report says of the spans of a layout. -/
def entries (l : Layout) : List Entry := l.spans.map entry

/-- What a report says of a layout as a whole. -/
def totals (l : Layout) : Totals := ⟨l.documentLen, l.messageLen, l.payloadOffset⟩

theorem mapM_map {α β γ : Type} {f : β → Option γ} {g : α → β} {h : α → γ} {xs : List α}
    (hread : ∀ x ∈ xs, f (g x) = some (h x)) : (xs.map g).mapM f = some (xs.map h) := by
  induction xs with
  | nil => rfl
  | cons x xs ih =>
    rw [List.map_cons, List.mapM_cons, hread x List.mem_cons_self,
      ih fun y hy => hread y (List.mem_cons_of_mem _ hy)]
    rfl

/-! ## JSON -/

theorem ofJson?_spanJson (s : Span) : Entry.ofJson? (Layout.spanJson s) = some (entry s) := rfl

/-- **A report in JSON is read back**, whatever the layout. -/
theorem readJson?_render (l : Layout) :
    readJson? (l.render .json) = some (l.jpegSize, totals l, entries l) := by
  have hentries : (l.spans.map Layout.spanJson).mapM Entry.ofJson? = some (entries l) :=
    mapM_map fun s _ => ofJson?_spanJson s
  rw [readJson?, Layout.render, Json.read?_render]
  show ((l.spans.map Layout.spanJson).mapM Entry.ofJson?).bind _ = _
  rw [hentries]
  rfl

/-! ## Numbers, phases and labels as cells -/

theorem isBlank_of_isDigit {c : Char} (h : c.isDigit = true) : isBlank c = false := by
  have hrange := Char.isDigit_iff_toNat.mp h
  simp only [show '0'.toNat = 48 from rfl, show '9'.toNat = 57 from rfl] at hrange
  simp only [isBlank, blankRanges, List.any_cons, List.any_nil, Bool.or_false, Bool.or_eq_false_iff,
    Bool.and_eq_false_iff, decide_eq_false_iff_not]
  omega

theorem isCell_toString (n : Nat) : IsCell (toString n) where
  not_bar h := absurd (isDigit_of_mem_toString h) (by decide)
  not_blank_head _ h := isBlank_of_isDigit (isDigit_of_mem_toString (List.mem_of_head? h))
  not_blank_last _ h := isBlank_of_isDigit (isDigit_of_mem_toString (List.mem_of_getLast? h))

theorem isCell_iff {s : String} :
    IsCell s ↔ '┆' ∉ s.toList ∧ s.toList.head?.all (!isBlank ·) = true ∧
      s.toList.getLast?.all (!isBlank ·) = true := by
  simp only [Option.all_eq_true, Bool.not_eq_true']
  exact ⟨fun h => ⟨h.1, h.2, h.3⟩, fun h => ⟨h.1, h.2.1, h.2.2⟩⟩

/-- A text without line ends. -/
def Unbroken (s : String) : Prop := ∀ c ∈ s.toList, c ≠ '\n' ∧ c ≠ '\r'

/-- A text that can stand in a line of a report. -/
structure Fit (s : String) : Prop where
  isCell : IsCell s
  unbroken : Unbroken s

instance (s : String) : Decidable (Unbroken s) :=
  List.decidableBAll (fun c => c ≠ '\n' ∧ c ≠ '\r') s.toList

instance (s : String) : Decidable (Fit s) :=
  decidable_of_iff (_ ∧ Unbroken s)
    ⟨fun h => ⟨isCell_iff.mpr h.1, h.2⟩, fun h => ⟨isCell_iff.mp h.1, h.2⟩⟩

theorem fit_toString (n : Nat) : Fit (toString n) where
  isCell := isCell_toString n
  unbroken c h := by
    have hdigit := isDigit_of_mem_toString h
    constructor <;> rintro rfl <;> cases hdigit

/-- **The name of every phase fits in its column.** -/
theorem fit_name (phase : Phase) : Fit phase.name ∧ phase.name.length ≤ 16 := by
  cases phase <;> decide

theorem fit_label {n : Nat} {s : Span} (h : s ∈ place 0 (parts n)) : Fit s.label := by
  have hlabels : ∀ label ∈ (parts n).map Part.label, Fit label := by
    show ∀ label ∈ ["frame length", "document length", "pts name", "pts value", "frameJpeg name",
      "frameJpeg length + subtype", "frameJpeg data", "terminator"], Fit label
    decide
  have hpart : s.toPart ∈ parts n := by
    rw [← map_toPart_place 0 (parts n)]
    exact List.mem_map_of_mem h
  exact hlabels s.label (List.mem_map_of_mem hpart)

/-! ## Columns -/

theorem cutAt_append {width : Nat} {piece : List Char} (h : piece.length = width)
    (widths : List Nat) (rest : List Char) :
    cutAt (width :: widths) (piece ++ rest) = piece :: cutAt widths rest := by
  rw [cutAt, List.take_left' h, List.drop_left' h]

theorem isBlank_of_mem_replicate {n : Nat} : ∀ c ∈ List.replicate n ' ', isBlank c = true := by
  intro c hc
  rw [List.eq_of_mem_replicate hc]
  decide

/-- A cell is found again where it stands alone, -/
theorem trim_toList {s : String} (h : IsCell s) : trim s.toList = s := by
  have htrim := @IsCell.trim_eq s h [] [] (by simp) (by simp)
  rwa [List.nil_append, List.append_nil] at htrim

/-- and where it is filled up on the right. -/
theorem trim_padRight {w : Nat} {s : String} (h : IsCell s) : trim (padRight w s).toList = s := by
  have htrim := @IsCell.trim_eq s h [] _ (by simp) (@isBlank_of_mem_replicate (w - s.length))
  rwa [List.nil_append, ← toList_padRight] at htrim

/-- **A line in columns is read back** when its cells fit in their columns. -/
theorem ofColumns?_column {s : Span} (hoffset : (toString s.offset).length ≤ 10)
    (hlen : (toString s.len).length ≤ 10) (hphase : s.phase.name.length ≤ 16)
    (hlabel : IsCell s.label) : Entry.ofColumns? (Layout.column s) = some (entry s) := by
  have hline : (Layout.column s).toList =
      (padLeft 10 (toString s.offset)).toList ++ ([' ', '+'] ++
        ((padRight 10 (toString s.len)).toList ++ ([' '] ++
          ((padRight 16 s.phase.name).toList ++ ([' '] ++ s.label.toList))))) := by
    simp [Layout.column]
  have hfirst : (padLeft 10 (toString s.offset)).toList.length = 10 := by
    rw [String.length_toList, length_padLeft, Nat.max_eq_left hoffset]
  have hsecond : (padRight 10 (toString s.len)).toList.length = 10 := by
    rw [String.length_toList, length_padRight, Nat.max_eq_left hlen]
  have hthird : (padRight 16 s.phase.name).toList.length = 16 := by
    rw [String.length_toList, length_padRight, Nat.max_eq_left hphase]
  have hpieces : cutAt [10, 2, 10, 1, 16, 1] (Layout.column s).toList =
      [(padLeft 10 (toString s.offset)).toList, [' ', '+'], (padRight 10 (toString s.len)).toList,
        [' '], (padRight 16 s.phase.name).toList, [' '], s.label.toList] := by
    rw [hline, cutAt_append hfirst, cutAt_append (by rfl), cutAt_append hsecond,
      cutAt_append (by rfl), cutAt_append hthird, cutAt_append (by rfl), cutAt]
  have hreadOffset : Decimal.digits? ((padLeft 10 (toString s.offset)).toList.dropWhile isBlank) =
      some s.offset := by
    rw [toList_padLeft, dropWhile_blanks isBlank_of_mem_replicate
      (isCell_toString s.offset).not_blank_head, digits?_toString]
  have hreadLen : Decimal.digits? (trimBlanks (padRight 10 (toString s.len)).toList) =
      some s.len := by
    have htrim := @trim_padRight 10 _ (isCell_toString s.len)
    rw [trim, ← String.toList_inj, String.toList_ofList] at htrim
    rw [htrim, digits?_toString]
  rw [Entry.ofColumns?, hpieces]
  simp only [hreadOffset, hreadLen, trim_padRight (fit_name s.phase).1.isCell, trim_toList hlabel]
  rfl

/-! ## The line of totals -/

/-- A name and a number, as they stand in the line of totals. -/
def word (name : String) (n : Nat) : String := name ++ "=" ++ toString n

theorem toList_word (name : String) (n : Nat) :
    (word name n).toList = name.toList ++ '=' :: (toString n).toList := by
  simp [word]

/-- A word is read by its name. -/
theorem valueOf?_word {name : String} (hname : '=' ∉ name.toList) (n : Nat) (other : String) :
    valueOf? other (word name n).toList = if name = other then some n else none := by
  have hfront : ∀ c ∈ name.toList, decide (c ≠ '=') = true := by
    intro c hc
    exact decide_eq_true fun h => hname (h ▸ hc)
  have htake : (word name n).toList.takeWhile (· ≠ '=') = name.toList := by
    rw [toList_word, List.takeWhile_append_of_pos hfront]
    simp
  have hdrop : ((word name n).toList.dropWhile (· ≠ '=')).drop 1 = (toString n).toList := by
    rw [toList_word, List.dropWhile_append_of_pos hfront]
    simp
  rw [valueOf?, htake, hdrop, digits?_toString, String.ofList_toList]

/-- The words of the line of totals. -/
def words (l : Layout) : List String :=
  [word "document_len" l.documentLen, word "message_len" l.messageLen,
    word "payload_offset" l.payloadOffset]

theorem intercalate_words (a b c : String) :
    "document_len=" ++ a ++ " message_len=" ++ b ++ " payload_offset=" ++ c =
      " ".intercalate ["document_len" ++ "=" ++ a, "message_len" ++ "=" ++ b,
        "payload_offset" ++ "=" ++ c] := by
  have hfirst : "document_len=" = "document_len" ++ "=" := by decide
  have hsecond : " message_len=" = " " ++ ("message_len" ++ "=") := by decide
  have hthird : " payload_offset=" = " " ++ ("payload_offset" ++ "=") := by decide
  rw [hfirst, hsecond, hthird]
  simp only [String.intercalate_cons_cons, String.intercalate_singleton, String.append_assoc]

theorem summary_eq (l : Layout) : l.summary = " ".intercalate (words l) :=
  intercalate_words (toString l.documentLen) (toString l.messageLen) (toString l.payloadOffset)

theorem splitOn_summary (l : Layout) :
    l.summary.toList.splitOn ' ' = (words l).map String.toList := by
  have hblank : ∀ name : String, ' ' ∉ name.toList → ∀ n, ' ' ∉ (word name n).toList := by
    intro name hname n h
    rw [toList_word] at h
    rcases List.mem_append.mp h with h | h
    · exact hname h
    · rcases List.mem_cons.mp h with h | h
      · cases h
      · cases isDigit_of_mem_toString h
  have hwords : ∀ text ∈ (words l).map String.toList, ' ' ∉ text := by
    simp only [words, List.map_cons, List.map_nil, List.mem_cons, List.not_mem_nil, or_false]
    rintro text (rfl | rfl | rfl) <;> exact hblank _ (by decide) _
  rw [summary_eq, String.toList_intercalate]
  exact List.splitOn_intercalate ' ' hwords (by simp [words])

/-- **The line of totals is read back.** -/
theorem ofLine?_summary (l : Layout) : Totals.ofLine? l.summary = some (totals l) := by
  have hnumber : ∀ name, number? l.summary name =
      ((if "document_len" = name then some l.documentLen else none).or
        ((if "message_len" = name then some l.messageLen else none).or
          (if "payload_offset" = name then some l.payloadOffset else none))) := by
    intro name
    have hcons : ∀ text texts, (text :: texts).findSome? (valueOf? name) =
        (valueOf? name text).or (texts.findSome? (valueOf? name)) := by
      intro text texts
      rw [List.findSome?_cons]
      cases valueOf? name text <;> rfl
    rw [number?, splitOn_summary, words, List.map_cons, List.map_cons, List.map_singleton, hcons,
      hcons, hcons, List.findSome?_nil, Option.or_none, valueOf?_word (by decide),
      valueOf?_word (by decide), valueOf?_word (by decide)]
  rw [Totals.ofLine?, hnumber, hnumber, hnumber]
  rfl

/-! ## Lines -/

theorem Unbroken.append {s t : String} (hs : Unbroken s) (ht : Unbroken t) : Unbroken (s ++ t) := by
  intro c hc
  rw [String.toList_append] at hc
  rcases List.mem_append.mp hc with hc | hc
  · exact hs c hc
  · exact ht c hc

theorem unbroken_replicate (n : Nat) {c : Char} (h : c ≠ '\n' ∧ c ≠ '\r') :
    Unbroken (String.ofList (List.replicate n c)) := by
  intro d hd
  rw [String.toList_ofList] at hd
  rw [List.eq_of_mem_replicate hd]
  exact h

theorem unbroken_intercalate {sep : String} (hsep : Unbroken sep) {texts : List String}
    (h : ∀ text ∈ texts, Unbroken text) : Unbroken (sep.intercalate texts) := by
  induction texts with
  | nil => simp [Unbroken]
  | cons text texts ih =>
    cases texts with
    | nil =>
      rw [String.intercalate_singleton]
      exact h text List.mem_cons_self
    | cons next texts =>
      rw [String.intercalate_cons_cons]
      exact ((h text List.mem_cons_self).append hsep).append
        (ih fun other hother => h other (List.mem_cons_of_mem _ hother))

theorem Unbroken.padLeft {s : String} (h : Unbroken s) (w : Nat) : Unbroken (padLeft w s) :=
  (unbroken_replicate _ (by decide)).append h

theorem Unbroken.padRight {s : String} (h : Unbroken s) (w : Nat) : Unbroken (padRight w s) :=
  h.append (unbroken_replicate _ (by decide))

theorem unbroken_word {name : String} (h : Unbroken name) (n : Nat) : Unbroken (word name n) :=
  (h.append (by decide)).append (fit_toString n).unbroken

theorem unbroken_summary (l : Layout) : Unbroken l.summary := by
  rw [summary_eq]
  refine unbroken_intercalate (by decide) ?_
  simp only [words, List.mem_cons, List.not_mem_nil, or_false]
  rintro text (rfl | rfl | rfl) <;> exact unbroken_word (by decide) _

theorem summary_ne (l : Layout) : l.summary ≠ "" := by
  intro h
  have hread := ofLine?_summary l
  rw [h] at hread
  cases hread

/-- **The last line of a report is that of the totals**, and the lines in front of it are those that
were put there. -/
theorem linesOf_summary {texts : List String} (h : ∀ text ∈ texts, Unbroken text) (l : Layout) :
    linesOf ("\n".intercalate (texts ++ [l.summary])) = texts ++ [l.summary] := by
  exact linesOf_intercalate (fun text htext hn => (h text htext _ hn).1 rfl)
    (fun text htext hr => (h text htext _ (List.mem_of_getLast? hr)).2 rfl)
    (fun hn => (unbroken_summary l _ hn).1 rfl) (summary_ne l)

/-! ## Pretty reports and tables -/

/-- Every span of a layout ends within the message. -/
theorem le_of_mem_place {base : Nat} {ps : List Part} {s : Span} (h : s ∈ place base ps) :
    s.offset + s.len ≤ base + total (ps.map Part.len) := by
  induction ps generalizing base with
  | nil => cases h
  | cons p ps ih =>
    rw [List.map_cons, total]
    rcases List.mem_cons.mp h with rfl | h
    · show base + p.len ≤ _
      omega
    · have hle := ih h
      omega

theorem unbroken_column {s : Span} (h : Unbroken s.label) : Unbroken (Layout.column s) := by
  have hoffset := (fit_toString s.offset).unbroken.padLeft 10
  have hlen := (fit_toString s.len).unbroken.padRight 10
  have hphase := (fit_name s.phase).1.unbroken.padRight 16
  exact (((((hoffset.append (by decide)).append hlen).append (by decide)).append hphase).append
    (by decide)).append h

/-- **A pretty report is its columns and a line of totals.** -/
theorem linesOf_pretty {l : Layout} (h : ∀ s ∈ l.spans, Fit s.label) :
    linesOf (l.render .pretty) = l.spans.map Layout.column ++ [l.summary] := by
  refine linesOf_summary (fun text htext => ?_) l
  obtain ⟨s, hs, rfl⟩ := List.mem_map.mp htext
  exact unbroken_column (h s hs).unbroken

/-- The header of the table. -/
def header : List String := ["OFFSET", "SIZE", "PHASE", "FIELD"]

theorem fit_cells {l : Layout} (h : ∀ s ∈ l.spans, Fit s.label) :
    ∀ row ∈ header :: l.spans.map Layout.cells, ∀ cell ∈ row, Fit cell := by
  intro row hrow
  rcases List.mem_cons.mp hrow with rfl | hrow
  · decide
  · obtain ⟨s, hs, rfl⟩ := List.mem_map.mp hrow
    simp only [Layout.cells, List.mem_cons, List.not_mem_nil, or_false]
    rintro cell (rfl | rfl | rfl | rfl)
    · exact fit_toString s.offset
    · exact fit_toString s.len
    · exact (fit_name s.phase).1
    · exact h s hs

theorem length_cells {l : Layout} :
    ∀ row ∈ l.spans.map Layout.cells, row.length = header.length := by
  intro row hrow
  obtain ⟨s, -, rfl⟩ := List.mem_map.mp hrow
  rfl

theorem unbroken_rule {left cross right : String} {fill : Char}
    (h : (left, fill, cross, right) ∈ Table.strokes) (ws : List Nat) :
    Unbroken (Table.rule left fill cross right ws) := by
  have hall : ∀ s ∈ Table.strokes, Unbroken s.1 ∧ (s.2.1 ≠ '\n' ∧ s.2.1 ≠ '\r') ∧
      Unbroken s.2.2.1 ∧ Unbroken s.2.2.2 := by decide
  obtain ⟨hleft, hfill, hcross, hright⟩ := hall _ h
  refine (hleft.append (unbroken_intercalate hcross fun text htext => ?_)).append hright
  obtain ⟨w, -, rfl⟩ := List.mem_map.mp htext
  exact unbroken_replicate _ hfill

theorem unbroken_line {ws : List Nat} {cells : List String} (h : ∀ cell ∈ cells, Unbroken cell) :
    Unbroken (Table.line ws cells) := by
  have hsep : Unbroken "│ " ∧ Unbroken " ┆ " ∧ Unbroken " │" := by decide
  refine (hsep.1.append (unbroken_intercalate hsep.2.1 fun text htext => ?_)).append hsep.2.2
  induction cells generalizing ws with
  | nil => simp at htext
  | cons cell cells ih =>
    cases ws with
    | nil => simp at htext
    | cons w ws =>
      rcases List.mem_cons.mp htext with rfl | htext
      · exact (h cell List.mem_cons_self).padRight w
      · exact ih (fun other hother => h other (List.mem_cons_of_mem _ hother)) htext

/-- **A report as a table is the table's lines and a line of totals.** -/
theorem linesOf_table {l : Layout} (h : ∀ s ∈ l.spans, Fit s.label) :
    linesOf (l.render .table) = Table.lines header (l.spans.map Layout.cells) ++ [l.summary] := by
  have htext : l.render .table =
      "\n".intercalate (Table.lines header (l.spans.map Layout.cells) ++ [l.summary]) := by
    rw [String.intercalate_append_of_ne_nil (by simp [Table.lines]) (by simp),
      String.intercalate_singleton]
    rfl
  rw [htext]
  refine linesOf_summary (fun text hmem => ?_) l
  rcases Table.mem_lines hmem with ⟨row, hrow, rfl⟩ | ⟨left, fill, cross, right, hstrokes, rfl⟩
  · exact unbroken_line fun cell hcell => (fit_cells h row hrow cell hcell).unbroken
  · exact unbroken_rule hstrokes _

theorem ofRow?_cells (s : Span) : Entry.ofRow? (Layout.cells s) = some (entry s) := by
  rw [Layout.cells, Entry.ofRow?, digits?_toString, digits?_toString]
  rfl

/-! ## The whole law -/

/-- The reports on the layout for a picture of `jpegSize` bytes say what the layout is. -/
structure Lossless (jpegSize : Nat) (l : Layout) : Prop where
  /-- There are eight spans and three totals. -/
  entries_eq : entries l =
    [⟨0, 4, "framing", "frame length"⟩,
     ⟨4, 4, "document header", "document length"⟩,
     ⟨8, 5, "field name", "pts name"⟩,
     ⟨13, 8, "field value", "pts value"⟩,
     ⟨21, 11, "field name", "frameJpeg name"⟩,
     ⟨32, 5, "field value", "frameJpeg length + subtype"⟩,
     ⟨37, jpegSize, "payload", "frameJpeg data"⟩,
     ⟨37 + jpegSize, 1, "terminator", "terminator"⟩]
  totals_eq : totals l = ⟨34 + jpegSize, 38 + jpegSize, 37⟩
  /-- A report in JSON gives back the picture's size, the totals and the spans. -/
  json : readJson? (l.render .json) = some (jpegSize, totals l, entries l)
  /-- A pretty report has a line for each span, which gives it back when it is cut at fixed places,
  and a line that gives back the totals. -/
  pretty : ∃ lines summary, linesOf (l.render .pretty) = lines ++ [summary] ∧
    lines.mapM Entry.ofColumns? = some (entries l) ∧ Totals.ofLine? summary = some (totals l)
  /-- No number and no phase is wider than its column. -/
  columns : ∀ e ∈ entries l, (toString e.offset).length ≤ 10 ∧ (toString e.len).length ≤ 10 ∧
    e.phase.length ≤ 16
  /-- A report as a table has lines of equal width, the rows among them give back the spans below a
  header, and the line behind them gives back the totals. -/
  table : ∃ lines summary, linesOf (l.render .table) = lines ++ [summary] ∧
    (∃ width, ∀ line ∈ lines, line.length = width) ∧
    (∃ rows, lines.filterMap row? = ["OFFSET", "SIZE", "PHASE", "FIELD"] :: rows ∧
      rows.mapM Entry.ofRow? = some (entries l)) ∧
    Totals.ofLine? summary = some (totals l)

/-- **Every size that has a layout is reported without loss, in all three forms.** -/
theorem reports_lossless {jpegSize : Nat} (h : 34 + jpegSize ≤ 0xFFFF_FFFF) :
    ∃ l, Layout.ofSize jpegSize = .ok l ∧ Lossless jpegSize l := by
  refine ⟨_, Layout.ofSize_eq_ok_iff.mpr ⟨h, rfl⟩, ?_⟩
  generalize hl : (⟨jpegSize, 34 + jpegSize, place 0 (parts jpegSize)⟩ : Layout) = l
  have hspans : l.spans = place 0 (parts jpegSize) := by rw [← hl]
  have hlabels : ∀ s ∈ l.spans, Fit s.label := fun s hs => fit_label (hspans ▸ hs)
  have hcolumns : ∀ s ∈ l.spans, (toString s.offset).length ≤ 10 ∧ (toString s.len).length ≤ 10 ∧
      s.phase.name.length ≤ 16 := by
    intro s hs
    rw [hspans] at hs
    have hstop := le_of_mem_place hs
    have htotal : total ((parts jpegSize).map Part.len) =
        4 + (4 + (5 + (8 + (11 + (5 + (jpegSize + (1 + 0))))))) := rfl
    refine ⟨(Nat.length_repr_le_iff (by decide)).mpr ?_,
      (Nat.length_repr_le_iff (by decide)).mpr ?_, (fit_name s.phase).2⟩ <;> omega
  have hcells : ∀ row ∈ header :: l.spans.map Layout.cells, ∀ cell ∈ row, IsCell cell :=
    fun row hrow cell hcell => (fit_cells hlabels row hrow cell hcell).isCell
  exact
    { entries_eq := by rw [← hl]; rfl
      totals_eq := by
        rw [← hl]
        show (⟨34 + jpegSize, 4 + (34 + jpegSize), 37⟩ : Totals) = _
        rw [← Nat.add_assoc]
      json := by
        rw [readJson?_render, ← hl]
      pretty := ⟨_, _, linesOf_pretty hlabels, mapM_map fun s hs =>
        have hfits := hcolumns s hs
        ofColumns?_column hfits.1 hfits.2.1 hfits.2.2 (hlabels s hs).isCell, ofLine?_summary l⟩
      columns := by
        intro e he
        obtain ⟨s, hs, rfl⟩ := List.mem_map.mp he
        exact hcolumns s hs
      table := ⟨_, _, linesOf_table hlabels,
        ⟨_, fun _ hline => Table.length_of_mem_lines (by decide) length_cells hline⟩,
        ⟨_, Table.filterMap_row?_lines (by decide) length_cells hcells,
          mapM_map fun s _ => ofRow?_cells s⟩, ofLine?_summary l⟩ }

/-- The greatest picture, whose last span begins behind `2 ^ 32` bytes. -/
theorem reports_lossless_greatest :
    34 + 4294967261 ≤ 0xFFFF_FFFF ∧
      ∃ l, Layout.ofSize 4294967261 = .ok l ∧ Lossless 4294967261 l :=
  ⟨by decide, reports_lossless (by decide)⟩

/-- Its last line in columns, with an offset of ten digits. -/
example : Layout.column ⟨⟨.terminator, "terminator", 1⟩, 4294967298⟩ =
    "4294967298 +1          terminator       terminator" := by decide

end Report

end FrameFeed
