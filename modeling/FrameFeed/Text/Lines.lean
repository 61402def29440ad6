/-!
# Lines of a text

A text cut at its line ends. A line ends in a line feed, and a carriage return right before it
belongs to the line end; a carriage return anywhere else is part of its line. What follows the
last line end is a line only if there is something.

Main statements: `cutLines_append`, a line without line feeds is cut off whole, and
`linesOf_intercalate`, lines that are put together are cut apart again.
-/

namespace FrameFeed

/-- The lines of a text, without their ends. -/
def cutLines : List Char → List (List Char)
  | [] => []
  | '\r' :: '\n' :: cs => [] :: cutLines cs
  | '\n' :: cs => [] :: cutLines cs
  | c :: cs =>
    match cutLines cs with
    | [] => [[c]]
    | line :: lines => (c :: line) :: lines

/-- The lines of a text. -/
def linesOf (text : String) : List String := (cutLines text.toList).map String.ofList

/-! ## Cutting off a line -/

theorem cutLines_cons {c : Char} {cs line : List Char} {lines : List (List Char)}
    (hn : c ≠ '\n') (hr : c = '\r' → cs.head? ≠ some '\n') (h : cutLines cs = line :: lines) :
    cutLines (c :: cs) = (c :: line) :: lines := by
  rw [cutLines.eq_def]
  split
  next heq => cases heq
  next heq =>
    cases heq
    exact absurd rfl (hr rfl)
  next heq =>
    cases heq
    exact absurd rfl hn
  next heq =>
    cases heq
    rw [h]

/-- **A line without line feeds is cut off whole**, unless it ends in a carriage return. -/
theorem cutLines_append {line rest : List Char} (hn : '\n' ∉ line)
    (hr : line.getLast? ≠ some '\r') :
    cutLines (line ++ '\n' :: rest) = line :: cutLines rest := by
  induction line with
  | nil => rfl
  | cons c line ih =>
    have hc : c ≠ '\n' := fun h => hn (h ▸ List.mem_cons_self)
    have hline : '\n' ∉ line := fun h => hn (List.mem_cons_of_mem _ h)
    cases line with
    | nil =>
      have hcr : c ≠ '\r' := fun h => hr (by rw [h]; rfl)
      exact cutLines_cons hc (fun h => absurd h hcr) rfl
    | cons d line =>
      have hd : d ≠ '\n' := fun h => hline (h ▸ List.mem_cons_self)
      have hlast : (d :: line).getLast? ≠ some '\r' := by
        rwa [List.getLast?_cons_cons] at hr
      exact cutLines_cons hc (fun _ h => hd (Option.some.inj h)) (ih hline hlast)

/-- What has no line feed is one line, if it is anything. -/
theorem cutLines_eq_singleton {line : List Char} (hne : line ≠ []) (hn : '\n' ∉ line) :
    cutLines line = [line] := by
  induction line with
  | nil => exact absurd rfl hne
  | cons c line ih =>
    have hc : c ≠ '\n' := fun h => hn (h ▸ List.mem_cons_self)
    have hline : '\n' ∉ line := fun h => hn (List.mem_cons_of_mem _ h)
    cases line with
    | nil =>
      rw [cutLines.eq_def]
      split
      next heq => cases heq
      next heq => cases heq
      next heq => exact absurd (List.cons.inj heq).1 hc
      next heq =>
        cases heq
        rfl
    | cons d line =>
      have hd : d ≠ '\n' := fun h => hline (h ▸ List.mem_cons_self)
      exact cutLines_cons hc (fun _ h => hd (Option.some.inj h)) (ih (by simp) hline)

/-- **Lines that are put together are cut apart again.** -/
theorem linesOf_intercalate {texts : List String} {last : String}
    (hn : ∀ text ∈ texts, '\n' ∉ text.toList)
    (hr : ∀ text ∈ texts, text.toList.getLast? ≠ some '\r') (hlast : '\n' ∉ last.toList)
    (hne : last ≠ "") :
    linesOf ("\n".intercalate (texts ++ [last])) = texts ++ [last] := by
  have hcut : cutLines ("\n".intercalate (texts ++ [last])).toList =
      (texts ++ [last]).map String.toList := by
    induction texts with
    | nil =>
      rw [List.nil_append, String.intercalate_singleton, List.map_singleton]
      exact cutLines_eq_singleton (fun h => hne (String.toList_eq_nil_iff.mp h)) hlast
    | cons text texts ih =>
      have hfeed : "\n".toList = ['\n'] := rfl
      rw [List.cons_append, String.intercalate_cons_of_ne_nil (by simp), String.toList_append,
        String.toList_append, List.append_assoc, hfeed, List.singleton_append,
        cutLines_append (hn text List.mem_cons_self) (hr text List.mem_cons_self), List.map_cons,
        ih (fun other h => hn other (List.mem_cons_of_mem _ h))
          fun other h => hr other (List.mem_cons_of_mem _ h)]
  rw [linesOf, hcut, List.map_map]
  simp [Function.comp_def]

end FrameFeed
