import FrameFeed.Report.Json
import FrameFeed.Report.Table
import FrameFeed.Wire.Layout
/-!
# Reports on a layout

A layout as JSON, as a table, or in columns. All three list every span with its offset, length,
phase and label; the last two end in a line of totals.
-/

namespace FrameFeed

open Wire

/-- The forms in which a layout is reported. -/
inductive Format
  | json
  | table
  | pretty
  deriving DecidableEq, Repr

namespace Wire.Layout

/-- One span as a JSON object. -/
def spanJson (s : Span) : Json :=
  .obj
    [("offset", .num s.offset), ("len", .num s.len), ("phase", .str s.phase.name),
     ("label", .str s.label)]

/-- The layout as a JSON object. -/
def toJson (l : Layout) : Json :=
  .obj
    [("jpeg_size", .num l.jpegSize), ("document_len", .num l.documentLen),
     ("message_len", .num l.messageLen), ("payload_offset", .num l.payloadOffset),
     ("spans", .arr (l.spans.map spanJson))]

/-- The cells of a span's row. -/
def cells (s : Span) : List String := [toString s.offset, toString s.len, s.phase.name, s.label]

/-- A span in columns: the offset to the right, all else to the left. -/
def column (s : Span) : String :=
  padLeft 10 (toString s.offset) ++ " +" ++ padRight 10 (toString s.len) ++ " " ++
    padRight 16 s.phase.name ++ " " ++ s.label

/-- The line of totals. -/
def summary (l : Layout) : String :=
  "document_len=" ++ toString l.documentLen ++ " message_len=" ++ toString l.messageLen ++
    " payload_offset=" ++ toString l.payloadOffset

/-- The layout as text, without a line end after the last line. -/
def render (l : Layout) : Format → String
  | .json => l.toJson.render
  | .table =>
    Table.render ["OFFSET", "SIZE", "PHASE", "FIELD"] (l.spans.map cells) ++ "\n" ++ l.summary
  | .pretty => String.intercalate "\n" (l.spans.map column ++ [l.summary])

end Wire.Layout

end FrameFeed
