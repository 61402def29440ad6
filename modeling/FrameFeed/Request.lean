import FrameFeed.Log
import FrameFeed.Report.Layout
/-!
# Requests

What the program can be asked to do, with the defaults for all that is left unsaid.
-/

namespace FrameFeed

/-- A feed of image files. -/
structure EmitRequest where
  /-- Paths of the images, in the order in which they are sent. -/
  inputs : List String
  /-- The timestamp of the first frame. -/
  ptsStart : Int64 := 0
  /-- The difference between one timestamp and the next. -/
  ptsStep : Int64 := 1
  /-- The pause between frames, as it was written. -/
  interval : Option String := none
  /-- Whether the images are sent over and over. -/
  loop : Bool := false
  /-- The path of the file to write; without one the frames go to standard output. -/
  output : Option String := none
  /-- The longest document that may be sent. -/
  maxDocumentSize : Option Nat := none
  deriving DecidableEq

/-- One thing to do. -/
inductive Command
  /-- Send image files as a feed. -/
  | emit (request : EmitRequest)
  /-- Report the layout of a message for a picture of a given size. -/
  | layout (jpegSize : Nat)
  /-- Tell the program's version, and how it was built when asked. -/
  | version (extended : Bool)
  deriving DecidableEq

/-- What to do and how to talk about it. -/
structure Request where
  /-- The form of reports, where one was asked for. -/
  format : Option Format := none
  /-- The form of log records. -/
  logForm : Log.Form := .text
  /-- The least important log records to show. -/
  logLevel : Log.Level := .info
  command : Command
  deriving DecidableEq

end FrameFeed
