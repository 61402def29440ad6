import FrameFeed.Duration
import FrameFeed.Failure
import FrameFeed.Writer
/-!
# The feed

A feed sends a list of images, each as a frame with the next timestamp, once or over and over. It
ends when the list is through and is not to be repeated, when it is told to stop, when there is no
next timestamp, or when a frame is not delivered.

What the feed does next is decided by `Feed.turn` from its place alone; `Feed.run` takes turns
with a writer until the end. A feed may have no end, so a run is given the number of turns it may
take.

Main statements: `later_eq_some_iff`, when there is a next timestamp, and `Feed.run_mono`, more
turns never change how a run ended.
-/

namespace FrameFeed

/-- A picture and where it came from. -/
structure Image where
  path : String
  jpeg : List UInt8
  deriving DecidableEq

/-- The frame that shows an image at a time. -/
def Image.frame (image : Image) (pts : Int64) : Frame := ⟨image.jpeg, pts⟩

/-- When the frames of a feed are shown and sent. -/
structure Schedule where
  /-- The timestamp of the first frame. -/
  start : Int64
  /-- The difference between one timestamp and the next. -/
  step : Int64
  /-- The pause before every frame but the first. -/
  interval : Option Duration
  /-- Whether the list starts again when it is through. -/
  loop : Bool

/-- The timestamp `step` after `pts`, while 64 bits hold it. -/
def later (pts step : Int64) : Option Int64 :=
  let sum := pts.toInt + step.toInt
  if Int64.minValue.toInt ≤ sum ∧ sum ≤ Int64.maxValue.toInt then some (Int64.ofInt sum) else none

/-- Why a feed broke off. -/
inductive FeedError
  /-- The next timestamp is out of range. -/
  | timestampOverflow
  /-- A frame was not delivered. -/
  | write (e : EncodeError)
  deriving DecidableEq, Repr

/-- The report of a feed that broke off. -/
def FeedError.failure : FeedError → Failure
  | timestampOverflow => ⟨.dataInvalid, "timestamp overflow: pts-step ran past i64 range"⟩
  | write e => .ofEncodeError "write failed" e

/-- Images and when to send them. -/
structure Feed where
  images : List Image
  schedule : Schedule

namespace Feed

/-- How far a feed has come. -/
structure Place where
  /-- Images still to be sent before the list is through. -/
  queue : List Image
  /-- The next timestamp, while there is one. -/
  next : Option Int64
  /-- Frames attempted so far. -/
  made : Nat

/-- The place where a feed starts. -/
def start (feed : Feed) : Place := ⟨feed.images, some feed.schedule.start, 0⟩

/-- What a feed does next. -/
inductive Turn
  /-- It is over. -/
  | over
  /-- It breaks off for want of a timestamp. -/
  | overflow
  /-- It sends an image at a time and goes on from a place. -/
  | send (image : Image) (pts : Int64) (rest : Place)

/-- What a feed does next. Whether it is told to stop matters only when there is an image to send,
and comes before the question of a timestamp. -/
def turn (feed : Feed) (place : Place) (running : Bool) : Turn :=
  let queue :=
    if place.queue = [] ∧ feed.schedule.loop then feed.images else place.queue
  match queue with
  | [] => .over
  | image :: queue =>
    if running then
      match place.next with
      | none => .overflow
      | some pts => .send image pts ⟨queue, later pts feed.schedule.step, place.made + 1⟩
    else .over

variable {σ : Type}

/-- How a run of a feed ended: the frames the writer has counted or what broke the feed off, the
writer after it, the calls that were made and the frames that arrived. -/
structure Ended (σ : Type) where
  result : Except FeedError Nat
  writer : Writer σ
  calls : List Call
  sent : List (Image × Int64)

/-- Takes at most `turns` turns; none when they run out or the sink does not return. Before each
frame `running` is asked whether to go on, given the frames attempted so far and the sink. -/
def run (feed : Feed) (sink : Sink σ) (running : Nat → σ → Bool) :
    (turns : Nat) → Place → Writer σ → Option (Ended σ)
  | 0, _, _ => none
  | turns + 1, place, w =>
    match feed.turn place (running place.made w.sink) with
    | .over => some ⟨.ok w.framesWritten, w, [], []⟩
    | .overflow => some ⟨.error .timestampOverflow, w, [], []⟩
    | .send image pts rest =>
      match w.writeFrame .byPiece sink (image.frame pts) with
      | none => none
      | some ⟨.error e, w, calls⟩ => some ⟨.error (.write e), w, calls, []⟩
      | some ⟨.ok (), w, calls⟩ =>
        (run feed sink running turns rest w).map fun ended =>
          { ended with calls := calls ++ ended.calls, sent := (image, pts) :: ended.sent }

/-- The turns that a feed may need: one for each image and one to end. A feed that repeats may
need one for each of the timestamps there are. -/
def turns (feed : Feed) : Nat :=
  if feed.schedule.loop then 0x1_0000_0000_0000_0001 else feed.images.length + 1

end Feed

/-! ## Timestamps and turns -/

/-- **There is a next timestamp exactly when the sum is in range, and then it is the sum.** -/
theorem later_eq_some_iff {pts step next : Int64} :
    later pts step = some next ↔ next.toInt = pts.toInt + step.toInt := by
  have least : Int64.minValue.toInt = -9223372036854775808 := rfl
  have greatest : Int64.maxValue.toInt = 9223372036854775807 := rfl
  have lo := next.minValue_le_toInt
  have hi := next.toInt_le
  rw [later]
  constructor
  · intro h
    split at h
    next hr =>
      cases h
      exact Int64.toInt_ofInt_of_le (by omega) (by omega)
    next => cases h
  · intro h
    rw [← h, if_pos ⟨lo, hi⟩, Int64.ofInt_toInt]

/-- **More turns never change how a run ended.** -/
theorem Feed.run_mono {σ : Type} {feed : Feed} {sink : Sink σ} {running : Nat → σ → Bool}
    {turns more : Nat} {place : Place} {w : Writer σ} {e : Ended σ}
    (h : feed.run sink running turns place w = some e) (le : turns ≤ more) :
    feed.run sink running more place w = some e := by
  induction turns generalizing more place w e with
  | zero => cases h
  | succ turns ih =>
    obtain ⟨more, rfl⟩ : ∃ m, more = m + 1 := ⟨more - 1, by omega⟩
    rw [Feed.run] at h ⊢
    split
    next ht => rw [ht] at h; exact h
    next ht => rw [ht] at h; exact h
    next image pts rest ht =>
      rw [ht] at h
      dsimp only at h
      split
      next hw => rw [hw] at h; exact h
      next hw => rw [hw] at h; exact h
      next hw =>
        rw [hw] at h
        obtain ⟨e', he, rfl⟩ := Option.map_eq_some_iff.mp h
        rw [ih he (by omega)]
        rfl

end FrameFeed
