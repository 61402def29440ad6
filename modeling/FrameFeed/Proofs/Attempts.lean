import FrameFeed.Feed
import FrameFeed.Sink.Script
/-!
# The attempts of a feed

A feed is counted by its attempts: attempt `i` sends image `i` modulo their number, at the time
that is `i` steps after the start in exact arithmetic. `Reaches` says that all attempts before `i`
were made and arrived; `Stops` says that there is no attempt `i` that arrives, and why. A feed
keeps a queue and a next timestamp instead of a number, and `Feed.At` ties the two together, so what
a turn decides can be said of the number alone (`turn_of_through` and the lemmas after it).

Main statements: `run_of_reaches`, a run may be taken up where the attempts have come to,
`exists_stops_of_run`, how a run ended, and `returns_iff`, what a feed returns.
-/

namespace FrameFeed

variable {σ : Type}

namespace Feed

/-! ## Attempts -/

/-- The time of attempt `i`, in exact arithmetic. -/
def stamp (feed : Feed) (i : Nat) : Int :=
  feed.schedule.start.toInt + i * feed.schedule.step.toInt

/-- Attempt `i` is to send this image with this timestamp: the images come round in order, and the
timestamp is the exact time. -/
def Due (feed : Feed) (i : Nat) (image : Image) (pts : Int64) : Prop :=
  feed.images[i % feed.images.length]? = some image ∧ pts.toInt = feed.stamp i

/-- The list is through at attempt `i` and is not to be repeated. -/
def Through (feed : Feed) (i : Nat) : Prop :=
  feed.schedule.loop = false ∧ i = feed.images.length

/-- The time of attempt `i` is not one that a timestamp can show. -/
def Overflows (feed : Feed) (i : Nat) : Prop :=
  feed.stamp i < Int64.minValue.toInt ∨ Int64.maxValue.toInt < feed.stamp i

/-- The attempts before number `i` were all made and arrived; the writer then and the calls that
were made. -/
inductive Reaches (feed : Feed) (sink : Sink σ) (running : Nat → σ → Bool) (w : Writer σ) :
    Nat → Writer σ → List Call → Prop
  | start : Reaches feed sink running w 0 w []
  | next {i : Nat} {last w' : Writer σ} {made more : List Call} {image : Image} {pts : Int64} :
      Reaches feed sink running w i last made → ¬ feed.Through i →
      running i last.sink = true → feed.Due i image pts →
      last.writeFrame .byPiece sink ⟨image.jpeg, pts⟩ = some ⟨.ok (), w', more⟩ →
      Reaches feed sink running w (i + 1) w' (made ++ more)

/-- The feed ends at attempt `i`: what it returns, the writer then and the calls that it still
made. What ends it is looked for in the order of the cases. -/
inductive Stops (feed : Feed) (sink : Sink σ) (running : Nat → σ → Bool) (i : Nat)
    (last : Writer σ) : Except Failure Nat → Writer σ → List Call → Prop
  /-- The list is through. -/
  | through : feed.Through i → Stops feed sink running i last (.ok last.framesWritten) last []
  /-- The feed is told to stop. -/
  | told : ¬ feed.Through i → running i last.sink = false →
      Stops feed sink running i last (.ok last.framesWritten) last []
  /-- There is no timestamp. -/
  | overflow : ¬ feed.Through i → running i last.sink = true → feed.Overflows i →
      Stops feed sink running i last
        (.error ⟨.dataInvalid, "timestamp overflow: pts-step ran past i64 range"⟩) last []
  /-- The frame does not arrive. -/
  | failed {image : Image} {pts : Int64} {e : EncodeError} {w' : Writer σ} {more : List Call}
      {failure : Failure} :
      ¬ feed.Through i → running i last.sink = true → feed.Due i image pts →
      last.writeFrame .byPiece sink ⟨image.jpeg, pts⟩ = some ⟨.error e, w', more⟩ →
      e.Reported "write failed" failure →
      Stops feed sink running i last (.error failure) w' more

/-- A feed returns: the result, the writer then and the calls that were made, however many turns
it takes. -/
def Returns (feed : Feed) (sink : Sink σ) (running : Nat → σ → Bool) (w : Writer σ)
    (result : Except Failure Nat) (w' : Writer σ) (calls : List Call) : Prop :=
  ∃ turns ended, feed.run sink running turns feed.start w = some ended ∧
    ended.result.mapError FeedError.failure = result ∧ ended.writer = w' ∧ ended.calls = calls

variable {feed : Feed}

theorem stamp_succ (feed : Feed) (i : Nat) :
    feed.stamp (i + 1) = feed.stamp i + feed.schedule.step.toInt := by
  rw [stamp, stamp, Int.natCast_add, Int.add_mul, Int.natCast_one, Int.one_mul, Int.add_assoc]

/-- There is a timestamp or the time overflows, and not both. -/
theorem overflows_iff {i : Nat} : feed.Overflows i ↔ ∀ pts : Int64, pts.toInt ≠ feed.stamp i := by
  have least : Int64.minValue.toInt = -9223372036854775808 := rfl
  have greatest : Int64.maxValue.toInt = 9223372036854775807 := rfl
  constructor
  · intro h pts hpts
    have lo := pts.minValue_le_toInt
    have hi := pts.toInt_le
    rw [Overflows] at h
    omega
  · intro h
    by_cases hin : Int64.minValue.toInt ≤ feed.stamp i ∧ feed.stamp i ≤ Int64.maxValue.toInt
    · exact absurd (Int64.toInt_ofInt_of_le (by omega) (by omega)) (h (Int64.ofInt (feed.stamp i)))
    · rw [Overflows]
      omega

/-- Something is due at every attempt whose time does not overflow. -/
theorem exists_due {i : Nat} (hne : feed.images ≠ []) (hover : ¬ feed.Overflows i) :
    ∃ image pts, feed.Due i image pts := by
  have hlt := Nat.mod_lt i (List.length_pos_iff.mpr hne)
  rw [overflows_iff] at hover
  obtain ⟨pts, hpts⟩ := Classical.not_forall.mp hover
  exact ⟨_, pts, List.getElem?_eq_getElem hlt, Decidable.not_not.mp hpts⟩

/-! ## Places -/

/-- The images that a place has in front of it: the list once more where it is through and is to be
repeated. -/
def Place.ahead (feed : Feed) (place : Place) : List Image :=
  if place.queue = [] ∧ feed.schedule.loop then feed.images else place.queue

/-- A place is the one at which attempt `i` is made. -/
structure At (feed : Feed) (i : Nat) (place : Place) : Prop where
  made_eq : place.made = i
  /-- The image that is due is the first of those ahead. -/
  ahead_eq : place.ahead feed =
    feed.images.drop (if feed.schedule.loop then i % feed.images.length else i)
  /-- The next timestamp is the exact time, where there is one. -/
  next_eq_some_iff : ∀ pts, place.next = some pts ↔ pts.toInt = feed.stamp i
  /-- A list that is not repeated is not overrun. -/
  le_length : feed.schedule.loop = false → i ≤ feed.images.length

/-- A feed starts at attempt zero. -/
theorem at_start (feed : Feed) : feed.At 0 feed.start where
  made_eq := rfl
  ahead_eq := by
    rw [Place.ahead, Nat.zero_mod, ite_self, List.drop_zero, start]
    split
    next => rfl
    next => rfl
  next_eq_some_iff pts := by
    have hzero : feed.stamp 0 = feed.schedule.start.toInt := by simp [stamp]
    rw [hzero, start, Option.some.injEq, eq_comm]
    exact Int64.toInt_inj.symm
  le_length _ := Nat.zero_le _

theorem At.lt_length {i : Nat} {place : Place} (h : feed.At i place)
    (hthrough : ¬ feed.Through i) (hloop : feed.schedule.loop = false) :
    i < feed.images.length :=
  Nat.lt_of_le_of_ne (h.le_length hloop) fun hi => hthrough ⟨hloop, hi⟩

/-- While the list is not through, the images ahead begin with the image that is due. -/
theorem At.ahead_eq_drop {i : Nat} {place : Place} (h : feed.At i place)
    (hthrough : ¬ feed.Through i) :
    place.ahead feed = feed.images.drop (i % feed.images.length) := by
  rw [h.ahead_eq]
  split
  next => rfl
  next hloop => rw [Nat.mod_eq_of_lt (h.lt_length hthrough (Bool.eq_false_iff.mpr hloop))]

/-- **After an attempt the place is that of the next one.** -/
theorem At.next {i : Nat} {place : Place} {image : Image} {pts : Int64} (h : feed.At i place)
    (hthrough : ¬ feed.Through i) (hdue : feed.Due i image pts) :
    feed.At (i + 1) ⟨feed.images.drop (i % feed.images.length + 1),
      later pts feed.schedule.step, place.made + 1⟩ := by
  obtain ⟨hlt, -⟩ := List.getElem?_eq_some_iff.mp hdue.1
  refine
    { made_eq := by rw [h.made_eq]
      ahead_eq := ?_
      next_eq_some_iff := fun next => by rw [later_eq_some_iff, hdue.2, stamp_succ]
      le_length := ?_ }
  · rw [Place.ahead]
    dsimp only
    by_cases hloop : feed.schedule.loop = true
    · rw [if_pos hloop]
      by_cases hlast : i % feed.images.length + 1 = feed.images.length
      · -- the list is through, and the next round begins
        have hround : (i + 1) % feed.images.length = 0 := by
          rw [← Nat.mod_add_mod, hlast, Nat.mod_self]
        rw [if_pos ⟨List.drop_eq_nil_of_le (by omega), hloop⟩, hround, List.drop_zero]
      · have hround : (i + 1) % feed.images.length = i % feed.images.length + 1 := by
          rw [← Nat.mod_add_mod, Nat.mod_eq_of_lt (by omega)]
        have hmore : feed.images.drop (i % feed.images.length + 1) ≠ [] := by
          rw [Ne, List.drop_eq_nil_iff]
          omega
        rw [if_neg fun hnil => hmore hnil.1, hround]
    · rw [if_neg fun hnil => hloop hnil.2, if_neg hloop,
        Nat.mod_eq_of_lt (h.lt_length hthrough (Bool.eq_false_iff.mpr hloop))]
  · exact h.lt_length hthrough

/-! ## Turns -/

theorem turn_eq (feed : Feed) (place : Place) (running : Bool) :
    feed.turn place running =
      match place.ahead feed with
      | [] => .over
      | image :: queue =>
        if running then
          match place.next with
          | none => .overflow
          | some pts => .send image pts ⟨queue, later pts feed.schedule.step, place.made + 1⟩
        else .over := rfl

/-- **A list that is through ends the feed**, whatever it is told. -/
theorem turn_of_through {i : Nat} {place : Place} (h : feed.At i place) (hthrough : feed.Through i)
    (running : Bool) : feed.turn place running = .over := by
  obtain ⟨hloop, hi⟩ := hthrough
  have hnil : place.ahead feed = [] := by
    rw [h.ahead_eq, if_neg (by simp [hloop]), List.drop_eq_nil_of_le (Nat.le_of_eq hi.symm)]
  rw [turn_eq, hnil]

/-- **So does being told to stop**, before the timestamp is looked at. -/
theorem turn_of_told (feed : Feed) (place : Place) : feed.turn place false = .over := by
  rw [turn_eq]
  cases place.ahead feed with
  | nil => rfl
  | cons image queue => rfl

/-- The images ahead begin with the one that is due. -/
theorem At.ahead_eq_cons {i : Nat} {place : Place} {image : Image} {pts : Int64}
    (h : feed.At i place) (hthrough : ¬ feed.Through i) (hdue : feed.Due i image pts) :
    place.ahead feed = image :: feed.images.drop (i % feed.images.length + 1) := by
  obtain ⟨hlt, himage⟩ := List.getElem?_eq_some_iff.mp hdue.1
  rw [h.ahead_eq_drop hthrough, List.drop_eq_getElem_cons hlt, himage]

/-- **An image whose time overflows is not sent.** -/
theorem turn_of_overflows {i : Nat} {place : Place} (h : feed.At i place)
    (hne : feed.images ≠ []) (hthrough : ¬ feed.Through i) (hover : feed.Overflows i) :
    feed.turn place true = .overflow := by
  have hnext : place.next = none := by
    refine Option.eq_none_iff_forall_ne_some.mpr fun pts hpts => ?_
    exact overflows_iff.mp hover pts ((h.next_eq_some_iff pts).mp hpts)
  have hlt := Nat.mod_lt i (List.length_pos_iff.mpr hne)
  rw [turn_eq, h.ahead_eq_drop hthrough, List.drop_eq_getElem_cons hlt, hnext]
  rfl

/-- **What is due is sent**, and the feed goes on to the next attempt. -/
theorem turn_of_due {i : Nat} {place : Place} {image : Image} {pts : Int64} (h : feed.At i place)
    (hthrough : ¬ feed.Through i) (hdue : feed.Due i image pts) :
    ∃ rest, feed.At (i + 1) rest ∧ feed.turn place true = .send image pts rest := by
  refine ⟨_, h.next hthrough hdue, ?_⟩
  rw [turn_eq, h.ahead_eq_cons hthrough hdue, (h.next_eq_some_iff pts).mpr hdue.2]
  rfl

/-! ## Runs -/

theorem limit_of_reaches {sink : Sink σ} {running : Nat → σ → Bool} {w last : Writer σ} {i : Nat}
    {made : List Call} (h : feed.Reaches sink running w i last made) : last.limit = w.limit := by
  induction h with
  | start => rfl
  | next _ _ _ _ hwrite ih =>
    obtain ⟨sent, -, hsent⟩ := Option.map_eq_some_iff.mp hwrite
    rw [← ih, ← congrArg (fun o => o.writer.limit) hsent]

/-- **Each attempt that arrived was counted.** -/
theorem framesWritten_of_reaches {sink : Sink σ} {running : Nat → σ → Bool} {w last : Writer σ}
    {i : Nat} {made : List Call} (h : feed.Reaches sink running w i last made) :
    last.framesWritten = w.framesWritten + i := by
  induction h with
  | start => rfl
  | next _ _ _ _ hwrite ih =>
    rw [Writer.framesWritten_writeFrame hwrite, ih]
    rfl

/-- And nothing is counted where a feed ends. -/
theorem framesWritten_of_stops {sink : Sink σ} {running : Nat → σ → Bool} {i : Nat}
    {last w' : Writer σ} {result : Except Failure Nat} {more : List Call}
    (h : feed.Stops sink running i last result w' more) :
    w'.framesWritten = last.framesWritten := by
  cases h with
  | through _ => rfl
  | told _ _ => rfl
  | overflow _ _ _ => rfl
  | failed _ _ _ hwrite _ => exact Writer.framesWritten_writeFrame hwrite

/-- **A run may be taken up where the attempts have come to**: what more turns make of that place,
the attempts' turns and those make of the start. -/
theorem run_of_reaches {sink : Sink σ} {running : Nat → σ → Bool}
    {w last : Writer σ} {i : Nat} {made : List Call}
    (h : feed.Reaches sink running w i last made) :
    ∃ place sent, feed.At i place ∧
      ∀ turns ended, feed.run sink running turns place last = some ended →
        feed.run sink running (i + turns) feed.start w =
          some { ended with calls := made ++ ended.calls, sent := sent ++ ended.sent } := by
  induction h with
  | start =>
    refine ⟨feed.start, [], at_start feed, fun turns ended hrun => ?_⟩
    rw [Nat.zero_add, hrun]
    rfl
  | @next i last w' made more image pts _ hthrough hrunning hdue hwrite ih =>
    obtain ⟨place, sent, hat, hfrom⟩ := ih
    obtain ⟨rest, hrest, hturn⟩ := turn_of_due hat hthrough hdue
    refine ⟨rest, sent ++ [(image, pts)], hrest, fun turns ended hrun => ?_⟩
    have hstep : feed.run sink running (turns + 1) place last =
        some { ended with calls := more ++ ended.calls, sent := (image, pts) :: ended.sent } := by
      rw [run, hat.made_eq, hrunning, hturn]
      dsimp only
      rw [Image.frame, hwrite]
      dsimp only
      rw [hrun]
      rfl
    have hall := hfrom (turns + 1) _ hstep
    rw [show i + 1 + turns = i + (turns + 1) by omega, hall]
    simp only [List.append_assoc, List.singleton_append]

/-- One turn at the place of an attempt whose time overflows breaks the feed off. -/
theorem run_one_of_overflows {sink : Sink σ} {running : Nat → σ → Bool} {last : Writer σ} {i : Nat}
    {place : Place} (hat : feed.At i place) (hne : feed.images ≠ []) (hthrough : ¬ feed.Through i)
    (hrunning : running i last.sink = true) (hover : feed.Overflows i) :
    feed.run sink running 1 place last = some ⟨.error .timestampOverflow, last, [], []⟩ := by
  rw [run, hat.made_eq, hrunning, turn_of_overflows hat hne hthrough hover]

/-- And so does one at the place of an attempt that does not arrive. -/
theorem run_one_of_failed {sink : Sink σ} {running : Nat → σ → Bool} {last w' : Writer σ} {i : Nat}
    {place : Place} {image : Image} {pts : Int64} {e : EncodeError} {more : List Call}
    (hat : feed.At i place) (hthrough : ¬ feed.Through i) (hrunning : running i last.sink = true)
    (hdue : feed.Due i image pts)
    (hwrite : last.writeFrame .byPiece sink ⟨image.jpeg, pts⟩ = some ⟨.error e, w', more⟩) :
    feed.run sink running 1 place last = some ⟨.error (.write e), w', more, []⟩ := by
  obtain ⟨rest, -, hturn⟩ := turn_of_due hat hthrough hdue
  rw [run, hat.made_eq, hrunning, hturn]
  dsimp only
  rw [Image.frame, hwrite]

/-- **Where the attempts have come to an end, the feed returns**, after a turn for each of them and
one more. -/
theorem run_of_stops (hne : feed.images ≠ []) {sink : Sink σ} {running : Nat → σ → Bool}
    {w last w' : Writer σ} {i : Nat} {made more : List Call} {result : Except Failure Nat}
    (hreaches : feed.Reaches sink running w i last made)
    (hstops : feed.Stops sink running i last result w' more) :
    ∃ ended, feed.run sink running (i + 1) feed.start w = some ended ∧
      ended.result.mapError FeedError.failure = result ∧ ended.writer = w' ∧
      ended.calls = made ++ more := by
  obtain ⟨place, sent, hat, hfrom⟩ := run_of_reaches hreaches
  -- one turn at this place ends the feed as the case says
  suffices hone : ∃ ended, feed.run sink running 1 place last = some ended ∧
      ended.result.mapError FeedError.failure = result ∧ ended.writer = w' ∧
      ended.calls = more by
    obtain ⟨ended, hrun, hresult, hwriter, hcalls⟩ := hone
    exact ⟨_, hfrom 1 ended hrun, hresult, hwriter, by rw [hcalls]⟩
  cases hstops with
  | through hthrough =>
    rw [run, hat.made_eq, turn_of_through hat hthrough]
    exact ⟨_, rfl, rfl, rfl, rfl⟩
  | told _ hrunning =>
    rw [run, hat.made_eq, hrunning, turn_of_told]
    exact ⟨_, rfl, rfl, rfl, rfl⟩
  | overflow hthrough hrunning hover =>
    exact ⟨_, run_one_of_overflows hat hne hthrough hrunning hover, rfl, rfl, rfl⟩
  | failed hthrough hrunning hdue hwrite hreported =>
    obtain rfl := EncodeError.reported_iff.mp hreported
    exact ⟨_, run_one_of_failed hat hthrough hrunning hdue hwrite, rfl, rfl, rfl⟩

/-- **A run that returns ended at some attempt**, all those before it having arrived. -/
theorem exists_stops_of_run (hne : feed.images ≠ []) {sink : Sink σ} {running : Nat → σ → Bool}
    {w last : Writer σ} {turns i : Nat} {place : Place} {made : List Call} {ended : Ended σ}
    (hreaches : feed.Reaches sink running w i last made) (hat : feed.At i place)
    (h : feed.run sink running turns place last = some ended) :
    ∃ j last' made' more, feed.Reaches sink running w j last' made' ∧
      feed.Stops sink running j last' (ended.result.mapError FeedError.failure) ended.writer more ∧
      made ++ ended.calls = made' ++ more := by
  induction turns generalizing last i place made ended with
  | zero => cases h
  | succ turns ih =>
    rw [run, hat.made_eq] at h
    by_cases hthrough : feed.Through i
    · rw [turn_of_through hat hthrough] at h
      cases h
      exact ⟨i, last, made, [], hreaches, .through hthrough, rfl⟩
    · cases hrunning : running i last.sink with
      | false =>
        rw [hrunning, turn_of_told] at h
        cases h
        exact ⟨i, last, made, [], hreaches, .told hthrough hrunning, rfl⟩
      | true =>
        rw [hrunning] at h
        by_cases hover : feed.Overflows i
        · rw [turn_of_overflows hat hne hthrough hover] at h
          cases h
          exact ⟨i, last, made, [], hreaches, .overflow hthrough hrunning hover, rfl⟩
        · obtain ⟨image, pts, hdue⟩ := exists_due hne hover
          obtain ⟨rest, hrest, hturn⟩ := turn_of_due hat hthrough hdue
          rw [hturn] at h
          dsimp only at h
          split at h
          next => cases h
          next e w' more hwrite =>
            cases h
            exact ⟨i, last, made, more, hreaches,
              .failed hthrough hrunning hdue hwrite (EncodeError.reported_iff.mpr rfl), rfl⟩
          next w' more hwrite =>
            obtain ⟨later, hrun, rfl⟩ := Option.map_eq_some_iff.mp h
            obtain ⟨j, last', made', more', hreaches', hstops, hcalls⟩ :=
              ih (hreaches.next hthrough hrunning hdue hwrite) hrest hrun
            exact ⟨j, last', made', more', hreaches', hstops, by rw [← hcalls, List.append_assoc]⟩

/-- **What a feed returns.** It makes attempts `0, 1, 2, …` until the first at which, in this order,
the list is through and not to be repeated, the feed is told to stop, the time overflows, or the
frame does not arrive. Up to there every attempt sent the image and the exact time that were due and
arrived, and each of them was counted; nothing else was written, and nothing after that. -/
theorem returns_iff (hne : feed.images ≠ []) {sink : Sink σ} {running : Nat → σ → Bool}
    {w w' : Writer σ} {result : Except Failure Nat} {calls : List Call} :
    feed.Returns sink running w result w' calls ↔
      ∃ i last made more, feed.Reaches sink running w i last made ∧
        feed.Stops sink running i last result w' more ∧ calls = made ++ more ∧
        w'.framesWritten = w.framesWritten + i := by
  constructor
  · rintro ⟨turns, ended, hrun, rfl, rfl, rfl⟩
    obtain ⟨i, last, made, more, hreaches, hstops, hcalls⟩ :=
      exists_stops_of_run hne .start (at_start feed) hrun
    refine ⟨i, last, made, more, hreaches, hstops, hcalls, ?_⟩
    rw [framesWritten_of_stops hstops, framesWritten_of_reaches hreaches]
  · rintro ⟨i, last, made, more, hreaches, hstops, rfl, -⟩
    obtain ⟨ended, hrun, hresult, hwriter, hcalls⟩ := run_of_stops hne hreaches hstops
    exact ⟨i + 1, ended, hrun, hresult, hwriter, hcalls⟩

/-- Two images sent over and over, the second time at the last moment that a timestamp can show: the
third attempt overflows, a writer that had counted five frames has counted seven, and the sink holds
one message with each of the pictures at its time. -/
theorem returns_iff_last_moment :
    ∃ (feed : Feed) (w w' : Writer (Store Script)) (calls : List Call),
      feed = ⟨[⟨"a", [0x01]⟩, ⟨"b", []⟩], ⟨Int64.maxValue - 40, 40, none, true⟩⟩ ∧
      w = ⟨Wire.maxDocumentSize, ⟨#[], {}⟩, 5⟩ ∧ feed.images ≠ [] ∧
      feed.Returns Script.sink (fun _ _ => true) w
        (.error ⟨.dataInvalid, "timestamp overflow: pts-step ran past i64 range"⟩) w' calls ∧
      w'.framesWritten = 7 ∧
      w'.sink.held.toList =
        [0, 0, 0, 35, 35, 0, 0, 0,
         0x12, 0x70, 0x74, 0x73, 0, 0xD7, 0xFF, 0xFF, 0xFF, 0xFF, 0xFF, 0xFF, 0x7F,
         0x05, 0x66, 0x72, 0x61, 0x6D, 0x65, 0x4A, 0x70, 0x65, 0x67, 0, 1, 0, 0, 0, 0, 0x01, 0,
         0, 0, 0, 34, 34, 0, 0, 0,
         0x12, 0x70, 0x74, 0x73, 0, 0xFF, 0xFF, 0xFF, 0xFF, 0xFF, 0xFF, 0xFF, 0x7F,
         0x05, 0x66, 0x72, 0x61, 0x6D, 0x65, 0x4A, 0x70, 0x65, 0x67, 0, 0, 0, 0, 0, 0, 0] ∧
      ∃ i last made more, feed.Reaches Script.sink (fun _ _ => true) w i last made ∧
        feed.Stops Script.sink (fun _ _ => true) i last
          (.error ⟨.dataInvalid, "timestamp overflow: pts-step ran past i64 range"⟩) w' more ∧
        calls = made ++ more ∧ w'.framesWritten = w.framesWritten + i := by
  obtain ⟨feed, hfeed⟩ : ∃ feed : Feed, feed =
      ⟨[⟨"a", [0x01]⟩, ⟨"b", []⟩], ⟨Int64.maxValue - 40, 40, none, true⟩⟩ := ⟨_, rfl⟩
  obtain ⟨w, hw⟩ : ∃ w : Writer (Store Script), w = ⟨Wire.maxDocumentSize, ⟨#[], {}⟩, 5⟩ :=
    ⟨_, rfl⟩
  have hne : feed.images ≠ [] := by simp [hfeed]
  obtain ⟨ended, hrun⟩ : ∃ ended,
      feed.run Script.sink (fun _ _ => true) 3 feed.start w = some ended := by
    subst hfeed hw
    exact ⟨_, rfl⟩
  have hresult : ended.result.mapError FeedError.failure =
      .error ⟨.dataInvalid, "timestamp overflow: pts-step ran past i64 range"⟩ := by
    subst hfeed hw
    cases hrun
    rfl
  have hreturns : feed.Returns Script.sink (fun _ _ => true) w _ ended.writer ended.calls :=
    ⟨3, ended, hrun, hresult, rfl, rfl⟩
  refine ⟨feed, w, ended.writer, ended.calls, hfeed, hw, hne, hreturns, ?_, ?_,
    (returns_iff hne).mp hreturns⟩
  · subst hfeed hw
    cases hrun
    rfl
  · subst hfeed hw
    cases hrun
    rfl

end Feed

end FrameFeed
