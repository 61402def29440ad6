import FrameFeed.Proofs.Accepting
import FrameFeed.Proofs.Attempts
import FrameFeed.Proofs.Files
import FrameFeed.Proofs.Refusal
/-!
# A run from its request to its file

A request that is not refused sends its feed through a buffer to the file it made. The buffer takes
everything, so every image arrives that has a timestamp, and the file is filled with their messages.
The images were loaded before the file was made: where it is one of the inputs, its message carries
what it held before. Nothing is asked of the files but that reading, making and appending do what
`LawfulFiles` says; which files may be read and made, and where paths lead, is left open.

Main statements: `Feed.exists_emit_file`, what a feed writes to a file, and `EmitRequest.run_file`,
what a request does.
-/

namespace FrameFeed

open Wire

variable {σ F : Type} [Files F]

/-! ## What a feed writes -/

/-- How many of `n` frames have a timestamp: those before the first whose time, in exact arithmetic,
is out of range. -/
def timely (start step : Int64) (n : Nat) : Nat :=
  (List.range n).findIdx fun i : Nat =>
    start.toInt + i * step.toInt < Int64.minValue.toInt ∨
      Int64.maxValue.toInt < start.toInt + i * step.toInt

/-- The messages of pictures, each with the time of its place. -/
def messagesFrom (start step : Int64) (jpegs : List (List UInt8)) : List UInt8 :=
  jpegs.zipIdx.flatMap fun (jpeg, i) => message ⟨jpeg, Int64.ofInt (start.toInt + i * step.toInt)⟩

theorem timely_le (start step : Int64) (n : Nat) : timely start step n ≤ n := by
  have hle : timely start step n ≤ (List.range n).length := List.findIdx_le_length
  rwa [List.length_range] at hle

theorem messagesFrom_take_succ {start step : Int64} {jpegs : List (List UInt8)} {i : Nat}
    (h : i < jpegs.length) :
    messagesFrom start step (jpegs.take (i + 1)) =
      messagesFrom start step (jpegs.take i) ++
        message ⟨jpegs[i], Int64.ofInt (start.toInt + i * step.toInt)⟩ := by
  rw [← List.take_append_getElem h, messagesFrom, messagesFrom, List.zipIdx_append,
    List.flatMap_append, List.length_take, Nat.min_eq_left (Nat.le_of_lt h)]
  simp only [List.zipIdx_singleton, List.flatMap_cons, List.flatMap_nil, List.append_nil,
    Nat.zero_add]

namespace Feed

variable {feed : Feed}

theorem not_overflows_of_lt_timely {n i : Nat}
    (h : i < timely feed.schedule.start feed.schedule.step n) : ¬ feed.Overflows i := by
  have hnot := List.not_of_lt_findIdx h
  simp only [List.getElem_range, decide_eq_false_iff_not] at hnot
  exact hnot

theorem overflows_timely {n : Nat} (h : timely feed.schedule.start feed.schedule.step n < n) :
    feed.Overflows (timely feed.schedule.start feed.schedule.step n) := by
  rw [timely] at h
  have hfirst := List.findIdx_getElem (w := Nat.lt_of_lt_of_eq h List.length_range.symm)
  simp only [List.getElem_range, decide_eq_true_eq] at hfirst
  exact hfirst

/-- Before the list is through, what is due is the picture in its place at the exact time. -/
theorem Due.frame_eq {i : Nat} {image : Image} {pts : Int64} (h : feed.Due i image pts)
    (hi : i < (feed.images.map Image.jpeg).length) :
    (⟨image.jpeg, pts⟩ : Frame) =
      ⟨(feed.images.map Image.jpeg)[i], Int64.ofInt (feed.stamp i)⟩ := by
  rw [List.length_map] at hi
  obtain ⟨himage, hpts⟩ := h
  rw [Nat.mod_eq_of_lt hi, List.getElem?_eq_getElem hi, Option.some.injEq] at himage
  rw [← hpts, Int64.ofInt_toInt, List.getElem_map, himage]

/-- **To a sink that takes everything a feed makes every attempt that has a time.** -/
theorem exists_reaches {sink : Sink σ} {good : σ → Prop} {content : σ → List UInt8}
    (haccepts : sink.Accepts good content) {w : Writer σ}
    (hgood : good w.sink) (hfits : ∀ image ∈ feed.images, 34 + image.jpeg.length ≤ cap w.limit)
    {k : Nat} (hk : k ≤ feed.images.length) (htimely : ∀ i < k, ¬ feed.Overflows i) :
    ∃ last made, feed.Reaches sink (fun _ _ => true) w k last made ∧ good last.sink ∧
      content last.sink = content w.sink ++
        messagesFrom feed.schedule.start feed.schedule.step
          ((feed.images.map Image.jpeg).take k) := by
  induction k with
  | zero => exact ⟨w, [], .start, hgood, (List.append_nil _).symm⟩
  | succ k ih =>
    obtain ⟨last, made, hreaches, hlast, hsofar⟩ :=
      ih (Nat.le_of_succ_le hk) fun i hi => htimely i (Nat.lt_succ_of_lt hi)
    have hthrough : ¬ feed.Through k := fun h => Nat.ne_of_lt hk h.2
    obtain ⟨image, pts, hdue⟩ :=
      exists_due (List.ne_nil_of_length_pos (Nat.zero_lt_of_lt hk)) (htimely k (Nat.lt_succ_self k))
    have hfit : (⟨image.jpeg, pts⟩ : Frame).Fits last.limit := by
      rw [limit_of_reaches hreaches]
      exact hfits image (List.mem_of_getElem? hdue.1)
    obtain ⟨w', calls, hwrite, hnext, hgrown⟩ := haccepts.exists_writeFrame hlast hfit
    refine ⟨w', made ++ calls, hreaches.next hthrough rfl hdue hwrite, hnext, ?_⟩
    have hlt : k < (feed.images.map Image.jpeg).length := by rwa [List.length_map]
    rw [hgrown, hsofar, hdue.frame_eq hlt, List.append_assoc, messagesFrom_take_succ]
    rfl

/-- A feed that sends its list once to a sink that takes everything stops behind the last image, or
at the first whose time is out of range. -/
theorem stops_of_timely {sink : Sink σ} {last : Writer σ} {k : Nat}
    (hloop : feed.schedule.loop = false)
    (hk : k = timely feed.schedule.start feed.schedule.step feed.images.length)
    (hcount : last.framesWritten = k) :
    feed.Stops sink (fun _ _ => true) k last
      (if k = feed.images.length then .ok k
        else .error ⟨.dataInvalid, "timestamp overflow: pts-step ran past i64 range"⟩) last [] := by
  by_cases hall : k = feed.images.length
  · have hstops : feed.Stops sink (fun _ _ => true) k last (.ok last.framesWritten) last [] :=
      .through ⟨hloop, hall⟩
    rw [if_pos hall]
    rwa [hcount] at hstops
  · have hlt : k < feed.images.length :=
      Nat.lt_of_le_of_ne (hk ▸ timely_le _ _ feed.images.length) hall
    have hover : feed.Overflows k := by
      subst hk
      exact overflows_timely hlt
    rw [if_neg hall]
    exact .overflow (fun hthrough => hall hthrough.2) rfl hover

/-- **What a feed that sends its list once writes to a file**: the messages of the images whose time
a timestamp can show, up to the first for which it cannot. -/
theorem exists_emit_file (feed : Feed) {limit k : Nat} (loc : Location) (world : World F)
    (hne : feed.images ≠ []) (hloop : feed.schedule.loop = false)
    (hfits : ∀ image ∈ feed.images, 34 + image.jpeg.length ≤ cap limit)
    (hk : k = timely feed.schedule.start feed.schedule.step feed.images.length) :
    ∃ emitted, feed.emit limit (.file loc) world = some emitted ∧
      emitted.world = { world with
        files := Files.append world.files loc
          (messagesFrom feed.schedule.start feed.schedule.step
            ((feed.images.map Image.jpeg).take k)) } ∧
      emitted.result.mapError EmitError.failure =
        if k = feed.images.length then .ok k
        else .error ⟨.dataInvalid, "timestamp overflow: pts-step ran past i64 range"⟩ := by
  have hle : k ≤ feed.images.length := hk ▸ timely_le _ _ feed.images.length
  have htimely : ∀ i < k, ¬ feed.Overflows i := fun i hi => not_overflows_of_lt_timely (hk ▸ hi)
  obtain ⟨last, made, hreaches, hgood, hcontent⟩ :=
    exists_reaches (Buffered.accepts Tape.accepts) (w := Writer.new (Buffered.of {}) limit) rfl
      hfits hle htimely
  have hcount : last.framesWritten = k := by
    rw [framesWritten_of_reaches hreaches, Writer.new, Nat.zero_add]
  obtain ⟨ended, hrun, hresult, hwriter, -⟩ :=
    run_of_stops hne hreaches (stops_of_timely hloop hk hcount)
  have hturns : feed.run (Buffered.sink Tape.device) (fun _ _ => true) feed.turns feed.start
      (Writer.new (Buffered.of {}) limit) = some ended := by
    refine run_mono hrun ?_
    rw [turns, if_neg (by simp [hloop])]
    omega
  refine ⟨_, by rw [emit, Output.tape, hturns]; rfl, ?_, ?_⟩
  · have hbytes : (ended.writer.sink.close Tape.device).bytes =
        messagesFrom feed.schedule.start feed.schedule.step
          ((feed.images.map Image.jpeg).take k) := by
      rw [hwriter, Buffered.content_close Tape.accepts hgood, hcontent]
      rfl
    dsimp only
    rw [hbytes]
    rfl
  · rw [← hresult]
    dsimp only
    cases ended.result with
    | ok frames => rfl
    | error e => rfl

end Feed

/-! ## What a request does -/

namespace EmitRequest

variable {req : EmitRequest} {world : World F}

/-- What comes of a request that sends its inputs once, to a regular file: `jpegs` are the pictures,
`loc` is where the file is, and `k` frames are sent. -/
structure Fills (req : EmitRequest) (world : World F) (path : String) (jpegs : List (List UInt8))
    (loc : Location) (k : Nat) (emitted : Emitted F) : Prop where
  /-- The pictures are what the inputs held before the run. -/
  read_inputs : req.inputs.map (Files.read world.files) = jpegs.map .ok
  /-- Those are sent whose time a timestamp can show, up to the first for which it cannot. -/
  sent_eq : k = timely req.ptsStart req.ptsStep req.inputs.length
  /-- The file is made where the path led before the run, the messages are appended to it, and
  nothing else is done. -/
  world_eq : ∃ made, Files.create world.files path = .ok (.file loc, made) ∧
    emitted.world = { world with
      files := Files.append made loc (messagesFrom req.ptsStart req.ptsStep (jpegs.take k)) }
  /-- The file holds the messages and nothing else, and every other what it held. -/
  content?_eq : ∀ other, Files.content? emitted.world.files other =
    if other = loc then some (messagesFrom req.ptsStart req.ptsStep (jpegs.take k))
    else Files.content? world.files other
  /-- And they are what is read at the path, if it may be read. -/
  read_output : ∀ content, Files.read emitted.world.files path = .ok content →
    content = messagesFrom req.ptsStart req.ptsStep (jpegs.take k)
  /-- The run succeeds when all were sent; otherwise it is the time that went out of range. -/
  result_eq : emitted.result.mapError EmitError.failure =
    if k = req.inputs.length then .ok k
    else .error ⟨.dataInvalid, "timestamp overflow: pts-step ran past i64 range"⟩

/-- A request in whose way nothing stands fills its file. -/
theorem exists_fills [LawfulFiles F] {path : String} (hloop : req.loop = false)
    (hinputs : req.inputs ≠ []) (houtput : req.output = some path)
    (hfile : Files.MakesFile world.files path) (hpaced : req.Paced)
    (hadmits : ∀ p ∈ req.inputs, Files.Admits world.files req.most p)
    (hcreates : ∃ made, Files.create world.files path = .ok made) :
    ∃ emitted jpegs loc k, req.run world = some emitted ∧
      req.Fills world path jpegs loc k emitted := by
  obtain ⟨interval, hschedule⟩ := schedule_of_paced hpaced
  obtain ⟨images, hread, hfits, himages⟩ := Files.images_of_admits hadmits
  rw [← req.cap_limit] at hfits
  obtain ⟨⟨output, files⟩, hcreate⟩ := hcreates
  obtain ⟨loc, rfl⟩ := hfile output files hcreate
  have hlength : images.length = req.inputs.length := by
    have hmap := congrArg List.length hread
    rw [List.length_map, List.length_map] at hmap
    exact hmap.symm
  have hne : images ≠ [] := by
    rw [← List.length_pos_iff, hlength]
    exact List.length_pos_iff.mpr hinputs
  have hopen : world.openOutput req.output = .ok (.file loc, { world with files }) := by
    simp only [World.openOutput, houtput, hcreate]
  obtain ⟨emitted, hemit, hworld, hresult⟩ :=
    Feed.exists_emit_file ⟨images, ⟨req.ptsStart, req.ptsStep, interval, req.loop⟩⟩ loc
      { world with files } hne hloop hfits rfl
  dsimp only at hworld hresult
  rw [hlength] at hworld hresult
  have hrun : req.run world = some
      { emitted with
        said := (images.map fun image => .record image.loadedRecord) ++ emitted.said } := by
    rw [run_of_openOutput hschedule himages hopen, hemit]
    rfl
  refine ⟨_, images.map Image.jpeg, loc, timely req.ptsStart req.ptsStep req.inputs.length, hrun,
    ?_⟩
  have hheld := Files.content?_append_create hcreate
    (messagesFrom req.ptsStart req.ptsStep
      ((images.map Image.jpeg).take (timely req.ptsStart req.ptsStep req.inputs.length)))
  exact
    { read_inputs := by rw [hread, List.map_map]; rfl
      sent_eq := rfl
      world_eq := ⟨files, hcreate, hworld⟩
      content?_eq := by
        dsimp only
        rw [hworld]
        exact hheld
      read_output := by
        intro content hcontent
        dsimp only at hcontent
        rw [hworld] at hcontent
        have hthere := LawfulFiles.content?_of_read hcreate hcontent
        rw [hheld, if_pos rfl] at hthere
        exact (Option.some.inj hthere).symm
      result_eq := hresult }

/-- **What a request does** that sends its inputs once, to a regular file. If it is refused, it
fails with the refusal and changes nothing. Otherwise it fills the file with the messages of the
leading inputs whose time a timestamp can show, with what they held before the run, even where the
file is one of them; nothing else changes, and the request succeeds exactly when those are all
inputs. -/
theorem run_file [LawfulFiles F] {path : String} (hloop : req.loop = false)
    (hinputs : req.inputs ≠ []) (houtput : req.output = some path)
    (hfile : Files.MakesFile world.files path) :
    ∃ emitted, req.run world = some emitted ∧
      (∀ failure, req.Refused world.files failure →
        emitted.result.mapError EmitError.failure = .error failure ∧ emitted.world = world) ∧
      ((∀ failure, ¬ req.Refused world.files failure) →
        ∃ jpegs loc k, req.Fills world path jpegs loc k emitted) := by
  -- a run has one result, so whatever the request is refused for is that
  have hrefusals : ∀ {emitted}, req.run world = some emitted → ∀ failure,
      req.Refused world.files failure →
        emitted.result.mapError EmitError.failure = .error failure ∧ emitted.world = world := by
    intro emitted hrun failure hrefused
    obtain ⟨emitted', hrun', hresult, hworld⟩ := run_of_refused hrefused
    obtain rfl := Option.some.inj (hrun.symm.trans hrun')
    exact ⟨hresult, hworld⟩
  rcases req.exists_refused_or world.files with ⟨failure, hrefused⟩ | ⟨hpaced, hadmits, hcreates⟩
  · obtain ⟨emitted, hrun, -⟩ := run_of_refused hrefused
    exact ⟨emitted, hrun, hrefusals hrun, fun hnone => absurd hrefused (hnone failure)⟩
  · obtain ⟨emitted, jpegs, loc, k, hrun, hfills⟩ :=
      exists_fills hloop hinputs houtput hfile hpaced hadmits (hcreates path houtput)
    exact ⟨emitted, hrun, hrefusals hrun, fun _ => ⟨jpegs, loc, k, hfills⟩⟩

/-- A file that is the second of three inputs and, at the end of two links, the output: two messages
fit before the largest timestamp, and the second carries what the file held before it was made
anew. -/
theorem run_file_aliased :
    ∃ (req : EmitRequest) (world : World FileSystem) (emitted : Emitted FileSystem),
      req = { inputs := ["a", "b", "a"], ptsStart := Int64.maxValue - 1, interval := some "40ms",
              output := some "out" } ∧
      world.files = ⟨[(["a"], .file [0x01]), (["b"], .file [0x02, 0x03])],
        [(["out"], ⟨[], ["hop"]⟩), (["hop"], ⟨[], ["b"]⟩)], [], []⟩ ∧
      req.loop = false ∧ req.inputs ≠ [] ∧ req.output = some "out" ∧
      Files.MakesFile world.files "out" ∧ req.run world = some emitted ∧
      (∀ failure, ¬ req.Refused world.files failure) ∧
      (∃ jpegs loc, req.Fills world "out" jpegs loc 2 emitted) ∧
      emitted.world.files.read "b" = .ok
        [0, 0, 0, 35, 35, 0, 0, 0,
         0x12, 0x70, 0x74, 0x73, 0, 0xFE, 0xFF, 0xFF, 0xFF, 0xFF, 0xFF, 0xFF, 0x7F,
         0x05, 0x66, 0x72, 0x61, 0x6D, 0x65, 0x4A, 0x70, 0x65, 0x67, 0, 1, 0, 0, 0, 0, 0x01, 0,
         0, 0, 0, 36, 36, 0, 0, 0,
         0x12, 0x70, 0x74, 0x73, 0, 0xFF, 0xFF, 0xFF, 0xFF, 0xFF, 0xFF, 0xFF, 0x7F,
         0x05, 0x66, 0x72, 0x61, 0x6D, 0x65, 0x4A, 0x70, 0x65, 0x67, 0, 2, 0, 0, 0, 0, 0x02, 0x03,
         0] := by
  obtain ⟨req, hreq⟩ : ∃ req : EmitRequest, req =
      { inputs := ["a", "b", "a"], ptsStart := Int64.maxValue - 1, interval := some "40ms",
        output := some "out" } := ⟨_, rfl⟩
  obtain ⟨world, hworld⟩ : ∃ world : World FileSystem, world =
      ⟨⟨[(["a"], .file [0x01]), (["b"], .file [0x02, 0x03])],
        [(["out"], ⟨[], ["hop"]⟩), (["hop"], ⟨[], ["b"]⟩)], [], []⟩, [], []⟩ := ⟨_, rfl⟩
  have hloop : req.loop = false := by rw [hreq]
  have hinputs : req.inputs ≠ [] := by simp [hreq]
  have houtput : req.output = some "out" := by rw [hreq]
  have hfile : Files.MakesFile world.files "out" := by
    subst hworld
    intro output made h
    cases h
    exact ⟨_, rfl⟩
  obtain ⟨emitted, hrun, hrefused, hfills⟩ := run_file hloop hinputs houtput hfile
  have hread : emitted.world.files.read "b" = .ok
      (message ⟨[0x01], Int64.maxValue - 1⟩ ++ message ⟨[0x02, 0x03], Int64.maxValue⟩) := by
    subst hreq hworld
    cases hrun
    rfl
  -- a refusal would have left what the file held
  have hnone : ∀ failure, ¬ req.Refused world.files failure := by
    intro failure h
    have hbefore := congrArg (fun world => world.files.read "b") (hrefused failure h).2
    rw [hread] at hbefore
    subst hworld
    cases hbefore
  obtain ⟨jpegs, loc, k, hall⟩ := hfills hnone
  have hk : k = 2 := by
    have hsent := hall.sent_eq
    subst hreq
    exact hsent
  exact ⟨req, world, emitted, hreq, by rw [hworld], hloop, hinputs, houtput, hfile, hrun, hnone,
    ⟨jpegs, loc, hk ▸ hall⟩, hread⟩

/-- An input that may not be read. -/
example :
    ((run { inputs := ["a", "b"], output := some "out" }
        (World.mk (F := FileSystem)
          ⟨[(["a"], .file []), (["b"], .file [])], [], [((["b"], .read), .denied)], []⟩ [] [])).map
      fun emitted => emitted.result.mapError EmitError.failure) =
    some (.error ⟨.permissionDenied, "failed reading b: Permission denied (os error 13)"⟩) := rfl

/-- An output at the end of a link into a directory that is not there. -/
example :
    ((run { inputs := ["a"], output := some "out" }
        (World.mk (F := FileSystem)
          ⟨[(["a"], .file [])], [(["out"], ⟨[], ["nodir", "x"]⟩)], [], []⟩ [] [])).map
      fun emitted => emitted.result.mapError EmitError.failure) =
    some (.error ⟨.failure, "failed creating out: No such file or directory (os error 2)"⟩) := rfl

end EmitRequest

end FrameFeed
