import FrameFeed.Emit
/-!
# What a request is refused for

A request is refused for the first thing that stands in its way, looked for in a fixed order: the
pause, then each input, read before it is measured, then the output. `EmitRequest.Refused` lists the
ways, each with all that is found in order before it. A request that is refused leaves the world as
it was, and one that is not has all its inputs loaded before its output is made.

Main statements: `exists_refused_or`, there is no other way to be refused, and `run_of_refused`,
what a refused request does.
-/

namespace FrameFeed

open Wire

variable {F : Type} [Files F]

/-! ## Refusals -/

/-- The picture at a path can be read, and its document has at most so many bytes. -/
def Files.Admits (files : F) (most : Nat) (path : String) : Prop :=
  ∃ jpeg, read files path = .ok jpeg ∧ 34 + jpeg.length ≤ most

namespace EmitRequest

/-- The most bytes that a document may have: as many as were asked for, if any number was, and never
more than 32 bits can tell. -/
def most (req : EmitRequest) : Nat := min (req.maxDocumentSize.getD 0xFFFF_FFFF) 0xFFFF_FFFF

theorem cap_limit (req : EmitRequest) : cap req.limit = req.most := rfl

/-- The pause that is asked for, if one is, is a duration. -/
def Paced (req : EmitRequest) : Prop :=
  ∀ text, req.interval = some text → ∃ pause, Duration.parse text = .ok pause

/-- What a request is refused for, and how the refusal is reported. -/
inductive Refused (req : EmitRequest) (files : F) : Failure → Prop
  /-- The pause is no duration. -/
  | interval {text : String} {e : DurationError} :
      req.interval = some text → Duration.parse text = .error e →
      Refused req files ⟨.usage, e.message⟩
  /-- An input cannot be read, those before it being admitted. -/
  | unreadable {front back : List String} {path : String} {fault : Fault} {failure : Failure} :
      req.Paced → req.inputs = front ++ path :: back →
      (∀ p ∈ front, Files.Admits files req.most p) → Files.read files path = .error fault →
      fault.Reported ("failed reading " ++ path) failure → Refused req files failure
  /-- An input does not fit in a message, those before it being admitted. -/
  | oversized {front back : List String} {path : String} {jpeg : List UInt8} {failure : Failure} :
      req.Paced → req.inputs = front ++ path :: back →
      (∀ p ∈ front, Files.Admits files req.most p) → Files.read files path = .ok jpeg →
      req.most < 34 + jpeg.length →
      (EncodeError.frameTooLarge jpeg.length req.most).Reported path failure →
      Refused req files failure
  /-- The output cannot be made, all inputs being admitted. -/
  | uncreatable {path : String} {fault : Fault} {failure : Failure} :
      req.Paced → (∀ p ∈ req.inputs, Files.Admits files req.most p) → req.output = some path →
      Files.create files path = .error fault →
      fault.Reported ("failed creating " ++ path) failure → Refused req files failure

/-- A pause that is no duration is refused. -/
theorem exists_refused_of_not_paced {req : EmitRequest} {files : F} (h : ¬ req.Paced) :
    ∃ failure, req.Refused files failure := by
  obtain ⟨text, htext⟩ := Classical.not_forall.mp h
  obtain ⟨hinterval, hpause⟩ := Classical.not_imp.mp htext
  cases hparse : Duration.parse text with
  | ok pause => exact absurd ⟨pause, hparse⟩ hpause
  | error e => exact ⟨_, .interval hinterval hparse⟩

/-- Where not all inputs are admitted, the first that is not is refused. -/
theorem exists_refused_of_not_admits {req : EmitRequest} {files : F} (hpaced : req.Paced)
    (h : ¬ ∀ p ∈ req.inputs, Files.Admits files req.most p) :
    ∃ failure, req.Refused files failure := by
  classical
  cases hfind : req.inputs.find? fun p => ¬ Files.Admits files req.most p with
  | none => exact absurd (by simpa using hfind) h
  | some path =>
    obtain ⟨hpath, front, back, hinputs, hfront⟩ := List.find?_eq_some_iff_append.mp hfind
    have hfront : ∀ p ∈ front, Files.Admits files req.most p := by simpa using hfront
    have hnot : ¬ Files.Admits files req.most path := by simpa using hpath
    cases hread : Files.read files path with
    | error fault =>
      exact ⟨_, .unreadable hpaced hinputs hfront hread (Fault.reported_iff.mpr rfl)⟩
    | ok jpeg =>
      have hlarge : req.most < 34 + jpeg.length :=
        Nat.lt_of_not_le fun hle => hnot ⟨jpeg, hread, hle⟩
      exact ⟨_, .oversized hpaced hinputs hfront hread hlarge (EncodeError.reported_iff.mpr rfl)⟩

/-- **A request is refused, or nothing stands in its way.** -/
theorem exists_refused_or (req : EmitRequest) (files : F) :
    (∃ failure, req.Refused files failure) ∨
      req.Paced ∧ (∀ p ∈ req.inputs, Files.Admits files req.most p) ∧
        ∀ path, req.output = some path → ∃ made, Files.create files path = .ok made := by
  by_cases hpaced : req.Paced
  · by_cases hadmits : ∀ p ∈ req.inputs, Files.Admits files req.most p
    · by_cases hcreates :
          ∀ path, req.output = some path → ∃ made, Files.create files path = .ok made
      · exact Or.inr ⟨hpaced, hadmits, hcreates⟩
      · obtain ⟨path, hpath⟩ := Classical.not_forall.mp hcreates
        obtain ⟨houtput, hnot⟩ := Classical.not_imp.mp hpath
        cases hcreate : Files.create files path with
        | ok made => exact absurd ⟨made, hcreate⟩ hnot
        | error fault =>
          exact Or.inl
            ⟨_, .uncreatable hpaced hadmits houtput hcreate (Fault.reported_iff.mpr rfl)⟩
    · exact Or.inl (exists_refused_of_not_admits hpaced hadmits)
  · exact Or.inl (exists_refused_of_not_paced hpaced)

theorem schedule_of_paced {req : EmitRequest} (h : req.Paced) :
    ∃ interval, req.schedule = .ok ⟨req.ptsStart, req.ptsStep, interval, req.loop⟩ := by
  rw [schedule]
  cases hinterval : req.interval with
  | none => exact ⟨none, rfl⟩
  | some text =>
    obtain ⟨pause, hparse⟩ := h text hinterval
    refine ⟨some pause, ?_⟩
    rw [Option.mapM_some, hparse]
    rfl

end EmitRequest

/-! ## Loading -/

namespace Files

variable {files : F} {req : EmitRequest}

theorem admit_of_le {path : String} {jpeg : List UInt8} (h : 34 + jpeg.length ≤ req.most) :
    Image.admit req.limit path (.ok jpeg) = .ok ⟨path, jpeg⟩ := by
  rw [← req.cap_limit] at h
  unfold Image.admit
  dsimp only
  rw [documentLength_eq_ok_iff.mpr ⟨rfl, h⟩]

theorem admit_of_lt {path : String} {jpeg : List UInt8} (h : req.most < 34 + jpeg.length) :
    Image.admit req.limit path (.ok jpeg) =
      .error (.oversized path (.frameTooLarge jpeg.length req.most)) := by
  rw [← req.cap_limit] at h ⊢
  unfold Image.admit
  dsimp only
  rw [documentLength_eq_error_iff.mpr ⟨rfl, h⟩]

/-- **Inputs that are admitted are loaded as they are**, and do not change how those behind them
are. -/
theorem images_append {front : List String} (h : ∀ p ∈ front, Admits files req.most p) :
    ∃ loaded : List Image, front.map (read files) = loaded.map (fun image => .ok image.jpeg) ∧
      (∀ image ∈ loaded, 34 + image.jpeg.length ≤ req.most) ∧
      ∀ back, images files req.limit (front ++ back) =
        (loaded ++ (images files req.limit back).1, (images files req.limit back).2) := by
  induction front with
  | nil => exact ⟨[], rfl, by simp, fun back => rfl⟩
  | cons path front ih =>
    obtain ⟨loaded, hread, hfits, hload⟩ := ih fun p hp => h p (List.mem_cons_of_mem path hp)
    obtain ⟨jpeg, hjpeg, hle⟩ := h path List.mem_cons_self
    refine ⟨⟨path, jpeg⟩ :: loaded, by rw [List.map_cons, List.map_cons, hjpeg, hread], ?_, ?_⟩
    · intro image himage
      rcases List.mem_cons.mp himage with rfl | himage
      · exact hle
      · exact hfits image himage
    · intro back
      rw [List.cons_append, images, hjpeg, admit_of_le hle, hload back]
      rfl

theorem images_of_admits {paths : List String} (h : ∀ p ∈ paths, Admits files req.most p) :
    ∃ loaded : List Image, paths.map (read files) = loaded.map (fun image => .ok image.jpeg) ∧
      (∀ image ∈ loaded, 34 + image.jpeg.length ≤ req.most) ∧
      images files req.limit paths = (loaded, none) := by
  obtain ⟨loaded, hread, hfits, hload⟩ := images_append h
  refine ⟨loaded, hread, hfits, ?_⟩
  have hall := hload []
  rw [List.append_nil, images, List.append_nil] at hall
  exact hall

/-- The first input that is not admitted ends the loading. -/
theorem exists_images_of_admit_error {front : List String} {path : String} {e : EmitError}
    (back : List String) (h : ∀ p ∈ front, Admits files req.most p)
    (hpath : Image.admit req.limit path (read files path) = .error e) :
    ∃ loaded, images files req.limit (front ++ path :: back) = (loaded, some e) := by
  obtain ⟨loaded, -, -, hload⟩ := images_append h
  refine ⟨loaded ++ [], ?_⟩
  rw [hload, images, hpath]

end Files

/-! ## Requests that are refused -/

namespace EmitRequest

variable {req : EmitRequest} {world : World F}

/-- A request whose inputs were all loaded ends where its output cannot be made. -/
theorem run_of_openOutput_error {schedule : Schedule} {images : List Image} {e : EmitError}
    (hschedule : req.schedule = .ok schedule)
    (himages : Files.images world.files req.limit req.inputs = (images, none))
    (hopen : world.openOutput req.output = .error e) :
    req.run world =
      some ⟨.error e, world, images.map fun image => .record image.loadedRecord⟩ := by
  simp only [run, hschedule, himages, hopen]

/-- And where its output was made, it sends its feed. -/
theorem run_of_openOutput {schedule : Schedule} {images : List Image} {output : Output}
    {opened : World F} (hschedule : req.schedule = .ok schedule)
    (himages : Files.images world.files req.limit req.inputs = (images, none))
    (hopen : world.openOutput req.output = .ok (output, opened)) :
    req.run world =
      (Feed.emit ⟨images, schedule⟩ req.limit output opened).map fun emitted =>
        { emitted with
          said := (images.map fun image => .record image.loadedRecord) ++ emitted.said } := by
  simp only [run, hschedule, himages, hopen]

/-- A request ends with the input that is not admitted. -/
theorem exists_run_of_admit_error {front back : List String} {path : String} {e : EmitError}
    (hpaced : req.Paced) (hinputs : req.inputs = front ++ path :: back)
    (hfront : ∀ p ∈ front, Files.Admits world.files req.most p)
    (hpath : Image.admit req.limit path (Files.read world.files path) = .error e) :
    ∃ said, req.run world = some ⟨.error e, world, said⟩ := by
  obtain ⟨interval, hschedule⟩ := schedule_of_paced hpaced
  obtain ⟨images, himages⟩ :=
    Files.exists_images_of_admit_error back hfront hpath
  refine ⟨images.map fun image => .record image.loadedRecord, ?_⟩
  rw [run, hschedule, hinputs]
  dsimp only
  rw [himages]

/-- **A request that is refused fails with the refusal and changes nothing.** -/
theorem run_of_refused {failure : Failure} (h : req.Refused world.files failure) :
    ∃ emitted, req.run world = some emitted ∧
      emitted.result.mapError EmitError.failure = .error failure ∧ emitted.world = world := by
  cases h with
  | @interval text e hinterval hparse =>
    have hschedule : req.schedule = .error (.interval e) := by
      rw [schedule, hinterval, Option.mapM_some, hparse]
      rfl
    exact ⟨_, by rw [run, hschedule], rfl, rfl⟩
  | @unreadable front back path fault _ hpaced hinputs hfront hread hreported =>
    obtain rfl := Fault.reported_iff.mp hreported
    have hadmit : Image.admit req.limit path (Files.read world.files path) =
        .error (.unreadable path fault) := by
      rw [hread, Image.admit]
    obtain ⟨said, hrun⟩ := exists_run_of_admit_error hpaced hinputs hfront hadmit
    exact ⟨_, hrun, rfl, rfl⟩
  | @oversized front back path jpeg _ hpaced hinputs hfront hread hlarge hreported =>
    obtain rfl := EncodeError.reported_iff.mp hreported
    have hadmit : Image.admit req.limit path (Files.read world.files path) =
        .error (.oversized path (.frameTooLarge jpeg.length req.most)) := by
      rw [hread, Files.admit_of_lt hlarge]
    obtain ⟨said, hrun⟩ := exists_run_of_admit_error hpaced hinputs hfront hadmit
    exact ⟨_, hrun, rfl, rfl⟩
  | @uncreatable path fault _ hpaced hinputs houtput hcreate hreported =>
    obtain rfl := Fault.reported_iff.mp hreported
    obtain ⟨interval, hschedule⟩ := schedule_of_paced hpaced
    obtain ⟨images, -, -, himages⟩ := Files.images_of_admits hinputs
    have hopen : world.openOutput req.output = .error (.uncreatable path fault) := by
      simp only [World.openOutput, houtput, hcreate]
    exact ⟨_, run_of_openOutput_error hschedule himages hopen, rfl, rfl⟩

end EmitRequest

end FrameFeed
