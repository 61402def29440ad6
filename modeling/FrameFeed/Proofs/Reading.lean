import FrameFeed.Proofs.Outcome
import FrameFeed.Wire.Reader
/-!
# Reading back what was sent

Each step of the reader undoes one piece of the message and hands back what follows it, so a
message in front of anything reads as its frame and the rest. A message of which some byte is
missing is not split off at all: its framing length, once that is there, asks for more.

Main statements: `read_message_append`, one message, `read_messages_append`, a stream that may be
torn at its end, and `read_stream`, whatever a writer has put on a sink up to the first cut.
-/

namespace FrameFeed

namespace Wire

namespace Reader

/-! ## One step at a time -/

theorem take?_eq_some_iff {n : Nat} {bs front rest : List UInt8} :
    take? n bs = some (front, rest) ↔ front.length = n ∧ bs = front ++ rest := by
  constructor
  · intro h
    rw [take?] at h
    split at h
    next hle =>
      cases h
      exact ⟨List.length_take_of_le hle, (List.take_append_drop n bs).symm⟩
    next => cases h
  · rintro ⟨rfl, rfl⟩
    simp [take?]

theorem take?_eq_none {n : Nat} {bs : List UInt8} (h : bs.length < n) : take? n bs = none := by
  rw [take?, if_neg (by omega)]

theorem expect?_eq_some_iff {want bs rest : List UInt8} :
    expect? want bs = some rest ↔ bs = want ++ rest := by
  rw [expect?, Option.bind_eq_some_iff]
  constructor
  · rintro ⟨⟨got, rest'⟩, htake, h⟩
    obtain ⟨-, rfl⟩ := take?_eq_some_iff.mp htake
    obtain ⟨rfl, hrest⟩ := Option.ite_none_right_eq_some.mp h
    rw [Option.some.inj hrest]
  · rintro rfl
    exact ⟨(want, rest), take?_eq_some_iff.mpr ⟨rfl, rfl⟩, if_pos rfl⟩

/-- **A length reads back**, and only from the four bytes that it is written in. -/
theorem length?_eq_some_iff {n : Nat} {bs rest : List UInt8} :
    length? bs = some (n, rest) ↔ n ≤ maxDocumentSize ∧ bs = littleEndian 4 n ++ rest := by
  rw [length?, Option.map_eq_some_iff]
  constructor
  · rintro ⟨⟨word, rest'⟩, htake, h⟩
    obtain ⟨hlen, rfl⟩ := take?_eq_some_iff.mp htake
    obtain ⟨rfl, rfl⟩ := Prod.mk.inj h
    have hlt := ofLittleEndian_lt word
    rw [hlen] at hlt
    exact ⟨Nat.le_of_lt_succ hlt, by rw [← hlen, littleEndian_ofLittleEndian]⟩
  · rintro ⟨hle, rfl⟩
    refine ⟨_, take?_eq_some_iff.mpr ⟨length_littleEndian 4 n, rfl⟩, ?_⟩
    exact Prod.ext (ofLittleEndian_littleEndian_of_lt (Nat.lt_succ_of_le hle)) rfl

/-- **A timestamp reads back**, whatever its sign, and only from its own eight bytes. -/
theorem timestamp?_eq_some_iff {pts : Int64} {bs rest : List UInt8} :
    timestamp? bs = some (pts, rest) ↔
      bs = littleEndian 8 pts.toUInt64.toNat ++ rest := by
  rw [timestamp?, Option.map_eq_some_iff]
  constructor
  · rintro ⟨⟨word, rest'⟩, htake, h⟩
    obtain ⟨hlen, rfl⟩ := take?_eq_some_iff.mp htake
    obtain ⟨rfl, rfl⟩ := Prod.mk.inj h
    have hlt := ofLittleEndian_lt word
    rw [hlen] at hlt
    rw [UInt64.toUInt64_toInt64, UInt64.toNat_ofNat_of_lt' hlt, ← hlen,
      littleEndian_ofLittleEndian]
  · rintro rfl
    refine ⟨_, take?_eq_some_iff.mpr ⟨length_littleEndian 8 _, rfl⟩, ?_⟩
    -- the signed number read and the unsigned one written are the same eight bytes
    refine Prod.ext ?_ rfl
    show (UInt64.ofNat (ofLittleEndian _)).toInt64 = pts
    rw [ofLittleEndian_littleEndian_of_lt pts.toUInt64.toNat_lt, UInt64.ofNat_toNat,
      Int64.toInt64_toUInt64]

/-! ## One message -/

/-- The document of a frame: its message without the framing. -/
def document (f : Frame) : List UInt8 := bytesOf (pieces f).tail

theorem message_eq (f : Frame) : message f = bigEndian 4 (34 + f.jpegSize) ++ document f := by
  rw [message, document, pieces_eq]
  rfl

@[simp] theorem length_document (f : Frame) : (document f).length = 34 + f.jpegSize := by
  have hlen := length_message f
  rw [message_eq, List.length_append, length_bigEndian] at hlen
  omega

/-- The document as the reader takes it apart. -/
theorem document_eq (f : Frame) :
    document f =
      littleEndian 4 (34 + f.jpegSize) ++
        (ptsName ++
          (littleEndian 8 f.pts.toUInt64.toNat ++
            (frameJpegName ++
              (littleEndian 4 f.jpegSize ++ ([0x00] ++ (f.jpeg ++ ([0x00] ++ []))))))) := by
  rw [document, pieces_eq]
  rfl

/-- **A document reads back as its frame**, and no other bytes read as that frame. -/
theorem document?_eq_some_iff {size : Nat} {bs : List UInt8} {f : Frame} :
    document? size bs = some f ↔
      size = 34 + f.jpegSize ∧ size ≤ maxDocumentSize ∧ bs = document f := by
  rw [document?, document_eq]
  constructor
  · intro h
    obtain ⟨⟨len, bs₁⟩, hlen, h⟩ := Option.bind_eq_some_iff.mp h
    dsimp only at h
    split at h
    next => cases h
    next hsize =>
      obtain ⟨bs₂, hpts, h⟩ := Option.bind_eq_some_iff.mp h
      obtain ⟨⟨pts, bs₃⟩, hstamp, h⟩ := Option.bind_eq_some_iff.mp h
      obtain ⟨bs₄, hjpeg, h⟩ := Option.bind_eq_some_iff.mp h
      obtain ⟨⟨jpegSize, bs₅⟩, hcount, h⟩ := Option.bind_eq_some_iff.mp h
      obtain ⟨bs₆, hsub, h⟩ := Option.bind_eq_some_iff.mp h
      obtain ⟨⟨jpeg, bs₇⟩, hdata, h⟩ := Option.bind_eq_some_iff.mp h
      obtain ⟨bs₈, hend, h⟩ := Option.bind_eq_some_iff.mp h
      obtain ⟨⟨rfl, htotal⟩, hf⟩ := Option.ite_none_right_eq_some.mp h
      obtain rfl := Option.some.inj hf
      -- every step says what stood in front of the bytes that it handed on
      obtain ⟨hle, rfl⟩ := length?_eq_some_iff.mp hlen
      obtain rfl := expect?_eq_some_iff.mp hpts
      obtain rfl := timestamp?_eq_some_iff.mp hstamp
      obtain rfl := expect?_eq_some_iff.mp hjpeg
      obtain ⟨-, rfl⟩ := length?_eq_some_iff.mp hcount
      obtain rfl := expect?_eq_some_iff.mp hsub
      obtain ⟨rfl, rfl⟩ := take?_eq_some_iff.mp hdata
      obtain rfl := expect?_eq_some_iff.mp hend
      obtain rfl : len = size := Decidable.not_not.mp hsize
      have hlen : len = 34 + (Frame.mk jpeg pts).jpegSize := by
        show len = 34 + jpeg.length
        omega
      exact ⟨hlen, hle, by rw [hlen]; rfl⟩
  · rintro ⟨rfl, hle, rfl⟩
    refine Option.bind_eq_some_iff.mpr ⟨_, length?_eq_some_iff.mpr ⟨hle, rfl⟩, ?_⟩
    dsimp only
    rw [if_neg (by simp)]
    refine Option.bind_eq_some_iff.mpr ⟨_, expect?_eq_some_iff.mpr rfl, ?_⟩
    refine Option.bind_eq_some_iff.mpr ⟨_, timestamp?_eq_some_iff.mpr rfl, ?_⟩
    refine Option.bind_eq_some_iff.mpr ⟨_, expect?_eq_some_iff.mpr rfl, ?_⟩
    refine Option.bind_eq_some_iff.mpr
      ⟨_, length?_eq_some_iff.mpr ⟨Nat.le_trans (Nat.le_add_left _ 34) hle, rfl⟩, ?_⟩
    refine Option.bind_eq_some_iff.mpr ⟨_, expect?_eq_some_iff.mpr rfl, ?_⟩
    refine Option.bind_eq_some_iff.mpr ⟨_, take?_eq_some_iff.mpr ⟨rfl, rfl⟩, ?_⟩
    refine Option.bind_eq_some_iff.mpr ⟨_, expect?_eq_some_iff.mpr rfl, ?_⟩
    dsimp only
    rw [if_pos ⟨rfl, by omega⟩]

/-! ## A stream of messages -/

theorem split?_bigEndian_append {size : Nat} (h : size ≤ maxDocumentSize) (bs : List UInt8) :
    split? (bigEndian 4 size ++ bs) =
      (take? size bs).map fun (doc, rest) => (size, doc, rest) := by
  have hsize : ofBigEndian (bigEndian 4 size) = size :=
    ofBigEndian_bigEndian_of_lt (Nat.lt_succ_of_le h)
  rw [split?, take?_eq_some_iff.mpr ⟨length_bigEndian 4 size, rfl⟩, Option.bind_some]
  dsimp only
  rw [hsize]

theorem split?_message_append {f : Frame} (h : 34 + f.jpegSize ≤ maxDocumentSize)
    (rest : List UInt8) :
    split? (message f ++ rest) = some (34 + f.jpegSize, document f, rest) := by
  rw [message_eq, List.append_assoc, split?_bigEndian_append h,
    take?_eq_some_iff.mpr ⟨length_document f, rfl⟩]
  rfl

/-- **A message of which some byte is missing is not split off.** Where its framing length is not
there in full there is nothing to go by, and where it is, it asks for more than there is. -/
theorem split?_take_message {f : Frame} (h : 34 + f.jpegSize ≤ maxDocumentSize) {k : Nat}
    (hk : k < (message f).length) : split? ((message f).take k) = none := by
  rw [length_message] at hk
  by_cases hframing : k < 4
  · rw [split?, take?_eq_none (by rw [List.length_take]; omega)]
    rfl
  · have htake : (message f).take k =
        bigEndian 4 (34 + f.jpegSize) ++ (document f).take (k - 4) := by
      rw [message_eq, List.take_append, length_bigEndian,
        List.take_of_length_le (by rw [length_bigEndian]; omega)]
    rw [htake, split?_bigEndian_append h,
      take?_eq_none (by rw [List.length_take, length_document]; omega)]
    rfl

/-- **A message in front of anything reads as its frame.** -/
theorem read_message_append {f : Frame} (h : 34 + f.jpegSize ≤ maxDocumentSize)
    (rest : List UInt8) :
    read (message f ++ rest) = (read rest).map fun (fs, tail) => (f :: fs, tail) := by
  have hsplit := split?_message_append h rest
  -- of the two cases in which `read` goes on or ends, the split leaves one
  rw [read]
  split
  next hnone => rw [hsplit] at hnone; cases hnone
  next size doc rest' hsome =>
    rw [hsplit] at hsome
    cases hsome
    rw [document?_eq_some_iff.mpr ⟨rfl, h, rfl⟩]
    rfl

theorem read_of_split?_eq_none {bs : List UInt8} (h : split? bs = none) :
    read bs = some ([], bs) := by
  rw [read]
  split
  next => rfl
  next size doc rest hsome => rw [h] at hsome; cases hsome

/-- **Whole messages in front of a torn one read as their frames**, and the torn one is left. -/
theorem read_messages_append {fs : List Frame} {tail : List UInt8}
    (hfs : ∀ f ∈ fs, 34 + f.jpegSize ≤ maxDocumentSize) (htail : split? tail = none) :
    read (fs.flatMap message ++ tail) = some (fs, tail) := by
  induction fs with
  | nil => exact read_of_split?_eq_none htail
  | cons f fs ih =>
    have hrest := ih fun g hg => hfs g (List.mem_cons_of_mem f hg)
    rw [List.flatMap_cons, List.append_assoc, read_message_append (hfs f List.mem_cons_self), hrest]
    rfl

/-! ## The length fields -/

/-- What stands in front of the length of the picture takes thirty-two bytes. -/
theorem exists_message_eq (f : Frame) :
    ∃ front back, message f = front ++ (littleEndian 4 f.jpegSize ++ back) ∧
      front.length = 32 := by
  refine ⟨bigEndian 4 (34 + f.jpegSize) ++ (littleEndian 4 (34 + f.jpegSize) ++
      (ptsName ++ (littleEndian 8 f.pts.toUInt64.toNat ++ frameJpegName))),
    [0x00] ++ (f.jpeg ++ ([0x00] ++ [])), ?_, ?_⟩
  · rw [message_eq, document_eq]
    simp only [List.append_assoc]
  · simp only [List.length_append, length_bigEndian, length_littleEndian]
    rfl

/-- **All three length fields read back**: the two of the document and that of the picture. -/
theorem length_fields {f : Frame} (h : 34 + f.jpegSize ≤ maxDocumentSize) :
    ofBigEndian ((message f).take 4) = 34 + f.jpegSize ∧
      ofLittleEndian (((message f).drop 4).take 4) = 34 + f.jpegSize ∧
      ofLittleEndian (((message f).drop 32).take 4) = f.jpegSize := by
  refine ⟨?_, ?_, ?_⟩
  · rw [message_eq, List.take_left' (length_bigEndian 4 _)]
    exact ofBigEndian_bigEndian_of_lt (Nat.lt_succ_of_le h)
  · rw [message_eq, List.drop_left' (length_bigEndian 4 _), document_eq,
      List.take_left' (length_littleEndian 4 _)]
    exact ofLittleEndian_littleEndian_of_lt (Nat.lt_succ_of_le h)
  · obtain ⟨front, back, heq, hlen⟩ := exists_message_eq f
    rw [heq, List.drop_left' hlen, List.take_left' (length_littleEndian 4 _)]
    exact ofLittleEndian_littleEndian_of_lt
      (Nat.lt_succ_of_le (Nat.le_trans (Nat.le_add_left _ 34) h))

end Reader

end Wire

open Wire

variable {σ : Type}

/-! ## A writer's stream -/

/-- Whether all of the message was taken: the frame arrived, or only flushing failed. -/
def tookAll : Except EncodeError Unit → Bool
  | .ok () => true
  | .error (.sinkFlush _) => true
  | .error _ => false

/-- Whether the sink stopped inside the message. -/
def stopped : Except EncodeError Unit → Bool
  | .error (.sinkWrite ..) => true
  | _ => false

namespace Outcome

variable {limit : Nat} {f : Frame} {result : Except EncodeError Unit} {calls : List Call}

theorem taken_of_tookAll (h : Outcome limit f result calls) (ht : tookAll result = true) :
    taken calls = message f ∧ f.Fits limit := by
  cases h with
  | refused => cases ht
  | arrived hfits htaken => exact ⟨htaken, hfits⟩
  | unflushed hfits htaken => exact ⟨htaken, hfits⟩
  | cutOff => cases ht

theorem taken_of_stopped (h : Outcome limit f result calls) (hs : stopped result = true) :
    tookAll result = false ∧ f.Fits limit ∧
      ∃ k < (message f).length, taken calls = (message f).take k := by
  cases h with
  | refused => cases hs
  | arrived => cases hs
  | unflushed => cases hs
  | cutOff hfits hk htaken => exact ⟨rfl, hfits, _, hk, htaken⟩

/-- Where the message was not taken and the sink did not stop, it was not called. -/
theorem taken_of_not_tookAll (h : Outcome limit f result calls) (ht : tookAll result = false)
    (hs : stopped result = false) : taken calls = [] := by
  cases h with
  | refused => rfl
  | arrived => cases ht
  | unflushed => cases ht
  | cutOff => cases hs

end Outcome

namespace Writer

/-- Sends frames one after another, up to and including the first at which the sink stops; each
frame sent, with what came of it. -/
def stream (sink : Sink σ) (w : Writer σ) : List Frame → Option (List (Frame × Stepped σ))
  | [] => some []
  | f :: fs =>
    match w.writeFrame .byPiece sink f with
    | none => none
    | some here =>
      if stopped here.result then some [(f, here)]
      else (stream sink here.writer fs).map ((f, here) :: ·)

/-- **A stream is nothing, a frame in which the sink stopped, or a frame in which it did not and a
stream after it.** -/
theorem stream_induction {sink : Sink σ}
    {motive : Writer σ → List Frame → List (Frame × Stepped σ) → Prop}
    (nil : ∀ w, motive w [] [])
    (stop : ∀ {w f fs here}, w.writeFrame .byPiece sink f = some here →
      stopped here.result = true → motive w (f :: fs) [(f, here)])
    (goOn : ∀ {w f fs here os}, w.writeFrame .byPiece sink f = some here →
      stopped here.result = false → motive here.writer fs os →
        motive w (f :: fs) ((f, here) :: os))
    {w : Writer σ} {fs : List Frame} {os : List (Frame × Stepped σ)}
    (h : w.stream sink fs = some os) : motive w fs os := by
  induction fs generalizing w os with
  | nil =>
    cases h
    exact nil w
  | cons f fs ih =>
    rw [stream] at h
    split at h
    next => cases h
    next here hhere =>
      split at h
      next hs =>
        cases h
        exact stop hhere hs
      next hs =>
        obtain ⟨os, hos, rfl⟩ := Option.map_eq_some_iff.mp h
        exact goOn hhere (Bool.eq_false_iff.mpr hs) (ih hos)

/-- **A stream is a run** of the frames that were sent, and those are the first of the list. -/
theorem run_of_stream {sink : Sink σ} {w : Writer σ} {fs : List Frame}
    {os : List (Frame × Stepped σ)} (h : w.stream sink fs = some os) :
    w.run .byPiece sink (os.map fun o => .writeFrame o.1) = some (os.map Prod.snd) ∧
      os.map Prod.fst <+: fs := by
  refine stream_induction (motive := fun w fs os =>
    w.run .byPiece sink (os.map fun o => .writeFrame o.1) = some (os.map Prod.snd) ∧
      os.map Prod.fst <+: fs) ?_ ?_ ?_ h
  · intro w
    exact ⟨rfl, List.nil_prefix⟩
  · intro w f fs here hhere _
    exact ⟨run_cons_of_step hhere rfl, List.prefix_append [f] fs⟩
  · intro w f fs here os hhere _ ih
    obtain ⟨hrun, hprefix⟩ := ih
    exact ⟨run_cons_of_step hhere hrun, (List.prefix_cons_inj f).mpr hprefix⟩

/-- The frames of a stream whose messages were taken in full. -/
def readable (os : List (Frame × Stepped σ)) : List Frame :=
  (os.filter fun o => tookAll o.2.result).map Prod.fst

theorem readable_cons (o : Frame × Stepped σ) (os : List (Frame × Stepped σ)) :
    readable (o :: os) = (if tookAll o.2.result then [o.1] else []) ++ readable os := by
  rw [readable, List.filter_cons]
  split
  next => rfl
  next => rfl

/-- Only frames that fit are taken in full. -/
theorem fits_of_readable {sink : Sink σ} {w : Writer σ} {fs : List Frame}
    {os : List (Frame × Stepped σ)} (h : w.stream sink fs = some os) :
    ∀ f ∈ readable os, f.Fits w.limit := by
  refine stream_induction (motive := fun w _ os => ∀ f ∈ readable os, f.Fits w.limit) ?_ ?_ ?_ h
  · intro w f hf
    cases hf
  · intro w f fs here hhere hs g hg
    have hall := ((outcome_of_writeFrame hhere).taken_of_stopped hs).1
    rw [readable_cons, hall] at hg
    cases hg
  · intro w f fs here os hhere _ ih g hg
    rw [readable_cons] at hg
    rcases List.mem_append.mp hg with hg | hg
    · split at hg
      next hall =>
        obtain rfl := List.mem_singleton.mp hg
        exact ((outcome_of_writeFrame hhere).taken_of_tookAll hall).2
      next => cases hg
    · rw [← limit_of_writeFrame hhere]
      exact ih g hg

/-- **A stream puts whole messages on the sink**, those of its readable frames, and behind them
the part that was taken of the message in which the sink stopped. -/
theorem bytes_of_stream {sink : Sink σ} {w : Writer σ} {fs : List Frame}
    {os : List (Frame × Stepped σ)} (h : w.stream sink fs = some os) :
    ∃ tail,
      (os.flatMap fun o => taken o.2.calls) = (readable os).flatMap message ++ tail ∧
        ((∀ o ∈ os, stopped o.2.result = false) → tail = []) ∧
        (∀ o ∈ os, stopped o.2.result = true →
          o.1.Fits w.limit ∧ ∃ k < (message o.1).length, tail = (message o.1).take k) := by
  refine stream_induction (motive := fun w _ os =>
    ∃ tail,
      (os.flatMap fun o => taken o.2.calls) = (readable os).flatMap message ++ tail ∧
        ((∀ o ∈ os, stopped o.2.result = false) → tail = []) ∧
        (∀ o ∈ os, stopped o.2.result = true →
          o.1.Fits w.limit ∧ ∃ k < (message o.1).length, tail = (message o.1).take k)) ?_ ?_ ?_ h
  · intro w
    exact ⟨[], rfl, fun _ => rfl, by simp⟩
  · -- the torn message is all that this frame adds, and no frame comes after it
    intro w f fs here hhere hs
    obtain ⟨hall, hfits, k, hk, htaken⟩ := (outcome_of_writeFrame hhere).taken_of_stopped hs
    refine ⟨taken here.calls, ?_, ?_, ?_⟩
    · simp [readable, hall]
    · intro hnone
      rw [hnone _ List.mem_cons_self] at hs
      cases hs
    · intro o hmem _
      obtain rfl := List.mem_singleton.mp hmem
      exact ⟨hfits, k, hk, htaken⟩
  · intro w f fs here os hhere hs ih
    obtain ⟨tail, hbytes, hnone, hstop⟩ := ih
    have ho := outcome_of_writeFrame hhere
    rw [limit_of_writeFrame hhere] at hstop
    refine ⟨tail, ?_, ?_, ?_⟩
    · rw [List.flatMap_cons, hbytes, readable_cons]
      by_cases hall : tookAll here.result
      · rw [if_pos hall, (ho.taken_of_tookAll hall).1]
        simp
      · rw [if_neg hall, ho.taken_of_not_tookAll (by simpa using hall) hs]
        rfl
    · intro hos
      exact hnone fun o hmem => hos o (List.mem_cons_of_mem _ hmem)
    · intro o hmem hstopped
      rcases List.mem_cons.mp hmem with rfl | hmem
      · rw [hs] at hstopped
        cases hstopped
      · exact hstop o hmem hstopped

/-- **A stream reads back**, torn or not: the reader accepts what the sink took and returns the
frames whose messages were taken in full, with their pictures and timestamps. It leaves nothing
where the sink did not stop, and where it did a part of the message in which it stopped. The length
fields of every message that is read say how long its document and its picture are. -/
theorem read_stream {sink : Sink σ} {w : Writer σ} {fs : List Frame}
    {os : List (Frame × Stepped σ)} (h : w.stream sink fs = some os) :
    ∃ tail,
      Reader.read (os.flatMap fun o => taken o.2.calls) = some (readable os, tail) ∧
        ((∀ o ∈ os, stopped o.2.result = false) → tail = []) ∧
        (∀ o ∈ os, stopped o.2.result = true → tail <+: message o.1 ∧ tail ≠ message o.1) ∧
        ∀ f ∈ readable os,
          ofBigEndian ((message f).take 4) = 34 + f.jpegSize ∧
            ofLittleEndian (((message f).drop 4).take 4) = 34 + f.jpegSize ∧
            ofLittleEndian (((message f).drop 32).take 4) = f.jpegSize := by
  obtain ⟨tail, hbytes, hnone, hstop⟩ := bytes_of_stream h
  have hfs : ∀ f ∈ readable os, 34 + f.jpegSize ≤ maxDocumentSize :=
    fun f hf => Nat.le_trans (fits_of_readable h f hf) (cap_le w.limit)
  have htail : Reader.split? tail = none := by
    by_cases hcut : ∃ o ∈ os, stopped o.2.result = true
    · obtain ⟨o, ho, hs⟩ := hcut
      obtain ⟨hfits, k, hk, rfl⟩ := hstop o ho hs
      exact Reader.split?_take_message (Nat.le_trans hfits (cap_le w.limit)) hk
    · rw [hnone fun o ho => Bool.eq_false_iff.mpr fun hs => hcut ⟨o, ho, hs⟩]
      rfl
  refine ⟨tail, ?_, hnone, ?_, fun f hf => Reader.length_fields (hfs f hf)⟩
  · rw [hbytes]
    exact Reader.read_messages_append hfs htail
  · intro o ho hs
    obtain ⟨-, k, hk, rfl⟩ := hstop o ho hs
    refine ⟨List.take_prefix k _, fun heq => ?_⟩
    have hlen := congrArg List.length heq
    rw [List.length_take] at hlen
    omega

/-- A store with room for a hundred bytes gets a frame that it fails to flush, one that is too
large, one that arrives and one that it stops inside; the last frame of the list is not sent. -/
theorem read_stream_torn :
    ∃ os,
      (Writer.new ⟨#[], { flushes := [.failed (.ofKind .timedOut)], chunk := some 5,
                          limit := some 100 }⟩ 36).stream Script.sink
        [⟨[0x01], -1⟩, ⟨[0x01, 0x02, 0x03], 0⟩, ⟨[0x02], 40⟩, ⟨[0x03], 80⟩, ⟨[], 120⟩] = some os ∧
      os.map (·.2.result) =
        [.error (.sinkFlush (.ofKind .timedOut)), .error (.frameTooLarge 3 36), .ok (),
          .error (.sinkWrite .fieldName (.ofKind .writeZero))] ∧
      ∃ tail,
        Reader.read (os.flatMap fun o => taken o.2.calls) = some (readable os, tail) ∧
          ((∀ o ∈ os, stopped o.2.result = false) → tail = []) ∧
          (∀ o ∈ os, stopped o.2.result = true → tail <+: message o.1 ∧ tail ≠ message o.1) ∧
          ∀ f ∈ readable os,
            ofBigEndian ((message f).take 4) = 34 + f.jpegSize ∧
              ofLittleEndian (((message f).drop 4).take 4) = 34 + f.jpegSize ∧
              ofLittleEndian (((message f).drop 32).take 4) = f.jpegSize := by
  obtain ⟨os, hos, hresults⟩ := Option.map_eq_some_iff.mp
    (show ((Writer.new ⟨#[], { flushes := [.failed (.ofKind .timedOut)], chunk := some 5,
                               limit := some 100 }⟩ 36).stream Script.sink
        [⟨[0x01], -1⟩, ⟨[0x01, 0x02, 0x03], 0⟩, ⟨[0x02], 40⟩, ⟨[0x03], 80⟩, ⟨[], 120⟩]).map
          (List.map (·.2.result)) =
      some [.error (.sinkFlush (.ofKind .timedOut)), .error (.frameTooLarge 3 36), .ok (),
        .error (.sinkWrite .fieldName (.ofKind .writeZero))] by rfl)
  exact ⟨os, hos, hresults, read_stream hos⟩

end Writer

end FrameFeed
