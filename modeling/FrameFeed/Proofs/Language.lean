import FrameFeed.Proofs.Reading
/-!
# The language of the wire

`Reading` shows that the reader undoes what encoding does. Here is the converse: bytes that the
reader accepts are the messages of the frames it returns. Inside a document nothing is left to
choose (`document?_eq_some_iff`), and the framing says where each document ends
(`split?_eq_some_iff`), so the streams that are accepted are those that encoding can write.

Main statements: `read_eq_some_iff`, what is read and what is left unread, `toList_appendAll`, what
a buffer holds after many frames, and `frames?_eq_some_iff`, the language of whole streams.
-/

namespace FrameFeed

namespace Wire

/-! ## Encoding into one buffer -/

/-- The bytes that encoding a frame leaves in an empty buffer. -/
def encoded (f : Frame) : List UInt8 := (append maxDocumentSize f #[]).2.toList

/-- A buffer once frames have been encoded to it one after another; those that are too large are
passed over. -/
def appendAll (limit : Nat) (fs : List Frame) (buffer : Array UInt8) : Array UInt8 :=
  fs.foldl (fun buffer f => (append limit f buffer).2) buffer

theorem toList_append_of_fits {limit : Nat} {f : Frame} (h : f.Fits limit)
    (buffer : Array UInt8) : (append limit f buffer).2.toList = buffer.toList ++ message f := by
  have hok : (append limit f buffer).1 = .ok () := by rw [append, documentLength_of_fits h]
  rw [toList_append, hok]
  rfl

theorem append_of_not_fits {limit : Nat} {f : Frame} (h : ¬ f.Fits limit)
    (buffer : Array UInt8) : (append limit f buffer).2 = buffer := by
  rw [append, documentLength_eq_error_iff.mpr ⟨rfl, Nat.lt_of_not_le h⟩]

/-- **A buffer grows by the messages of the frames that fit**, in order. -/
theorem toList_appendAll (limit : Nat) (fs : List Frame) (buffer : Array UInt8) :
    (appendAll limit fs buffer).toList =
      buffer.toList ++ (fs.filter (·.Fits limit)).flatMap message := by
  induction fs generalizing buffer with
  | nil => exact (List.append_nil _).symm
  | cons f fs ih =>
    have hstep : appendAll limit (f :: fs) buffer =
        appendAll limit fs (append limit f buffer).2 := rfl
    rw [hstep, ih]
    rw [List.filter_cons]
    by_cases hfits : f.Fits limit
    · rw [toList_append_of_fits hfits, if_pos (decide_eq_true hfits), List.flatMap_cons,
        List.append_assoc]
    · rw [append_of_not_fits hfits, if_neg (by simpa using hfits)]

/-- The widest limit admits whatever the length fields can describe. -/
theorem fits_maxDocumentSize_iff {f : Frame} :
    f.Fits maxDocumentSize ↔ 34 + f.jpegSize ≤ maxDocumentSize := by
  rw [Frame.Fits, cap, Nat.min_self]

/-- A frame passes the size check exactly when it fits. -/
theorem exists_documentLength_iff {limit : Nat} {f : Frame} :
    (∃ len, documentLength limit f.jpegSize = .ok len) ↔ f.Fits limit :=
  ⟨fun ⟨_, h⟩ => (documentLength_eq_ok_iff.mp h).2, fun h => ⟨_, documentLength_of_fits h⟩⟩

/-- An encoded frame that fits is its message. -/
theorem encoded_eq {f : Frame} (h : 34 + f.jpegSize ≤ maxDocumentSize) :
    encoded f = message f :=
  toList_append_of_fits (fits_maxDocumentSize_iff.mpr h) #[]

theorem flatMap_encoded_eq {fs : List Frame}
    (h : ∀ f ∈ fs, 34 + f.jpegSize ≤ maxDocumentSize) :
    fs.flatMap encoded = fs.flatMap message := by
  induction fs with
  | nil => rfl
  | cons f fs ih =>
    rw [List.flatMap_cons, List.flatMap_cons, encoded_eq (h f List.mem_cons_self),
      ih fun g hg => h g (List.mem_cons_of_mem f hg)]

namespace Reader

/-! ## What is accepted -/

/-- **A document is split off exactly where its framing length says.** -/
theorem split?_eq_some_iff {size : Nat} {bs doc rest : List UInt8} :
    split? bs = some (size, doc, rest) ↔
      size ≤ maxDocumentSize ∧ doc.length = size ∧ bs = bigEndian 4 size ++ (doc ++ rest) := by
  constructor
  · intro h
    obtain ⟨⟨word, bs'⟩, hword, h⟩ := Option.bind_eq_some_iff.mp h
    obtain ⟨⟨doc', rest'⟩, hdoc, h⟩ := Option.map_eq_some_iff.mp h
    obtain ⟨rfl, rfl, rfl⟩ : _ ∧ _ ∧ _ := by simpa using h
    obtain ⟨hlen, rfl⟩ := take?_eq_some_iff.mp hword
    obtain ⟨hsize, rfl⟩ := take?_eq_some_iff.mp hdoc
    have hlt : ofBigEndian word < wordBound word.reverse.length := ofLittleEndian_lt word.reverse
    rw [List.length_reverse, hlen] at hlt
    have hback : bigEndian 4 (ofBigEndian word) = word := by rw [← hlen, bigEndian_ofBigEndian]
    exact ⟨Nat.le_of_lt_succ hlt, hsize, by rw [hback]⟩
  · rintro ⟨hle, hlen, rfl⟩
    rw [split?_bigEndian_append hle, take?_eq_some_iff.mpr ⟨hlen, rfl⟩]
    rfl

/-- A document that was split off and read makes up the message of its frame. -/
theorem eq_message_append {size : Nat} {bs doc rest : List UInt8} {f : Frame}
    (hsplit : split? bs = some (size, doc, rest)) (hdoc : document? size doc = some f) :
    34 + f.jpegSize ≤ maxDocumentSize ∧ bs = message f ++ rest := by
  obtain ⟨-, -, rfl⟩ := split?_eq_some_iff.mp hsplit
  obtain ⟨rfl, hle, rfl⟩ := document?_eq_some_iff.mp hdoc
  exact ⟨hle, by rw [message_eq, List.append_assoc]⟩

/-- **What is read are the messages in front, and what is left does not begin with a document.** -/
theorem read_eq_some_iff {bs tail : List UInt8} {fs : List Frame} :
    read bs = some (fs, tail) ↔
      (∀ f ∈ fs, 34 + f.jpegSize ≤ maxDocumentSize) ∧ bs = fs.flatMap message ++ tail ∧
        split? tail = none := by
  constructor
  · intro h
    induction bs using read.induct generalizing fs with
    | case1 bs hnone =>
      rw [read_of_split?_eq_none hnone] at h
      cases h
      exact ⟨by simp, rfl, hnone⟩
    | case2 bs size doc rest hsplit ih =>
      rw [read] at h
      split at h
      next hnone => rw [hsplit] at hnone; cases hnone
      next size' doc' rest' hsome =>
        rw [hsplit] at hsome
        cases hsome
        obtain ⟨f, hdoc, h⟩ := Option.bind_eq_some_iff.mp h
        obtain ⟨⟨gs, tail'⟩, hrest, h⟩ := Option.map_eq_some_iff.mp h
        cases h
        obtain ⟨hgs, hbytes, htail⟩ := ih hrest
        obtain ⟨hf, hbs⟩ := eq_message_append hsplit hdoc
        refine ⟨?_, ?_, htail⟩
        · intro g hg
          rcases List.mem_cons.mp hg with rfl | hg
          · exact hf
          · exact hgs g hg
        · rw [hbs, hbytes, List.flatMap_cons, List.append_assoc]
  · rintro ⟨hfs, rfl, htail⟩
    exact read_messages_append hfs htail

/-- A stream is accepted when nothing of it is left unread. -/
theorem frames?_iff_read {bs : List UInt8} {fs : List Frame} :
    frames? bs = some fs ↔ read bs = some (fs, []) := by
  rw [frames?, Option.bind_eq_some_iff]
  constructor
  · rintro ⟨⟨fs', tail⟩, hread, h⟩
    obtain ⟨rfl, hfs⟩ := Option.ite_none_right_eq_some.mp h
    rw [hread, Option.some.inj hfs]
  · intro h
    exact ⟨_, h, if_pos rfl⟩

/-- **A stream reads as some frames exactly when it is their messages**, and each of them fits. -/
theorem frames?_iff_messages {bs : List UInt8} {fs : List Frame} :
    frames? bs = some fs ↔
      (∀ f ∈ fs, 34 + f.jpegSize ≤ maxDocumentSize) ∧ bs = fs.flatMap message := by
  rw [frames?_iff_read, read_eq_some_iff, List.append_nil]
  exact ⟨fun ⟨hfs, hbs, _⟩ => ⟨hfs, hbs⟩, fun ⟨hfs, hbs⟩ => ⟨hfs, hbs, rfl⟩⟩

/-- **The language of the wire is what encoding writes.** A byte string reads as some frames exactly
when each of them passes the size check and the string is their encodings, one after another.
Encoding what was read to one buffer gives the string back, and no other frames encode to it. -/
theorem frames?_eq_some_iff (bs : List UInt8) (fs : List Frame) :
    (frames? bs = some fs ↔
        (∀ f ∈ fs, ∃ len, documentLength maxDocumentSize f.jpegSize = .ok len) ∧
          bs = fs.flatMap encoded) ∧
      (frames? bs = some fs → (appendAll maxDocumentSize fs #[]).toList = bs) ∧
      ∀ gs : List Frame, frames? bs = some fs →
        (∀ g ∈ gs, ∃ len, documentLength maxDocumentSize g.jpegSize = .ok len) →
        bs = gs.flatMap encoded → gs = fs := by
  have hlanguage : ∀ gs : List Frame, frames? bs = some gs ↔
      (∀ g ∈ gs, ∃ len, documentLength maxDocumentSize g.jpegSize = .ok len) ∧
        bs = gs.flatMap encoded := by
    intro gs
    simp only [exists_documentLength_iff, fits_maxDocumentSize_iff]
    rw [frames?_iff_messages]
    constructor
    · rintro ⟨hgs, hbs⟩
      exact ⟨hgs, by rw [flatMap_encoded_eq hgs, hbs]⟩
    · rintro ⟨hgs, hbs⟩
      exact ⟨hgs, by rw [hbs, flatMap_encoded_eq hgs]⟩
  refine ⟨hlanguage fs, ?_, ?_⟩
  · intro h
    obtain ⟨hfs, hbs⟩ := frames?_iff_messages.mp h
    have hall : fs.filter (·.Fits maxDocumentSize) = fs :=
      List.filter_eq_self.mpr fun f hf => decide_eq_true (fits_maxDocumentSize_iff.mpr (hfs f hf))
    rw [toList_appendAll, hall, hbs]
    rfl
  · intro gs h hgs hbs
    have hread := (hlanguage gs).mpr ⟨hgs, hbs⟩
    rw [h] at hread
    exact (Option.some.inj hread).symm

end Reader

end Wire

end FrameFeed
