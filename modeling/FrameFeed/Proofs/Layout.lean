import FrameFeed.Proofs.Delivery
import FrameFeed.Wire.Layout
/-!
# The layout and the message

The layout and the pieces of a message are computed apart: one lists parts with their lengths, the
other lists bytes. Both walk the same table of fields, and field by field each part is a run of
pieces (`tiles_parts`). Where parts are tiled by pieces, spans and pieces agree on every byte.

Main statements: `phaseAt_eq`, the layout knows the phase of the piece that holds a byte, and
`exists_layout_describes`, what a layout says of a message.
-/

namespace FrameFeed

namespace Wire

/-! ## Parts as runs of pieces -/

/-- Parts one after another, each made up by a run of pieces of its phase and length. -/
inductive Tiles : List Part → List Piece → Prop
  | nil : Tiles [] []
  | cons {part : Part} {parts : List Part} {ps : List Piece} (run : List Piece) :
      (∀ p ∈ run, p.phase = part.phase) → (bytesOf run).length = part.len →
        Tiles parts ps → Tiles (part :: parts) (run ++ ps)

theorem Tiles.append {parts more : List Part} {ps qs : List Piece} (h : Tiles parts ps)
    (h' : Tiles more qs) : Tiles (parts ++ more) (ps ++ qs) := by
  induction h with
  | nil => exact h'
  | @cons part parts ps run hphase hlen _ ih =>
    rw [List.cons_append, List.append_assoc]
    exact .cons run hphase hlen ih

/-- **Each field's parts are made up by its pieces.** -/
theorem tiles_field (field : Field) (f : Frame) :
    Tiles (field.parts f.jpegSize) (field.pieces f) := by
  cases field with
  | pts =>
    exact .cons [_, _, _] (by simp) rfl (.cons [_] (by simp) rfl .nil)
  | frameJpeg =>
    exact .cons [_, _, _] (by simp) rfl (.cons [_, _] (by simp) rfl
      (.cons [_] (by simp) (by simp [Field.payloadLen, Frame.jpegSize]) .nil))

theorem tiles_fields (fields : List Field) (f : Frame) :
    Tiles (fields.flatMap (·.parts f.jpegSize)) (fields.flatMap (·.pieces f)) := by
  induction fields with
  | nil => exact .nil
  | cons field fields ih =>
    rw [List.flatMap_cons, List.flatMap_cons]
    exact (tiles_field field f).append ih

/-- **The parts of a message are made up by its pieces.** -/
theorem tiles_parts (f : Frame) : Tiles (parts f.jpegSize) (pieces f) :=
  .cons [_] (by simp) rfl (.cons [_] (by simp) rfl
    ((tiles_fields Field.all f).append (.cons [_] (by simp) rfl .nil)))

/-- Parts are as long as the pieces that make them up. -/
theorem Tiles.total_len {parts : List Part} {ps : List Piece} (h : Tiles parts ps) :
    total (parts.map Part.len) = (bytesOf ps).length := by
  induction h with
  | nil => rfl
  | @cons part parts ps run _ hlen _ ih =>
    rw [List.map_cons, total, ih, bytesOf_append, List.length_append, hlen]

/-- **Each span covers a run of pieces, all of its phase.** -/
theorem Tiles.exists_run {parts : List Part} {ps : List Piece} (h : Tiles parts ps) {base : Nat}
    {span : Span} (hspan : span ∈ place base parts) :
    ∃ front run back, ps = front ++ run ++ back ∧ (∀ p ∈ run, p.phase = span.phase) ∧
      span.offset = base + (bytesOf front).length ∧ span.len = (bytesOf run).length := by
  induction h generalizing base with
  | nil => cases hspan
  | @cons part parts ps run hphase hlen _ ih =>
    rcases List.mem_cons.mp hspan with rfl | hspan
    · exact ⟨[], run, ps, rfl, hphase, rfl, hlen.symm⟩
    · obtain ⟨front, run', back, rfl, hphase', hoffset, hlen'⟩ := ih hspan
      refine ⟨run ++ front, run', back, by simp, hphase', ?_, hlen'⟩
      rw [bytesOf_append, List.length_append, hoffset, hlen, Nat.add_assoc]

/-- **Spans and pieces agree on the phase of every byte.** -/
theorem Tiles.phase_find? {parts : List Part} {ps : List Piece} (h : Tiles parts ps)
    (base offset : Nat) :
    ((place base parts).find? (·.covers (base + offset))).map (·.phase) =
      (pieceAt ps offset).map Piece.phase := by
  induction h generalizing base offset with
  | nil => rfl
  | @cons part parts ps run hphase hlen _ ih =>
    rw [pieceAt_append, place, hlen]
    -- the byte lies in the run in front, or as far into what is tiled behind it
    by_cases hlt : offset < part.len
    · obtain ⟨p, hp⟩ := exists_pieceAt (hlen.symm ▸ hlt : offset < (bytesOf run).length)
      rw [if_pos hlt, hp, List.find?_cons_of_pos (by simp [Span.covers, Span.stop, hlt])]
      exact congrArg some (hphase p (mem_of_pieceAt hp).1).symm
    · rw [if_neg hlt, List.find?_cons_of_neg (by simp [Span.covers, Span.stop, hlt]), ← ih,
        show base + offset = base + part.len + (offset - part.len) by omega]

/-! ## Spans one after another -/

/-- Spans that lie one after another, the first from `start` on and the last up to `stop`. -/
inductive Contiguous : Nat → List Span → Nat → Prop
  | nil (offset : Nat) : Contiguous offset [] offset
  | cons (span : Span) {spans : List Span} {stop : Nat} :
      Contiguous span.stop spans stop → Contiguous span.offset (span :: spans) stop

theorem contiguous_place (base : Nat) (parts : List Part) :
    Contiguous base (place base parts) (base + total (parts.map Part.len)) := by
  induction parts generalizing base with
  | nil => exact .nil base
  | cons part parts ih =>
    rw [List.map_cons, total, ← Nat.add_assoc]
    exact .cons ⟨part, base⟩ (ih (base + part.len))

/-! ## The layout of a message -/

/-- **The layout knows the phase of the piece that holds a byte**, and knows none past the last. -/
theorem phaseAt_eq {f : Frame} {l : Layout} (h : Layout.ofSize f.jpegSize = .ok l)
    (offset : Nat) : l.phaseAt offset = (pieceAt (pieces f) offset).map Piece.phase := by
  obtain ⟨-, rfl⟩ := Layout.ofSize_eq_ok_iff.mp h
  rw [← (tiles_parts f).phase_find? 0 offset, Nat.zero_add]
  rfl

theorem messageLen_eq {f : Frame} {l : Layout} (h : Layout.ofSize f.jpegSize = .ok l) :
    l.messageLen = (message f).length := by
  obtain ⟨-, rfl⟩ := Layout.ofSize_eq_ok_iff.mp h
  rw [length_message]
  exact (Nat.add_assoc 4 34 f.jpegSize).symm

/-- The picture is the only piece of its phase. -/
theorem bytes_eq_of_payload {f : Frame} {p : Piece} (hp : p ∈ pieces f)
    (hphase : p.phase = .payload) : p.bytes = f.jpeg := by
  have honly : (pieces f).filter (·.phase = .payload) = [⟨.payload, f.jpeg⟩] := by
    rw [pieces_eq]
    rfl
  have hmem : p ∈ (pieces f).filter (·.phase = .payload) :=
    List.mem_filter.mpr ⟨hp, decide_eq_true hphase⟩
  rw [honly] at hmem
  rw [List.mem_singleton.mp hmem]

/-- The picture stands behind thirty-seven bytes of the message, and in front of one. -/
theorem message_eq_append (f : Frame) :
    ∃ front : List UInt8, front.length = 37 ∧ message f = front ++ (f.jpeg ++ [0]) := by
  refine ⟨bytesOf ((pieces f).take 11), ?_, ?_⟩
  · rw [pieces_eq]
    simp
  · rw [message, pieces_eq]
    simp

/-- **The picture begins where the layout says.** -/
theorem take_drop_payloadOffset {f : Frame} {l : Layout}
    (h : Layout.ofSize f.jpegSize = .ok l) :
    ((message f).drop l.payloadOffset).take f.jpegSize = f.jpeg := by
  obtain ⟨-, rfl⟩ := Layout.ofSize_eq_ok_iff.mp h
  obtain ⟨front, hlen, hmsg⟩ := message_eq_append f
  have hoffset : Layout.payloadOffset
      ⟨f.jpegSize, 34 + f.jpegSize, place 0 (parts f.jpegSize)⟩ = front.length := by
    rw [hlen]
    rfl
  rw [hoffset, hmsg, List.drop_left, Frame.jpegSize, List.take_left]

/-- An empty picture's span is never found, since it covers no byte. -/
theorem phaseAt_ne_payload {f : Frame} {l : Layout} (h : Layout.ofSize f.jpegSize = .ok l)
    (hempty : f.jpeg = []) (offset : Nat) : l.phaseAt offset ≠ some .payload := by
  rw [phaseAt_eq h]
  intro hphase
  obtain ⟨p, hp, hpayload⟩ := Option.map_eq_some_iff.mp hphase
  obtain ⟨hmem, hne⟩ := mem_of_pieceAt hp
  exact hne ((bytes_eq_of_payload hmem hpayload).trans hempty)

/-- A frame that is accepted adds as many bytes to a buffer as its layout is long. -/
theorem size_append {f : Frame} {l : Layout} (h : Layout.ofSize f.jpegSize = .ok l)
    {limit : Nat} {buffer : Array UInt8} (hok : (append limit f buffer).1.isOk = true) :
    (append limit f buffer).2.size = buffer.size + l.messageLen := by
  rw [← Array.length_toList, toList_append, if_pos hok, List.length_append, messageLen_eq h,
    Array.length_toList]

/-- A delivery of the pieces that comes to flush the sink has had as many bytes taken as the
layout is long. -/
theorem length_taken_of_flushed {f : Frame} {l : Layout} (h : Layout.ofSize f.jpegSize = .ok l)
    {σ : Type} {sink : Sink σ} {s : σ} {d : Delivered σ}
    (hd : deliverAll sink (pieces f) s = some d) (hflush : flushAnswers d.calls ≠ []) :
    (taken d.calls).length = l.messageLen := by
  have ha := accounts_of_deliverAll hd
  rw [messageLen_eq h, message]
  cases hend : d.ending with
  | delivered =>
    rw [hend] at ha
    rw [ha.1, bytesOf_filter]
  | unflushed fault =>
    rw [hend] at ha
    rw [ha.1, bytesOf_filter]
  | cutOff left fault =>
    rw [hend] at ha
    exact absurd ha.2.1 hflush

/-- A layout describes the message of a frame, byte for byte. -/
structure Layout.Describes (l : Layout) (f : Frame) : Prop where
  /-- It carries the length that the size check gives. -/
  documentLength_eq : documentLength maxDocumentSize f.jpegSize = .ok l.documentLen
  /-- The length of the message is that of the document and of the framing. -/
  messageLen_eq_add : l.messageLen = 4 + l.documentLen
  /-- The spans start at zero, each begins where the one before it ends, and the last ends with
  the message. -/
  contiguous : Contiguous 0 l.spans l.messageLen
  length_message_eq : (message f).length = l.messageLen
  /-- Each span is a run of consecutive pieces, all of its phase. -/
  exists_run : ∀ span ∈ l.spans, ∃ front run back,
    pieces f = front ++ run ++ back ∧ (∀ p ∈ run, p.phase = span.phase) ∧
      span.offset = (bytesOf front).length ∧ span.len = (bytesOf run).length
  /-- Every byte is held by some piece, and the layout finds that piece's phase. -/
  phaseAt_eq_some : ∀ offset < l.messageLen, ∃ p,
    pieceAt (pieces f) offset = some p ∧ l.phaseAt offset = some p.phase
  phaseAt_eq_none : ∀ offset, l.messageLen ≤ offset → l.phaseAt offset = none
  take_drop_payload : ((message f).drop l.payloadOffset).take f.jpegSize = f.jpeg
  phaseAt_ne_payload : f.jpeg = [] → ∀ offset, l.phaseAt offset ≠ some .payload
  /-- A buffer to which the frame is encoded grows by the length of the message. -/
  size_append : ∀ (limit : Nat) (buffer : Array UInt8),
    (append limit f buffer).1.isOk = true →
      (append limit f buffer).2.size = buffer.size + l.messageLen
  /-- When a sink is flushed, it has taken as many bytes as the message is long. -/
  length_taken : ∀ {σ : Type} (sink : Sink σ) (s : σ) (d : Delivered σ),
    deliverAll sink (pieces f) s = some d → flushAnswers d.calls ≠ [] →
      (taken d.calls).length = l.messageLen

/-- **The layout for a picture that fits describes the message, byte for byte.** -/
theorem exists_layout_describes {f : Frame} (h : 34 + f.jpegSize ≤ maxDocumentSize) :
    ∃ l, Layout.ofSize f.jpegSize = .ok l ∧ l.Describes f := by
  have hl := Layout.ofSize_eq_ok_iff.mpr ⟨h, rfl⟩
  refine ⟨_, hl, ?_⟩
  have hlen := messageLen_eq hl
  refine
    { documentLength_eq := documentLength_eq_ok_iff.mpr ⟨rfl, by rw [cap, Nat.min_self]; exact h⟩
      messageLen_eq_add := rfl
      contiguous := ?_
      length_message_eq := hlen.symm
      exists_run := ?_
      phaseAt_eq_some := ?_
      phaseAt_eq_none := ?_
      take_drop_payload := take_drop_payloadOffset hl
      phaseAt_ne_payload := phaseAt_ne_payload hl
      size_append := fun _ _ => size_append hl
      length_taken := fun _ _ _ => length_taken_of_flushed hl }
  · have hspans := contiguous_place 0 (parts f.jpegSize)
    rw [(tiles_parts f).total_len, Nat.zero_add] at hspans
    rw [hlen]
    exact hspans
  · intro span hspan
    obtain ⟨front, run, back, hpieces, hphase, hoffset, hrun⟩ := (tiles_parts f).exists_run hspan
    exact ⟨front, run, back, hpieces, hphase, by rw [hoffset, Nat.zero_add], hrun⟩
  · intro offset hlt
    obtain ⟨p, hp⟩ := exists_pieceAt (hlen ▸ hlt : offset < (bytesOf (pieces f)).length)
    exact ⟨p, hp, by rw [phaseAt_eq hl, hp]; rfl⟩
  · intro offset hle
    rw [phaseAt_eq hl, pieceAt_eq_none (hlen ▸ hle : (bytesOf (pieces f)).length ≤ offset)]
    rfl

/-- The layout for a picture of three bytes. -/
theorem exists_layout_describes_three :
    34 + (⟨[0x01, 0x02, 0x03], -1⟩ : Frame).jpegSize ≤ maxDocumentSize ∧
      ∃ l, Layout.ofSize 3 = .ok l ∧ l.Describes ⟨[0x01, 0x02, 0x03], -1⟩ :=
  ⟨by decide, exists_layout_describes (f := ⟨[0x01, 0x02, 0x03], -1⟩) (by decide)⟩

end Wire

end FrameFeed
