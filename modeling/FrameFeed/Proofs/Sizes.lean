import FrameFeed.Proofs.Refusal
import FrameFeed.Proofs.Returning
import FrameFeed.Wire.Machine
import Mathlib.Data.List.Find
/-!
# Sizes are exact

What is computed in machine words is what is meant. A sum that is checked is found just when it has
a word; a document is measured with such sums, under a limit that is a word of 32 bits, and so
whatever is measured is small enough for the sums and casts behind the check.

Main statements: `Machine.documentLength_eq`, the check, `Machine.exact_of_documentLength`, what is
computed behind it, and `size_law`, both together with every place where a frame is let in.
-/

namespace FrameFeed

open Wire

namespace Wire.Machine

/-! ## Checked sums -/

/-- **A checked sum is found just when it has a word**, and is exact. -/
theorem add?_eq_some_iff {a b c : UInt64} : add? a b = some c ↔ c.toNat = a.toNat + b.toNat := by
  have ha := a.toNat_lt
  have hb := b.toNat_lt
  have hc := c.toNat_lt
  have hsum : (a + b).toNat = (a.toNat + b.toNat) % 2 ^ 64 := UInt64.toNat_add a b
  rw [add?]
  split
  next hlt =>
    rw [UInt64.lt_iff_toNat_lt] at hlt
    constructor
    · intro h
      cases h
    · intro h
      omega
  next hge =>
    rw [UInt64.lt_iff_toNat_lt] at hge
    rw [Option.some.injEq, ← UInt64.toNat_inj]
    omega

/-- **So is a sum of many**: partial sums are never greater. -/
theorem sum?_eq_some_iff {first c : UInt64} {ns : List UInt64} :
    sum? first ns = some c ↔ c.toNat = first.toNat + total (ns.map UInt64.toNat) := by
  induction ns generalizing first with
  | nil =>
    rw [sum?, List.foldlM_nil]
    show some first = some c ↔ _
    rw [Option.some.injEq, ← UInt64.toNat_inj]
    exact eq_comm
  | cons n ns ih =>
    rw [sum?, List.foldlM_cons]
    show (add? first n).bind (sum? · ns) = some c ↔ _
    rw [Option.bind_eq_some_iff]
    simp only [ih, add?_eq_some_iff, List.map_cons, total]
    constructor
    · rintro ⟨next, hnext, hc⟩
      omega
    · intro hc
      have hle : first.toNat + n.toNat ≤ c.toNat := by omega
      have hnext : (UInt64.ofNat (first.toNat + n.toNat)).toNat = first.toNat + n.toNat :=
        UInt64.toNat_ofNat_of_lt' (Nat.lt_of_le_of_lt hle c.toNat_lt)
      exact ⟨_, hnext, by omega⟩

/-- A sum that is not found is greater than any word. -/
theorem le_of_sum?_eq_none {first : UInt64} {ns : List UInt64} (h : sum? first ns = none) :
    UInt64.size ≤ first.toNat + total (ns.map UInt64.toNat) := by
  refine Nat.le_of_not_lt fun hlt => ?_
  have hsome : sum? first ns = some (.ofNat (first.toNat + total (ns.map UInt64.toNat))) :=
    sum?_eq_some_iff.mpr (UInt64.toNat_ofNat_of_lt' hlt)
  rw [h] at hsome
  cases hsome

/-- A number is narrowed just when 32 bits are enough, and stays the same. -/
theorem narrow?_eq_some_iff {n : UInt64} {w : UInt32} : narrow? n = some w ↔ w.toNat = n.toNat := by
  have hw := w.toNat_lt
  have hn : n.toUInt32.toNat = n.toNat % 2 ^ 32 := UInt64.toNat_toUInt32 n
  rw [narrow?]
  split
  next heq =>
    rw [← UInt64.toNat_inj, UInt32.toNat_toUInt64] at heq
    rw [Option.some.injEq, ← UInt32.toNat_inj]
    omega
  next hne =>
    rw [← UInt64.toNat_inj, UInt32.toNat_toUInt64] at hne
    constructor
    · intro h
      cases h
    · intro h
      omega

/-! ## The check -/

/-- The limit in force is the one that is meant, and has a word of 32 bits. -/
theorem toNat_cap (limit : UInt64) : (cap limit).toNat = Wire.cap limit.toNat := by
  have hmax : (UInt64.ofNat maxDocumentSize).toNat = maxDocumentSize := rfl
  have hle := @UInt64.le_iff_toNat_le limit (.ofNat maxDocumentSize)
  rw [hmax] at hle
  show (if limit ≤ .ofNat maxDocumentSize then limit else .ofNat maxDocumentSize).toNat = _
  split
  next h => exact (Nat.min_eq_left (hle.mp h)).symm
  next h => exact hmax.trans (Nat.min_eq_right (Nat.le_of_not_le (mt hle.mpr h))).symm

/-- The sizes that the check adds up come to that of the document. -/
theorem sizes_eq (jpegSize : UInt64) :
    (UInt64.ofNat documentOverhead).toNat +
        total ((Field.all.map fun field => UInt64.ofNat (field.payloadLen jpegSize.toNat)).map
          UInt64.toNat) = documentSize jpegSize.toNat := by
  have hoverhead : (UInt64.ofNat documentOverhead).toNat = documentOverhead := rfl
  rw [hoverhead, documentSize, List.map_map]
  congr 2
  refine List.map_congr_left fun field _ => UInt64.toNat_ofNat_of_lt' ?_
  cases field with
  | pts => exact Nat.zero_lt_of_lt jpegSize.toNat_lt
  | frameJpeg => exact jpegSize.toNat_lt

/-- **The check decides as it would if every number had a word.** -/
theorem documentLength_eq (limit jpegSize : UInt64) :
    (documentLength limit jpegSize).map UInt32.toNat =
      Wire.documentLength limit.toNat jpegSize.toNat := by
  have hcap := toNat_cap limit
  have hmax : Wire.cap limit.toNat < 2 ^ 32 := Nat.lt_succ_of_le (cap_le limit.toNat)
  rw [documentLength, Wire.documentLength, ← hcap]
  split
  next hnone =>
    have hlarge := le_of_sum?_eq_none hnone
    simp only [sizes_eq, UInt64.size] at hlarge
    rw [if_neg (by omega)]
    rfl
  next len hlen =>
    rw [sum?_eq_some_iff, sizes_eq] at hlen
    rw [← hlen]
    split
    next hlt =>
      rw [if_neg (Nat.not_le_of_lt (UInt64.lt_iff_toNat_lt.mp hlt))]
      rfl
    next hge =>
      have hle : len.toNat ≤ (cap limit).toNat :=
        Nat.le_of_not_lt (mt UInt64.lt_iff_toNat_lt.mpr hge)
      -- what is within the limit has a word of 32 bits
      have hnarrow : narrow? len = some len.toUInt32 := by
        rw [narrow?_eq_some_iff, UInt64.toNat_toUInt32]
        exact Nat.mod_eq_of_lt (by omega)
      rw [if_pos hle, hnarrow]
      exact congrArg Except.ok (narrow?_eq_some_iff.mp hnarrow)

/-- **A picture fits exactly when its document stays within the limit in force.** -/
theorem documentLength_eq_ok_iff {limit jpegSize : UInt64} {len : UInt32} :
    documentLength limit jpegSize = .ok len ↔
      len.toNat = 34 + jpegSize.toNat ∧ 34 + jpegSize.toNat ≤ Wire.cap limit.toNat := by
  rw [← Wire.documentLength_eq_ok_iff, ← documentLength_eq]
  cases documentLength limit jpegSize with
  | error e => simp [Except.map]
  | ok found => simp [Except.map, UInt32.toNat_inj]

/-- A picture is refused with its own size and the limit in force. -/
theorem documentLength_eq_error_iff {limit jpegSize : UInt64} {e : EncodeError} :
    documentLength limit jpegSize = .error e ↔
      e = .frameTooLarge jpegSize.toNat (Wire.cap limit.toNat) ∧
        Wire.cap limit.toNat < 34 + jpegSize.toNat := by
  rw [← Wire.documentLength_eq_error_iff, ← documentLength_eq]
  cases documentLength limit jpegSize <;> simp [Except.map]

/-- A sum that would wrap around to a small one is not taken for it. -/
example : documentLength (.ofNat (2 ^ 64 - 1)) (.ofNat (2 ^ 64 - 10)) =
    .error (.frameTooLarge (2 ^ 64 - 10) maxDocumentSize) := by rfl

/-! ## Behind the check -/

/-- A span without bounds on words. -/
def Span.exact (s : Span) : Wire.Span :=
  { phase := s.phase, label := s.label, len := s.len.toNat, offset := s.offset.toNat }

/-- A layout without bounds on words. -/
def Layout.exact (l : Layout) : Wire.Layout :=
  { jpegSize := l.jpegSize.toNat
    documentLen := l.documentLen.toNat
    spans := l.spans.map Span.exact }

/-- **Parts are placed exactly** where the offset behind the last of them has a word. -/
theorem place_exact {offset : UInt64} {ps : List Part}
    (h : offset.toNat + total (ps.map Part.len) < UInt64.size) :
    (place offset ps).map Span.exact = Wire.place offset.toNat ps ∧
      ∀ s ∈ place offset ps, s.stop.toNat = s.exact.stop ∧
        s.exact.stop ≤ offset.toNat + total (ps.map Part.len) := by
  induction ps generalizing offset with
  | nil => simp [place, Wire.place]
  | cons p ps ih =>
    rw [List.map_cons, total] at h ⊢
    have hlen : (UInt64.ofNat p.len).toNat = p.len :=
      UInt64.toNat_ofNat_of_lt' (Nat.lt_of_le_of_lt (by omega : p.len ≤ _) h)
    have hnext : (offset + UInt64.ofNat p.len).toNat = offset.toNat + p.len := by
      rw [UInt64.toNat_add, hlen]
      exact Nat.mod_eq_of_lt (Nat.lt_of_le_of_lt (by omega) h)
    obtain ⟨hspans, hstops⟩ := @ih (offset + UInt64.ofNat p.len) (by omega)
    rw [hnext] at hspans hstops
    rw [place, Wire.place]
    constructor
    · rw [List.map_cons, hspans, Span.exact, hlen]
    · intro s hs
      rcases List.mem_cons.mp hs with rfl | hs
      · have hstop : (⟨p.phase, p.label, offset, .ofNat p.len⟩ : Span).exact.stop =
            offset.toNat + p.len := congrArg (offset.toNat + ·) hlen
        rw [Span.stop, hnext, hstop]
        exact ⟨rfl, by omega⟩
      · have hstop := hstops s hs
        omega

/-- The parts of a message come to its length. -/
theorem total_parts (jpegSize : Nat) : total ((parts jpegSize).map Part.len) = 38 + jpegSize := by
  have hparts : total ((parts jpegSize).map Part.len) =
      4 + (4 + (5 + (8 + (11 + (5 + (jpegSize + (1 + 0))))))) := rfl
  omega

/-- A layout in words that says what the layout of its picture says. -/
structure Layout.Faithful (l : Layout) : Prop where
  /-- All offsets and lengths are those that are meant, -/
  ofSize_eq : Wire.Layout.ofSize l.jpegSize.toNat = .ok l.exact
  messageLen_eq : l.messageLen.toNat = l.exact.messageLen
  /-- each span ends where it should, within the message, -/
  stop_eq : ∀ s ∈ l.spans, s.stop.toNat = s.exact.stop ∧ s.exact.stop ≤ l.exact.messageLen
  /-- and so the picture and the phase of any byte are found where they should be. -/
  payloadOffset_eq : l.payloadOffset.toNat = l.exact.payloadOffset
  phaseAt_eq : ∀ offset : UInt64, l.phaseAt offset = l.exact.phaseAt offset.toNat

/-- What is computed without a check for a picture whose document was measured. -/
structure Exact (jpegSize : UInt64) (documentLen : UInt32) : Prop where
  /-- The picture's size is not cut down. -/
  cast_eq : jpegSize.toUInt32.toNat = jpegSize.toNat
  /-- The framing and the document have a word together. -/
  add_eq : (.ofNat framingSize + documentLen.toUInt64 : UInt64).toNat =
    framingSize + documentLen.toNat
  /-- There is a layout, with this length of the document, and nothing in it wraps around. -/
  layout : ∃ l, Layout.ofSize jpegSize = .ok l ∧ l.jpegSize = jpegSize ∧
    l.documentLen = documentLen ∧ l.Faithful
  /-- What is written is the message that is meant. -/
  pieces_eq : ∀ f : Frame, f.jpegSize = jpegSize.toNat → pieces documentLen f = Wire.pieces f

/-- A layout is faithful as soon as its numbers are. -/
theorem Layout.faithful {l : Layout} (h : Wire.Layout.ofSize l.jpegSize.toNat = .ok l.exact)
    (hlen : l.messageLen.toNat = l.exact.messageLen)
    (hstops : ∀ s ∈ l.spans, s.stop.toNat = s.exact.stop ∧ s.exact.stop ≤ l.exact.messageLen) :
    l.Faithful := by
  have hcovers : ∀ (offset : UInt64) (s : Span), s ∈ l.spans →
      s.covers offset = s.exact.covers offset.toNat := by
    intro offset s hs
    have hstart : decide (s.offset ≤ offset) = decide (s.exact.offset ≤ offset.toNat) :=
      decide_eq_decide.mpr UInt64.le_iff_toNat_le
    have hstop : decide (offset < s.stop) = decide (offset.toNat < s.exact.stop) := by
      rw [decide_eq_decide, UInt64.lt_iff_toNat_lt, (hstops s hs).1]
    rw [Span.covers, Wire.Span.covers, hstart, hstop]
  refine ⟨h, hlen, hstops, ?_, fun offset => ?_⟩
  · rw [payloadOffset, Wire.Layout.payloadOffset, exact, List.find?_map, Option.map_map]
    show _ = ((l.spans.find? (·.phase = .payload)).map _).getD 0
    cases l.spans.find? (·.phase = .payload) <;> rfl
  · rw [phaseAt, Wire.Layout.phaseAt, exact, List.find?_map, Option.map_map,
      List.find?_congr (hcovers offset)]
    rfl

/-- The framing and a document always have a word together. -/
theorem toNat_framing_add (documentLen : UInt32) :
    (.ofNat framingSize + documentLen.toUInt64 : UInt64).toNat =
      framingSize + documentLen.toNat := by
  have hlt := documentLen.toNat_lt
  have hframing : (UInt64.ofNat framingSize).toNat = 4 := rfl
  rw [UInt64.toNat_add, UInt32.toNat_toUInt64, hframing, framingSize]
  omega

/-- A measured picture has a layout, and the layout is exact. -/
theorem exists_ofSize {jpegSize : UInt64} {documentLen : UInt32}
    (h : documentLength (.ofNat maxDocumentSize) jpegSize = .ok documentLen) :
    ∃ l, Layout.ofSize jpegSize = .ok l ∧ l.jpegSize = jpegSize ∧ l.documentLen = documentLen ∧
      l.Faithful := by
  obtain ⟨hlen, hle⟩ := documentLength_eq_ok_iff.mp h
  have hmax : 34 + jpegSize.toNat ≤ maxDocumentSize := hle
  have hsum := toNat_framing_add documentLen
  have hadd : add? documentLen.toUInt64 (.ofNat framingSize) =
      some (.ofNat framingSize + documentLen.toUInt64) := by
    rw [add?_eq_some_iff, hsum, UInt32.toNat_toUInt64, Nat.add_comm]
    rfl
  have hsmall : (0 : UInt64).toNat + total ((parts jpegSize.toNat).map Part.len) < UInt64.size := by
    rw [total_parts, UInt64.toNat_zero, UInt64.size]
    simp only [maxDocumentSize] at hmax
    omega
  obtain ⟨hspans, hstops⟩ := place_exact hsmall
  refine ⟨_, by rw [Layout.ofSize, h]; dsimp only; rw [hadd], rfl, rfl,
    Layout.faithful ?_ hsum fun s hs => ⟨(hstops s hs).1, Nat.le_trans (hstops s hs).2 ?_⟩⟩
  · rw [Layout.ofSize_eq_ok_iff, Layout.exact, hspans, hlen]
    exact ⟨hmax, rfl⟩
  · show 0 + total ((parts jpegSize.toNat).map Part.len) ≤ framingSize + documentLen.toNat
    rw [total_parts, hlen, framingSize]
    omega

/-- There is a layout exactly when the check accepts the picture under the greatest limit. -/
theorem ofSize_eq_error_iff {jpegSize : UInt64} {e : EncodeError} :
    Layout.ofSize jpegSize = .error e ↔
      documentLength (.ofNat maxDocumentSize) jpegSize = .error e := by
  cases h : documentLength (.ofNat maxDocumentSize) jpegSize with
  | error e' => rw [Layout.ofSize, h]; simp
  | ok documentLen =>
    obtain ⟨l, hl, -⟩ := exists_ofSize h
    rw [hl]
    simp

/-- **Nothing behind the check wraps around or is cut down**, under whatever limit it was made. -/
theorem exact_of_documentLength {limit jpegSize : UInt64} {documentLen : UInt32}
    (h : documentLength limit jpegSize = .ok documentLen) : Exact jpegSize documentLen := by
  obtain ⟨hlen, hle⟩ := documentLength_eq_ok_iff.mp h
  have hmax : 34 + jpegSize.toNat ≤ maxDocumentSize := Nat.le_trans hle (cap_le _)
  have hcast : jpegSize.toUInt32.toNat = jpegSize.toNat := by
    rw [UInt64.toNat_toUInt32]
    simp only [maxDocumentSize] at hmax
    exact Nat.mod_eq_of_lt (by omega)
  refine
    { cast_eq := hcast
      add_eq := toNat_framing_add documentLen
      layout := exists_ofSize (documentLength_eq_ok_iff.mpr ⟨hlen, hmax⟩)
      pieces_eq := fun f hf => ?_ }
  have hword : UInt64.ofNat f.jpegSize = jpegSize := by rw [hf, UInt64.ofNat_toNat]
  have hfields : (fieldPieces · f) = (Field.pieces · f) := by
    funext field
    cases field with
    | pts => rfl
    | frameJpeg => rw [fieldPieces, Field.pieces, hword, hcast, hf]
  rw [pieces, Wire.pieces, hfields, documentSize_eq, hlen, hf]

end Wire.Machine

/-! ## Where frames are let in -/

variable {σ : Type}

/-- The check decides what comes of a frame that is sent under a limit: `came` is the result and the
calls, if sending returns. -/
structure Decides (check : Except EncodeError UInt32) (offering : Offering) (limit : Nat)
    (sink : Sink σ) (f : Frame) (s : σ) (came : Option (Except EncodeError Unit × List Call)) :
    Prop where
  /-- A frame that it refuses is refused with the same failure and without a call. -/
  refused : ∀ e, check = .error e → came = some (.error e, [])
  /-- One that it accepts is put before the sink from its first byte on, and is not too large. -/
  accepted : ∀ len, check = .ok len → ∀ result calls, came = some (result, calls) →
    (∃ offer answer rest, calls = .write offer answer :: rest ∧ offer ≠ [] ∧
      offer <+: message f) ∧
    ∀ n max, result ≠ .error (.frameTooLarge n max)
  /-- And sending returns, if the retries among its calls are sat through. -/
  returns : ∀ I J K, I + J + K ≤ sink.patience s →
    (∀ n, RetriesWithin I J K (offering.attempt limit sink f s n)) → came.isSome = true

/-- **The check decides what comes of sending a frame**, however it is offered. -/
theorem decides_send (limit jpegSize : UInt64) (offering : Offering) (sink : Sink σ) (s : σ)
    {f : Frame} (hf : f.jpegSize = jpegSize.toNat) :
    Decides (Machine.documentLength limit jpegSize) offering limit.toNat sink f s
      ((send offering limit.toNat sink f s).map fun sent => (sent.result, sent.calls)) := by
  constructor
  · intro e he
    obtain ⟨rfl, hlarge⟩ := Machine.documentLength_eq_error_iff.mp he
    rw [← hf] at hlarge ⊢
    rw [send_frameTooLarge hlarge]
    rfl
  · intro len hlen result calls hcame
    have hfits : f.Fits limit.toNat := by
      show 34 + f.jpegSize ≤ cap limit.toNat
      rw [hf]
      exact (Machine.documentLength_eq_ok_iff.mp hlen).2
    obtain ⟨sent, hsent, hpair⟩ := Option.map_eq_some_iff.mp hcame
    obtain ⟨rfl, rfl⟩ := Prod.mk.inj hpair
    obtain ⟨⟨last, hlast, -⟩, n, hcalls⟩ := calls_of_send hfits hsent
    obtain ⟨k, law⟩ := (outcome_of_send hsent).law
    refine ⟨?_, fun n max hresult => ((law.frameTooLarge_iff n max).mp hresult).1 hfits⟩
    have hdisciplined := offering.disciplined_calls sink f s n
    rw [← hcalls] at hdisciplined
    cases hsplit : sent.calls with
    | nil =>
      rw [hsplit] at hlast
      cases hlast
    | cons call rest =>
      rw [hsplit] at hdisciplined
      have hbytes : message f ≠ [] := by
        rw [← List.length_pos_iff, length_message]
        omega
      obtain ⟨offer, answer, rfl, hoffer⟩ := hdisciplined.exists_first hbytes
      exact ⟨offer, answer, rest, rfl, hoffer⟩
  · intro I J K hpatience hretries
    obtain ⟨sent, hsent, -⟩ := exists_send_of_retriesWithin hpatience hretries
    rw [hsent]
    rfl

/-- So it does with a writer. -/
theorem decides_writeFrame {limit jpegSize : UInt64} (offering : Offering) (sink : Sink σ)
    {w : Writer σ} {f : Frame} (hw : w.limit = limit.toNat) (hf : f.jpegSize = jpegSize.toNat) :
    Decides (Machine.documentLength limit jpegSize) offering limit.toNat sink f w.sink
      ((w.writeFrame offering sink f).map fun o => (o.result, o.calls)) := by
  have h := decides_send limit jpegSize offering sink w.sink hf
  rw [Writer.writeFrame, hw, Option.map_map]
  exact h

/-- And with a composer. -/
theorem Composer.decides_writeFrame {limit jpegSize : UInt64} (sink : Sink σ) {c : Composer σ}
    {f : Frame} (hc : c.limit = limit.toNat) (hf : f.jpegSize = jpegSize.toNat) :
    Decides (Machine.documentLength limit jpegSize) .whole limit.toNat sink f c.sink
      ((c.writeFrame sink f).map fun o => (o.result, o.calls)) := by
  have h := FrameFeed.decides_writeFrame .whole sink hc hf
  rw [← forget_writeFrame, Option.map_map] at h
  exact h

/-- A message is put in a buffer as it is meant to be. -/
theorem append_eq (limit : UInt64) {jpegSize : UInt64} {f : Frame}
    (hf : f.jpegSize = jpegSize.toNat) (buffer : Array UInt8) :
    Machine.append limit f buffer = append limit.toNat f buffer := by
  have hword : UInt64.ofNat f.jpegSize = jpegSize := by rw [hf, UInt64.ofNat_toNat]
  rw [Machine.append, append, hword, hf, ← Machine.documentLength_eq]
  cases hcheck : Machine.documentLength limit jpegSize with
  | error e => rfl
  | ok documentLen =>
    have hpieces := (Machine.exact_of_documentLength hcheck).pieces_eq f hf
    dsimp only
    rw [hpieces]
    rfl

/-- **An image is loaded exactly when the check accepts its size.** -/
theorem Files.load_cons {F : Type} [Files F] {files : F} {limit jpegSize : UInt64} {path : String}
    {jpeg : List UInt8} (paths : List String) (hread : read files path = .ok jpeg)
    (hsize : jpeg.length = jpegSize.toNat) :
    load files limit.toNat (path :: paths) =
      ((Machine.documentLength limit jpegSize).mapError (.oversized path)).bind fun _ =>
        (load files limit.toNat paths).map (⟨path, jpeg⟩ :: ·) := by
  rw [load, images, hread, Image.admit, hsize, ← Machine.documentLength_eq]
  cases Machine.documentLength limit jpegSize with
  | error e => rfl
  | ok len =>
    rw [load]
    rcases images files limit.toNat paths with ⟨loaded, - | e⟩ <;> rfl

/-! ## The whole law -/

/-- What is decided about a picture of `jpegSize` bytes under a limit that is asked for, and what is
then computed. -/
structure SizeLaw (limit jpegSize : UInt64) : Prop where
  /-- A document is measured exactly when it stays within the limit and within 32 bits. -/
  ok_iff : ∀ len, Machine.documentLength limit jpegSize = .ok len ↔
    len.toNat = 34 + jpegSize.toNat ∧ 34 + jpegSize.toNat ≤ min limit.toNat 0xFFFF_FFFF
  /-- Otherwise its picture is too large, also where the sum of the sizes has no word. -/
  error_iff : ∀ e, Machine.documentLength limit jpegSize = .error e ↔
    e = .frameTooLarge jpegSize.toNat (min limit.toNat 0xFFFF_FFFF) ∧
      min limit.toNat 0xFFFF_FFFF < 34 + jpegSize.toNat
  /-- There is a layout exactly when a document of 32 bits can carry the picture. -/
  layout_ok_iff : (∃ l, Machine.Layout.ofSize jpegSize = .ok l) ↔ 34 + jpegSize.toNat ≤ 0xFFFF_FFFF
  layout_error_iff : ∀ e, Machine.Layout.ofSize jpegSize = .error e ↔
    e = .frameTooLarge jpegSize.toNat 0xFFFF_FFFF ∧ 0xFFFF_FFFF < 34 + jpegSize.toNat
  /-- What is computed behind the check is exact. -/
  exact : ∀ len, Machine.documentLength limit jpegSize = .ok len → Machine.Exact jpegSize len
  /-- A buffer takes the message of a frame exactly when the check accepts its size. -/
  append : ∀ (f : Frame) (buffer : Array UInt8), f.jpegSize = jpegSize.toNat →
    Machine.append limit f buffer = Wire.append limit.toNat f buffer ∧
      (Machine.append limit f buffer).1 = (Machine.documentLength limit jpegSize).map fun _ => ()
  /-- A frame is sent exactly when it does, -/
  send : ∀ {σ : Type} (sink : Sink σ) (s : σ) (f : Frame), f.jpegSize = jpegSize.toNat →
    Decides (Machine.documentLength limit jpegSize) .byPiece limit.toNat sink f s
      ((send .byPiece limit.toNat sink f s).map fun sent => (sent.result, sent.calls))
  /-- with a writer, -/
  writeFrame : ∀ {σ : Type} (sink : Sink σ) (w : Writer σ) (f : Frame), w.limit = limit.toNat →
    f.jpegSize = jpegSize.toNat →
      Decides (Machine.documentLength limit jpegSize) .byPiece limit.toNat sink f w.sink
        ((w.writeFrame .byPiece sink f).map fun o => (o.result, o.calls))
  /-- with a composer as well, -/
  compose : ∀ {σ : Type} (sink : Sink σ) (c : Composer σ) (f : Frame), c.limit = limit.toNat →
    f.jpegSize = jpegSize.toNat →
      Decides (Machine.documentLength limit jpegSize) .whole limit.toNat sink f c.sink
        ((c.writeFrame sink f).map fun o => (o.result, o.calls))
  /-- and so is an image loaded. -/
  load : ∀ {F : Type} [Files F] (files : F) (path : String) (paths : List String)
    (jpeg : List UInt8), Files.read files path = .ok jpeg → jpeg.length = jpegSize.toNat →
      Files.load files limit.toNat (path :: paths) =
        ((Machine.documentLength limit jpegSize).mapError (.oversized path)).bind fun _ =>
          (Files.load files limit.toNat paths).map (⟨path, jpeg⟩ :: ·)

/-- **Sizes are decided exactly, in one place, and are safe behind it.** -/
theorem size_law (limit jpegSize : UInt64) : SizeLaw limit jpegSize := by
  refine
    { ok_iff := fun len => Machine.documentLength_eq_ok_iff
      error_iff := fun e => Machine.documentLength_eq_error_iff
      layout_ok_iff := ?_
      layout_error_iff := fun e =>
        Machine.ofSize_eq_error_iff.trans Machine.documentLength_eq_error_iff
      exact := fun len hlen => Machine.exact_of_documentLength hlen
      append := fun f buffer hf => ⟨append_eq limit hf buffer, ?_⟩
      send := fun sink s f hf => decides_send limit jpegSize .byPiece sink s hf
      writeFrame := fun sink w f hw hf => decides_writeFrame .byPiece sink hw hf
      compose := fun sink c f hc hf => Composer.decides_writeFrame sink hc hf
      load := fun files path paths jpeg hread hsize => Files.load_cons paths hread hsize }
  · cases h : Machine.documentLength (.ofNat maxDocumentSize) jpegSize with
    | error e =>
      have hlarge := (Machine.documentLength_eq_error_iff.mp h).2
      rw [Machine.ofSize_eq_error_iff.mpr h]
      constructor
      · rintro ⟨l, hl⟩
        cases hl
      · exact fun hle => absurd hle (Nat.not_le_of_lt hlarge)
    | ok len =>
      obtain ⟨l, hl, -⟩ := Machine.exists_ofSize h
      exact ⟨fun _ => (Machine.documentLength_eq_ok_iff.mp h).2, fun _ => ⟨l, hl⟩⟩
  · rw [Machine.append, hf, UInt64.ofNat_toNat]
    cases Machine.documentLength limit jpegSize <;> rfl

end FrameFeed
