import FrameFeed.Proofs.Outcome
import FrameFeed.Sink.Tape
/-!
# Sinks that take everything

A sink accepts if it takes every offer whole and every flush succeeds. To such a sink a frame that
fits is always delivered, and what the sink has taken grows by the message of the frame and by
nothing else. A buffer in front of a device that takes everything is such a sink: what it has taken
is on the device or waits behind it, and closing it brings all of it to the device.

Acceptance is a matter of states: a sink may accept as long as it is `good`, and then it stays so.

Main statements: `Sink.Accepts.exists_writeFrame`, a frame that fits arrives, and
`Buffered.accepts`, a buffer changes nothing in what is accepted.
-/

namespace FrameFeed

open Wire

variable {σ δ : Type}

/-! ## Sinks -/

/-- In every good state the sink takes what it is offered and flushes, and stays good; `content` is
what it has taken. -/
structure Sink.Accepts (sink : Sink σ) (good : σ → Prop) (content : σ → List UInt8) : Prop where
  write : ∀ {s : σ} {offer : List UInt8}, good s → offer ≠ [] →
    ∃ s', sink.write offer s = (.took offer.length, s') ∧ good s' ∧
      content s' = content s ++ offer
  flush : ∀ {s : σ}, good s →
    ∃ s', sink.flush s = (.done, s') ∧ good s' ∧ content s' = content s

theorem advance_length (p : Piece) (ps : List Piece) : advance p.bytes.length p ps = ps := by
  rw [advance, List.drop_length]

/-- A piece that is taken whole lets the delivery go on with those behind it. -/
theorem afterWrite_took_length {p : Piece} (hp : p.bytes ≠ []) (ps : List Piece) :
    afterWrite p ps (.took p.bytes.length) = .goOn ps := by
  obtain ⟨n, hn⟩ := Nat.exists_eq_succ_of_ne_zero (Nat.ne_of_gt (List.length_pos_iff.mpr hp))
  rw [hn, afterWrite, ← Nat.succ_eq_add_one, ← hn, advance_length]

/-- Pieces that hold bytes are no more than their bytes. -/
theorem length_le_length_bytesOf {ps : List Piece} (hps : ∀ p ∈ ps, p.bytes ≠ []) :
    ps.length ≤ (bytesOf ps).length := by
  induction ps with
  | nil => exact Nat.le_refl _
  | cons p ps ih =>
    have hp := List.length_pos_iff.mpr (hps p List.mem_cons_self)
    have hrest := ih fun q hq => hps q (List.mem_cons_of_mem p hq)
    rw [bytesOf_cons, List.length_append, List.length_cons]
    omega

/-- So a delivery is given a call for each piece that it offers, and one more. -/
theorem length_filter_lt (ps : List Piece) (patience : Nat) :
    (ps.filter (·.bytes ≠ [])).length < (bytesOf ps).length + 1 + patience := by
  have hle := @length_le_length_bytesOf (ps.filter (·.bytes ≠ [])) (by simp)
  rw [bytesOf_filter] at hle
  omega

namespace Sink.Accepts

variable {sink : Sink σ} {good : σ → Prop} {content : σ → List UInt8}

/-- **A delivery takes one call for each piece and one to flush**, and all of it is taken. -/
theorem exists_deliver (h : sink.Accepts good content) {calls : Nat} {ps : List Piece} {s : σ}
    (hs : good s) (hps : ∀ p ∈ ps, p.bytes ≠ []) (hcalls : ps.length < calls) :
    ∃ d, deliver sink calls ps s = some d ∧ d.ending = .delivered ∧ good d.sink ∧
      content d.sink = content s ++ bytesOf ps := by
  induction ps generalizing calls s with
  | nil =>
    obtain ⟨calls, rfl⟩ := Nat.exists_eq_succ_of_ne_zero (Nat.ne_zero_of_lt hcalls)
    obtain ⟨s', hflush, hs', hcontent⟩ := h.flush hs
    refine ⟨⟨.delivered, s', [.flush .done]⟩, ?_, rfl, hs', ?_⟩
    · rw [deliver_succ, nextCall, hflush]
      rfl
    · rw [hcontent, bytesOf_nil, List.append_nil]
  | cons p ps ih =>
    obtain ⟨calls, rfl⟩ := Nat.exists_eq_succ_of_ne_zero (Nat.ne_zero_of_lt hcalls)
    have hp := hps p List.mem_cons_self
    obtain ⟨s', hwrite, hs', hcontent⟩ := h.write hs hp
    obtain ⟨d, hd, hending, hgood, hall⟩ :=
      ih hs' (fun q hq => hps q (List.mem_cons_of_mem p hq)) (Nat.lt_of_succ_lt_succ hcalls)
    refine ⟨{ d with calls := .write p.bytes (.took p.bytes.length) :: d.calls }, ?_, hending,
      hgood, ?_⟩
    · rw [deliver_succ, nextCall, hwrite]
      dsimp only
      rw [afterWrite_took_length hp]
      dsimp only
      rw [hd]
      rfl
    · rw [hall, hcontent, bytesOf_cons, List.append_assoc]

theorem exists_deliverAll (h : sink.Accepts good content) (ps : List Piece) {s : σ}
    (hs : good s) :
    ∃ d, deliverAll sink ps s = some d ∧ d.ending = .delivered ∧ good d.sink ∧
      content d.sink = content s ++ bytesOf ps := by
  have hps : ∀ p ∈ ps.filter (·.bytes ≠ []), p.bytes ≠ [] := by simp
  have hcalls := length_filter_lt ps (sink.patience s)
  obtain ⟨d, hd, hending, hgood, hcontent⟩ := h.exists_deliver hs hps hcalls
  rw [bytesOf_filter] at hcontent
  exact ⟨d, hd, hending, hgood, hcontent⟩

/-- **A frame that fits arrives**, and its message is what is taken. -/
theorem exists_writeFrame (h : sink.Accepts good content) {offering : Offering} {w : Writer σ}
    {f : Frame} (hs : good w.sink) (hfits : f.Fits w.limit) :
    ∃ w' calls, w.writeFrame offering sink f = some ⟨.ok (), w', calls⟩ ∧ good w'.sink ∧
      content w'.sink = content w.sink ++ message f := by
  obtain ⟨d, hd, hending, hgood, hcontent⟩ := h.exists_deliverAll (offering.pieces f) hs
  rw [offering.bytesOf_pieces] at hcontent
  refine ⟨⟨w.limit, d.sink, w.framesWritten + 1⟩, d.calls, ?_, hgood, hcontent⟩
  rw [Writer.writeFrame, send_of_fits hfits hd, hending]
  rfl

end Sink.Accepts

/-! ## Buffers -/

/-- In every good state the device takes what it is given, and stays good; `content` is what it has
taken. -/
def Device.Accepts (dev : Device δ) (good : δ → Prop) (content : δ → List UInt8) : Prop :=
  ∀ {d : δ} (bytes : List UInt8), good d →
    ∃ d', dev.append bytes d = (none, d') ∧ good d' ∧ content d' = content d ++ bytes

namespace Buffered

variable {dev : Device δ} {good : δ → Prop} {content : δ → List UInt8}

/-- What a buffered device has taken: the bytes on the device, and behind them those that wait. -/
def view (content : δ → List UInt8) (b : Buffered δ) : List UInt8 := content b.device ++ b.waiting

/-- **Writing the waiting bytes out** brings all there is to the device. -/
theorem exists_drain (h : dev.Accepts good content) {b : Buffered δ} (hb : good b.device) :
    ∃ device, b.drain dev = (none, of device) ∧ good device ∧
      content device = b.view content := by
  obtain ⟨waiting, device⟩ := b
  by_cases hw : waiting = []
  · subst hw
    exact ⟨device, by rw [drain, if_pos rfl, of], hb, (List.append_nil _).symm⟩
  · obtain ⟨device', happend, hgood, hcontent⟩ := h waiting hb
    refine ⟨device', ?_, hgood, hcontent⟩
    rw [drain, if_neg hw]
    dsimp only
    rw [happend]

/-- **Making room loses nothing**, and there is room then, or nothing waits. -/
theorem exists_makeRoom (h : dev.Accepts good content) {b : Buffered δ} (offer : List UInt8)
    (hb : good b.device) :
    ∃ b', b.makeRoom dev offer = (none, b') ∧ good b'.device ∧
      b'.view content = b.view content ∧
      (b'.waiting = [] ∨ b'.waiting.length + offer.length ≤ capacity) := by
  by_cases hroom : capacity < b.waiting.length + offer.length
  · obtain ⟨device, hdrain, hgood, hcontent⟩ := exists_drain h hb
    refine ⟨of device, by rw [makeRoom, if_pos hroom, hdrain], hgood, ?_, Or.inl rfl⟩
    rw [view, of, List.append_nil, hcontent]
  · exact ⟨b, by rw [makeRoom, if_neg hroom], hb, rfl, Or.inr (Nat.le_of_not_lt hroom)⟩

/-- **What is taken at once does not overtake what waits**: an offer that could fill the buffer
finds it empty. -/
theorem exists_take (h : dev.Accepts good content) {b : Buffered δ} {offer : List UInt8}
    (hb : good b.device)
    (hroom : b.waiting = [] ∨ b.waiting.length + offer.length ≤ capacity) :
    ∃ b', b.take dev offer = (.took offer.length, b') ∧ good b'.device ∧
      b'.view content = b.view content ++ offer := by
  by_cases hlarge : capacity ≤ offer.length
  · have hnil : b.waiting = [] := by
      rcases hroom with hnil | hroom
      · exact hnil
      · exact List.length_eq_zero_iff.mp (by omega)
    obtain ⟨device, happend, hgood, hcontent⟩ := h offer hb
    refine ⟨{ b with device }, by rw [take, if_pos hlarge, happend], hgood, ?_⟩
    simp only [view, hnil, List.append_nil, hcontent]
  · exact ⟨{ b with waiting := b.waiting ++ offer }, by rw [take, if_neg hlarge], hb,
      (List.append_assoc ..).symm⟩

/-- **A buffer changes nothing in what is accepted**: in front of a device that takes everything it
is a sink that takes everything, in the same order. -/
theorem accepts (h : dev.Accepts good content) :
    (sink dev).Accepts (fun b => good b.device) (view content) where
  write {b offer} hb _ := by
    obtain ⟨b₁, hmake, hgood₁, hview₁, hroom⟩ := exists_makeRoom h offer hb
    obtain ⟨b₂, htake, hgood₂, hview₂⟩ := exists_take h hgood₁ hroom
    refine ⟨b₂, ?_, hgood₂, by rw [hview₂, hview₁]⟩
    change write dev offer b = _
    rw [write, hmake]
    exact htake
  flush {b} hb := by
    obtain ⟨device, hdrain, hgood, hcontent⟩ := exists_drain h hb
    refine ⟨of device, ?_, hgood, by rw [view, of, List.append_nil, hcontent]⟩
    change flush dev b = _
    rw [flush, hdrain]

/-- Closing a buffer brings all there is to the device. -/
theorem content_close (h : dev.Accepts good content) {b : Buffered δ} (hb : good b.device) :
    content (b.close dev) = b.view content := by
  obtain ⟨device, hdrain, -, hcontent⟩ := exists_drain h hb
  rw [close, hdrain]
  exact hcontent

end Buffered

/-! ## Tapes -/

/-- A tape that does not break takes everything. -/
theorem Tape.accepts : Tape.device.Accepts (fun t => t.breaksAfter = none) Tape.bytes := by
  intro t bytes ht
  refine ⟨{ t with written := t.written.push bytes }, ?_, ht, ?_⟩
  · simp only [device, fault?, ht, Option.bind_none]
  · simp only [Tape.bytes, Array.toList_push, List.flatten_append, List.flatten_cons,
      List.flatten_nil, List.append_nil]

end FrameFeed
