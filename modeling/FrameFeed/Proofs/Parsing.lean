import FrameFeed.Proofs.Taking
import Mathlib.Data.List.Forall2
import Mathlib.Data.List.Nodup
/-!
# What is written reads back

The request that is meant comes out of any argument list that writes it down. Each option is given
once at most, so the settings made can be put in the order of the request's own list
(`foldl_eq_of_perm`), whatever order they were written in and on whichever side of the command.

Main statement: `parse_written`, the round trip.
-/

namespace FrameFeed

namespace Arguments

/-! ## What settings come to -/

section

variable {β : Type} {f : β → Setting → β}

/-- **Settings of different options come to the same in any order.** -/
theorem foldl_eq_of_perm (hf : ∀ r x y, x.slot ≠ y.slot → f (f r x) y = f (f r y) x)
    {settings settings' : List Setting} (hperm : settings.Perm settings')
    (hnodup : (settings.map Setting.slot).Nodup) (r : β) :
    settings.foldl f r = settings'.foldl f r := by
  refine hperm.foldl_eq' (fun x hx y hy r => ?_) r
  by_cases hxy : x.slot = y.slot
  · rw [List.inj_on_of_nodup_map hnodup hx hy hxy]
  · exact hf r x y hxy

/-- Settings that change nothing may be left out. -/
theorem foldl_eq_self {settings : List Setting} {r : β} (h : ∀ s ∈ settings, f r s = r) :
    settings.foldl f r = r := by
  induction settings with
  | nil => rfl
  | cons s settings ih =>
    rw [List.foldl_cons, h s List.mem_cons_self]
    exact ih fun s' hs' => h s' (List.mem_cons_of_mem _ hs')

end

theorem applyEmit_comm (r : EmitRequest) (x y : Setting) (h : x.slot ≠ y.slot) :
    applyEmit (applyEmit r x) y = applyEmit (applyEmit r y) x := by
  cases x <;> cases y <;> first | rfl | exact absurd rfl h

theorem applyGlobal_comm (r : Request) (x y : Setting) (h : x.slot ≠ y.slot) :
    applyGlobal (applyGlobal r x) y = applyGlobal (applyGlobal r y) x := by
  cases x <;> cases y <;> first | rfl | exact absurd rfl h

theorem applyEmit_of_isGlobal {s : Setting} (h : s.isGlobal = true) (r : EmitRequest) :
    applyEmit r s = r := by
  cases s with
  | format | logFormat | logLevel => rfl
  | _ => cases h

theorem applyGlobal_of_not_isGlobal {s : Setting} (h : s.isGlobal = false) (r : Request) :
    applyGlobal r s = r := by
  cases s with
  | format | logFormat | logLevel => cases h
  | _ => rfl

/-! ## What is given -/

namespace Given

/-- What is given of each option sets that option only. -/
theorem sublist_slots_filterMap {given : List (Option Setting)} {slots : List Slot}
    (h : List.Forall₂ (fun o slot => ∀ s ∈ o, s.slot = slot) given slots) :
    ((given.filterMap id).map Setting.slot).Sublist slots := by
  induction h with
  | nil => exact List.Sublist.slnil
  | @cons o slot given slots ho _ ih =>
    cases o with
    | none => exact ih.cons slot
    | some s =>
      change (s.slot :: (given.filterMap id).map Setting.slot).Sublist (slot :: slots)
      rw [ho s rfl]
      exact ih.cons_cons slot

theorem sublist_emit_slots (g : Given) : (g.emitSettings.map Setting.slot).Sublist
    [.key .ptsStart, .key .ptsStep, .key .interval, .flag .loop, .key .output,
      .key .maxDocumentSize] := by
  apply sublist_slots_filterMap
  simp [Setting.slot]

theorem sublist_global_slots (g : Given) : (g.globalSettings.map Setting.slot).Sublist
    [.key .format, .key .logFormat, .key .logLevel] := by
  apply sublist_slots_filterMap
  simp [Setting.slot]

/-- Each option is given at most once, and belongs behind the command. -/
theorem sublist_slots (g : Given) : (g.settings.map Setting.slot).Sublist Scope.emit.slots := by
  rw [settings, List.map_append]
  exact (g.sublist_emit_slots.append g.sublist_global_slots).trans (by decide)

theorem nodup_slots (g : Given) : (g.settings.map Setting.slot).Nodup :=
  g.sublist_slots.nodup (by decide)

theorem slot_mem_of_mem {g : Given} {s : Setting} (h : s ∈ g.settings) :
    s.slot ∈ Scope.emit.slots :=
  g.sublist_slots.subset (List.mem_map_of_mem h)

theorem isGlobal_of_mem_emitSettings {g : Given} {s : Setting} (h : s ∈ g.emitSettings) :
    s.isGlobal = false := by
  have hslot := g.sublist_emit_slots.subset (List.mem_map_of_mem h)
  cases s with
  | format | logFormat | logLevel => simp [Setting.slot] at hslot
  | _ => rfl

theorem isGlobal_of_mem_globalSettings {g : Given} {s : Setting} (h : s ∈ g.globalSettings) :
    s.isGlobal = true := by
  have hslot := g.sublist_global_slots.subset (List.mem_map_of_mem h)
  cases s with
  | format | logFormat | logLevel => rfl
  | _ => simp [Setting.slot] at hslot

theorem some_eq_map_iff {α : Type} {mk : α → Setting} {o : Option α} {s : Setting} :
    some s = o.map mk ↔ ∃ a, o = some a ∧ mk a = s := by
  rw [eq_comm, Option.map_eq_some_iff]

/-- What is given can be read where it is written. -/
theorem legible_of_mem {g : Given} (hg : g.Valid) {s : Setting} (h : s ∈ g.settings) :
    s.Legible := by
  cases s with
  | interval text =>
    have htext : g.interval = some text := by
      simpa [settings, emitSettings, globalSettings, some_eq_map_iff] using h
    exact hg.plain_interval text htext
  | output path =>
    have hpath : g.output = some path := by
      simpa [settings, emitSettings, globalSettings, some_eq_map_iff] using h
    exact hg.plain_output path hpath
  | maxDocumentSize n =>
    obtain ⟨word, -, rfl⟩ : ∃ word, g.maxDocumentSize = some word ∧ word.toNat = n := by
      simpa [settings, emitSettings, globalSettings, some_eq_map_iff] using h
    have hword : word.toNat < 2 ^ 64 := word.toNat_lt
    exact Nat.le_of_lt_succ hword
  | jpegSize n =>
    have hslot := slot_mem_of_mem h
    simp [Setting.slot, Scope.slots, globalSlots] at hslot
  | _ => trivial

/-- **What is given of the command comes to the request for it.** -/
theorem foldl_applyEmit (g : Given) : g.settings.foldl applyEmit { inputs := g.inputs } =
    { inputs := g.inputs
      ptsStart := g.ptsStart.getD 0
      ptsStep := g.ptsStep.getD 1
      interval := g.interval
      loop := g.loop
      output := g.output
      maxDocumentSize := g.maxDocumentSize.map UInt64.toNat } := by
  rw [settings, List.foldl_append,
    foldl_eq_self fun s hs => applyEmit_of_isGlobal (isGlobal_of_mem_globalSettings hs) _]
  obtain ⟨inputs, ptsStart, ptsStep, interval, loop, output, maxDocumentSize, -, -, -⟩ := g
  cases ptsStart <;> cases ptsStep <;> cases interval <;> cases loop <;> cases output <;>
    cases maxDocumentSize <;> rfl

theorem foldl_applyGlobal (g : Given) (command : Command) :
    g.settings.foldl applyGlobal { command } =
      { format := g.format
        logForm := g.logForm.getD .text
        logLevel := g.logLevel.getD .info
        command } := by
  rw [settings, List.foldl_append,
    foldl_eq_self fun s hs => applyGlobal_of_not_isGlobal (isGlobal_of_mem_emitSettings hs) _]
  obtain ⟨_, _, _, _, _, _, _, format, logForm, logLevel⟩ := g
  cases format <;> cases logForm <;> cases logLevel <;> rfl

end Given

/-! ## The round trip -/

theorem Spells.joined_of_eq {s : Setting} {value arg : String} (h : s.value? = some value)
    (harg : arg = s.option ++ "=" ++ value) : Spells s [arg] :=
  harg ▸ .joined h

theorem exists_spells (s : Setting) : ∃ args, Spells s args := by
  cases h : s.value? with
  | none => exact ⟨_, .flag h⟩
  | some value => exact ⟨_, .apart h⟩

theorem exists_writes (items : List Item) : ∃ args, Writes items args := by
  induction items with
  | nil => exact ⟨_, .nil⟩
  | cons item items ih =>
    obtain ⟨args, h⟩ := ih
    cases item with
    | image path => exact ⟨_, .image path h⟩
    | setting s =>
      obtain ⟨own, hs⟩ := exists_spells s
      exact ⟨_, .setting hs h⟩

/-- Each request can be written down. -/
theorem Given.exists_writtenAs (g : Given) : ∃ args, g.WrittenAs args := by
  obtain ⟨after, hafter⟩ := exists_writes (g.inputs.map .image ++ g.settings.map .setting)
  refine ⟨_, [], _, [], after, rfl, .nil, hafter, by simp, ?_, ?_⟩
  · simp [imagesOf]
  · simp [settingsOf]

/-- **What is written down reads back.** However the paths and options of an emit request are put
into arguments, they are taken, and they make just the request that is meant. -/
theorem parse_written {g : Given} {args : List String} (hg : g.Valid) (h : g.WrittenAs args) :
    parse args = .ok g.request := by
  obtain ⟨front, items, before, after, rfl, hbefore, hafter, hfront, himages, hperm⟩ := h
  have hnodup : ((front ++ settingsOf items).map Setting.slot).Nodup :=
    (hperm.map Setting.slot).nodup_iff.mpr g.nodup_slots
  have hset : ∀ s ∈ front ++ settingsOf items, s.Legible ∧ s.slot ∈ Scope.emit.slots := by
    intro s hs
    have hmem := hperm.mem_iff.mp hs
    exact ⟨Given.legible_of_mem hg hmem, Given.slot_mem_of_mem hmem⟩
  have hemit : (settingsOf items).foldl applyEmit { inputs := g.inputs } =
      (front ++ settingsOf items).foldl applyEmit { inputs := g.inputs } := by
    rw [List.foldl_append,
      foldl_eq_self fun s hs => applyEmit_of_isGlobal (hfront s hs) _]
  rw [parse_of_writes hbefore hafter hfront (himages ▸ hg.inputs_ne_nil)
      (himages ▸ hg.plain_inputs) hset hnodup, himages, hemit,
    foldl_eq_of_perm applyEmit_comm hperm hnodup,
    foldl_eq_of_perm applyGlobal_comm hperm hnodup,
    Given.foldl_applyEmit, Given.foldl_applyGlobal]
  rfl

/-- The form of reports and the level of logs stand in front of the command, all else behind it. -/
theorem parse_written_mixed : parse
    ["--log-level=debug", "--format", "table", "emit", "a.jpg", "--pts-start", "-3000", "--loop",
      "b.jpg", "-o", "out", "--pts-step=-1", "--max-document-size", "18446744073709551615",
      "--interval=40ms", "--log-format", "json"] =
    .ok {
      format := some .table
      logForm := .json
      logLevel := .debug
      command := .emit {
        inputs := ["a.jpg", "b.jpg"]
        ptsStart := -3000
        ptsStep := -1
        interval := some "40ms"
        loop := true
        output := some "out"
        maxDocumentSize := some 18446744073709551615 } } := by
  have hlevel : Spells (.logLevel .debug) ["--log-level=debug"] := .joined_of_eq rfl rfl
  have hstep : Spells (.ptsStep (-1)) ["--pts-step=-1"] := .joined_of_eq rfl rfl
  have hinterval : Spells (.interval "40ms") ["--interval=40ms"] := .joined_of_eq rfl rfl
  have hbefore : Writes ([.logLevel .debug, .format .table].map .setting)
      ["--log-level=debug", "--format", "table"] :=
    .setting hlevel (.setting (.apart rfl) .nil)
  have hafter : Writes
      [.image "a.jpg", .setting (.ptsStart (-3000)), .setting .loop, .image "b.jpg",
        .setting (.output "out"), .setting (.ptsStep (-1)),
        .setting (.maxDocumentSize 18446744073709551615), .setting (.interval "40ms"),
        .setting (.logFormat .json)]
      ["a.jpg", "--pts-start", "-3000", "--loop", "b.jpg", "-o", "out", "--pts-step=-1",
        "--max-document-size", "18446744073709551615", "--interval=40ms", "--log-format", "json"] :=
    .image _ (.setting (.apart rfl) (.setting (.flag rfl) (.image _ (.setting (.letter _)
      (.setting hstep (.setting (.apart rfl) (.setting hinterval
        (.setting (.apart rfl) .nil))))))))
  exact parse_written (g := {
      inputs := ["a.jpg", "b.jpg"], ptsStart := some (-3000), ptsStep := some (-1)
      interval := some "40ms", loop := true, output := some "out"
      maxDocumentSize := some 18446744073709551615, format := some .table, logForm := some .json
      logLevel := some .debug })
    ⟨by decide, by decide, by decide, by decide⟩
    ⟨[.logLevel .debug, .format .table], _, _, _, rfl, hbefore, hafter, by decide, rfl, by decide⟩

end Arguments

end FrameFeed
