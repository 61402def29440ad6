import FrameFeed.Arguments.Parse
import FrameFeed.Arguments.Spelling
import Mathlib.Data.List.TakeWhile
/-!
# How arguments are taken

Arguments that write something down are taken for just that, one after another. What stands open
after any of them, a value not yet checked or a run of paths, is no part of what has been written;
so a state is described by what it comes to once that is checked (`State.Holds`), and each spelling
of an option, and each path, takes a state that holds something to one that holds that and the new
thing.

Main statements: `exists_taken_of_spells`, one option in any of its spellings; `scan_of_writes`, all
that stands behind the command; and `parse_of_writes`, a whole command line.
-/

namespace FrameFeed

namespace Arguments

/-! ## Tokens -/

namespace Token

theorem ofChars_of_head?_ne {cs : List Char} (h : cs.head? ≠ some '-') : ofChars cs = .word := by
  unfold ofChars
  split <;> simp_all

theorem ofChars_dash {c : Char} (h : c ≠ '-') (cs : List Char) :
    ofChars ('-' :: c :: cs) = .short (c :: cs) := by
  unfold ofChars
  split <;> simp_all

theorem ofChars_dashes {cs : List Char} (h : cs ≠ []) : ofChars ('-' :: '-' :: cs) = ofLong cs := by
  cases cs with
  | nil => exact absurd rfl h
  | cons c cs => rfl

/-- Text that is no option is a word. -/
theorem of_plain {w : String} (h : Plain w) : Token.of w = .word :=
  ofChars_of_head?_ne h.2

section

variable {name : String} (hname : '=' ∉ name.toList)

include hname

theorem all_ne_equals : ∀ c ∈ name.toList, decide (c ≠ '=') = true := by
  intro c hc
  exact decide_eq_true fun h => hname (h ▸ hc)

theorem of_long (hne : name ≠ "") : Token.of ("--" ++ name) = .long name none := by
  have hchars : ("--" ++ name).toList = '-' :: '-' :: name.toList := by simp
  have hall := all_ne_equals hname
  rw [Token.of, hchars, ofChars_dashes (by simpa using hne), ofLong,
    List.takeWhile_eq_self_iff.mpr hall, String.ofList_toList, List.dropWhile_eq_nil_iff.mpr hall]

theorem of_long_eq (value : String) :
    Token.of ("--" ++ name ++ "=" ++ value) = .long name (some value) := by
  have hchars : ("--" ++ name ++ "=" ++ value).toList =
      '-' :: '-' :: (name.toList ++ '=' :: value.toList) := by
    simp
  have hall := all_ne_equals hname
  rw [Token.of, hchars, ofChars_dashes (by simp), ofLong, List.takeWhile_append_of_pos hall,
    List.dropWhile_append_of_pos hall]
  simp

end

/-- A number without a sign is a word. -/
theorem ofChars_toDigits (n : Nat) : ofChars (Nat.toDigits 10 n) = .word := by
  obtain ⟨c, cs, hdigits, hc⟩ := Decimal.exists_toDigits_eq_cons n
  apply ofChars_of_head?_ne
  rw [hdigits, List.head?_cons]
  exact fun h => absurd hc (by rw [Option.some.inj h]; decide)

/-- A number below zero is a dash in front of letters that are digits. -/
theorem ofChars_dash_toDigits (n : Nat) :
    ofChars ('-' :: Nat.toDigits 10 n) = .short (Nat.toDigits 10 n) := by
  obtain ⟨c, cs, hdigits, hc⟩ := Decimal.exists_toDigits_eq_cons n
  rw [hdigits]
  exact ofChars_dash (fun h => absurd hc (by rw [h]; decide)) cs

end Token

/-- Digits go on with a number at any place. -/
theorem numberTail_of_all_isDigit {cs : List Char} (h : cs.all Char.isDigit = true)
    (start point exponent : Bool) : numberTail start point exponent cs = true := by
  induction cs generalizing start with
  | nil => rfl
  | cons c cs ih =>
    rw [List.all_cons, Bool.and_eq_true] at h
    rw [numberTail, if_pos h.1]
    exact ih h.2 false

/-! ## Values -/

/-- The text can be the value of the option in an argument of its own: it is a word or, where the
option may be negative, a dash in front of what looks like a number. -/
def Key.Takes (key : Key) (value : String) : Prop :=
  Token.of value = .word ∨ key.takesNegative = true ∧
    ∃ letters, Token.of value = .short letters ∧ numberLike letters = true

theorem Key.takes_toString_nat (key : Key) (n : Nat) : key.Takes (toString n) := by
  left
  rw [Token.of, Decimal.toList_toString]
  exact Token.ofChars_toDigits n

theorem Key.takes_toString_int {key : Key} (h : key.takesNegative = true) (n : Int) :
    key.Takes (toString n) := by
  rw [Takes, Token.of, Decimal.toList_toString_int]
  split
  next => exact Or.inl (Token.ofChars_toDigits _)
  next =>
    have hdigits := Decimal.all_isDigit_toDigits (-n).toNat
    exact Or.inr ⟨h, _, Token.ofChars_dash_toDigits _,
      numberTail_of_all_isDigit hdigits true true true⟩

namespace Setting

/-- The value of the option does not look like one, and is in range. -/
def Legible : Setting → Prop
  | interval text => Plain text
  | output path => Plain path
  | maxDocumentSize n => n ≤ Decimal.maxWord
  | jpegSize n => n ≤ Decimal.maxWord
  | _ => True

/-- **A value reads back**: the option takes its text, and makes the setting of it. -/
theorem read_value {s : Setting} {value : String} (hs : s.Legible) (h : s.value? = some value) :
    ∃ key, s.slot = .key key ∧ key.read value = .ok s ∧ key.Takes value := by
  cases s with
  | format f =>
    cases h
    exact ⟨.format, rfl, by cases f <;> rfl, Or.inl (by cases f <;> rfl)⟩
  | logFormat f =>
    cases h
    exact ⟨.logFormat, rfl, by cases f <;> rfl, Or.inl (by cases f <;> rfl)⟩
  | logLevel l =>
    cases h
    exact ⟨.logLevel, rfl, by cases l <;> rfl, Or.inl (by cases l <;> rfl)⟩
  | ptsStart n =>
    cases h
    refine ⟨.ptsStart, rfl, ?_, Key.takes_toString_int rfl _⟩
    rw [Key.read, Decimal.signed?_toString]
    rfl
  | ptsStep n =>
    cases h
    refine ⟨.ptsStep, rfl, ?_, Key.takes_toString_int rfl _⟩
    rw [Key.read, Decimal.signed?_toString]
    rfl
  | interval text =>
    cases h
    exact ⟨.interval, rfl, rfl, Or.inl (Token.of_plain hs)⟩
  | output path =>
    cases h
    refine ⟨.output, rfl, ?_, Or.inl (Token.of_plain hs)⟩
    rw [Key.read, Arguments.path, if_neg hs.1]
    rfl
  | maxDocumentSize n =>
    cases h
    refine ⟨.maxDocumentSize, rfl, ?_, Key.takes_toString_nat _ n⟩
    rw [Key.read, Decimal.unsigned?_toString hs]
    rfl
  | jpegSize n =>
    cases h
    refine ⟨.jpegSize, rfl, ?_, Key.takes_toString_nat _ n⟩
    rw [Key.read, Decimal.unsigned?_toString hs]
    rfl
  | loop => cases h
  | extended => cases h

/-- An option without a value makes the setting as soon as it is there. -/
theorem read_flag {s : Setting} (h : s.value? = none) :
    ∃ f, s.slot = .flag f ∧ f.read = .ok s := by
  cases s with
  | loop => exact ⟨.loop, rfl, rfl⟩
  | extended => exact ⟨.extended, rfl, rfl⟩
  | _ => cases h

end Setting

/-! ## Names -/

theorem Slot.long_ne_empty (slot : Slot) : slot.long ≠ "" := by
  cases slot with
  | flag f => cases f <;> decide
  | key k => cases k <;> decide

theorem Slot.equals_not_mem_long (slot : Slot) : '=' ∉ slot.long.toList := by
  cases slot with
  | flag f => cases f <;> decide
  | key k => cases k <;> decide

theorem Setting.option_eq (s : Setting) : s.option = "--" ++ s.slot.long := by
  cases s <;> rfl

/-- An option is read by its name, -/
theorem Token.of_option (s : Setting) : Token.of s.option = .long s.slot.long none := by
  rw [s.option_eq]
  exact of_long s.slot.equals_not_mem_long s.slot.long_ne_empty

/-- and what follows an equals sign is its value. -/
theorem Token.of_option_eq (s : Setting) (value : String) :
    Token.of (s.option ++ "=" ++ value) = .long s.slot.long (some value) := by
  rw [s.option_eq]
  exact of_long_eq s.slot.equals_not_mem_long value

/-- An option is found by its long name where it belongs. -/
theorem Scope.long?_long {scope : Scope} {slot : Slot} (h : slot ∈ scope.slots) :
    scope.long? slot.long = some slot := by
  have hall : ∀ slot ∈ scope.slots, scope.long? slot.long = some slot := by
    cases scope <;> decide
  exact hall slot h

/-- The output is the only option that goes by the letter `o`. -/
theorem Scope.short?_output {scope : Scope} (h : Slot.key .output ∈ scope.slots) :
    scope.short? 'o' = some (.key .output) := by
  cases scope with
  | emit => rfl
  | program => exact absurd h (by decide)
  | layout => exact absurd h (by decide)
  | version => exact absurd h (by decide)

/-! ## States -/

namespace State

/-- What a state comes to once what stands open is checked. -/
def Holds (st : State) (settings : List Setting) (words : List String) : Prop :=
  st.close = .ok { settings, words }

theorem holds_self (settings : List Setting) (words : List String) :
    Holds { settings, words } settings words := rfl

/-- An option that has not been set is set. -/
theorem add_of_not_mem {s : Setting} {settings : List Setting} (words : List String)
    (h : s.slot ∉ settings.map Setting.slot) :
    ({ settings, words } : State).add s.slot (.ok s) =
      .ok { settings := settings ++ [s], words } := by
  have hnew : ({ settings, words } : State).has s.slot = false := by
    rw [has, List.any_eq_false]
    intro x hx heq
    exact h (List.mem_map.mpr ⟨x, hx, of_decide_eq_true heq⟩)
  rw [add, hnew]
  rfl

variable {st : State} {settings : List Setting} {words : List String} {scope : Scope}

/-- What can be closed does not wait for a value, and closing leaves the mark for words alone. -/
theorem close_eq_ok {st' : State} (h : st.close = .ok st') :
    st'.escaped = st.escaped ∧ st.waiting = none := by
  simp only [close, add] at h
  split at h
  next hp =>
    cases h
    exact ⟨rfl, by rw [waiting, hp]⟩
  next => cases h
  next key value hp =>
    split at h
    · cases h
    · cases hread : key.read value with
      | error e => rw [hread] at h; cases h
      | ok s =>
        rw [hread] at h
        cases h
        exact ⟨rfl, by rw [waiting, hp]⟩
  next ws hp =>
    split at h
    · cases h
    · cases h
      exact ⟨rfl, by rw [waiting, hp]⟩

theorem Holds.unescaped (h : st.Holds settings words) : st.escaped = false :=
  (close_eq_ok h).1.symm

theorem Holds.not_waiting (h : st.Holds settings words) : st.waiting = none :=
  (close_eq_ok h).2

/-- Arguments one after another are taken as options and values of options. -/
inductive Taken (scope : Scope) : State → List String → State → Prop
  | nil (st : State) : Taken scope st [] st
  | cons {st st' st'' : State} {arg : String} {args : List String}
    (h : st.offer scope arg = .ok (some st')) (hrest : Taken scope st' args st'') :
    Taken scope st (arg :: args) st''

theorem Taken.single {st' : State} {arg : String} (h : st.offer scope arg = .ok (some st')) :
    Taken scope st [arg] st' :=
  .cons h (.nil st')

theorem Taken.append {st' st'' : State} {args args' : List String} (h : Taken scope st args st')
    (h' : Taken scope st' args' st'') : Taken scope st (args ++ args') st'' := by
  induction h with
  | nil => exact h'
  | cons harg _ ih => exact .cons harg (ih h')

theorem scan_of_taken {st' : State} {args : List String} (h : Taken scope st args st')
    (rest : List String) : st.scan scope (args ++ rest) = st'.scan scope rest := by
  induction h with
  | nil st => rfl
  | cons harg _ ih =>
    rw [List.cons_append, scan, harg]
    exact ih

theorem parseFrom_of_taken {st' : State} {args : List String} (h : Taken .program st args st')
    (rest : List String) : parseFrom st (args ++ rest) = parseFrom st' rest := by
  induction h with
  | nil st => rfl
  | cons harg _ ih =>
    rw [List.cons_append, parseFrom, harg]
    exact ih

/-! ## One option -/

section

variable {s : Setting} (hst : st.Holds settings words)

include hst

theorem begin_none (key : Key) :
    st.begin key none = .ok { settings, words, pending := some (.option key none) } := by
  rw [begin, hst]
  rfl

theorem begin_some {key : Key} {value : String} (hkey : s.slot = .key key)
    (hread : key.read value = .ok s) (hnew : s.slot ∉ settings.map Setting.slot) :
    st.begin key (some value) = .ok { settings := settings ++ [s], words } := by
  have hadd := add_of_not_mem words hnew
  rw [hkey, ← hread] at hadd
  rw [begin, hst]
  exact hadd

theorem flag_of_not_mem {f : Flag} (hflag : s.slot = .flag f) (hread : f.read = .ok s)
    (hnew : s.slot ∉ settings.map Setting.slot) :
    st.flag f = .ok { settings := settings ++ [s], words } := by
  have hadd := add_of_not_mem words hnew
  rw [hflag] at hadd
  rw [flag, hst, hread]
  exact hadd

/-- An option by its long name is begun or, where it takes no value, taken. -/
theorem offer_long {value : Option String} {arg : String}
    (harg : Token.of arg = .long s.slot.long value) (hslot : s.slot ∈ scope.slots) :
    st.offer scope arg = (match (s.slot, value) with
      | (.key key, _) => st.begin key value
      | (.flag _, some _) => .error .tooManyValues
      | (.flag f, none) => st.flag f).map some := by
  rw [offer, if_neg (by simp [hst.unescaped]), harg]
  simp only [long, Scope.long?_long hslot]
  cases s.slot with
  | key k => rfl
  | flag f => cases value <;> rfl

end

/-- A value in an argument of its own goes to the option that waits for it. -/
theorem offer_value {key : Key} {value : String} (h : key.Takes value) :
    ({ settings, words, pending := some (.option key none) } : State).offer scope value =
      .ok (some { settings, words, pending := some (.option key (some value)) }) := by
  rcases h with hword | ⟨hneg, letters, hshort, hlike⟩
  · simp [offer, hword, waiting, give]
  · simp [offer, hshort, waiting, give, hneg, hlike]

/-- A value that is there and not yet checked counts. -/
theorem holds_pending {s : Setting} {key : Key} {value : String} (hkey : s.slot = .key key)
    (hread : key.read value = .ok s) (hnew : s.slot ∉ settings.map Setting.slot) :
    Holds { settings, words, pending := some (.option key (some value)) } (settings ++ [s])
      words := by
  have hadd := add_of_not_mem words hnew
  rw [hkey, ← hread] at hadd
  exact hadd

/-- **An option is taken in each of its spellings**, where it belongs and has not been set. -/
theorem exists_taken_of_spells {s : Setting} {args : List String} (h : Spells s args)
    (hlegible : s.Legible) (hst : st.Holds settings words) (hslot : s.slot ∈ scope.slots)
    (hnew : s.slot ∉ settings.map Setting.slot) :
    ∃ st', Taken scope st args st' ∧ st'.Holds (settings ++ [s]) words := by
  cases h with
  | flag hvalue =>
    obtain ⟨f, hflag, hread⟩ := Setting.read_flag hvalue
    refine ⟨_, .single ?_, holds_self _ _⟩
    rw [offer_long hst (Token.of_option s) hslot, hflag]
    exact congrArg (Except.map some) (flag_of_not_mem hst hflag hread hnew)
  | @apart _ value hvalue =>
    obtain ⟨key, hkey, hread, htaken⟩ := Setting.read_value hlegible hvalue
    refine ⟨_, .cons ?_ (.single (offer_value htaken)), holds_pending hkey hread hnew⟩
    rw [offer_long hst (Token.of_option s) hslot, hkey]
    exact congrArg (Except.map some) (begin_none hst key)
  | @joined _ value hvalue =>
    obtain ⟨key, hkey, hread, -⟩ := Setting.read_value hlegible hvalue
    refine ⟨_, .single ?_, holds_self _ _⟩
    rw [offer_long hst (Token.of_option_eq s value) hslot, hkey]
    exact congrArg (Except.map some) (begin_some hst hkey hread hnew)
  | letter path =>
    obtain ⟨key, hkey, hread, htaken⟩ := Setting.read_value hlegible rfl
    cases hkey
    refine ⟨_, .cons ?_ (.single (offer_value htaken)), holds_pending rfl hread hnew⟩
    have hletter : scope.short? 'o' = some (.key .output) := Scope.short?_output hslot
    rw [offer, if_neg (by simp [hst.unescaped])]
    simp only [show Token.of "-o" = .short ['o'] from rfl, hst.not_waiting, short, hletter]
    exact congrArg (Except.map some) (begin_none hst .output)

/-! ## Runs -/

theorem not_mem_of_nodup {s : Setting} {rest : List Setting}
    (h : ((settings ++ s :: rest).map Setting.slot).Nodup) :
    s.slot ∉ settings.map Setting.slot := by
  intro hmem
  rw [List.map_append, List.nodup_append] at h
  exact h.2.2 _ hmem _ List.mem_cons_self rfl

/-- A run of paths goes on with one more. -/
theorem Holds.extend {ws : List String} {w : String} (h : st.Holds settings words)
    (hp : st.pending = some (.words ws)) (hw : w ≠ "") :
    Holds { st with pending := some (.words (ws ++ [w])) } settings (words ++ [w]) := by
  simp only [Holds, close, hp] at h ⊢
  split at h
  next => cases h
  next hany =>
    obtain ⟨hsettings, hwords, -, hescaped⟩ := State.mk.inj (Except.ok.inj h)
    have hany' : ¬(ws ++ [w]).any (· = "") = true := by
      rw [List.any_append, Bool.or_eq_true]
      simpa [hw] using hany
    rw [if_neg hany', hsettings, ← hwords, hescaped, List.append_assoc]

/-- **A path is taken as an image** behind whatever stands in front of it. -/
theorem exists_word_of_ne {w : String} (hw : w ≠ "") (hst : st.Holds settings words) :
    ∃ st', st.word .emit w = .ok st' ∧ st'.Holds settings (words ++ [w]) := by
  by_cases hrun : ∃ ws, st.pending = some (.words ws)
  · obtain ⟨ws, hp⟩ := hrun
    exact ⟨{ st with pending := some (.words (ws ++ [w])) }, by simp [word, hp],
      hst.extend hp hw⟩
  · refine ⟨{ settings, words, pending := some (.words [w]) }, ?_, by simp [Holds, close, hw]⟩
    simp only [word]
    split
    next ws hp => exact absurd ⟨ws, hp⟩ hrun
    next => rw [hst]; rfl

/-- Text that is no option is a word of its own where none waits for a value. -/
theorem offer_plain {w : String} (hw : Plain w) (hst : st.Holds settings words) :
    st.offer scope w = .ok none := by
  rw [offer, if_neg (by simp [hst.unescaped]), Token.of_plain hw, hst.not_waiting]
  rfl

/-- **Items are read one after another**: what they write down is added to what was there. -/
theorem scan_of_writes {items : List Item} {args : List String} (h : Writes items args)
    (hst : st.Holds settings words) (hplain : ∀ w ∈ imagesOf items, Plain w)
    (hset : ∀ s ∈ settingsOf items, s.Legible ∧ s.slot ∈ Scope.emit.slots)
    (hnodup : ((settings ++ settingsOf items).map Setting.slot).Nodup) :
    st.scan .emit args =
      .ok { settings := settings ++ settingsOf items, words := words ++ imagesOf items } := by
  -- on what is written: what has been read grows by an item, and no option comes a second time
  induction h generalizing st settings words with
  | nil =>
    rw [scan, hst]
    simp [settingsOf, imagesOf]
  | @image path items args _ ih =>
    have himages : imagesOf (.image path :: items) = path :: imagesOf items := rfl
    rw [himages] at hplain ⊢
    have hpath := hplain path List.mem_cons_self
    obtain ⟨st', hword, hst'⟩ := exists_word_of_ne hpath.1 hst
    have hstep : st.scan .emit (path :: args) = st'.scan .emit args := by
      rw [scan, offer_plain hpath hst]
      change (st.word .emit path >>= fun st => st.scan .emit args) = _
      rw [hword]
      rfl
    rw [hstep, ih hst' (fun w hw => hplain w (List.mem_cons_of_mem _ hw)) hset hnodup,
      List.append_assoc]
    rfl
  | @setting s own items args hs _ ih =>
    have hsettings : settingsOf (.setting s :: items) = s :: settingsOf items := rfl
    rw [hsettings] at hset hnodup ⊢
    obtain ⟨hlegible, hslot⟩ := hset s List.mem_cons_self
    obtain ⟨st', htaken, hst'⟩ :=
      exists_taken_of_spells hs hlegible hst hslot (not_mem_of_nodup hnodup)
    rw [scan_of_taken htaken, ih hst' hplain (fun s' hs' => hset s' (List.mem_cons_of_mem _ hs'))
      (by simpa using hnodup), List.append_assoc]
    rfl

/-- Options in front of the command are taken one after another. -/
theorem exists_taken_of_writes {front : List Setting} {args : List String}
    (h : Writes (front.map .setting) args) (hst : st.Holds settings words)
    (hset : ∀ s ∈ front, s.Legible ∧ s.slot ∈ scope.slots)
    (hnodup : ((settings ++ front).map Setting.slot).Nodup) :
    ∃ st', Taken scope st args st' ∧ st'.Holds (settings ++ front) words := by
  induction front generalizing st settings args with
  | nil =>
    cases h
    exact ⟨st, .nil st, by rwa [List.append_nil]⟩
  | cons s front ih =>
    rw [List.map_cons] at h
    cases h with
    | setting hs hrest =>
      obtain ⟨hlegible, hslot⟩ := hset s List.mem_cons_self
      obtain ⟨st₁, htaken, hst₁⟩ :=
        exists_taken_of_spells hs hlegible hst hslot (not_mem_of_nodup hnodup)
      obtain ⟨st₂, htaken', hst₂⟩ := ih hrest hst₁
        (fun s' hs' => hset s' (List.mem_cons_of_mem _ hs')) (by simpa using hnodup)
      exact ⟨st₂, htaken.append htaken', by simpa using hst₂⟩

end State

/-! ## A whole command line -/

theorem Setting.mem_program_slots {s : Setting} (h : s.isGlobal = true) :
    s.slot ∈ Scope.program.slots := by
  cases s with
  | format | logFormat | logLevel => simp [slot, Scope.slots, globalSlots]
  | _ => cases h

/-- **Options in front of an emit command and items behind it make a request** of all that they
set. -/
theorem parse_of_writes {front : List Setting} {items : List Item} {before after : List String}
    (hbefore : Writes (front.map .setting) before) (hafter : Writes items after)
    (hfront : ∀ s ∈ front, s.isGlobal = true) (hne : imagesOf items ≠ [])
    (hplain : ∀ w ∈ imagesOf items, Plain w)
    (hset : ∀ s ∈ front ++ settingsOf items, s.Legible ∧ s.slot ∈ Scope.emit.slots)
    (hnodup : ((front ++ settingsOf items).map Setting.slot).Nodup) :
    parse (before ++ "emit" :: after) = .ok ((front ++ settingsOf items).foldl applyGlobal {
      command := .emit ((settingsOf items).foldl applyEmit { inputs := imagesOf items }) }) := by
  rw [List.map_append, List.nodup_append] at hnodup
  obtain ⟨hnodupFront, hnodupItems, -⟩ := hnodup
  obtain ⟨st, htaken, hst⟩ : ∃ st, State.Taken .program {} before st ∧ st.Holds front [] :=
    State.exists_taken_of_writes hbefore (State.holds_self [] [])
      (fun s hs => ⟨(hset s (List.mem_append_left _ hs)).1,
        Setting.mem_program_slots (hfront s hs)⟩) hnodupFront
  have hscan : ({} : State).scan .emit after =
      .ok { settings := settingsOf items, words := imagesOf items } :=
    State.scan_of_writes hafter (State.holds_self [] []) hplain
      (fun s hs => hset s (List.mem_append_right _ hs)) hnodupItems
  have hcommand : commandOf .emit { settings := settingsOf items, words := imagesOf items } =
      .ok (.emit ((settingsOf items).foldl applyEmit { inputs := imagesOf items })) := by
    rw [commandOf, if_neg hne]
  -- an option right in front of the command stands open until all behind it has been read
  have hclose : st.close = .ok { settings := front } := hst
  have hword : "emit" ≠ helpWord := by decide
  rw [parse, State.parseFrom_of_taken htaken, parseFrom, State.offer_plain (by decide) hst]
  simp only [hst.unescaped, hword, command?, hscan, hcommand, hclose, if_false, Bool.false_eq_true,
    bind, Except.bind, pure, Except.pure]

end Arguments

end FrameFeed
