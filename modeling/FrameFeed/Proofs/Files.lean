import FrameFeed.FileSystem
/-!
# A file that is made and filled

Making a file and appending to it come to one change of the tree: an entry at the location where
the path leads. A walk goes through directories and along links and stops where it may not go on,
and a file that is put where no directory was takes none of these away, so every way that there was
before is still there.

Main statements: `FileSystem.walk_of_keeps`, a walk ends where it ended when no directory was taken
away; `FileSystem.put_of_create`, a file is made where its path leads; and that the tree is a
`LawfulFiles`.
-/

namespace FrameFeed

namespace FileSystem

variable {fs other : FileSystem} {loc stop : Location} {use : Use}

/-! ## Trees that keep their ways -/

/-- A tree in which every directory is still one, with the same links and the same refusals. -/
structure Keeps (fs other : FileSystem) : Prop where
  links_eq : other.links = fs.links
  refusals_eq : other.refusals = fs.refusals
  directory_of : ∀ {loc}, fs.find? loc = some .directory → other.find? loc = some .directory

theorem Keeps.allow_eq (h : fs.Keeps other) : other.allow loc use = fs.allow loc use := by
  rw [allow, h.refusals_eq, allow]

theorem Keeps.checkLookup_of (h : fs.Keeps other) {name : String}
    (hcheck : fs.checkLookup loc name = .ok ()) : other.checkLookup loc name = .ok () := by
  rw [checkLookup] at hcheck ⊢
  split at hcheck
  next => cases hcheck
  next hdirectory =>
    rw [h.directory_of hdirectory, h.allow_eq]
    exact hcheck
  next => cases hcheck

/-- Where a file may be made, a file may be looked for. -/
theorem not_isBarred_of_imp {making looking : Bool} {names : List String}
    (h : looking = true → making = true) (hmaking : ¬ isBarred making names = true) :
    ¬ isBarred looking names = true := by
  cases looking with
  | false => simp [isBarred]
  | true => rwa [h rfl] at hmaking

theorem Keeps.through_of {making looking : Bool} {follow follow' : Way → Except Fault Location}
    (h : fs.Keeps other) (hlooking : looking = true → making = true)
    (hfollow : ∀ {way}, follow way = .ok stop → follow' way = .ok stop) {names : List String}
    (hthrough : fs.through making follow loc names = .ok stop) :
    other.through looking follow' loc names = .ok stop := by
  induction names generalizing loc with
  | nil => exact hthrough
  | cons name names ih =>
    rw [through] at hthrough ⊢
    cases hcheck : fs.checkLookup loc name with
    | error fault =>
      rw [hcheck] at hthrough
      cases hthrough
    | ok _ =>
      rw [hcheck] at hthrough
      rw [h.checkLookup_of hcheck]
      simp only [Except.bind] at hthrough ⊢
      split at hthrough
      next => cases hthrough
      next hbarred =>
        rw [if_neg (not_isBarred_of_imp hlooking hbarred)]
        split at hthrough
        next => cases hthrough
        next hlong =>
          rw [if_neg hlong, h.links_eq]
          split at hthrough
          next => exact hfollow hthrough
          next => exact ih hthrough

/-- **A walk ends where it ended when no directory was taken away**, and so does one that only looks
for what the other was to make. -/
theorem walk_of_keeps {making looking : Bool} (h : fs.Keeps other)
    (hlooking : looking = true → making = true) {budget : Nat} {way : Way}
    (hwalk : fs.walk making budget way = .ok stop) :
    other.walk looking budget way = .ok stop := by
  induction budget generalizing way with
  | zero => exact h.through_of hlooking (fun hloop => by cases hloop) hwalk
  | succ budget ih => exact h.through_of hlooking ih hwalk

theorem locate_of_keeps {making looking : Bool} (h : fs.Keeps other)
    (hcurrent : other.current = fs.current) (hlooking : looking = true → making = true)
    {path : List Char} (hlocate : fs.locate making path = .ok stop) :
    other.locate looking path = .ok stop := by
  rw [locate] at hlocate ⊢
  cases hcheck : checkPath path with
  | error fault =>
    rw [hcheck] at hlocate
    cases hlocate
  | ok _ =>
    rw [hcheck] at hlocate
    rw [way, hcurrent]
    exact walk_of_keeps h hlooking hlocate

/-! ## Putting a file -/

theorem ne_nil_of_find?_ne (h : fs.find? loc ≠ some .directory) : loc ≠ [] := by
  rintro rfl
  exact h rfl

/-- A file that is put where no directory is takes none away. -/
theorem keeps_put {content : List UInt8} (hloc : fs.find? loc ≠ some .directory) :
    fs.Keeps (fs.put loc (.file content)) where
  links_eq := rfl
  refusals_eq := rfl
  directory_of {place} hdirectory := by
    have hne : place ≠ loc := fun heq => hloc (heq ▸ hdirectory)
    rw [find?_put (ne_nil_of_find?_ne hloc), if_neg hne, hdirectory]

/-- Only the last entry put at a location stays. -/
theorem put_put (fs : FileSystem) (loc : Location) (entry other : Entry) :
    (fs.put loc entry).put loc other = fs.put loc other := by
  simp [put, List.filter_filter]

/-- Appending to a file just made fills it. -/
theorem append_put {content bytes : List UInt8} (hloc : loc ≠ []) :
    (fs.put loc (.file content)).append loc bytes = fs.put loc (.file (content ++ bytes)) := by
  rw [append, find?_put hloc, if_pos rfl]
  exact put_put fs loc _ _

theorem content?_put {content : List UInt8} (hloc : loc ≠ []) (other : Location) :
    (fs.put loc (.file content)).content? other =
      if other = loc then some content else fs.content? other := by
  rw [content?, find?_put hloc]
  by_cases hother : other = loc
  · rw [if_pos hother, if_pos hother]
  · rw [if_neg hother, if_neg hother, content?]

theorem find?_of_content? {content : List UInt8} (h : fs.content? loc = some content) :
    fs.find? loc = some (.file content) := by
  rw [content?] at h
  split at h
  next hfind =>
    cases h
    exact hfind
  next => cases h

/-! ## Making a file and appending to it -/

theorem allow_map_eq_ok_iff {α : Type} {a b : α} :
    ((fs.allow loc use).map fun _ => a) = .ok b ↔ fs.allow loc use = .ok () ∧ a = b := by
  cases fs.allow loc use <;> simp [Except.map]

/-- **What making a regular file does**: an empty one is put at the location, where no directory
was. -/
theorem put_of_createAt {made : FileSystem} (h : fs.createAt stop = .ok (.file loc, made)) :
    loc = stop ∧ fs.find? loc ≠ some .directory ∧ made = fs.put loc (.file []) := by
  rw [createAt] at h
  split at h
  next hfind =>
    rw [makeAt] at h
    split at h
    next => cases h
    next =>
      obtain ⟨-, heq⟩ := allow_map_eq_ok_iff.mp h
      cases heq
      exact ⟨rfl, by simp [hfind], rfl⟩
    next => cases h
  next => cases h
  next =>
    cases hallow : fs.allow stop .write <;> rw [hallow] at h <;> cases h
  next content hfind =>
    obtain ⟨-, heq⟩ := allow_map_eq_ok_iff.mp h
    cases heq
    exact ⟨rfl, by simp [hfind], rfl⟩
  -- what else stands there is no regular file
  all_goals
    obtain ⟨-, heq⟩ := allow_map_eq_ok_iff.mp h
    cases heq

/-- **A file is made where its path leads**, and no directory was there. -/
theorem put_of_create {made : FileSystem} {path : String}
    (h : fs.create path = .ok (.file loc, made)) :
    fs.locate true path.toList = .ok loc ∧ fs.find? loc ≠ some .directory ∧
      made = fs.put loc (.file []) := by
  rw [create] at h
  cases hlocate : fs.locate true path.toList with
  | error fault =>
    rw [hlocate] at h
    cases h
  | ok stop =>
    rw [hlocate] at h
    obtain ⟨rfl, hput⟩ := put_of_createAt h
    exact ⟨rfl, hput⟩

/-- What is read at the end of a path that leads to a file is what the file holds. -/
theorem content?_of_read {path : String} {content held : List UInt8}
    (hlocate : fs.locate false path.toList = .ok loc) (hheld : fs.content? loc = some held)
    (hread : fs.read path = .ok content) : content = held := by
  rw [read, hlocate] at hread
  simp only [Except.bind, find?_of_content? hheld] at hread
  split at hread
  next => cases hread
  next =>
    cases hread
    rfl

instance : LawfulFiles FileSystem where
  content?_create {fs made path loc} h other := by
    obtain ⟨-, hdirectory, rfl⟩ := put_of_create h
    exact content?_put (ne_nil_of_find?_ne hdirectory) other
  content?_append {fs loc old} h bytes other := by
    have hfind := find?_of_content? h
    have hdirectory : fs.find? loc ≠ some .directory := by simp [hfind]
    have hloc := ne_nil_of_find?_ne hdirectory
    have happend : fs.append loc bytes = fs.put loc (.file (old ++ bytes)) := by
      rw [append, hfind]
    exact (congrArg (·.content? other) happend).trans (content?_put hloc other)
  content?_of_read {fs made path loc bytes content} h hread := by
    obtain ⟨hlocate, hdirectory, rfl⟩ := put_of_create h
    have hloc := ne_nil_of_find?_ne hdirectory
    have happend : (fs.put loc (.file [])).append loc bytes = fs.put loc (.file bytes) :=
      append_put hloc
    have hheld : (fs.put loc (.file bytes)).content? loc = some bytes := by
      rw [content?_put hloc, if_pos rfl]
    -- the path along which the file was made still leads to it
    have hstill : (fs.put loc (.file bytes)).locate false path.toList = .ok loc :=
      locate_of_keeps (keeps_put hdirectory) rfl Bool.noConfusion hlocate
    change ((fs.put loc (.file [])).append loc bytes).read path = .ok content at hread
    change ((fs.put loc (.file [])).append loc bytes).content? loc = some content
    rw [happend] at hread ⊢
    rw [hheld, content?_of_read hstill hheld hread]

end FileSystem

end FrameFeed
