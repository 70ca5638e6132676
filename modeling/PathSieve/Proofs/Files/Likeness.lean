import PathSieve.Files.Walk

namespace PathSieve.Files

/-!
# Trees that are alike

What a path leads to, and what a walk meets, depends on the places of files, folders and devices
alone, and not on the contents of files. Text put behind that of a file changes no place.

* `Tree.Alike` — trees with the same places.
* `Tree.Alike.find?_eq`, `Tree.Alike.walk_eq` — paths and walks in trees that are alike.
* `Tree.Holds`, `Tree.append_alike` — places where text can be put without a change of the places.
-/

namespace Tree

/-- The places of the files. -/
def places (t : Tree) : List Location := t.files.map (·.1)

/-- Trees with files, folders and devices at the same places. -/
structure Alike (t u : Tree) : Prop where
  files : t.places = u.places
  folders : t.folders = u.folders
  devices : t.devices = u.devices

namespace Alike

variable {t u v : Tree}

theorem refl (t : Tree) : t.Alike t := ⟨rfl, rfl, rfl⟩

theorem trans (h : t.Alike u) (h' : u.Alike v) : t.Alike v :=
  ⟨h.files.trans h'.files, h.folders.trans h'.folders, h.devices.trans h'.devices⟩

end Alike

/-! ### Places -/

theorem isFile_iff {t : Tree} {l : Location} : t.isFile l ↔ l ∈ t.places := by
  unfold isFile places
  induction t.files with
  | nil => simp
  | cons f files ih =>
    rw [List.lookup_cons, List.map_cons, List.mem_cons]
    by_cases hl : l = f.1
    · simp [hl]
    · rw [beq_eq_false_iff_ne.2 hl, or_iff_right hl]
      exact ih

theorem any_isInside (t : Tree) (l : Location) :
    t.files.any (·.1.isInside l) = t.places.any (·.isInside l) := by
  rw [places, List.any_map]
  rfl

theorem within_eq (t : Tree) (folder : Location) : t.within folder =
    (t.places.filter (·.isInside folder)).map fun l => l.steps.drop folder.steps.length := by
  rw [within, places, List.filter_map, List.map_map]
  rfl

namespace Alike

variable {t u : Tree}

theorem isFile_eq (h : t.Alike u) (l : Location) : t.isFile l = u.isFile l := by
  rw [Bool.eq_iff_iff, isFile_iff, isFile_iff, h.files]

theorem isDevice_eq (h : t.Alike u) (l : Location) : t.isDevice l = u.isDevice l := by
  rw [isDevice, h.devices, isDevice]

theorem isFolder_eq (h : t.Alike u) (l : Location) : t.isFolder l = u.isFolder l := by
  simp only [isFolder, any_isInside, h.files, h.folders]

theorem isThere_eq (h : t.Alike u) (l : Location) : t.isThere l = u.isThere l := by
  rw [isThere, h.isFile_eq, h.isFolder_eq, h.isDevice_eq, isThere]

/-- A path leads to the same place. -/
theorem find?_eq (h : t.Alike u) (path : String) : t.find? path = u.find? path := by
  have hstep : t.step? = u.step? := by
    funext l name
    rw [step?, h.isFolder_eq, h.isThere_eq, step?]
  rw [find?, hstep, find?]

/-- A walk meets the same files. -/
theorem walk_eq (h : t.Alike u) (root : String) (folder : Location) :
    t.walk root folder = u.walk root folder := by
  rw [walk, within_eq, h.files, ← within_eq, walk]

end Alike

/-! ### Texts -/

variable {t u : Tree} {l : Location}

/-- There is a file or a device at a place. -/
def Holds (t : Tree) (l : Location) : Prop := t.isFile l ∨ t.isDevice l

theorem Holds.of_alike (hl : t.Holds l) (h : u.Alike t) : u.Holds l := by
  unfold Holds
  rw [h.isFile_eq, h.isDevice_eq]
  exact hl

/-- Text that is put behind that of a file, or is lost in a device, changes no place. -/
theorem append_alike (h : t.Holds l) (text : String) : (t.append l text).Alike t := by
  unfold append
  by_cases hdevice : t.isDevice l
  · rw [if_pos hdevice]
    exact .refl t
  · rw [if_neg hdevice, if_pos (h.resolve_right hdevice)]
    refine ⟨?_, rfl, rfl⟩
    show (t.files.map fun f => if f.1 = l then (l, f.2.append text) else f).map (·.1) = t.places
    rw [places, List.map_map]
    refine List.map_congr_left fun f _ => ?_
    show (if f.1 = l then (l, f.2.append text) else f).1 = f.1
    split
    · rename_i hf
      exact hf.symm
    · rfl

/-- A file is made where there is none. -/
theorem holds_append (t : Tree) (l : Location) (text : String) : (t.append l text).Holds l := by
  by_cases hl : t.Holds l
  · exact hl.of_alike (append_alike hl text)
  · have hdevice : ¬t.isDevice l := fun h => hl (.inr h)
    have hfile : ¬t.isFile l := fun h => hl (.inl h)
    refine .inl (isFile_iff.2 ?_)
    rw [append, if_neg hdevice, if_neg hfile]
    simp [places]

/-- A file that is made ready for appending holds text. -/
theorem holds_openLog {path : List Text.CodePoint} (h : t.openLog path = .ok (u, l)) :
    u.Holds l := by
  simp only [openLog] at h
  split at h
  · cases h
  · split at h
    · cases h
    · split at h
      · cases h
      · split at h
        · cases h
        · cases h
          exact holds_append ..

end Tree

end PathSieve.Files
