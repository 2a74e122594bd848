import ClusterFilter.Files.Store

/-!
# ClusterFilter — laws of files

What the program may rely on when it works on files, and that files in memory keep it. Looking at
files changes nothing. A text that is not stored leaves all texts as they are (`AllOrNothing`),
although directories that were made on the way may stay. A text that is stored is found at its path
(`RetainsTexts`), and what stands at a path is what was stored there last (`KeepsTexts`).

Main results:

* `FileStore.makeDirectories_of_made` — directories are made once: on a tree that has them, and
  whatever files it has, nothing is left to do.
* `FileStore.allOrNothing`, `FileStore.retainsTexts`, `FileStore.keepsTexts` — files in memory keep
  the laws.
-/

namespace ClusterFilter

-- ---------------------------------------------------------------------------
-- Laws
-- ---------------------------------------------------------------------------

namespace FileAccess

variable {σ γ : Type} [FileAccess (StateM σ)]

/-- Whether something stands at the path, as the world is. -/
def presentIn (s : σ) (path : String) : Bool :=
  ((isPresent path : StateM σ Bool).run s).1

/-- What comes of reading at the path, as the world is. -/
def textIn (s : σ) (path : String) : Except String String :=
  ((readText path : StateM σ (Except String String)).run s).1

/-- What comes of storing the text at the path, and the world after that. -/
def storing (s : σ) (path text : String) : Except String Unit × σ :=
  (writeText path text : StateM σ (Except String Unit)).run s

/-- Looking at files changes nothing. -/
structure ReadsOnly (σ : Type) [FileAccess (StateM σ)] : Prop where
  isPresent : ∀ (s : σ) path, (isPresent path : StateM σ Bool).run s = (presentIn s path, s)
  readText : ∀ (s : σ) path,
    (readText path : StateM σ (Except String String)).run s = (textIn s path, s)

/-- A text is stored as a whole or not at all: if it is not, then what the view shows of the world
is as it was. -/
structure AllOrNothing (view : σ → γ) : Prop extends ReadsOnly σ where
  unstored : ∀ {s : σ} {path text : String}, (storing s path text).1 ≠ .ok () →
    view (storing s path text).2 = view s

/-- A text that is stored stands at its path then. -/
structure RetainsTexts (σ : Type) [FileAccess (StateM σ)] : Prop extends ReadsOnly σ where
  stored : ∀ {s : σ} {path text : String}, (storing s path text).1 = .ok () →
    presentIn (storing s path text).2 path = true ∧
      textIn (storing s path text).2 path = .ok text

/-- In a world that is fit for it, what stands at the path is what was stored there last: a text is
found there once it is stored, and one that is not stored leaves what stood there. The world stays
fit. -/
structure KeepsTexts (path : String) (fit : σ → Prop) : Prop extends ReadsOnly σ where
  stored : ∀ {s : σ} {text : String}, fit s → (storing s path text).1 = .ok () →
    presentIn (storing s path text).2 path = true ∧
      textIn (storing s path text).2 path = .ok text
  unstored : ∀ {s : σ} {text : String}, fit s → (storing s path text).1 ≠ .ok () →
    presentIn (storing s path text).2 path = presentIn s path ∧
      textIn (storing s path text).2 path = textIn s path
  fit : ∀ {s : σ} (text : String), fit s → fit (storing s path text).2

end FileAccess

-- ---------------------------------------------------------------------------
-- Entries
-- ---------------------------------------------------------------------------

namespace FileStore

open FileAccess

variable {s t : FileStore} {place : Place}

theorem lookup_filter_ne {place other : Place} (h : other ≠ place)
    (entries : List (Place × FileEntry)) :
    (entries.filter fun e => e.1 ≠ place).lookup other = entries.lookup other := by
  induction entries with
  | nil => rfl
  | cons e entries ih =>
    obtain ⟨p, entry⟩ := e
    by_cases hp : p = place
    · have hother : (other == p) = false := beq_eq_false_iff_ne.mpr (hp ▸ h)
      rw [List.filter_cons_of_neg (by simpa using hp), ih, List.lookup_cons, hother]
    · rw [List.filter_cons_of_pos (by simpa using hp), List.lookup_cons, List.lookup_cons, ih]

theorem entry?_put (s : FileStore) (place other : Place) (entry : FileEntry) :
    FileStore.entry? (s.put place entry) other =
      if other = place then some entry else s.entry? other := by
  unfold entry? put
  split
  · next h => rw [h, List.lookup_cons, beq_self_eq_true]
  · next h => rw [List.lookup_cons, beq_eq_false_iff_ne.mpr h, lookup_filter_ne h]

/-- The place is a directory. -/
def IsDirectory (s : FileStore) (place : Place) : Prop :=
  s.entry? place = some .directory

/-- The text of an entry that is a file. -/
def textOf? : FileEntry → Option String
  | .file text => some text
  | .directory => none

/-- The text of the file at the place. -/
def text? (s : FileStore) (place : Place) : Option String :=
  s.entry? place |>.bind textOf?

/-- Both trees have the same directories and start relative paths at the same place. -/
structure SameDirectories (s t : FileStore) : Prop where
  working : s.working = t.working
  directories : ∀ place, s.IsDirectory place ↔ t.IsDirectory place

theorem sameDirectories_put {place : Place} (h : ¬ s.IsDirectory place) (text : String) :
    SameDirectories (s.put place (.file text)) s := by
  refine ⟨rfl, fun other => ?_⟩
  unfold IsDirectory at h ⊢
  rw [entry?_put]
  split
  · next hother => exact ⟨nofun, fun hdirectory => absurd (hother ▸ hdirectory) h⟩
  · exact Iff.rfl

-- ---------------------------------------------------------------------------
-- Paths
-- ---------------------------------------------------------------------------

theorem SameDirectories.walk_eq (h : SameDirectories s t) (place : Place)
    (segments : List (List Char)) : s.walk place segments = t.walk place segments := by
  induction segments generalizing place with
  | nil => rfl
  | cons segment rest ih =>
    have hplace : s.entry? place = some .directory ↔ t.entry? place = some .directory :=
      h.directories place
    rw [walk, walk]
    simp only [ne_eq, hplace, ih]

theorem SameDirectories.resolve?_eq (h : SameDirectories s t) (path : String) :
    s.resolve? path = t.resolve? path := by
  unfold resolve? startOf
  rw [h.working, h.walk_eq]

/-- The second tree is the first one with more directories. -/
structure Widens (s t : FileStore) : Prop where
  working : t.working = s.working
  text : ∀ place, t.text? place = s.text? place
  directories : ∀ place, s.IsDirectory place → t.IsDirectory place

theorem Widens.refl (s : FileStore) : Widens s s :=
  ⟨rfl, fun _ => rfl, fun _ h => h⟩

theorem Widens.trans {u : FileStore} (h : Widens s t) (h' : Widens t u) : Widens s u :=
  ⟨h'.working.trans h.working, fun place => (h'.text place).trans (h.text place),
    fun place hplace => h'.directories place (h.directories place hplace)⟩

theorem widens_put (h : s.entry? place = none) : Widens s (s.put place .directory) := by
  refine ⟨rfl, fun other => ?_, fun other hother => ?_⟩
  · unfold text?
    rw [entry?_put]
    split
    · next hsame =>
      rw [hsame, h]
      rfl
    · rfl
  · unfold IsDirectory at hother ⊢
    rw [entry?_put, hother]
    split <;> rfl

theorem widens_makeDirectories (s : FileStore) (place : Place) (segments : List (List Char)) :
    Widens s (s.makeDirectories place segments).1 := by
  fun_induction makeDirectories s place segments with
  | case1 s => exact .refl s
  | case2 _ _ _ _ _ ih => exact ih
  | case3 _ _ _ _ ih => exact ih
  | case4 _ _ _ _ _ _ _ _ ih => exact ih
  | case5 s => exact .refl s
  | case6 s place segment rest _ _ next hnone _ ih => exact (widens_put hnone).trans ih
  | case7 s => exact .refl s

/-- On a tree that has the directories already, nothing is left to do. -/
theorem makeDirectories_of_made {segments : List (List Char)}
    (h : (s.makeDirectories place segments).2 = true)
    (ht : ∀ other, (s.makeDirectories place segments).1.IsDirectory other → t.IsDirectory other) :
    t.makeDirectories place segments = (t, true) := by
  fun_induction makeDirectories s place segments with
  | case1 => rfl
  | case2 s place segment rest hidle ih =>
    rw [makeDirectories, if_pos hidle]
    exact ih h ht
  | case3 s place rest hidle ih =>
    rw [makeDirectories, if_neg hidle, if_pos rfl]
    exact ih h ht
  | case4 s place segment rest hidle hup next hdirectory ih =>
    have hnext : t.entry? (place ++ [segment]) = some .directory :=
      ht next ((widens_makeDirectories ..).directories next hdirectory)
    rw [makeDirectories, if_neg hidle, if_neg hup]
    simp only [hnext]
    exact ih h ht
  | case5 => cases h
  | case6 s place segment rest hidle hup next hnone hname ih =>
    have hmade : (s.put next .directory).IsDirectory next := by
      unfold IsDirectory
      rw [entry?_put, if_pos rfl]
    have hnext : t.entry? (place ++ [segment]) = some .directory :=
      ht next ((widens_makeDirectories ..).directories next hmade)
    rw [makeDirectories, if_neg hidle, if_neg hup]
    simp only [hnext]
    exact ih h ht
  | case7 => cases h

theorem widens_makePath (s : FileStore) (path : String) : Widens s (s.makePath path).1 := by
  unfold makePath
  split
  · exact widens_makeDirectories ..
  · exact .refl s

theorem makePath_of_made {path : String} (h : (s.makePath path).2 = true)
    (ht : SameDirectories t (s.makePath path).1) : t.makePath path = (t, true) := by
  have hstart : t.startOf path = s.startOf path := by
    unfold startOf
    rw [ht.working, (widens_makePath s path).working]
  unfold makePath at h ht ⊢
  split at h
  · next hvalid =>
    rw [if_pos hvalid] at ht ⊢
    rw [hstart]
    exact makeDirectories_of_made h fun other => (ht.directories other).mpr
  · cases h

-- ---------------------------------------------------------------------------
-- Storing
-- ---------------------------------------------------------------------------

/-- Once the directories above it are made, the path leads to a place that is no directory. -/
def Storable (path : String) (s : FileStore) : Prop :=
  ∃ t place, s.makePath (Path.directory path) = (t, true) ∧ t.resolve? path = some place ∧
    ¬ t.IsDirectory place

theorem writeText_of_free {path : String} (hmade : s.makePath (Path.directory path) = (t, true))
    (hplace : t.resolve? path = some place) (hfree : ¬ t.IsDirectory place) (text : String) :
    s.writeText path text = (t.put place (.file text), true) := by
  have hfree : t.entry? place ≠ some .directory := hfree
  unfold writeText
  simp only [hmade, hplace, if_neg hfree]

/-- What stands in the tree after a text was stored, and that another text can be stored then. -/
theorem Storable.writeText {path : String} (h : Storable path s) (text : String) :
    (s.writeText path text).2 = true ∧ (s.writeText path text).1.isPresent path = true ∧
      (s.writeText path text).1.readText path = some text ∧
      Storable path (s.writeText path text).1 := by
  obtain ⟨t, place, hmade, hplace, hfree⟩ := h
  rw [writeText_of_free hmade hplace hfree text]
  have hsame := sameDirectories_put hfree text
  have hresolve : (t.put place (.file text)).resolve? path = some place :=
    (hsame.resolve?_eq path).trans hplace
  have hentry : FileStore.entry? (t.put place (.file text)) place = some (.file text) := by
    rw [entry?_put, if_pos rfl]
  refine ⟨rfl, ?_, ?_, ?_⟩
  · rw [isPresent, hresolve, Option.bind_some, hentry, Option.isSome_some]
  · rw [readText, hresolve, Option.bind_some, hentry]
  · have hmade' := makePath_of_made (t := t.put place (.file text))
      (by rw [hmade]) (by rwa [hmade])
    refine ⟨_, place, hmade', hresolve, ?_⟩
    rw [IsDirectory, hentry]
    nofun

/-- A text is stored only where it can be. -/
theorem storable_of_stored {path text : String} (h : (s.writeText path text).2 = true) :
    Storable path s := by
  unfold FileStore.writeText at h
  split at h
  · cases h
  · next t hmade =>
    split at h
    · cases h
    · next place hplace =>
      split at h
      · cases h
      · next hfree => exact ⟨t, place, hmade, hplace, hfree⟩

/-- A text that is not stored leaves all texts. -/
theorem text?_of_unstored {path text : String} (h : (s.writeText path text).2 = false) :
    (s.writeText path text).1.text? = s.text? := by
  have hwidens := widens_makePath s (Path.directory path)
  funext place
  rw [← hwidens.text place]
  unfold FileStore.writeText at h ⊢
  split at h
  · next t hmade => rw [hmade]
  · next t hmade =>
    rw [hmade]
    split at h
    · rfl
    · next place' hplace =>
      split at h
      · next hdirectory => simp only [if_pos hdirectory]
      · cases h

theorem readsOnly : ReadsOnly FileStore :=
  ⟨fun _ _ => rfl, fun _ _ => rfl⟩

theorem storing_eq_ok_iff {path text : String} :
    (storing s path text).1 = .ok () ↔ (s.writeText path text).2 = true := by
  show FileStore.stored (s.writeText path text).2 = .ok () ↔ _
  unfold stored
  split
  · next h => exact ⟨fun _ => h, fun _ => rfl⟩
  · next h => exact ⟨nofun, fun hstored => absurd hstored h⟩

theorem textIn_of_readText {path text : String} (h : s.readText path = some text) :
    textIn s path = .ok text := by
  show FileStore.read s path = _
  rw [read, h]

theorem allOrNothing : AllOrNothing text? where
  toReadsOnly := readsOnly
  unstored h := text?_of_unstored (Bool.eq_false_iff.mpr fun hstored =>
    h (storing_eq_ok_iff.mpr hstored))

/-- Whatever the tree, a text that is stored is found. -/
theorem retainsTexts : RetainsTexts FileStore where
  toReadsOnly := readsOnly
  stored h := by
    obtain ⟨-, hpresent, htext, -⟩ :=
      (storable_of_stored (storing_eq_ok_iff.mp h)).writeText _
    exact ⟨hpresent, textIn_of_readText htext⟩

/-- Where texts can be stored, the last one is kept. -/
theorem keepsTexts (path : String) : KeepsTexts path (Storable path) where
  toReadsOnly := readsOnly
  stored _ hstored := retainsTexts.stored hstored
  unstored h hfails := absurd (storing_eq_ok_iff.mpr (h.writeText _).1) hfails
  fit text h := (h.writeText text).2.2.2

end FileStore

end ClusterFilter
