import ClusterFilter.Proofs.Files.Store
import ClusterFilter.Proofs.Outcome
import ClusterFilter.Proofs.Toml.Reader
import ClusterFilter.Settings.Storage

/-!
# ClusterFilter — loading and saving

Loading leaves the world as it is, and what it gives depends on what stands at the path and on
nothing else (`Settings.current`). Saving stores the document of the settings, and the document is
read as the same settings.

Main results:

* `Settings.load_run`, `Settings.save_run` — what loading and saving come to.
* `Settings.ofDocument?_document` — no text of an endpoint is lost or changed in a document.
* `Settings.saved_settings_are_loaded` — what is saved is loaded.
-/

namespace ClusterFilter.Settings

open FileAccess

/-- A step that cannot fail is taken, and the next one follows in the world that it leaves. -/
theorem run_lift_bind {σ α β : Type} (x : StateM σ α) (f : α → ExceptT Error (StateM σ) β)
    (s : σ) : ((liftM x : ExceptT Error (StateM σ) α) >>= f).run.run s =
      (f (x.run s).1).run.run (x.run s).2 :=
  rfl

theorem ofText_eq_error [Build] {path text : String} {e : Error}
    (h : ofText path text = .error e) :
    e = .settings (.unreadable ⟨path, Build.tomlFault text⟩) := by
  unfold ofText at h
  split at h
  · cases h
  · injection h with h
    exact h.symm

section

variable {σ : Type} [FileAccess (StateM σ)] [Build]

/-- The settings in the file at the path, as the world is; the defaults if nothing stands there. -/
def current (path : String) (s : σ) : Except Error Settings :=
  if presentIn s path then
    match textIn s path with
    | .ok text => ofText path text
    | .error reason => .error (@Error.file reason)
  else .ok (defaults path)

theorem load_run (h : ReadsOnly σ) (path : String) (s : σ) :
    (load path : ExceptT Error (StateM σ) Settings).run.run s = (current path s, s) := by
  unfold load current
  rw [run_lift_bind, h.isPresent]
  dsimp only
  split
  · rw [run_lift_bind, h.readText]
    dsimp only
    cases textIn s path with
    | ok text => rfl
    | error reason => rfl
  · rfl

/-- Settings cannot be loaded if the file cannot be read or holds none. The error has the words of
the system or of the reader. -/
theorem current_eq_error {path : String} {s : σ} {e : Error} (h : current path s = .error e) :
    (∃ reason, textIn s path = .error reason ∧ e = @Error.file reason) ∨
      ∃ text, textIn s path = .ok text ∧
        e = .settings (.unreadable ⟨path, Build.tomlFault text⟩) := by
  unfold current at h
  split at h
  · cases htext : textIn s path with
    | ok text =>
      rw [htext] at h
      exact .inr ⟨text, rfl, ofText_eq_error h⟩
    | error reason =>
      rw [htext] at h
      injection h with h
      exact .inl ⟨reason, rfl, h.symm⟩
  · cases h

/-- Where the same stands at the path, the same is loaded. -/
theorem current_congr {path : String} {s s' : σ} (hpresent : presentIn s' path = presentIn s path)
    (htext : textIn s' path = textIn s path) : current path s' = current path s := by
  unfold current
  rw [hpresent, htext]

end

-- ---------------------------------------------------------------------------
-- Documents
-- ---------------------------------------------------------------------------

section

open Toml

/-- The members of a document of settings. -/
def textMembers (s : Settings) : List (String × String) :=
  (s.endpoint.toList.map fun endpoint => ("endpoint", endpoint)) ++ [("output", s.output.name)]

theorem bare_textMembers (s : Settings) : ∀ m ∈ s.textMembers, IsBareKey m.1 := by
  have hendpoint : IsBareKey "endpoint" := ⟨by decide, List.all_eq_true.mp (by decide)⟩
  have houtput : IsBareKey "output" := ⟨by decide, List.all_eq_true.mp (by decide)⟩
  unfold textMembers
  cases s.endpoint with
  | none => exact List.forall_mem_singleton.mpr houtput
  | some endpoint =>
    exact List.forall_mem_cons.mpr ⟨hendpoint, List.forall_mem_singleton.mpr houtput⟩

theorem distinct_textMembers (s : Settings) : (s.textMembers.map Prod.fst).Nodup := by
  unfold textMembers
  cases s.endpoint with
  | none =>
    show ["output"].Nodup
    decide
  | some endpoint =>
    show ["endpoint", "output"].Nodup
    decide

theorem memberLine_append (name value : String) (rest : List Char) :
    memberLine name value ++ rest = memberText name value.toList rest := by
  unfold memberLine memberText
  simp only [List.append_assoc]
  rfl

theorem document_eq (s : Settings) : s.document.toList = textLines s.textMembers := by
  have houtput : memberLine "output" s.output.name = textLines [("output", s.output.name)] := by
    rw [textLines, textLines, ← memberLine_append, List.append_nil]
  unfold document textMembers
  rw [String.toList_ofList, houtput]
  cases s.endpoint with
  | none => rfl
  | some endpoint => exact memberLine_append ..

/-- The document of settings is read as the same settings, whatever text the endpoint is. -/
theorem ofDocument?_document (s : Settings) (path : String) :
    ofDocument? path s.document = some { s with path } := by
  have hname : OutputFormat.ofName? s.output.name = some s.output :=
    OutputFormat.ofName?_name s.output
  unfold ofDocument?
  rw [document_eq, readDocument?_textLines s.bare_textMembers s.distinct_textMembers]
  unfold textMembers
  cases hendpoint : s.endpoint with
  | none =>
    show (OutputFormat.ofName? s.output.name).bind _ = _
    rw [hname, ← hendpoint]
    rfl
  | some endpoint =>
    show (OutputFormat.ofName? s.output.name).bind _ = _
    rw [hname, ← hendpoint]
    rfl

end

variable {σ : Type} [FileAccess (StateM σ)]

/-- Where the document of settings stands at their path, they are loaded. -/
theorem current_of_document [Build] {t : Settings} {s : σ} (hpresent : presentIn s t.path = true)
    (htext : textIn s t.path = .ok t.document) : current t.path s = .ok t := by
  unfold current
  rw [if_pos hpresent, htext]
  dsimp only
  rw [ofText, ofDocument?_document]

-- ---------------------------------------------------------------------------
-- Saving and loading
-- ---------------------------------------------------------------------------

theorem save_run (settings : Settings) (s : σ) :
    (settings.save : ExceptT Error (StateM σ) Unit).run.run s =
      ((storing s settings.path settings.document).1.mapError (@Error.file ·),
        (storing s settings.path settings.document).2) := by
  unfold save
  rw [run_lift_bind, ← storing]
  cases (storing s settings.path settings.document).1 with
  | ok => rfl
  | error reason => rfl

/-- Saving succeeds where the document can be stored, whatever the settings are. -/
theorem save_eq_ok_iff {t : Settings} {s s' : σ} :
    (t.save : ExceptT Error (StateM σ) Unit).run.run s = (.ok (), s') ↔
      (storing s t.path t.document).1 = .ok () ∧ (storing s t.path t.document).2 = s' := by
  rw [save_run, Prod.mk.injEq, mapError_eq_ok]

/--
**Saved settings are loaded as they are.** In a world where stored texts are found, loading from the
path of the settings gives the settings once they are saved, whatever the endpoint and the format
are. In files in memory they are saved wherever a file can be stored at the path, and nowhere else.
-/
theorem saved_settings_are_loaded [Build] (t : Settings) :
    (∀ {σ : Type} [FileAccess (StateM σ)], RetainsTexts σ → ∀ s s' : σ,
      (t.save : ExceptT Error (StateM σ) Unit).run.run s = (.ok (), s') →
        (load t.path : ExceptT Error (StateM σ) Settings).run.run s' = (.ok t, s')) ∧
    ∀ s : FileStore,
      (∃ s', (t.save : ExceptT Error (StateM FileStore) Unit).run.run s = (.ok (), s')) ↔
        FileStore.Storable t.path s := by
  refine ⟨fun hretains s s' hsaved => ?_, fun s => ⟨fun ⟨s', hsaved⟩ => ?_, fun hfree => ?_⟩⟩
  · obtain ⟨hstored, rfl⟩ := save_eq_ok_iff.mp hsaved
    obtain ⟨hpresent, htext⟩ := hretains.stored hstored
    rw [load_run hretains.toReadsOnly, current_of_document hpresent htext]
  · exact FileStore.storable_of_stored
      (FileStore.storing_eq_ok_iff.mp (save_eq_ok_iff.mp hsaved).1)
  · exact ⟨_, save_eq_ok_iff.mpr ⟨FileStore.storing_eq_ok_iff.mpr (hfree.writeText _).1, rfl⟩⟩

/-- Settings with an endpoint of several lines that no string without escapes can hold, in a
directory that is yet to be made. -/
def awkward : Settings where
  path := "/new/./directory/settings"
  endpoint := some "\n\x27\x27\x27\"\"\"\\\t\r\x01 é\n"
  output := .table

/-- The settings are saved where there are no other files, and loaded again. -/
theorem saved_settings_are_loaded_awkward :
    ∃ s', (awkward.save : ExceptT Error (StateM FileStore) Unit).run.run (.empty []) =
        (.ok (), s') ∧
      (load awkward.path : ExceptT Error (StateM FileStore) Settings).run.run s' =
        (.ok awkward, s') := by
  have hfree : FileStore.Storable awkward.path (.empty []) := by
    refine ⟨_, _, rfl, rfl, ?_⟩
    unfold FileStore.IsDirectory
    decide
  obtain ⟨hloads, hsaves⟩ := saved_settings_are_loaded awkward
  obtain ⟨s', hsaved⟩ := (hsaves (.empty [])).mpr hfree
  exact ⟨s', hsaved, hloads FileStore.retainsTexts _ _ hsaved⟩

end ClusterFilter.Settings
