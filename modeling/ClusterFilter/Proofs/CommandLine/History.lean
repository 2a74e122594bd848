import ClusterFilter.Proofs.CommandLine.Run

/-!
# ClusterFilter — settings over many runs

A setting is changed by a run that loads the settings, changes one, and stores all of them again.
However many runs there are, and whatever else is asked for in between, the file holds what each
setting was given last.

Two gaps are bridged:

* **Files vs settings** — a run leaves a document, and the next one reads it. Both are about the
  same settings, because a document that was written is read as what was written
  (`Settings.ofDocument?_document`).
* **One run vs all of them** — `Remembers` is what a file has to do with the runs so far. It holds
  where no file is, and every run preserves it (`Remembers.next`, `Remembers.run`).

Main results:

* `reads_execute` — a command that changes no setting stores nothing.
* `settings_hold_last_values` — what loading gives after any runs, and what one more change does.
-/

namespace ClusterFilter.CommandLine

open FileAccess

-- ---------------------------------------------------------------------------
-- Histories
-- ---------------------------------------------------------------------------

/-- The invocations for which the program ran, each with its outcome. -/
abbrev History :=
  List (Invocation × Outcome)

/-- The value that a run gave to the setting; none if it did not change the setting. -/
def given? (key : SettingKey) (entry : Invocation × Outcome) : Option String :=
  match entry.1.command with
  | .setSetting name text =>
    if name = key.name ∧ entry.2.status = 0 then key.canonical? text else none
  | _ => none

/-- The value that the setting was given last; the initial one if it was given none. -/
def lastValue (key : SettingKey) (history : History) : String :=
  (history.filterMap (given? key)).getLast?.getD key.initial

section

variable {key : SettingKey} {entry : Invocation × Outcome} {history : History} {name text : String}

theorem given?_of_failed (h : entry.2.status ≠ 0) : given? key entry = none := by
  unfold given?
  split
  · exact if_neg fun hgiven => h hgiven.2
  · rfl

theorem given?_of_reading (h : ∀ name text, entry.1.command ≠ .setSetting name text) :
    given? key entry = none := by
  unfold given?
  split
  · next name text hcommand => exact absurd hcommand (h name text)
  · rfl

theorem given?_other (hcommand : entry.1.command = .setSetting name text) (h : name ≠ key.name) :
    given? key entry = none := by
  unfold given?
  rw [hcommand]
  exact if_neg fun hgiven => h hgiven.1

theorem given?_of_changed (hcommand : entry.1.command = .setSetting key.name text)
    (h : entry.2.status = 0) : given? key entry = key.canonical? text := by
  unfold given?
  rw [hcommand]
  exact if_pos ⟨rfl, h⟩

theorem lastValue_of_given {value : String} (h : given? key entry = some value) :
    lastValue key (history ++ [entry]) = value := by
  rw [lastValue, List.filterMap_append, List.filterMap_cons_some h, List.filterMap_nil,
    List.getLast?_concat, Option.getD_some]

theorem lastValue_of_not_given (h : given? key entry = none) :
    lastValue key (history ++ [entry]) = lastValue key history := by
  rw [lastValue, List.filterMap_append, List.filterMap_cons_none h, List.filterMap_nil,
    List.append_nil, lastValue]

end

section

variable {σ : Type} [FileAccess (StateM σ)] [Build]

/-- Runs the program for one more invocation. -/
def runNext (e : Environment) (past : History × σ) (i : Invocation) : History × σ :=
  let (o, s) := (invoke e i : StateM σ Outcome).run past.2
  (past.1 ++ [(i, o)], s)

/-- Runs the program for one invocation after the other. -/
def runAll (e : Environment) (s : σ) (invocations : List Invocation) : History × σ :=
  invocations.foldl (runNext e) ([], s)

/-- Loading from the path gives the settings, and leaves the world. -/
def Loads (path : String) (s : σ) (t : Settings) : Prop :=
  (Settings.load path : ExceptT Error (StateM σ) Settings).run.run s = (.ok t, s)

-- ---------------------------------------------------------------------------
-- One run
-- ---------------------------------------------------------------------------

variable {e : Environment} {file : Option String} {s s' : σ} {i : Invocation}
  {name text path : String} {t changed : Settings}

section

variable (hreads : ReadsOnly σ)

include hreads

theorem loads_iff : Loads path s t ↔ Settings.current path s = .ok t := by
  rw [Loads, Settings.load_run hreads, Prod.mk.injEq, and_iff_left rfl]

theorem reads_loadSettings : Reads (loadSettings (m := StateM σ) e file) :=
  fun _ => ⟨_, _, leads_loadSettings hreads rfl⟩

theorem reads_chooseFormat (format : Option String) :
    Reads (chooseFormat (m := StateM σ) e file format) :=
  fun _ => ⟨_, _, leads_chooseFormat hreads rfl⟩

omit [FileAccess (StateM σ)] [Build] hreads in
theorem reads_openResource (selector : String) : Reads (openResource (m := StateM σ) selector) :=
  (reads_known _).bind fun _ => (reads_known _).bind fun _ =>
    (reads_report _ _).bind fun _ => reads_pure _

/-- A command that changes no setting leaves the world as it is. -/
theorem reads_execute {c : Command} (h : ∀ name text, c ≠ .setSetting name text) :
    Reads (execute (m := StateM σ) e file c) := by
  have hload : Reads (loadSettings (m := StateM σ) e file) := reads_loadSettings hreads
  cases c with
  | filter selector expression format =>
    exact (reads_openResource selector).bind fun _ => (reads_known _).bind fun p =>
      (reads_report _ _).bind fun _ => (reads_chooseFormat hreads format).bind fun output =>
        reads_printPredicate p output
  | grammar selector =>
    exact (reads_openResource selector).bind fun _ => reads_of_succeeds (succeeds_print _)
  | fields selector format =>
    exact (reads_openResource selector).bind fun _ => reads_printFields _ _
  | showSettings =>
    have hthere (path : String) : Reads (isThere (m := StateM σ) path) :=
      fun s => ⟨_, _, leads_isThere hreads path s⟩
    exact hload.bind fun settings => (hthere settings.path).bind fun _ =>
      (reads_of_succeeds (succeeds_print _)).bind fun _ =>
        reads_of_succeeds (succeeds_printEach _ _)
  | listSettings => exact hload.bind fun _ => reads_of_succeeds (succeeds_printEach _ _)
  | getSetting key =>
    exact hload.bind fun _ => (reads_known _).bind fun _ => reads_of_succeeds (succeeds_print _)
  | setSetting name text => exact absurd rfl (h name text)

theorem invoke_refused (hcommand : i.command = .setSetting name text)
    (hload : currentSettings e i.settingsFile s = .ok t) {err : Error}
    (hset : t.set name text = .error err) :
    ∃ notes, (invoke e i : StateM σ Outcome).run s =
      (outcomeOf i.debug (.error err) ⟨[], notes⟩, s) := by
  refine invoke_of_leads ?_
  rw [hcommand]
  exact (leads_loadSettings hreads hload).bind (leads_known hset s).fail

theorem invoke_accepted (hcommand : i.command = .setSetting name text)
    (hload : currentSettings e i.settingsFile s = .ok t)
    (hset : t.set name text = .ok changed) :
    ∃ o, (invoke e i : StateM σ Outcome).run s =
        (o, (storing s changed.path changed.document).2) ∧
      (o.status = 0 ↔ (storing s changed.path changed.document).1 = .ok ()) := by
  obtain ⟨hsucceeds, hfails⟩ := leads_setSetting hreads hload hset
  rw [← execute, ← hcommand] at hsucceeds hfails
  cases hstored : (storing s changed.path changed.document).1 with
  | ok =>
    obtain ⟨out, hleads⟩ := hsucceeds hstored
    obtain ⟨notes, hrun⟩ := invoke_of_leads hleads
    exact ⟨_, hrun, fun _ => rfl, fun _ => rfl⟩
  | error reason =>
    obtain ⟨notes, hrun⟩ := invoke_of_leads (hfails reason hstored)
    exact ⟨_, hrun, nofun, nofun⟩

end

-- ---------------------------------------------------------------------------
-- Memory
-- ---------------------------------------------------------------------------

/-- Loading from the path gives the settings, each of which has the value that it was given last
in the history; and if there is a file, then it holds their document. -/
structure Remembers (path : String) (fit : σ → Prop) (history : History) (s : σ) (t : Settings) :
    Prop where
  fit : fit s
  current : Settings.current path s = .ok t
  home : t.path = path
  trimmed : t.IsTrimmed
  values : ∀ key, t.value key = lastValue key history
  document : presentIn s path = true → textIn s path = .ok t.document

variable {fit : σ → Prop} {history : History} {entry : Invocation × Outcome} {key : SettingKey}
  {value : String}

theorem remembers_nothing (hfit : fit s) (habsent : presentIn s path = false) :
    Remembers path fit [] s (.defaults path) where
  fit := hfit
  current := by
    rw [Settings.current, habsent]
    rfl
  home := rfl
  trimmed _ hendpoint := by
    cases hendpoint
  values key := by
    cases key <;> rfl
  document hpresent := absurd (habsent.symm.trans hpresent) nofun

theorem Remembers.loads (h : Remembers path fit history s t) (hkeeps : KeepsTexts path fit) :
    Loads path s t :=
  (loads_iff hkeeps.toReadsOnly).mpr h.current

theorem Remembers.currentSettings (h : Remembers path fit history s t)
    (hplace : e.locate file = .ok path) : currentSettings e file s = .ok t := by
  rw [CommandLine.currentSettings, hplace]
  exact h.current

/-- A run after which the same stands at the path as before, and that gave no setting a value. -/
theorem Remembers.unchanged (h : Remembers path fit history s t) (hfit : fit s')
    (hpresent : presentIn s' path = presentIn s path) (htext : textIn s' path = textIn s path)
    (hgiven : ∀ key, given? key entry = none) :
    Remembers path fit (history ++ [entry]) s' t where
  fit := hfit
  current := (Settings.current_congr hpresent htext).trans h.current
  home := h.home
  trimmed := h.trimmed
  values key := (h.values key).trans (lastValue_of_not_given (hgiven key)).symm
  document hthere := htext.trans (h.document (hpresent.symm.trans hthere))

section

variable (hkeeps : KeepsTexts path fit) (h : Remembers path fit history s t)

include hkeeps h

/-- What loading gives once settings were to be stored. -/
theorem Remembers.current_storing (hpath : changed.path = path) :
    Settings.current path (storing s path changed.document).2 =
      .ok (if (storing s path changed.document).1 = .ok () then changed else t) := by
  split
  · next hstored =>
    obtain ⟨hpresent, htext⟩ := hkeeps.stored h.fit hstored
    subst hpath
    exact Settings.current_of_document hpresent htext
  · next hstored =>
    obtain ⟨hpresent, htext⟩ := hkeeps.unstored h.fit hstored
    exact (Settings.current_congr hpresent htext).trans h.current

/-- A run that stores the settings with a new value for one of them. -/
theorem Remembers.stored (hgives : t.Gives key value changed)
    (hstored : (storing s path changed.document).1 = .ok ())
    (hgiven : given? key entry = some value)
    (hothers : ∀ other, other ≠ key → given? other entry = none) :
    Remembers path fit (history ++ [entry]) (storing s path changed.document).2 changed := by
  have hhome : changed.path = path := hgives.path.trans h.home
  have hcurrent := h.current_storing hkeeps hhome
  rw [if_pos hstored] at hcurrent
  refine ⟨hkeeps.fit _ h.fit, hcurrent, hhome, hgives.trimmed h.trimmed, fun other => ?_,
    fun _ => (hkeeps.stored h.fit hstored).2⟩
  by_cases hother : other = key
  · subst hother
    rw [hgives.value, lastValue_of_given hgiven]
  · rw [hgives.others other hother, h.values, lastValue_of_not_given (hothers other hother)]

theorem Remembers.next_reading (hreading : ∀ name text, i.command ≠ .setSetting name text)
    {o : Outcome} (hrun : (invoke e i : StateM σ Outcome).run s = (o, s')) :
    Remembers path fit (history ++ [(i, o)]) s' t := by
  obtain ⟨text, result, hleads⟩ := reads_execute hkeeps.toReadsOnly hreading s
  obtain ⟨notes, hinvoke⟩ := invoke_of_leads hleads
  obtain ⟨rfl, rfl⟩ := Prod.mk.inj (hrun.symm.trans hinvoke)
  exact h.unchanged h.fit rfl rfl fun key => given?_of_reading hreading

/-- A change that is refused or that cannot be stored gives no setting a value. -/
theorem Remembers.next_change (hcommand : i.command = .setSetting name text)
    (hplace : e.locate i.settingsFile = .ok path) {o : Outcome}
    (hrun : (invoke e i : StateM σ Outcome).run s = (o, s')) :
    ∃ t', Remembers path fit (history ++ [(i, o)]) s' t' := by
  have hreads := hkeeps.toReadsOnly
  have hload := h.currentSettings hplace
  cases hset : t.set name text with
  | error err =>
    obtain ⟨notes, hinvoke⟩ := invoke_refused hreads hcommand hload hset
    obtain ⟨rfl, rfl⟩ := Prod.mk.inj (hrun.symm.trans hinvoke)
    exact ⟨t, h.unchanged h.fit rfl rfl fun key => given?_of_failed (failureStatus_ne_zero err)⟩
  | ok changed =>
    obtain ⟨o', hinvoke, hstatus⟩ := invoke_accepted hreads hcommand hload hset
    obtain ⟨rfl, rfl⟩ := Prod.mk.inj (hrun.symm.trans hinvoke)
    obtain ⟨key, value, rfl, hvalue, hgives⟩ := Settings.set_eq_ok hset
    rw [hgives.path, h.home] at hstatus ⊢
    by_cases hstored : (storing s path changed.document).1 = .ok ()
    · have hgiven : given? key (i, o) = some value :=
        (given?_of_changed hcommand (hstatus.mpr hstored)).trans hvalue
      exact ⟨changed, h.stored hkeeps hgives hstored hgiven fun other hother =>
        given?_other hcommand fun hname => hother (SettingKey.name_injective hname).symm⟩
    · obtain ⟨hpresent, htext⟩ := hkeeps.unstored h.fit hstored
      exact ⟨t, h.unchanged (hkeeps.fit _ h.fit) hpresent htext fun key =>
        given?_of_failed fun hzero => hstored (hstatus.mp hzero)⟩

/-- A run preserves what the file has to do with the history. -/
theorem Remembers.next
    (hplace : ∀ name text, i.command = .setSetting name text →
      e.locate i.settingsFile = .ok path) {o : Outcome}
    (hrun : (invoke e i : StateM σ Outcome).run s = (o, s')) :
    ∃ t', Remembers path fit (history ++ [(i, o)]) s' t' := by
  by_cases hreading : ∀ name text, i.command ≠ .setSetting name text
  · exact ⟨t, h.next_reading hkeeps hreading hrun⟩
  · obtain ⟨name, hname⟩ := not_forall.mp hreading
    obtain ⟨text, hcommand⟩ := not_forall_not.mp hname
    exact h.next_change hkeeps hcommand (hplace name text hcommand) hrun

end

/-- However many runs there are, the file holds what each setting was given last. -/
theorem Remembers.run (h : Remembers path fit history s t) (hkeeps : KeepsTexts path fit)
    {invocations : List Invocation}
    (hplace : ∀ i ∈ invocations, ∀ name text, i.command = .setSetting name text →
      e.locate i.settingsFile = .ok path) :
    ∃ t', Remembers path fit (invocations.foldl (runNext e) (history, s)).1
      (invocations.foldl (runNext e) (history, s)).2 t' := by
  induction invocations generalizing history s t with
  | nil => exact ⟨t, h⟩
  | cons i invocations ih =>
    obtain ⟨hfirst, hrest⟩ := List.forall_mem_cons.mp hplace
    obtain ⟨⟨o, s'⟩, hrun⟩ : ∃ after, (invoke e i : StateM σ Outcome).run s = after := ⟨_, rfl⟩
    have hstep : runNext e (history, s) i = (history ++ [(i, o)], s') := by
      rw [runNext, hrun]
    obtain ⟨t', hnext⟩ := h.next hkeeps hfirst hrun
    rw [List.foldl_cons, hstep]
    exact ih hnext hrest

-- ---------------------------------------------------------------------------
-- One more change
-- ---------------------------------------------------------------------------

/-- What becomes of a run that is to give the text to the setting with the name, where loading gave
the settings `t` before it. -/
structure Answers (e : Environment) (i : Invocation) (path name text : String) (s : σ)
    (t : Settings) : Prop where
  /-- A name without a setting, or a text that the setting cannot have, is an error of the settings.
  Nothing is stored. -/
  refused : (∀ key : SettingKey, name = key.name → key.canonical? text = none) →
    ∃ fault notes, t.set name text = .error (.settings fault) ∧
      (invoke e i : StateM σ Outcome).run s =
        (outcomeOf i.debug (.error (.settings fault)) ⟨[], notes⟩, s)
  /-- Else the setting has its new value, and the other one the value that it had. The run succeeds
  if it can store the settings, and loading gives them then. -/
  accepted : ∀ {key : SettingKey} {value : String}, name = key.name →
    key.canonical? text = some value →
    ∃ changed o s', t.set name text = .ok changed ∧ t.Gives key value changed ∧
      (invoke e i : StateM σ Outcome).run s = (o, s') ∧
      (o.status = 0 ↔ (storing s path changed.document).1 = .ok ()) ∧
      Loads path s' (if o.status = 0 then changed else t)
  /-- The value that the setting has changes nothing. -/
  idle : t.get name = .ok text → t.set name text = .ok t ∧
    ∃ o s', (invoke e i : StateM σ Outcome).run s = (o, s') ∧ Loads path s' t ∧
      (presentIn s path = true → textIn s' path = textIn s path)

theorem Remembers.answers (hkeeps : KeepsTexts path fit) (h : Remembers path fit history s t)
    (hcommand : i.command = .setSetting name text) (hplace : e.locate i.settingsFile = .ok path) :
    Answers e i path name text s t := by
  have hreads := hkeeps.toReadsOnly
  have hload := h.currentSettings hplace
  refine ⟨fun hrefused => ?_, fun hname hvalue => ?_, fun hget => ?_⟩
  · obtain ⟨fault, hset⟩ := t.set_of_refused hrefused
    obtain ⟨notes, hrun⟩ := invoke_refused hreads hcommand hload hset
    exact ⟨fault, notes, hset, hrun⟩
  · subst hname
    obtain ⟨changed, hset, hgives⟩ := t.set_of_canonical hvalue
    obtain ⟨o, hrun, hstatus⟩ := invoke_accepted hreads hcommand hload hset
    have hhome : changed.path = path := hgives.path.trans h.home
    rw [hhome] at hrun hstatus
    refine ⟨changed, o, _, hset, hgives, hrun, hstatus, ?_⟩
    rw [loads_iff hreads, h.current_storing hkeeps hhome]
    simp only [hstatus]
  · obtain ⟨key, rfl, rfl⟩ := Settings.get_eq_ok hget
    have hset := Settings.set_self h.trimmed key
    obtain ⟨o, hrun, -⟩ := invoke_accepted hreads hcommand hload hset
    rw [h.home] at hrun
    refine ⟨hset, o, _, hrun, ?_, fun hpresent => ?_⟩
    · rw [loads_iff hreads, h.current_storing hkeeps h.home, ite_self]
    · by_cases hstored : (storing s path t.document).1 = .ok ()
      · rw [(hkeeps.stored h.fit hstored).2, h.document hpresent]
      · exact (hkeeps.unstored h.fit hstored).2

-- ---------------------------------------------------------------------------
-- All runs
-- ---------------------------------------------------------------------------

/--
**Settings hold what they were given last.** Let no file be at the path, and let what stands there
be what was stored there last. Let the program run for any invocations, of which those that change
a setting work on the file at the path. Then loading gives settings of that path. Each of them has
the value that the last successful change of it gave, or its initial value if there was none; the
endpoint is unset if that is the empty text. One more change is answered by these settings: it is
refused and leaves everything, or it changes the one setting and leaves the other; and a setting
that is given the value it has stays as it is, with the rest of the file.
-/
theorem settings_hold_last_values (hkeeps : KeepsTexts path fit) (hfit : fit s)
    (habsent : presentIn s path = false) {invocations : List Invocation}
    (hplace : ∀ i ∈ invocations, ∀ name text, i.command = .setSetting name text →
      e.locate i.settingsFile = .ok path) (hrun : runAll e s invocations = (history, s')) :
    ∃ t, Loads path s' t ∧ t.path = path ∧
      (∀ key : SettingKey, t.get key.name = .ok (lastValue key history)) ∧
      (t.endpoint = none ↔ lastValue .endpoint history = "") ∧
      ∀ i name text, i.command = .setSetting name text → e.locate i.settingsFile = .ok path →
        Answers e i path name text s' t := by
  have hstart := remembers_nothing hfit habsent
  obtain ⟨t, h⟩ := hstart.run hkeeps hplace
  rw [← runAll, hrun] at h
  refine ⟨t, h.loads hkeeps, h.home, fun key => ?_, ?_, fun i name text hcommand hplace => ?_⟩
  · rw [t.get_name, h.values]
  · rw [Settings.endpoint_eq_none_iff h.trimmed, h.values]
  · exact h.answers hkeeps hcommand hplace

end

/-- The output is changed, cannot be changed to a format that there is not, and is listed. -/
theorem settings_hold_last_values_refused :
    ∃ history s' t, runAll ⟨some "/settings", none, none⟩ (FileStore.empty [])
        [⟨false, none, .setSetting "output" "YML"⟩, ⟨false, none, .setSetting "output" "xml"⟩,
          ⟨false, none, .listSettings⟩] = (history, s') ∧
      Loads "/settings" s' t ∧ t.get "output" = .ok "yaml" ∧ t.endpoint = none := by
  obtain ⟨⟨history, s'⟩, hrun⟩ : ∃ after,
      runAll ⟨some "/settings", none, none⟩ (FileStore.empty [])
        [⟨false, none, .setSetting "output" "YML"⟩, ⟨false, none, .setSetting "output" "xml"⟩,
          ⟨false, none, .listSettings⟩] = after := ⟨_, rfl⟩
  have hfit : FileStore.Storable "/settings" (.empty []) := by
    refine ⟨_, _, rfl, rfl, ?_⟩
    unfold FileStore.IsDirectory
    decide
  have hplace : Environment.locate ⟨some "/settings", none, none⟩ none = .ok "/settings" := rfl
  obtain ⟨t, hloads, -, hvalues, hendpoint, -⟩ := settings_hold_last_values
    (FileStore.keepsTexts "/settings") hfit rfl (by simp [hplace]) hrun
  have hlast : lastValue .output history = "yaml" ∧ lastValue .endpoint history = "" := by
    rw [← (Prod.mk.inj hrun).1]
    decide +kernel
  have houtput := hvalues .output
  rw [hlast.1] at houtput
  exact ⟨history, s', t, hrun, hloads, houtput, hendpoint.mpr hlast.2⟩

end ClusterFilter.CommandLine
