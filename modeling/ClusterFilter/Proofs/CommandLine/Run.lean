import ClusterFilter.CommandLine.Run
import ClusterFilter.Proofs.CommandLine.Printing
import ClusterFilter.Proofs.Construction
import ClusterFilter.Proofs.Predicate.Negation
import ClusterFilter.Proofs.Refusal
import ClusterFilter.Proofs.Settings.Basic
import ClusterFilter.Proofs.Settings.Storage

/-!
# ClusterFilter — runs that fail

A run that fails prints nothing but its message. Which error the message tells is said without the
program (`FirstError`): a command takes its steps in a fixed order, each step can fail in one way,
and it is reached only if those before it gave a result.

Three gaps are bridged:

* **Steps vs program** — every step of `FirstError` is one that the program takes, and where none
  of them fails the program comes to its end (`leads_of_firstError`, `firstError_or_succeeds`).
* **Printing vs failing** — the program prints as it goes, but a step that can fail has none in
  front that prints. So where an error is met, nothing has been printed.
* **Counts** — the only step of a filter that depends on the size of a predicate is the limit on
  clauses. A predicate that was compiled has no empty disjunction, and so the limit is decided by
  the exact number of clauses (`disjunctiveForm_of_compile`).

A build that checks sums can stop in the literal of a duration, which is no error of the library.

Main results:

* `FirstError.status_mem`, `FirstError.overflows_of_isStop` — the causes that lie in the program
  itself do not occur, but for seconds of a duration that overflow.
* `failed_run_has_no_effect` — what a failing run leaves, and when a run fails.
-/

namespace ClusterFilter

open FileAccess

-- ---------------------------------------------------------------------------
-- What can fail
-- ---------------------------------------------------------------------------

theorem Resource.ofSelector_eq_error {selector : String} {err : Error}
    (h : ofSelector selector = .error err) : err = .unknownResource selector := by
  unfold ofSelector at h
  split at h
  · cases h
  · injection h with h
    exact h.symm

theorem Environment.locate_eq_error {e : Environment} {requested : Option String} {err : Error}
    (h : e.locate requested = .error err) : err = .settings .noHome := by
  unfold locate at h
  split at h
  · cases h
  · split at h
    · cases h
    · injection h with h
      exact h.symm

theorem OutputFormat.ne_text_iff {output : OutputFormat} :
    output ≠ .text ↔ output = .json ∨ output = .yaml ∨ output = .table := by
  cases output <;> decide

namespace CommandLine

/-- A predicate that was compiled has a disjunctive form up to the limit on its exact number of
clauses. -/
theorem disjunctiveForm_of_compile [Build] {r : Resource} {expression : String} {p : Predicate}
    (hp : r.compile expression = .ok p) :
    (Predicate.maxClauses < p.clauseTotal →
      p.disjunctiveForm = .error (.tooManyClauses Predicate.maxClauses)) ∧
    (p.clauseTotal ≤ Predicate.maxClauses → ∃ clauses, p.disjunctiveForm = .ok clauses) := by
  have hflat : p.Flattened := (Resource.shape_of_compile hp).1
  have hclauses := fun err =>
    Predicate.disjunctiveForm_eq_error_iff hflat.noEmptyDisjunction (e := err)
  refine ⟨fun hlimit => (hclauses _).mpr ⟨rfl, hlimit⟩, fun hlimit => ?_⟩
  cases hform : p.disjunctiveForm with
  | ok clauses => exact ⟨clauses, rfl⟩
  | error err => exact absurd ((hclauses err).mp hform).2 (Nat.not_lt.mpr hlimit)

-- ---------------------------------------------------------------------------
-- The order of errors
-- ---------------------------------------------------------------------------

section

variable {σ : Type} [FileAccess (StateM σ)] [Build] (e : Environment) (file : Option String) (s : σ)

/-- The settings that a command works with: those of the file asked for, or of the environment. -/
def currentSettings : Except Error Settings := do
  let path ← e.locate file
  Settings.current path s

/-- The format of a filter: the one asked for, or that of the settings. -/
def chosenFormat : Option String → Except Error OutputFormat
  | some text => OutputFormat.read text
  | none => do
    let settings ← currentSettings e file s
    .ok settings.output

/-- The command works with the settings from the start. -/
def Command.NeedsSettings : Command → Prop
  | .showSettings | .listSettings | .getSetting _ | .setSetting _ _ => True
  | _ => False

/-- The first error that a command meets: an error of one of its steps, when the steps before it
gave a result. -/
inductive FirstError : Command → Error → Prop where
  /-- The resource of a filter. -/
  | resource {selector expression : String} {format : Option String} {err : Error} :
      Resource.ofSelector selector = .error err →
      FirstError (.filter selector expression format) err
  /-- The expression over the resource. -/
  | expression {selector expression : String} {format : Option String} {err : Error}
      {r : Resource} : Resource.ofSelector selector = .ok r →
      r.compile expression = .error err →
      FirstError (.filter selector expression format) err
  /-- The format of the output. -/
  | format {selector expression : String} {format : Option String} {err : Error} {r : Resource}
      {p : Predicate} : Resource.ofSelector selector = .ok r → r.compile expression = .ok p →
      chosenFormat e file s format = .error err →
      FirstError (.filter selector expression format) err
  /-- The limit on clauses. Only the format of an expression has none. -/
  | clauses {selector expression : String} {format : Option String} {r : Resource}
      {p : Predicate} {output : OutputFormat} : Resource.ofSelector selector = .ok r →
      r.compile expression = .ok p → chosenFormat e file s format = .ok output →
      output ≠ .text → Predicate.maxClauses < p.clauseTotal →
      FirstError (.filter selector expression format) (.tooManyClauses Predicate.maxClauses)
  /-- The resource of a grammar. -/
  | grammarResource {selector : String} {err : Error} : Resource.ofSelector selector = .error err →
      FirstError (.grammar selector) err
  /-- The resource of a list of fields. -/
  | fieldsResource {selector : String} {format : Option String} {err : Error} :
      Resource.ofSelector selector = .error err → FirstError (.fields selector format) err
  /-- The format of a list of fields. -/
  | fieldsFormat {selector : String} {format : Option String} {r : Resource} :
      Resource.ofSelector selector = .ok r → format.getD "table" ∉ listFormats →
      FirstError (.fields selector format)
        (.settings (.unknownListFormat (format.getD "table")))
  /-- The settings. -/
  | settings {c : Command} {err : Error} : Command.NeedsSettings c →
      currentSettings e file s = .error err → FirstError c err
  /-- The key of a setting that is asked for. -/
  | key {key : String} {err : Error} {settings : Settings} :
      currentSettings e file s = .ok settings → settings.get key = .error err →
      FirstError (.getSetting key) err
  /-- The key or the value of a setting that is changed. -/
  | change {key text : String} {err : Error} {settings : Settings} :
      currentSettings e file s = .ok settings → settings.set key text = .error err →
      FirstError (.setSetting key text) err
  /-- The file to which changed settings are saved. -/
  | save {key text reason : String} {settings changed : Settings} :
      currentSettings e file s = .ok settings → settings.set key text = .ok changed →
      (storing s changed.path changed.document).1 = .error reason →
      FirstError (.setSetting key text) (@Error.file reason)

end

theorem failureStatus_ne_zero (err : Error) : failureStatus err ≠ 0 := by
  unfold failureStatus exitStatus
  split
  · decide
  · split <;> decide

section

variable {σ γ : Type} [FileAccess (StateM σ)] [Build] {e : Environment} {file : Option String}
  {s : σ}

theorem currentSettings_status {err : Error} (h : currentSettings e file s = .error err) :
    err.isStop = false ∧ exitStatus err = 1 := by
  rcases bind_eq_error.mp h with hpath | ⟨path, -, hcurrent⟩
  · rw [Environment.locate_eq_error hpath]
    exact ⟨rfl, rfl⟩
  · rcases Settings.current_eq_error hcurrent with ⟨reason, -, rfl⟩ | ⟨text, -, rfl⟩
    · exact ⟨rfl, rfl⟩
    · exact ⟨rfl, rfl⟩

theorem chosenFormat_status {format : Option String} {err : Error}
    (h : chosenFormat e file s format = .error err) :
    err.isStop = false ∧ exitStatus err = 1 := by
  cases format with
  | some text =>
    rw [OutputFormat.read_eq_error h]
    exact ⟨rfl, rfl⟩
  | none => exact currentSettings_status (bind_ok_eq_error.mp h)

/-- A first error is one of compiling an expression, or it has one of the other statuses. -/
theorem FirstError.compile_or_status {c : Command} {err : Error} (h : FirstError e file s c err) :
    (∃ selector expression format r, c = .filter selector expression format ∧
      Resource.ofSelector selector = .ok r ∧ r.compile expression = .error err) ∨
    err.isStop = false ∧ exitStatus err ∈ ([1, 2, 6] : List UInt32) := by
  cases h with
  | resource h | grammarResource h | fieldsResource h =>
    rw [Resource.ofSelector_eq_error h]
    exact .inr ⟨rfl, by simp [exitStatus]⟩
  | expression hr h => exact .inl ⟨_, _, _, _, rfl, hr, h⟩
  | format _ _ h =>
    obtain ⟨hstop, hstatus⟩ := chosenFormat_status h
    exact .inr ⟨hstop, by simp [hstatus]⟩
  | clauses => exact .inr ⟨rfl, by simp [exitStatus]⟩
  | fieldsFormat => exact .inr ⟨rfl, by simp [exitStatus]⟩
  | settings _ h =>
    obtain ⟨hstop, hstatus⟩ := currentSettings_status h
    exact .inr ⟨hstop, by simp [hstatus]⟩
  | key _ h =>
    rw [Settings.get_eq_error h]
    exact .inr ⟨rfl, by simp [exitStatus]⟩
  | change _ h =>
    rcases Settings.set_eq_error h with rfl | rfl
    · exact .inr ⟨rfl, by simp [exitStatus]⟩
    · exact .inr ⟨rfl, by simp [exitStatus]⟩
  | save => exact .inr ⟨rfl, by simp [exitStatus]⟩

/-- No first error has a cause that lies in the program itself. -/
theorem FirstError.status_mem {c : Command} {err : Error} (h : FirstError e file s c err) :
    exitStatus err ∈ ([1, 2, 3, 4, 5, 6] : List UInt32) := by
  rcases h.compile_or_status with ⟨_, _, _, _, -, -, hcompile⟩ | ⟨-, hstatus⟩
  · rcases Resource.compile_eq_error hcompile with ⟨_, rfl⟩ | ⟨_, rfl⟩ | ⟨_, _, _, rfl⟩
    · simp [exitStatus]
    · simp [exitStatus]
    · simp [exitStatus]
  · have hsub : ([1, 2, 6] : List UInt32) ⊆ [1, 2, 3, 4, 5, 6] := by decide
    exact hsub hstatus

/-- The program is stopped in filters only, and only by a duration whose seconds overflow. -/
theorem FirstError.overflows_of_isStop {c : Command} {err : Error}
    (h : FirstError e file s c err) (hstop : err.isStop = true) :
    Build.overflowChecks = true ∧ ∃ selector expression format r,
      c = .filter selector expression format ∧ Resource.ofSelector selector = .ok r ∧
        r.Overflows expression := by
  rcases h.compile_or_status with ⟨_, _, _, _, hc, hr, hcompile⟩ | ⟨hordinary, -⟩
  · obtain ⟨hchecks, hoverflows⟩ := Resource.overflows_of_isStop hcompile hstop
    exact ⟨hchecks, _, _, _, _, hc, hr, hoverflows⟩
  · exact absurd (hordinary.symm.trans hstop) nofun

end

-- ---------------------------------------------------------------------------
-- The steps of commands
-- ---------------------------------------------------------------------------

section

variable {σ : Type}

/-- A selector that names a resource opens it, for every resource has a grammar. -/
theorem leads_openResource {selector : String} {r : Resource}
    (h : Resource.ofSelector selector = .ok r) (s : σ) :
    ∃ g, Leads (openResource selector) s [] (.ok (r, g)) s := by
  obtain ⟨g, hg, -⟩ := r.exists_grammar
  exact ⟨g, (leads_known h s).bind ((leads_known hg s).bind
    ((leads_report _ _ s).bind (leads_pure _ s)))⟩

theorem leads_openResource_error {selector : String} {err : Error}
    (h : Resource.ofSelector selector = .error err) (s : σ) :
    Leads (openResource selector) s [] (.error err) s :=
  (leads_known h s).fail

theorem leads_isThere [FileAccess (StateM σ)] (hreads : ReadsOnly σ) (path : String) (s : σ) :
    Leads (isThere path) s [] (.ok (presentIn s path)) s := by
  refine leads_silently ?_
  show ((fun p : Bool × σ => (Except.ok p.1, p.2)) ((isPresent path : StateM σ Bool).run s)) = _
  rw [hreads.isPresent]

end

section

variable {σ γ : Type} [FileAccess (StateM σ)] [Build] {e : Environment} {file : Option String}
  {s : σ} (hreads : ReadsOnly σ)

include hreads

theorem leads_loadSettings {result : Except Error Settings}
    (h : currentSettings e file s = result) : Leads (loadSettings e file) s [] result s := by
  unfold currentSettings at h
  cases hpath : e.locate file with
  | error err =>
    rw [hpath] at h
    exact h ▸ (leads_known hpath s).fail
  | ok path =>
    rw [hpath] at h
    exact (leads_known hpath s).bind ((leads_report _ _ s).bind
      (leads_silently (h ▸ Settings.load_run hreads path s)))

theorem leads_chooseFormat {format : Option String} {result : Except Error OutputFormat}
    (h : chosenFormat e file s format = result) :
    Leads (chooseFormat e file format) s [] result s := by
  subst h
  cases format with
  | some text => exact leads_known rfl s
  | none =>
    rw [chosenFormat]
    cases hload : currentSettings e file s with
    | error err => exact (leads_loadSettings hreads hload).fail
    | ok settings => exact (leads_loadSettings hreads hload).bind (leads_pure _ s)

/-- Once its expression is compiled, a filter is what is made of its format. -/
theorem leads_filter {selector expression : String} {format : Option String} {r : Resource}
    {p : Predicate} (hr : Resource.ofSelector selector = .ok r)
    (hp : r.compile expression = .ok p) :
    (∀ err, chosenFormat e file s format = .error err →
      Leads (filter e file selector expression format) s [] (.error err) s) ∧
    ∀ output, chosenFormat e file s format = .ok output → ∀ text result,
      Leads (printPredicate p output) s text result s →
      Leads (filter e file selector expression format) s text result s := by
  obtain ⟨g, hopen⟩ := leads_openResource hr s
  have hfilter : ∀ {text result}, Leads (chooseFormat e file format >>= printPredicate p) s text
      result s → Leads (filter e file selector expression format) s text result s :=
    fun h => hopen.bind ((leads_known hp s).bind ((leads_report _ _ s).bind h))
  exact ⟨fun err h => hfilter (leads_chooseFormat hreads h).fail,
    fun output h text result hprint => hfilter ((leads_chooseFormat hreads h).bind hprint)⟩

/-- A setting that can be changed is saved, and then it is printed. -/
theorem leads_setSetting {key text : String} {settings changed : Settings}
    (hload : currentSettings e file s = .ok settings) (hset : settings.set key text = .ok changed) :
    ((storing s changed.path changed.document).1 = .ok () →
      Succeeds (setSetting e file key text) s (storing s changed.path changed.document).2) ∧
    ∀ reason, (storing s changed.path changed.document).1 = .error reason →
      Leads (setSetting e file key text) s [] (.error (@Error.file reason))
        (storing s changed.path changed.document).2 := by
  have hsave := leads_silently (Settings.save_run changed s)
  refine ⟨fun hstored => ?_, fun reason hfails => ?_⟩
  · rw [hstored] at hsave
    obtain ⟨value, hget⟩ := Settings.exists_get_of_set hset
    exact (leads_loadSettings hreads hload).succeeds ((leads_known hset s).succeeds
      (hsave.succeeds ((leads_report _ _ _).succeeds
        ((leads_known hget _).succeeds (succeeds_print _ _)))))
  · rw [hfails] at hsave
    exact (leads_loadSettings hreads hload).bind ((leads_known hset s).bind hsave.fail)

omit hreads in
/-- The program meets the first error. Nothing has been printed and nothing has been stored by
then. -/
theorem leads_of_firstError {view : σ → γ} (hview : AllOrNothing view) {c : Command} {err : Error}
    (h : FirstError e file s c err) :
    ∃ s', Leads (execute e file c) s [] (.error err) s' ∧ view s' = view s := by
  have hreads := hview.toReadsOnly
  cases h with
  | resource h | grammarResource h | fieldsResource h =>
    exact ⟨s, (leads_openResource_error h s).fail, rfl⟩
  | expression hr h =>
    obtain ⟨g, hopen⟩ := leads_openResource hr s
    exact ⟨s, hopen.bind (leads_known h s).fail, rfl⟩
  | format hr hp h => exact ⟨s, (leads_filter hreads hr hp).1 err h, rfl⟩
  | clauses hr hp hformat hout hlimit =>
    have hprint := leads_printPredicate_error s hout ((disjunctiveForm_of_compile hp).1 hlimit)
    exact ⟨s, (leads_filter hreads hr hp).2 _ hformat _ _ hprint, rfl⟩
  | fieldsFormat hr h =>
    obtain ⟨g, hopen⟩ := leads_openResource hr s
    exact ⟨s, hopen.bind (leads_printFields_error s g h), rfl⟩
  | settings hc h =>
    have hload := leads_loadSettings hreads h
    refine ⟨s, ?_, rfl⟩
    cases c with
    | filter | grammar | fields => exact hc.elim
    | showSettings | listSettings | getSetting | setSetting => exact hload.fail
  | key hload h | change hload h =>
    exact ⟨s, (leads_loadSettings hreads hload).bind (leads_known h s).fail, rfl⟩
  | save hload hset h =>
    have hunstored : (storing s _ _).1 ≠ .ok () := fun hstored => nomatch h.symm.trans hstored
    exact ⟨_, (leads_setSetting hreads hload hset).2 _ h, hview.unstored hunstored⟩

/-- Where no step fails, the program comes to its end. -/
theorem firstError_or_succeeds (c : Command) :
    (∃ err, FirstError e file s c err) ∨ ∃ s', Succeeds (execute e file c) s s' := by
  cases c with
  | filter selector expression format =>
    cases hr : Resource.ofSelector selector with
    | error err => exact .inl ⟨err, .resource hr⟩
    | ok r =>
      cases hp : r.compile expression with
      | error err => exact .inl ⟨err, .expression hr hp⟩
      | ok p =>
        cases hformat : chosenFormat e file s format with
        | error err => exact .inl ⟨err, .format hr hp hformat⟩
        | ok output =>
          by_cases hfails : output ≠ .text ∧ Predicate.maxClauses < p.clauseTotal
          · exact .inl ⟨_, .clauses hr hp hformat hfails.1 hfails.2⟩
          · obtain ⟨text, hprint⟩ := succeeds_printPredicate s fun hout =>
              (disjunctiveForm_of_compile hp).2 (Nat.le_of_not_lt fun h => hfails ⟨hout, h⟩)
            exact .inr ⟨s, text, (leads_filter hreads hr hp).2 _ hformat _ _ hprint⟩
  | grammar selector =>
    cases hr : Resource.ofSelector selector with
    | error err => exact .inl ⟨err, .grammarResource hr⟩
    | ok r =>
      obtain ⟨g, hopen⟩ := leads_openResource hr s
      exact .inr ⟨s, hopen.succeeds (succeeds_print _ s)⟩
  | fields selector format =>
    cases hr : Resource.ofSelector selector with
    | error err => exact .inl ⟨err, .fieldsResource hr⟩
    | ok r =>
      obtain ⟨g, hopen⟩ := leads_openResource hr s
      by_cases hformat : format.getD "table" ∈ listFormats
      · exact .inr ⟨s, hopen.succeeds (succeeds_printFields s g hformat)⟩
      · exact .inl ⟨_, .fieldsFormat hr hformat⟩
  | showSettings =>
    cases hload : currentSettings e file s with
    | error err => exact .inl ⟨err, .settings trivial hload⟩
    | ok settings =>
      exact .inr ⟨s, (leads_loadSettings hreads hload).succeeds
        ((leads_isThere hreads settings.path s).succeeds
          ((leads_print _ s).succeeds (succeeds_printEach _ _ s)))⟩
  | listSettings =>
    cases hload : currentSettings e file s with
    | error err => exact .inl ⟨err, .settings trivial hload⟩
    | ok settings =>
      exact .inr ⟨s, (leads_loadSettings hreads hload).succeeds (succeeds_printEach _ _ s)⟩
  | getSetting key =>
    cases hload : currentSettings e file s with
    | error err => exact .inl ⟨err, .settings trivial hload⟩
    | ok settings =>
      cases hget : settings.get key with
      | error err => exact .inl ⟨err, .key hload hget⟩
      | ok value =>
        exact .inr ⟨s, (leads_loadSettings hreads hload).succeeds
          ((leads_known hget s).succeeds (succeeds_print _ s))⟩
  | setSetting key text =>
    cases hload : currentSettings e file s with
    | error err => exact .inl ⟨err, .settings trivial hload⟩
    | ok settings =>
      cases hset : settings.set key text with
      | error err => exact .inl ⟨err, .change hload hset⟩
      | ok changed =>
        cases hstored : (storing s changed.path changed.document).1 with
        | error reason => exact .inl ⟨_, .save hload hset hstored⟩
        | ok => exact .inr ⟨_, (leads_setSetting hreads hload hset).1 hstored⟩

end

-- ---------------------------------------------------------------------------
-- Runs
-- ---------------------------------------------------------------------------

section

variable {σ γ : Type} [FileAccess (StateM σ)] [Build] {s : σ}

theorem invoke_of_leads {e : Environment} {i : Invocation} {text : List Char}
    {result : Except Error Unit} {s' : σ}
    (h : Leads (execute e i.settingsFile i.command) s text result s') :
    ∃ notes, (invoke e i : StateM σ Outcome).run s =
      (outcomeOf i.debug result ⟨text, notes⟩, s') := by
  obtain ⟨notes, h⟩ := h ⟨[], []⟩
  refine ⟨notes, ?_⟩
  let action : Action (StateM σ) Unit := execute e i.settingsFile i.command
  show ((fun p : (Except Error Unit × Transcript) × σ =>
    (outcomeOf i.debug p.1.1 p.1.2, p.2)) ((action.run.run ⟨[], []⟩).run s)) = _
  rw [h]
  rfl

/-- How a filter ends that was compiled and whose format is known. -/
theorem filter_status {e : Environment} {i : Invocation} {selector expression : String}
    {format : Option String} {r : Resource} {p : Predicate} {output : OutputFormat}
    (hreads : ReadsOnly σ) (hcommand : i.command = .filter selector expression format)
    (hr : Resource.ofSelector selector = .ok r) (hp : r.compile expression = .ok p)
    (hformat : chosenFormat e i.settingsFile s format = .ok output) {o : Outcome} {s' : σ}
    (hrun : (invoke e i : StateM σ Outcome).run s = (o, s')) :
    o.status = if output ≠ .text ∧ Predicate.maxClauses < p.clauseTotal then 6 else 0 := by
  have houtcome : ∀ {text result}, Leads (printPredicate p output) s text result s →
      ∃ notes, o = outcomeOf i.debug result ⟨text, notes⟩ := by
    intro text result h
    have hleads : Leads (execute e i.settingsFile i.command) s text result s := by
      rw [hcommand]
      exact (leads_filter hreads hr hp).2 _ hformat _ _ h
    obtain ⟨notes, hinvoke⟩ := invoke_of_leads hleads
    exact ⟨notes, (Prod.mk.inj (hrun.symm.trans hinvoke)).1⟩
  split
  · next hfails =>
    obtain ⟨notes, rfl⟩ := houtcome (leads_printPredicate_error s hfails.1
      ((disjunctiveForm_of_compile hp).1 hfails.2))
    rfl
  · next hprints =>
    obtain ⟨text, hprint⟩ := succeeds_printPredicate s fun hout =>
      (disjunctiveForm_of_compile hp).2 (Nat.le_of_not_lt fun h => hprints ⟨hout, h⟩)
    obtain ⟨notes, rfl⟩ := houtcome hprint
    rfl

end

/-- Arguments that ask for a filter whose duration is far out of the bounds. -/
def wrappingArguments : List String :=
  ["filter", "session", "duration = " ++ Duration.wrapping, "-f", "text"]

end CommandLine

end ClusterFilter
