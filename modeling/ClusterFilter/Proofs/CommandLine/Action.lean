import ClusterFilter.CommandLine.Action
import ClusterFilter.Proofs.Files.Store

/-!
# ClusterFilter — what actions come to

An action over a world prints, comes to a result and to another world, and writes a report on the
way. The report has no part in the rest (`Leads`), and so an action can be followed step by step:
behind a result the next step is taken, and the first error is the error of the whole. What the
steps printed up to there stays.

Main results:

* `Leads.append`, `Leads.fail` — how steps are put together, and what they print.
* `Leads.bind`, `Leads.succeeds` — a step that prints nothing, in front of others.
* `Reads.bind` — steps that leave the world are put together to an action that does.
-/

namespace ClusterFilter.CommandLine

open FileAccess

variable {σ α β : Type}

-- ---------------------------------------------------------------------------
-- Following an action
-- ---------------------------------------------------------------------------

/-- From the world `s` the action leads to the result and to the world `s'` and prints the text on
its way, whatever was written before it. -/
def Leads (action : Action (StateM σ) α) (s : σ) (text : List Char) (result : Except Error α)
    (s' : σ) : Prop :=
  ∀ t, ∃ notes, (action.run.run t).run s = ((result, ⟨t.printed ++ text, notes⟩), s')

/-- From the world `s` the action comes to its end in the world `s'`, whatever it prints. -/
def Succeeds (action : Action (StateM σ) Unit) (s s' : σ) : Prop :=
  ∃ text, Leads action s text (.ok ()) s'

section

variable {x : Action (StateM σ) α} {f : α → Action (StateM σ) β} {s s₁ s₂ : σ} {a : α}
  {text text' : List Char}

/-- A step that writes no more than notes prints nothing. -/
theorem leads_of_quiet {x : Action (StateM σ) α} {result : Except Error α} {s s' : σ}
    (h : ∀ t, ∃ notes, (x.run.run t).run s = ((result, ⟨t.printed, notes⟩), s')) :
    Leads x s [] result s' := by
  unfold Leads
  simpa only [List.append_nil] using h

theorem leads_known {given result : Except Error α} (h : given = result) (s : σ) :
    Leads (known given) s [] result s :=
  leads_of_quiet fun t => ⟨t.notes, h ▸ rfl⟩

theorem leads_pure (a : α) (s : σ) : Leads (pure a) s [] (.ok a) s :=
  leads_of_quiet fun t => ⟨t.notes, rfl⟩

theorem leads_report (topic : String) (note : List Char) (s : σ) :
    Leads (report topic note) s [] (.ok ()) s :=
  leads_of_quiet fun _ => ⟨_, rfl⟩

theorem leads_print (text : List Char) (s : σ) : Leads (print text) s text (.ok ()) s :=
  fun t => ⟨t.notes, rfl⟩

theorem leads_silently {action : ExceptT Error (StateM σ) α} {result : Except Error α} {s s' : σ}
    (h : action.run.run s = (result, s')) : Leads (silently action) s [] result s' := by
  refine leads_of_quiet fun t => ⟨t.notes, ?_⟩
  show ((fun p : Except Error α × σ => ((p.1, t), p.2)) (action.run.run s)) = _
  rw [h]

/-- What comes behind the first step, in the world that the step leaves and behind what it wrote. -/
theorem run_bind (x : Action (StateM σ) α) (f : α → Action (StateM σ) β) (t : Transcript)
    (s : σ) : ((x >>= f).run.run t).run s =
      match (x.run.run t).run s with
      | ((.ok a, t₁), s₁) => ((f a).run.run t₁).run s₁
      | ((.error e, t₁), s₁) => ((.error e, t₁), s₁) := by
  show (match (x.run.run t).run s with
    | ((r, t₁), s₁) => ((ExceptT.bindCont f r).run t₁).run s₁) = _
  obtain ⟨⟨r, t₁⟩, s₁⟩ := (x.run.run t).run s
  cases r with
  | ok a => rfl
  | error e => rfl

theorem Leads.append {result : Except Error β} (hx : Leads x s text (.ok a) s₁)
    (hf : Leads (f a) s₁ text' result s₂) : Leads (x >>= f) s (text ++ text') result s₂ := by
  intro t
  obtain ⟨notes₁, h₁⟩ := hx t
  obtain ⟨notes₂, h₂⟩ := hf ⟨t.printed ++ text, notes₁⟩
  refine ⟨notes₂, ?_⟩
  rw [run_bind, h₁, ← List.append_assoc]
  exact h₂

theorem Leads.bind {result : Except Error β} (hx : Leads x s [] (.ok a) s₁)
    (hf : Leads (f a) s₁ text result s₂) : Leads (x >>= f) s text result s₂ :=
  hx.append hf

theorem Leads.fail {e : Error} (hx : Leads x s text (.error e) s₁) :
    Leads (x >>= f) s text (.error e) s₁ := by
  intro t
  obtain ⟨notes₁, h₁⟩ := hx t
  refine ⟨notes₁, ?_⟩
  rw [run_bind, h₁]

theorem Leads.succeeds {f : α → Action (StateM σ) Unit} (hx : Leads x s text (.ok a) s₁)
    (hf : Succeeds (f a) s₁ s₂) : Succeeds (x >>= f) s s₂ := by
  obtain ⟨text', hf⟩ := hf
  exact ⟨text ++ text', hx.append hf⟩

-- ---------------------------------------------------------------------------
-- Printing
-- ---------------------------------------------------------------------------

theorem succeeds_print (text : List Char) (s : σ) : Succeeds (print text) s s :=
  ⟨text, leads_print text s⟩

theorem leads_printEach (textOf : α → List Char) (as : List α) (s : σ) :
    Leads (printEach textOf as) s (as.flatMap textOf) (.ok ()) s := by
  induction as with
  | nil => exact leads_pure () s
  | cons a as ih => exact (leads_print (textOf a) s).append ih

theorem succeeds_printEach (textOf : α → List Char) (as : List α) (s : σ) :
    Succeeds (printEach textOf as) s s :=
  ⟨_, leads_printEach textOf as s⟩

-- ---------------------------------------------------------------------------
-- Actions that leave the world
-- ---------------------------------------------------------------------------

/-- The action leaves every world as it is. -/
def Reads (x : Action (StateM σ) α) : Prop :=
  ∀ s, ∃ text result, Leads x s text result s

theorem reads_known (result : Except Error α) : Reads (known (m := StateM σ) result) :=
  fun s => ⟨_, result, leads_known rfl s⟩

theorem reads_pure (a : α) : Reads (pure (f := Action (StateM σ)) a) :=
  fun s => ⟨_, .ok a, leads_pure a s⟩

theorem reads_report (topic : String) (note : List Char) :
    Reads (report (m := StateM σ) topic note) :=
  fun s => ⟨_, .ok (), leads_report topic note s⟩

theorem reads_of_succeeds {x : Action (StateM σ) Unit} (h : ∀ s, Succeeds x s s) : Reads x := by
  intro s
  obtain ⟨text, h⟩ := h s
  exact ⟨text, .ok (), h⟩

theorem Reads.bind (hx : Reads x) (hf : ∀ a, Reads (f a)) : Reads (x >>= f) := by
  intro s
  obtain ⟨text, r, hr⟩ := hx s
  cases r with
  | error e => exact ⟨text, .error e, hr.fail⟩
  | ok a =>
    obtain ⟨text', result, hresult⟩ := hf a s
    exact ⟨text ++ text', result, hr.append hresult⟩

end

end ClusterFilter.CommandLine
