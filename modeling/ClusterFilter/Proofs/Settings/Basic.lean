import ClusterFilter.Proofs.Outcome
import ClusterFilter.Proofs.Text.Run
import ClusterFilter.Settings.Basic

/-!
# ClusterFilter — changing settings

What a text makes of a setting is known without the settings themselves (`SettingKey.canonical?`):
an endpoint loses the white space around it, a format is known by its name in any letter case, and
any other text is refused. A change gives one setting its new value and leaves the other one.

Main results:

* `Settings.set_of_canonical`, `Settings.set_eq_ok`, `Settings.set_of_refused` — which changes are
  accepted, and what they change.
* `Settings.set_self` — a setting that is given the value it has stays as it is.
-/

namespace ClusterFilter

-- ---------------------------------------------------------------------------
-- Values
-- ---------------------------------------------------------------------------

theorem Text.dropBlanks_of_head {cs : List Char} (h : ∀ x ∈ cs.head?, Text.isBlank x = false) :
    Text.dropBlanks cs = cs :=
  (Text.takeWhile_eq_nil_of_head h).2

/-- What is left of a text without white space around it has none around it. -/
theorem Text.trim_trim (cs : List Char) : Text.trim (Text.trim cs) = Text.trim cs := by
  unfold Text.trim
  have hfirst : ∀ x ∈ (Text.dropBlanks cs).head?, Text.isBlank x = false :=
    Text.head?_dropWhile_eq_false
  have hlast : ∀ x ∈ (Text.dropBlanks (Text.dropBlanks cs).reverse).head?,
      Text.isBlank x = false := Text.head?_dropWhile_eq_false
  generalize Text.dropBlanks cs = front at hfirst hlast ⊢
  have hsuffix : (Text.dropBlanks front.reverse) <:+ front.reverse := List.dropWhile_suffix _
  generalize Text.dropBlanks front.reverse = back at hlast hsuffix ⊢
  have hfront : back.reverse <+: front := by
    rwa [← List.reverse_suffix, List.reverse_reverse]
  have hhead : ∀ x ∈ back.reverse.head?, Text.isBlank x = false := by
    intro x hx
    refine hfirst x ?_
    obtain ⟨rest, hrest⟩ := hfront
    obtain ⟨xs, hxs⟩ := List.head?_eq_some_iff.mp hx
    rw [← hrest, hxs]
    rfl
  rw [Text.dropBlanks_of_head hhead, List.reverse_reverse, Text.dropBlanks_of_head hlast]

theorem Text.trimmed_trimmed (text : String) :
    Text.trimmed (Text.trimmed text) = Text.trimmed text := by
  unfold Text.trimmed
  rw [String.toList_ofList, Text.trim_trim]

namespace SettingKey

/-- The value that a text gives to a setting; none if it is refused. -/
def canonical? : SettingKey → (text : String) → Option String
  | endpoint, text => some (Text.trimmed text)
  | output, text =>
    let name := Text.lowered text
    if name = "yml" then some "yaml"
    else if name ∈ ["json", "yaml", "table", "text"] then some name
    else none

/-- The value of a setting that was never given one. -/
def initial : SettingKey → String
  | endpoint => ""
  | output => "json"

theorem read_eq_ok_iff {name : String} {key : SettingKey} :
    read name = .ok key ↔ name = key.name := by
  constructor
  · intro h
    unfold read at h
    split at h
    · next k hk =>
      injection h with h
      have hname : (k.name == name) = true :=
        List.find?_some (p := fun (k : SettingKey) => k.name == name) hk
      exact h ▸ (beq_iff_eq.mp hname).symm
    · cases h
  · rintro rfl
    exact read_name key

theorem name_injective {key other : SettingKey} (h : key.name = other.name) : key = other := by
  have hread := read_name key
  rw [h, read_name other] at hread
  exact (Except.ok.inj hread).symm

theorem read_eq_error {name : String} {err : Error} (h : read name = .error err) :
    err = .settings (.unknownKey name) := by
  unfold read at h
  split at h
  · cases h
  · injection h with h
    exact h.symm

/-- A value of the output is the name of a format. -/
theorem exists_format {text value : String} (h : output.canonical? text = some value) :
    ∃ f : OutputFormat, value = f.name := by
  unfold canonical? at h
  dsimp only at h
  split at h
  · exact ⟨.yaml, (Option.some.inj h).symm⟩
  · split at h
    · next hmem =>
      obtain rfl := Option.some.inj h
      simp only [List.mem_cons, List.not_mem_nil, or_false] at hmem
      rcases hmem with hname | hname | hname | hname
      · exact ⟨.json, hname⟩
      · exact ⟨.yaml, hname⟩
      · exact ⟨.table, hname⟩
      · exact ⟨.text, hname⟩
    · cases h

end SettingKey

theorem OutputFormat.read_eq_error {text : String} {err : Error} (h : read text = .error err) :
    err = .settings (.unknownFormat text) := by
  unfold read at h
  dsimp only at h
  split at h
  · cases h
  · injection h with h
    exact h.symm

theorem OutputFormat.ofName?_eq_some_iff {name : String} {f : OutputFormat} :
    ofName? name = some f ↔ name = f.name := by
  constructor
  · intro h
    have hname : (f.name == name) = true :=
      List.find?_some (p := fun (f : OutputFormat) => f.name == name) h
    exact (beq_iff_eq.mp hname).symm
  · rintro rfl
    exact ofName?_name f

/-- A text names the format that its canonical value is the name of. -/
theorem OutputFormat.read_eq_ok_iff {text : String} {f : OutputFormat} :
    read text = .ok f ↔ SettingKey.output.canonical? text = some f.name := by
  unfold read SettingKey.canonical?
  dsimp only
  by_cases hyml : Text.lowered text = "yml"
  · rw [if_pos (beq_iff_eq.mpr hyml), if_pos hyml, Except.ok.injEq, Option.some.injEq]
    constructor
    · rintro rfl
      rfl
    · intro h
      have h := (ofName?_eq_some_iff (f := f)).mpr h
      exact Option.some.inj ((ofName?_name yaml).symm.trans h)
  · rw [if_neg (fun h => hyml (beq_iff_eq.mp h)), if_neg hyml]
    cases hread : ofName? (Text.lowered text) with
    | some g =>
      have hg := ofName?_eq_some_iff.mp hread
      have hmem : Text.lowered text ∈ ["json", "yaml", "table", "text"] := by
        rw [hg]
        cases g <;> decide
      rw [if_pos hmem, Option.some.injEq, ← ofName?_eq_some_iff, hread, Except.ok.injEq,
        Option.some.injEq]
    | none =>
      refine ⟨nofun, fun h => ?_⟩
      split at h
      · rw [ofName?_eq_some_iff.mpr (Option.some.inj h)] at hread
        cases hread
      · cases h

-- ---------------------------------------------------------------------------
-- Changes
-- ---------------------------------------------------------------------------

namespace Settings

/-- An endpoint that is set is not empty and has no white space around it. -/
def IsTrimmed (s : Settings) : Prop :=
  ∀ endpoint ∈ s.endpoint, endpoint ≠ "" ∧ Text.trimmed endpoint = endpoint

/-- The settings differ from others at most in the one with the key, which has the value. -/
structure Gives (s : Settings) (key : SettingKey) (value : String) (changed : Settings) : Prop where
  path : changed.path = s.path
  value : changed.value key = value
  others : ∀ other, other ≠ key → changed.value other = s.value other
  trimmed : s.IsTrimmed → changed.IsTrimmed

variable {s : Settings} {key : SettingKey} {name text value : String}

theorem get_eq_error {err : Error} (h : s.get name = .error err) :
    err = .settings (.unknownKey name) :=
  SettingKey.read_eq_error (bind_ok_eq_error.mp h)

theorem get_name (s : Settings) (key : SettingKey) : s.get key.name = .ok (s.value key) := by
  rw [get, SettingKey.read_name]
  rfl

theorem get_eq_ok (h : s.get name = .ok text) :
    ∃ key : SettingKey, name = key.name ∧ text = s.value key := by
  obtain ⟨key, hkey, hvalue⟩ := bind_eq_ok.mp h
  exact ⟨key, SettingKey.read_eq_ok_iff.mp hkey, (Except.ok.inj hvalue).symm⟩

theorem set_eq_error {err : Error} (h : s.set name text = .error err) :
    err = .settings (.unknownKey name) ∨ err = .settings (.unknownFormat text) := by
  rcases bind_eq_error.mp h with hkey | ⟨key, -, hassign⟩
  · exact .inl (SettingKey.read_eq_error hkey)
  · cases key with
    | endpoint => cases hassign
    | output => exact .inr (OutputFormat.read_eq_error (bind_ok_eq_error.mp hassign))

/-- A setting that can be changed can be read. -/
theorem exists_get_of_set {t : Settings} (h : s.set name text = .ok t) :
    ∃ value, t.get name = .ok value := by
  obtain ⟨key, hkey, -⟩ := bind_eq_ok.mp h
  rw [SettingKey.read_eq_ok_iff.mp hkey]
  exact ⟨_, t.get_name key⟩

theorem set_name (s : Settings) (key : SettingKey) (text : String) :
    s.set key.name text = s.assign key text := by
  rw [set, SettingKey.read_name]
  rfl

theorem set_of_canonical (s : Settings) (h : key.canonical? text = some value) :
    ∃ changed, s.set key.name text = .ok changed ∧ s.Gives key value changed := by
  rw [set_name]
  cases key with
  | endpoint =>
    have hvalue : Text.trimmed text = value := Option.some.inj h
    refine ⟨_, rfl, rfl, ?_, ?_, fun _ endpoint hendpoint => ?_⟩
    · show (if Text.trimmed text == "" then none else some (Text.trimmed text)).getD "" = value
      split
      · next hempty => exact (beq_iff_eq.mp hempty).symm.trans hvalue
      · exact hvalue
    · intro other hother
      cases other with
      | endpoint => exact absurd rfl hother
      | output => rfl
    · dsimp only at hendpoint
      split at hendpoint
      · cases hendpoint
      · next hempty =>
        obtain rfl := Option.mem_some.mp hendpoint
        exact ⟨fun h => hempty (beq_iff_eq.mpr h), Text.trimmed_trimmed text⟩
  | output =>
    obtain ⟨f, rfl⟩ := SettingKey.exists_format h
    rw [assign, OutputFormat.read_eq_ok_iff.mpr h]
    refine ⟨_, rfl, rfl, rfl, ?_, id⟩
    intro other hother
    cases other with
    | endpoint => rfl
    | output => exact absurd rfl hother

theorem set_eq_ok {changed : Settings} (h : s.set name text = .ok changed) :
    ∃ (key : SettingKey) (value : String), name = key.name ∧ key.canonical? text = some value ∧
      s.Gives key value changed := by
  obtain ⟨key, hkey, hassign⟩ := bind_eq_ok.mp h
  obtain rfl := SettingKey.read_eq_ok_iff.mp hkey
  obtain ⟨value, hvalue⟩ : ∃ value, key.canonical? text = some value := by
    cases key with
    | endpoint => exact ⟨_, rfl⟩
    | output =>
      obtain ⟨f, hread, -⟩ := bind_eq_ok.mp hassign
      exact ⟨_, OutputFormat.read_eq_ok_iff.mp hread⟩
  obtain ⟨changed', hset, hgives⟩ := s.set_of_canonical hvalue
  obtain rfl := Except.ok.inj (hset.symm.trans h)
  exact ⟨key, value, rfl, hvalue, hgives⟩

theorem set_of_refused (s : Settings)
    (h : ∀ key : SettingKey, name = key.name → key.canonical? text = none) :
    ∃ fault, s.set name text = .error (.settings fault) := by
  cases hset : s.set name text with
  | error err =>
    rcases set_eq_error hset with rfl | rfl
    · exact ⟨_, rfl⟩
    · exact ⟨_, rfl⟩
  | ok changed =>
    obtain ⟨key, value, hname, hvalue, -⟩ := set_eq_ok hset
    exact absurd (hvalue.symm.trans (h key hname)) nofun

theorem endpoint_eq_none_iff (h : s.IsTrimmed) : s.endpoint = none ↔ s.value .endpoint = "" := by
  unfold value
  cases hendpoint : s.endpoint with
  | none => exact ⟨fun _ => rfl, fun _ => rfl⟩
  | some endpoint => exact ⟨nofun, fun hempty => absurd hempty (h endpoint hendpoint).1⟩

/-- A change to the value that a setting has is none. -/
theorem set_self (h : s.IsTrimmed) (key : SettingKey) : s.set key.name (s.value key) = .ok s := by
  rw [set_name]
  obtain ⟨path, endpoint, output⟩ := s
  cases key with
  | endpoint =>
    cases endpoint with
    | none => rfl
    | some endpoint =>
      obtain ⟨hne, htrimmed⟩ := h endpoint rfl
      unfold assign value
      dsimp only
      rw [Option.getD_some, htrimmed, if_neg (fun h => hne (beq_iff_eq.mp h))]
  | output =>
    have hread : OutputFormat.read output.name = .ok output := by
      cases output <;> rfl
    show (OutputFormat.read output.name >>= fun o => Except.ok (Settings.mk path endpoint o)) = _
    rw [hread]
    rfl

end Settings

end ClusterFilter
