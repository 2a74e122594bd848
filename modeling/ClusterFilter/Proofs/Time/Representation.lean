import ClusterFilter.Proofs.Time.Duration
import ClusterFilter.Proofs.Wire

/-!
# ClusterFilter — the two forms of a duration

A duration is a signed number of nanoseconds. An expression writes its sign and then its magnitude
in days and the parts of a day; a message carries seconds and nanoseconds, which both have the sign.
Either form holds the exact number, and each has one form only.

Main results:

* `wholeSeconds_add_subsecondNanos` — the seconds and nanoseconds of a message, their bounds and
  their signs.
* `forms_exact` — the text and the message of every duration.
-/

namespace ClusterFilter.Duration

/-- The seconds of a message are cut toward zero, and the nanoseconds make up for it with the same
sign. -/
theorem wholeSeconds_add_subsecondNanos (d : Duration) :
    d.wholeSeconds * 1000000000 + d.subsecondNanos = d.nanos ∧
    d.subsecondNanos.natAbs < 1000000000 ∧
    (0 ≤ d.wholeSeconds ∧ 0 ≤ d.subsecondNanos ∨ d.wholeSeconds ≤ 0 ∧ d.subsecondNanos ≤ 0) := by
  have hpos : (0 : Int) < 1000000000 := by decide
  unfold wholeSeconds subsecondNanos
  refine ⟨Int.tdiv_mul_add_tmod .., ?_, ?_⟩
  · rw [Int.natAbs_tmod]
    exact Nat.mod_lt _ (by decide)
  · rcases Int.le_total 0 d.nanos with hsign | hsign
    · exact .inl ⟨Int.tdiv_nonneg hsign hpos.le, Int.tmod_nonneg _ hsign⟩
    · have hquotient := Int.tdiv_nonneg (Int.neg_nonneg_of_nonpos hsign) hpos.le
      have hremainder := Int.tmod_nonneg 1000000000 (Int.neg_nonneg_of_nonpos hsign)
      rw [Int.neg_tdiv] at hquotient
      rw [Int.neg_tmod] at hremainder
      exact .inr ⟨Int.nonpos_of_neg_nonneg hquotient, Int.nonpos_of_neg_nonneg hremainder⟩

/-- The seconds of a message fit 64 bits, and the nanoseconds 32 bits. -/
theorem parts_fit (d : Duration) : d.wholeSeconds.natAbs < 2 ^ 63 ∧
    d.subsecondNanos.natAbs < 2 ^ 31 := by
  obtain ⟨hsum, hnanos, hsigns⟩ := d.wholeSeconds_add_subsecondNanos
  have hbound : d.nanos.natAbs ≤ (2 ^ 63 - 1) * 1000000 := d.bounded
  omega

/--
**The two forms of a duration.** Durations are told apart by their texts, and by their documents in
messages. The document of a duration holds seconds and nanoseconds that fit their types, add up to
the exact number and are of one sign. Its text denotes the exact number, and is the only normal text
that does.
-/
theorem forms_exact (d : Duration) :
    (∀ e : Duration, (d = e ↔ (Value.duration d).text = (Value.duration e).text) ∧
      (d = e ↔ (Value.duration d).document = (Value.duration e).document)) ∧
    (∃ seconds nanos : Int,
      (Value.duration d).document =
        .record [("seconds", .integer seconds), ("nanos", .integer nanos)] ∧
      seconds * 1000000000 + nanos = d.nanos ∧ nanos.natAbs < 1000000000 ∧
      (0 ≤ seconds ∧ 0 ≤ nanos ∨ seconds ≤ 0 ∧ nanos ≤ 0) ∧
      seconds.natAbs < 2 ^ 63 ∧ nanos.natAbs < 2 ^ 31) ∧
    Denotes (Value.duration d).text.toList d.nanos ∧
    ∀ text, Normal text d.nanos ↔ text = (Value.duration d).text.toList := by
  obtain ⟨hsum, hnanos, hsigns⟩ := d.wholeSeconds_add_subsecondNanos
  have htext : ∀ e : Duration, (Value.duration e).text.toList = e.chars := fun _ =>
    String.toList_ofList
  refine ⟨fun e => ⟨⟨fun h => h ▸ rfl, fun h => ?_⟩, ⟨fun h => h ▸ rfl, fun h => ?_⟩⟩,
    ⟨d.wholeSeconds, d.subsecondNanos, rfl, hsum, hnanos, hsigns, d.parts_fit⟩, ?_, fun text => ?_⟩
  · have hchars : d.chars = e.chars := by rw [← htext, h, htext]
    have hread := read_chars d
    rw [hchars, read_chars] at hread
    exact (Except.ok.inj hread).symm
  · have hkind : (Value.duration d).kind = (Value.duration e).kind := rfl
    injection Value.eq_of_document hkind trivial trivial h
  · rw [htext]
    exact denotes_chars d
  · rw [htext]
    exact normal_iff

end ClusterFilter.Duration
