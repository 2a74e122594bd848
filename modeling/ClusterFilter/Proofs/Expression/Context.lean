import ClusterFilter.Proofs.Expression.Position

/-!
# ClusterFilter — the context of an error

An error shows the text around its place, and a caret in the line below. On either side no more
characters are shown than fit. The part behind the place ends with its line, too. The part in front
of it does not begin with its line: an expression may be broken into lines between any two tokens,
and where a line ends shortly in front of the place, the context has more than two lines. The caret
is moved to the right by all that is shown in front of the place, as if it were one line.

No line ends at the place of an error itself, since no white space stands there. So nothing is shown
behind the place at the end of the text only.

Main results:

* `count_context` — the lines of the context.
* `parse_error_context` — the context around the place of an error, and when it has two lines.
-/

namespace ClusterFilter

open Token

namespace Misfit

/-- The end of the text in front of the place, as far as the context shows it. -/
def shownBefore (e : Misfit) : List Char :=
  e.before.drop (e.before.length - contextWidth)

/-- The beginning of the text behind the place, as far as the context shows it. -/
def shownAfter (e : Misfit) : List Char :=
  (e.after.takeWhile (· != '\n')).take contextWidth

/-- The context has two lines. The first one is an excerpt of the text, with the place of the error
behind its first `k` characters. The second one has a caret below the character at this place, or
behind the end of the first one if the text ends there. -/
structure HasTwoLines (e : Misfit) (above : List Char) (k : Nat) : Prop where
  context : e.context = above ++ '\n' :: (List.replicate k ' ' ++ ['^'])
  lineFeeds : e.context.count '\n' = 1
  excerpt : ∃ front behind, above = front ++ behind ∧ front.length = k ∧ k ≤ 40 ∧
    front <:+ e.before ∧ behind <+: e.after ∧ behind.length ≤ 40
  caret : above[k]? = e.after.head?

variable (e : Misfit)

theorem context_eq : e.context = (e.shownBefore ++ e.shownAfter) ++
    '\n' :: (List.replicate e.shownBefore.length ' ' ++ ['^']) :=
  List.append_assoc ..

theorem shownBefore_suffix : e.shownBefore <:+ e.before :=
  List.drop_suffix ..

theorem length_shownBefore : e.shownBefore.length = min 40 e.before.length := by
  rw [shownBefore, List.length_drop, contextWidth]
  omega

theorem shownAfter_prefix : e.shownAfter <+: e.after :=
  (List.take_prefix ..).trans (List.takeWhile_prefix _)

theorem length_shownAfter_le : e.shownAfter.length ≤ 40 :=
  List.length_take_le ..

theorem lineFeed_notMem_shownAfter : '\n' ∉ e.shownAfter := by
  intro h
  have hkept := List.mem_takeWhile_imp (List.mem_of_mem_take h)
  cases hkept

/-- One line feed stands in front of the caret. All others are in the text that is shown in front
of the place. -/
theorem count_context : e.context.count '\n' = e.shownBefore.count '\n' + 1 := by
  have hafter : e.shownAfter.count '\n' = 0 := List.count_eq_zero.mpr e.lineFeed_notMem_shownAfter
  have hcaret : (List.replicate e.shownBefore.length ' ' ++ ['^']).count '\n' = 0 := by
    rw [List.count_append, List.count_replicate]
    rfl
  rw [context_eq, List.count_append, List.count_append, List.count_cons_self, hafter, hcaret]

variable {e}

/-- A character that is no white space is shown. -/
theorem head?_shownAfter (h : StartsBare e.after) : e.shownAfter.head? = e.after.head? := by
  unfold shownAfter
  cases hafter : e.after with
  | nil => rfl
  | cons x xs =>
    have hbare : Text.isBlank x = false := h x (hafter ▸ rfl)
    have hx : (x != '\n') = true := by
      rw [bne_iff_ne]
      rintro rfl
      cases hbare
    have hkept : (x :: xs).takeWhile (· != '\n') = x :: xs.takeWhile (· != '\n') :=
      List.takeWhile_cons_of_pos hx
    rw [hkept]
    rfl

/-- Behind as many characters as there are spaces in front of the caret stands the character at the
place. -/
theorem getElem?_shown (h : StartsBare e.after) :
    (e.shownBefore ++ e.shownAfter)[e.shownBefore.length]? = e.after.head? := by
  rw [List.getElem?_append_right (Nat.le_refl _), Nat.sub_self, ← List.head?_eq_getElem?,
    head?_shownAfter h]

/-- What is shown of the text in front is the longest end of it that fits. -/
theorem notMem_shownBefore_iff {x : Char} :
    x ∉ e.shownBefore ↔ ∀ front, front <:+ e.before → front.length ≤ 40 → x ∉ front := by
  have hlength := e.length_shownBefore
  constructor
  · intro hx front hsuffix hfront hmem
    have hle := hsuffix.length_le
    have hshown : front <:+ e.shownBefore :=
      List.suffix_of_suffix_length_le hsuffix e.shownBefore_suffix (by omega)
    exact hx (hshown.subset hmem)
  · exact fun hfront => hfront _ e.shownBefore_suffix (by omega)

/-- There are two lines exactly if no line ends in what is shown of the text in front. -/
theorem hasTwoLines_iff (h : StartsBare e.after) :
    (∃ above k, e.HasTwoLines above k) ↔ '\n' ∉ e.shownBefore := by
  constructor
  · rintro ⟨above, k, hlines⟩
    have hone := hlines.lineFeeds
    rw [count_context] at hone
    exact List.count_eq_zero.mp (Nat.succ.inj hone)
  · intro hnone
    have hlength := e.length_shownBefore
    refine ⟨_, _, e.context_eq, ?_, ?_, getElem?_shown h⟩
    · rw [count_context, List.count_eq_zero.mpr hnone]
    · exact ⟨_, _, rfl, rfl, by omega, e.shownBefore_suffix, e.shownAfter_prefix,
        e.length_shownAfter_le⟩

end Misfit

theorem Token.Finds.startsBare {found : Option (List Char)} {cs : List Char}
    (h : Finds found cs) : StartsBare cs := by
  cases found with
  | none =>
    obtain rfl : cs = [] := h
    exact startsBare_nil
  | some token => exact BeginsWith.bare h

/--
**The context of an error.** An error is about a place in the text, and its offset counts the bytes
in front of it. The context shows the last 40 characters in front of the place, or all of them if
there are fewer, and the first ones behind it, no more than 40 and none from the end of their line
on. The caret below is moved to the right by the number of characters in front. It has one line
above it, with the character at the place above the caret, exactly if no line feed is among the last
40 characters in front of the place.
-/
theorem Grammar.parse_error_context (g : Grammar) (text : String) (m : Misfit)
    (h : g.parse text = .error (.malformed m)) :
    (∃ before after, text = before ++ after ∧ before.toList = m.before ∧ after.toList = m.after ∧
      before.utf8ByteSize = m.offset) ∧
    (∃ front behind, m.context =
        front ++ behind ++ '\n' :: (List.replicate front.length ' ' ++ ['^']) ∧
      front <:+ m.before ∧ front.length = min 40 m.before.length ∧
      behind <+: m.after ∧ behind.length ≤ 40 ∧ '\n' ∉ behind ∧
      (front ++ behind)[front.length]? = m.after.head? ∧
      m.context.count '\n' = front.count '\n' + 1) ∧
    ((∃ above k, m.HasTwoLines above k) ↔
      ∀ front, front <:+ m.before → front.length ≤ 40 → '\n' ∉ front) := by
  obtain ⟨hsplit, hfinds⟩ := parse_malformed_split h
  have hbare := hfinds.startsBare
  refine ⟨⟨String.ofList m.before, String.ofList m.after, ?_, String.toList_ofList,
    String.toList_ofList, Text.utf8ByteSize_ofList m.before⟩, ?_,
    (Misfit.hasTwoLines_iff hbare).trans Misfit.notMem_shownBefore_iff⟩
  · rw [← String.ofList_append, ← hsplit, String.ofList_toList]
  · exact ⟨m.shownBefore, m.shownAfter, m.context_eq, m.shownBefore_suffix, m.length_shownBefore,
      m.shownAfter_prefix, m.length_shownAfter_le, m.lineFeed_notMem_shownAfter,
      Misfit.getElem?_shown hbare, m.count_context⟩

/-- Lines that end behind the place or far enough in front of it are cut off. -/
theorem Grammar.parse_error_context_longLine :
    ∃ g m, Grammar.parse g "size = 1 and\nsize = 2 and size = 333333333333333333333333 )\nand" =
        .error (.malformed m) ∧
      m.context = "= 2 and size = 333333333333333333333333 )".toList ++
        '\n' :: (List.replicate 40 ' ' ++ ['^']) ∧
      ∃ above k, m.HasTwoLines above k := by
  let g : Grammar := ⟨"node", [⟨"size", .number, false, .ordered, .number⟩], []⟩
  obtain ⟨m, hm, hcontext, hshown⟩ : ∃ m,
      g.parse "size = 1 and\nsize = 2 and size = 333333333333333333333333 )\nand" =
        .error (.malformed m) ∧
      m.context = "= 2 and size = 333333333333333333333333 )".toList ++
        '\n' :: (List.replicate 40 ' ' ++ ['^']) ∧ '\n' ∉ m.shownBefore :=
    ⟨_, rfl, rfl, by decide⟩
  obtain ⟨-, -, hlines⟩ := parse_error_context g _ m hm
  exact ⟨g, m, hm, hcontext, hlines.mpr (Misfit.notMem_shownBefore_iff.mp hshown)⟩

/-- A line that ends shortly in front of the place of an error is shown, too, and the caret stands
behind the end of the line above it. -/
theorem parse_error_context_brokenLine :
    ¬ ∀ (r : Resource) (text : String) (m : Misfit), r.parse text = .error (.malformed m) →
      ∃ above k, m.HasTwoLines above k := by
  intro hall
  obtain ⟨m, hm, hcount⟩ : ∃ m, Resource.partition.parse "priority = 1\nand )" =
      .error (.malformed m) ∧ m.context.count '\n' = 2 := ⟨_, rfl, rfl⟩
  obtain ⟨above, k, hlines⟩ := hall _ _ _ hm
  have hone := hlines.lineFeeds
  rw [hcount] at hone
  cases hone

end ClusterFilter
