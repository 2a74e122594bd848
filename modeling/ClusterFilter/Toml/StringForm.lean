import ClusterFilter.Text.Radix

/-!
# ClusterFilter — TOML strings

A string stands between quotation marks, where a backslash starts an escape, or between
apostrophes, where every character stands for itself. Three marks in place of one let it go over
several lines.

A text is written in the simplest form that needs no escapes: between quotation marks, between
apostrophes, or with three of either; where control characters force escapes, between quotation
marks, with three of them if it has line feeds.
-/

namespace ClusterFilter.Toml

/-- The four forms of a string. -/
structure StringForm where
  /-- Between quotation marks, with escapes, and not between apostrophes. -/
  escaped : Bool
  /-- With three marks, over several lines. -/
  long : Bool
  deriving DecidableEq, Repr

/-- The mark around a string. -/
def StringForm.mark (f : StringForm) : Char :=
  if f.escaped then '\x22' else '\x27'

/-- What stands on either side of a string. -/
def StringForm.delimiter (f : StringForm) : List Char :=
  List.replicate (if f.long then 3 else 1) f.mark

-- ---------------------------------------------------------------------------
-- Writing
-- ---------------------------------------------------------------------------

/-- Control characters that cannot stand for themselves in any form. -/
def isControl (c : Char) : Bool :=
  (c.toNat < 0x20 && c != '\t' && c != '\n') || c.toNat == 0x7F

/-- The length of the longest run of the character; `run` of them precede the text. -/
def longestRun (mark : Char) (run : Nat) : List Char → Nat
  | [] => run
  | c :: cs => if c = mark then longestRun mark (run + 1) cs else max run (longestRun mark 0 cs)

/-- The form in which a text is written. -/
def StringForm.best (cs : List Char) : StringForm :=
  let controls := cs.any isControl
  let backslash := cs.contains '\\'
  let lineFeed := cs.contains '\n'
  let quotes := longestRun '\x22' 0 cs
  let apostrophes := longestRun '\x27' 0 cs
  if !controls && !backslash && !lineFeed && quotes == 0 then ⟨true, false⟩
  else if !controls && !lineFeed && apostrophes == 0 then ⟨false, false⟩
  else if !controls && !backslash && quotes ≤ 2 then ⟨true, true⟩
  else if !controls && apostrophes ≤ 2 then ⟨false, true⟩
  else ⟨true, lineFeed⟩

/-- A character between quotation marks; these are not asked for here. -/
def StringForm.writeChar (f : StringForm) (c : Char) : List Char :=
  if c = '\x08' then ['\\', 'b']
  else if c = '\t' then ['\\', 't']
  else if c = '\n' then if f.long then ['\n'] else ['\\', 'n']
  else if c = '\x0c' then ['\\', 'f']
  else if c = '\r' then ['\\', 'r']
  else if c = '\\' then ['\\', '\\']
  else if isControl c then '\\' :: 'u' :: Text.upperHex 4 c.toNat
  else [c]

/-- A text between quotation marks. Two marks in a row may stand for themselves between three, and
none between single ones; `run` marks stand in front of the text. -/
def StringForm.writeEscaped (f : StringForm) (run : Nat) : List Char → List Char
  | [] => []
  | c :: cs =>
    if c = '\x22' then
      if f.long && run < 2 then c :: f.writeEscaped (run + 1) cs
      else '\\' :: c :: f.writeEscaped 0 cs
    else f.writeChar c ++ f.writeEscaped 0 cs

/-- The text as a string of the form. A long string that has line feeds starts on a new line. -/
def StringForm.write (f : StringForm) (cs : List Char) : List Char :=
  f.delimiter ++ (if f.long && cs.contains '\n' then ['\n'] else []) ++
    (if f.escaped then f.writeEscaped 0 cs else cs) ++ f.delimiter

/-- The text as a string. -/
def writeString (cs : List Char) : List Char :=
  (StringForm.best cs).write cs

-- ---------------------------------------------------------------------------
-- Reading
-- ---------------------------------------------------------------------------

/-- The character with the code point that digits of base 16 give. -/
def hexChar? (cs : List Char) : Option Char :=
  (Text.readRadix? 16 cs).bind fun n => if h : n.isValidChar then some (Char.ofNatAux n h) else none

/-- The letters of the short escapes and the characters they stand for. -/
def shortEscapes : List (Char × Char) :=
  [('b', '\x08'), ('t', '\t'), ('n', '\n'), ('f', '\x0c'), ('r', '\r'), ('\x22', '\x22'),
    ('\\', '\\')]

/-- The character that an escape stands for, and the text after it; the backslash is already
taken. -/
def takeEscape? : List Char → Option (Char × List Char)
  | [] => none
  | 'u' :: cs => if 4 ≤ cs.length then (hexChar? (cs.take 4)).map (·, cs.drop 4) else none
  | 'U' :: cs => if 8 ≤ cs.length then (hexChar? (cs.take 8)).map (·, cs.drop 8) else none
  | c :: cs => (shortEscapes.lookup c).map (·, cs)

theorem length_lt_of_takeEscape? {cs rest : List Char} {c : Char}
    (h : takeEscape? cs = some (c, rest)) : rest.length < cs.length := by
  unfold takeEscape? at h
  split at h
  · simp at h
  · split at h
    · obtain ⟨_, _, h⟩ := Option.map_eq_some_iff.1 h
      obtain rfl := (Prod.mk.inj h).2
      simp only [List.length_drop, List.length_cons]
      omega
    · simp at h
  · split at h
    · obtain ⟨_, _, h⟩ := Option.map_eq_some_iff.1 h
      obtain rfl := (Prod.mk.inj h).2
      simp only [List.length_drop, List.length_cons]
      omega
    · simp at h
  · obtain ⟨_, _, h⟩ := Option.map_eq_some_iff.1 h
    obtain rfl := (Prod.mk.inj h).2
    simp

/-- White space within a line. -/
def isSpace (c : Char) : Bool :=
  c == ' ' || c == '\t'

/-- The text without the spaces and tabs at its start. -/
def skipSpaces (cs : List Char) : List Char :=
  cs.dropWhile isSpace

/-- What follows a backslash at the end of a line: the line feed and all white space up to the next
character are left out. -/
def skipLineEnd? (cs : List Char) : Option (List Char) :=
  if (skipSpaces cs).head? = some '\n' then
    some (cs.dropWhile fun c => isSpace c || c == '\n')
  else none

theorem length_le_of_skipLineEnd? {cs rest : List Char} (h : skipLineEnd? cs = some rest) :
    rest.length ≤ cs.length := by
  unfold skipLineEnd? at h
  split at h <;> simp at h
  obtain rfl := h
  exact (List.dropWhile_suffix _).length_le

/-- What follows the end of a string, if the string ends here. Up to two marks before the closing
three belong to the text. -/
def StringForm.close? (f : StringForm) (cs : List Char) : Option (List Char × List Char) :=
  if f.delimiter.isPrefixOf cs then
    let rest := cs.drop f.delimiter.length
    let extra := if f.long then (rest.take 2).takeWhile (· == f.mark) else []
    some (extra, rest.drop extra.length)
  else none

/-- The text of a string up to its end, and what follows it. -/
def StringForm.body (f : StringForm) (cs : List Char) : Option (List Char × List Char) :=
  match f.close? cs with
  | some result => some result
  | none =>
    match cs with
    | [] => none
    | c :: cs =>
      if f.escaped && c == '\\' then
        match _h : takeEscape? cs with
        | some (e, rest) => (f.body rest).map fun (text, after) => (e :: text, after)
        | none =>
          if f.long then
            match _h : skipLineEnd? cs with
            | some rest => f.body rest
            | none => none
          else none
      else if c == '\n' && !f.long then none
      else (f.body cs).map fun (text, after) => (c :: text, after)
termination_by cs.length
decreasing_by
  · have := length_lt_of_takeEscape? _h
    simp; omega
  · have := length_le_of_skipLineEnd? _h
    simp; omega
  · simp

/-- The form of the string that starts here. -/
def StringForm.opening? (cs : List Char) : Option StringForm :=
  [⟨true, true⟩, ⟨false, true⟩, ⟨true, false⟩, ⟨false, false⟩].find? fun f : StringForm =>
    f.delimiter.isPrefixOf cs

/-- Reads the string that starts here. A line feed right after three marks is left out. -/
def readString? (cs : List Char) : Option (List Char × List Char) := do
  let f ← StringForm.opening? cs
  let rest := cs.drop f.delimiter.length
  f.body (if f.long && rest.head? == some '\n' then rest.drop 1 else rest)

end ClusterFilter.Toml
