/-!
# Searching and cutting text

Functions on lists of characters that find one text inside another and take a text apart where
something was found. Each keeps every character: the parts put together again are the whole.
-/

namespace Bindery.Text

/-- The text before the first occurrence of `pattern`, and the text that starts with it. -/
def cut? (pattern : List Char) : List Char → Option (List Char × List Char)
  | [] => if pattern.isEmpty then some ([], []) else none
  | c :: rest =>
      if pattern.isPrefixOf (c :: rest) then some ([], c :: rest)
      else (cut? pattern rest).map fun parts => (c :: parts.1, parts.2)

/-- The two parts of a cut are the whole text. -/
theorem append_of_cut?_eq_some {pattern text before after : List Char}
    (h : cut? pattern text = some (before, after)) : before ++ after = text := by
  induction text generalizing before with
  | nil =>
      unfold cut? at h
      split at h
      · simp only [Option.some.injEq, Prod.mk.injEq] at h
        simp [← h.1, ← h.2]
      · cases h
  | cons c rest ih =>
      unfold cut? at h
      split at h
      · simp only [Option.some.injEq, Prod.mk.injEq] at h
        simp [← h.1, ← h.2]
      · obtain ⟨parts, hparts, heq⟩ := Option.map_eq_some_iff.mp h
        simp only [Prod.mk.injEq] at heq
        obtain ⟨rfl, rfl⟩ := heq
        rw [List.cons_append, ih hparts]

/-- A cut keeps the number of characters. -/
theorem length_of_cut?_eq_some {pattern text before after : List Char}
    (h : cut? pattern text = some (before, after)) :
    before.length + after.length = text.length := by
  rw [← append_of_cut?_eq_some h, List.length_append]

/-- The text before the first occurrence of `pattern`, and the text behind it. -/
def cutOut? (pattern text : List Char) : Option (List Char × List Char) :=
  (cut? pattern text).map fun parts => (parts.1, parts.2.drop pattern.length)

/-- Whether `pattern` stands somewhere in the text. -/
def occurs (pattern text : List Char) : Bool := (cut? pattern text).isSome

/-- How many characters precede the first occurrence of `pattern`. -/
def position? (pattern text : List Char) : Option Nat :=
  (cut? pattern text).map fun parts => parts.1.length

/-- The pieces of a text between the characters that satisfy `isBreak`; there is always one more
piece than there are breaks. -/
def pieces (isBreak : Char → Bool) : List Char → List (List Char)
  | [] => [[]]
  | c :: rest =>
      if isBreak c then [] :: pieces isBreak rest
      else (pieces isBreak rest).modifyHead (c :: ·)

/-- The text with every occurrence of `pattern` replaced, from left to right; the first `skipped`
characters belong to an occurrence already replaced. -/
def replaceFrom (pattern replacement : List Char) : (skipped : Nat) → List Char → List Char
  | _, [] => []
  | skipped + 1, _ :: rest => replaceFrom pattern replacement skipped rest
  | 0, c :: rest =>
      if pattern.isPrefixOf (c :: rest) then
        replacement ++ replaceFrom pattern replacement (pattern.length - 1) rest
      else c :: replaceFrom pattern replacement 0 rest

/-- The text with every occurrence of `pattern`, which is not empty, replaced. -/
def replace (pattern replacement text : List Char) : List Char :=
  replaceFrom pattern replacement 0 text

/-- The text after its last line break, and what precedes it, the break included. -/
def splitLastLine (text : List Char) : List Char × List Char :=
  let last := (text.reverse.takeWhile (· ≠ '\n')).reverse
  (text.take (text.length - last.length), last)

/-- A line without the carriage return it may end with. -/
def dropCarriageReturn (line : List Char) : List Char :=
  if line.getLast? = some '\r' then line.dropLast else line

/-- The lines of a text. A line ends with a line feed, which a carriage return may precede; a text
that ends with a line feed has no further line. -/
def lines (text : List Char) : List (List Char) :=
  let all := pieces (· = '\n') text
  let closed := all.dropLast.map dropCarriageReturn
  match all.getLast? with
  | none | some [] => closed
  | some last => closed ++ [last]

/-- Pieces put together with `separator` between them. -/
def join (separator : String) (parts : List String) : String :=
  String.intercalate separator parts

end Bindery.Text
