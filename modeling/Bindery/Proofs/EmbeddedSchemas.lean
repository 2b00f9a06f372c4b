import Bindery.Proofs.Header
import Bindery.Target.Core

/-!
# Embedded schemas

The schemas that the core library embeds are read back from its code like a compiler does it: a raw literal goes
from what opens it to the first place that closes it.
-/

namespace Bindery

open Text Naming

namespace Text

variable {first : Char} {others pattern before after text : List Char}

theorem cutOut?_append (hfirst : first ∉ others) (h : ¬ first :: others <:+: before) (after : List Char) :
    cutOut? (first :: others) (before ++ (first :: others ++ after)) = some (before, after) := by
  rw [cutOut?, cut?_append_of_not_infix hfirst h]
  simp

theorem eq_append_of_cutOut? (h : cutOut? pattern text = some (before, after)) :
    text = before ++ (pattern ++ after) := by
  obtain ⟨⟨front, found⟩, hcut, heq⟩ := Option.map_eq_some_iff.mp h
  obtain ⟨rfl, ⟨rest, rfl⟩, -⟩ := cut?_eq_some_iff.mp hcut
  cases heq
  rw [List.drop_left]

/-- A pattern that ends what it also stands in ends what follows it there. -/
theorem prefix_of_prefix_append (hfirst : first ∉ others) (h : first :: others <+: before ++ first :: after) :
    before = [] ∨ first :: others <+: before := by
  cases before with
  | nil => exact .inl rfl
  | cons c rest =>
      obtain ⟨rfl, hothers⟩ := List.cons_prefix_cons.mp h
      exact .inr (List.cons_prefix_cons.mpr ⟨rfl, prefix_of_prefix_append_cons hfirst hothers⟩)

end Text

/-! ## Raw literals -/

namespace RawLiteral

variable {before literal front text rest : List Char}

def opening : List Char := "R\"raw(".toList

def closing : List Char := ")raw\"".toList

/-- The text of the first literal in C++ code, and what is behind it. -/
def next? (text : List Char) : Option (List Char × List Char) :=
  (cutOut? opening text).bind fun parts => cutOut? closing parts.2

theorem length_lt_of_next? (h : next? text = some (literal, rest)) : rest.length < text.length := by
  obtain ⟨⟨before, behind⟩, hopen, hclose⟩ := Option.bind_eq_some_iff.mp h
  have hbehind : behind = literal ++ (closing ++ rest) := eq_append_of_cutOut? hclose
  have hopening : opening.length = 6 := rfl
  rw [eq_append_of_cutOut? hopen, hbehind]
  simp only [List.length_append, hopening]
  omega

/-- The texts of the literals in C++ code, in order. -/
def literals (text : List Char) : List (List Char) :=
  match _h : next? text with
  | none => []
  | some (literal, rest) => literal :: literals rest
termination_by text.length
decreasing_by exact length_lt_of_next? (by assumption)

theorem literals_of_next?_eq_none (h : next? text = none) : literals text = [] := by
  rw [literals]
  split
  · rfl
  next hnext => rw [h] at hnext; cases hnext

theorem literals_of_next?_eq_some (h : next? text = some (literal, rest)) :
    literals text = literal :: literals rest := by
  rw [literals]
  split
  next hnext => rw [h] at hnext; cases hnext
  next hnext =>
    rw [h] at hnext
    cases hnext
    rfl

theorem literals_of_not_infix (h : ¬ opening <:+: text) : literals text = [] := by
  refine literals_of_next?_eq_none ?_
  rw [next?, cutOut?, cut?_eq_none_iff.mpr h]
  rfl

/-- What is in front of a literal and holds nothing that opens one is passed over. -/
theorem literals_append_of_noneStarts (h : NoneStarts opening front text) :
    literals (front ++ text) = literals text := by
  have hnext : next? (front ++ text) = next? text := by
    rw [next?, next?, cutOut?, cutOut?, cut?_append_of_noneStarts h]
    cases cut? opening text <;> rfl
  cases hcase : next? text with
  | none => rw [literals_of_next?_eq_none hcase, literals_of_next?_eq_none (hnext.trans hcase)]
  | some parts =>
      rw [literals_of_next?_eq_some hcase, literals_of_next?_eq_some (hnext.trans hcase)]

theorem literals_append_literal (hbefore : ¬ opening <:+: before) (hliteral : ¬ closing <:+: literal)
    (rest : List Char) :
    literals (before ++ (opening ++ (literal ++ (closing ++ rest)))) = literal :: literals rest := by
  refine literals_of_next?_eq_some ?_
  have hopen : cutOut? opening (before ++ (opening ++ (literal ++ (closing ++ rest))))
      = some (before, literal ++ (closing ++ rest)) := cutOut?_append (by decide) hbefore _
  have hclose : cutOut? closing (literal ++ (closing ++ rest)) = some (literal, rest) :=
    cutOut?_append (by decide) hliteral _
  rw [next?, hopen]
  exact hclose

/-- Where code ends with the end of a literal, so does what is behind the place that opens one. -/
theorem closing_suffix_of_append {after : List Char} (h : closing <:+ before ++ (opening ++ after)) :
    closing <:+ after := by
  have hreverse : closing.reverse <+: after.reverse ++ '(' :: (before ++ "R\"raw".toList).reverse := by
    have hparts : (before ++ (opening ++ after)).reverse
        = after.reverse ++ '(' :: (before ++ "R\"raw".toList).reverse := by
      simp [opening]
    rw [← hparts]
    exact List.reverse_prefix.mpr h
  exact List.reverse_prefix.mp (prefix_of_prefix_append_cons (by decide) hreverse)

/-- So does what is behind a literal, if there is something. -/
theorem closing_suffix_of_append_closing (h : closing <:+ literal ++ (closing ++ rest)) :
    rest = [] ∨ closing <:+ rest := by
  have hreverse : closing.reverse <+: rest.reverse ++ '"' :: (literal ++ ")raw".toList).reverse := by
    have hparts : (literal ++ (closing ++ rest)).reverse
        = rest.reverse ++ '"' :: (literal ++ ")raw".toList).reverse := by
      simp [closing]
    rw [← hparts]
    exact List.reverse_prefix.mpr h
  exact (prefix_of_prefix_append (by decide) hreverse).imp List.reverse_eq_nil_iff.mp List.reverse_prefix.mp

/-- Code that ends with the end of a literal opens no literal, or has a first one. -/
theorem cases_of_suffix (h : closing <:+ text) : ¬ opening <:+: text ∨
    ∃ before literal rest, text = before ++ (opening ++ (literal ++ (closing ++ rest))) ∧ ¬ opening <:+: before ∧
      ¬ closing <:+: literal ∧ (rest = [] ∨ closing <:+ rest) := by
  refine Decidable.or_iff_not_imp_left.mpr fun hopen => ?_
  obtain ⟨before, behind, rfl, hbefore⟩ := exists_first (by decide) (Decidable.not_not.mp hopen)
  have hbehind := closing_suffix_of_append h
  obtain ⟨literal, rest, rfl, hliteral⟩ := exists_first (by decide) hbehind.isInfix
  exact ⟨before, literal, rest, rfl, hbefore, hliteral, closing_suffix_of_append_closing hbehind⟩

theorem literals_ne_nil (h : closing <:+ text) (hopen : opening <:+: text) : literals text ≠ [] := by
  rcases cases_of_suffix h with hnot | ⟨before, literal, rest, rfl, hbefore, hliteral, -⟩
  · exact absurd hopen hnot
  · rw [literals_append_literal hbefore hliteral]
    exact List.cons_ne_nil _ _

/-- The literals of code that ends with one are read whatever follows. -/
theorem literals_append (h : closing <:+ text) (rest : List Char) :
    literals (text ++ ';' :: rest) = literals text ++ literals rest := by
  have hskip (front : List Char) (hfront : ¬ opening <:+: front) :
      literals (front ++ ';' :: rest) = literals rest := by
    have hnone : NoneStarts opening (front ++ [';']) rest := by
      refine noneStarts_of_getLast? (c := ';') (by decide) (.inr (by simp)) fun hinfix => ?_
      rcases (infix_append_cons_iff (by decide)).mp hinfix with hinfix | hinfix
      · exact hfront hinfix
      · exact absurd hinfix (by decide)
    rw [← literals_append_of_noneStarts hnone, List.append_assoc, List.singleton_append]
  induction hlength : text.length using Nat.strong_induction_on generalizing text with
  | h length ih =>
      rcases cases_of_suffix h with hnot | ⟨before, literal, others, rfl, hbefore, hliteral, hothers⟩
      · rw [hskip text hnot, literals_of_not_infix hnot, List.nil_append]
      · have hparts : before ++ (opening ++ (literal ++ (closing ++ others))) ++ ';' :: rest
            = before ++ (opening ++ (literal ++ (closing ++ (others ++ ';' :: rest)))) := by
          simp only [List.append_assoc]
        rw [hparts, literals_append_literal hbefore hliteral, literals_append_literal hbefore hliteral,
          List.cons_append]
        rcases hothers with rfl | hothers
        · have hnil : literals [] = [] := literals_of_not_infix (by decide)
          rw [hskip [] (by decide), hnil, List.nil_append]
        · have hless : others.length < length := by
            have hclosing : closing.length = 5 := rfl
            simp only [List.length_append, hclosing] at hlength
            omega
          rw [ih others.length hless hothers rfl]

end RawLiteral

/-! ## Line breaks -/

/-- A text without the carriage returns that line feeds follow. -/
def dropReturns : List Char → List Char
  | [] => []
  | c :: rest => if c = '\r' ∧ rest.head? = some '\n' then dropReturns rest else c :: dropReturns rest

section DropReturns

variable {before after pattern text : List Char} {c : Char}

/-- No carriage return is dropped where two texts meet unless one ends the first and a line feed follows. -/
theorem dropReturns_append (h : before.getLast? = some '\r' → after.head? ≠ some '\n') :
    dropReturns (before ++ after) = dropReturns before ++ dropReturns after := by
  induction before with
  | nil => rfl
  | cons c rest ih =>
      cases rest with
      | nil =>
          have hnot : ¬ (c = '\r' ∧ after.head? = some '\n') := fun hreturn => h (by rw [hreturn.1]; rfl) hreturn.2
          rw [List.singleton_append, dropReturns, if_neg hnot]
          simp [dropReturns]
      | cons d others =>
          rw [List.getLast?_cons_cons] at h
          have hhead : (d :: others ++ after).head? = (d :: others).head? := rfl
          rw [List.cons_append, dropReturns, hhead, ih h, dropReturns.eq_2 c (d :: others)]
          split <;> rfl

theorem sublist_dropReturns (text : List Char) : (dropReturns text).Sublist text := by
  induction text with
  | nil => exact .slnil
  | cons c rest ih =>
      rw [dropReturns]
      split
      · exact ih.cons c
      · exact ih.cons_cons c

theorem prefix_lineBreak_iff {rest : List Char} : ['\r', '\n'] <+: c :: rest ↔ c = '\r' ∧ rest.head? = some '\n' := by
  rw [List.cons_prefix_cons]
  cases rest with
  | nil => simp
  | cons d others => simp [eq_comm]

/-- Only line breaks of two characters change. -/
theorem dropReturns_eq_self_iff : dropReturns text = text ↔ ¬ ['\r', '\n'] <:+: text := by
  induction text with
  | nil => exact iff_of_true rfl (by decide)
  | cons c rest ih =>
      rw [dropReturns, List.infix_cons_iff, prefix_lineBreak_iff, not_or]
      split
      next hreturn =>
        refine iff_of_false (fun heq => ?_) fun hnot => hnot.1 hreturn
        have hle := (sublist_dropReturns rest).length_le
        rw [heq, List.length_cons] at hle
        omega
      next hreturn => rw [List.cons_inj_right, ih, and_iff_right hreturn]

theorem prefix_of_prefix_dropReturns (hpattern : '\n' ∉ pattern) (h : pattern <+: dropReturns text) :
    pattern <+: text := by
  induction text generalizing pattern with
  | nil => exact h
  | cons c rest ih =>
      cases pattern with
      | nil => exact List.nil_prefix
      | cons d others =>
          rw [dropReturns] at h
          split at h
          next hreturn =>
            -- the line feed behind the carriage return stays
            obtain ⟨others', hrest⟩ := List.head?_eq_some_iff.mp hreturn.2
            have hfeed : d :: others <+: rest := ih hpattern h
            rw [hrest, List.cons_prefix_cons] at hfeed
            exact absurd (hfeed.1 ▸ List.mem_cons_self) hpattern
          next =>
            obtain ⟨rfl, hothers⟩ := List.cons_prefix_cons.mp h
            exact List.cons_prefix_cons.mpr ⟨rfl, ih (fun hmem => hpattern (List.mem_cons_of_mem _ hmem)) hothers⟩

/-- Without carriage returns no pattern stands in a text that is not in it anyway. -/
theorem infix_of_infix_dropReturns (hpattern : '\n' ∉ pattern) (h : pattern <:+: dropReturns text) :
    pattern <:+: text := by
  induction text with
  | nil => exact h
  | cons c rest ih =>
      have hstep := h
      rw [dropReturns] at hstep
      split at hstep
      · exact List.infix_cons (ih hstep)
      next hreturn =>
        rcases List.infix_cons_iff.mp hstep with hprefix | hrest
        · have hdropped : pattern <+: dropReturns (c :: rest) := by rwa [dropReturns, if_neg hreturn]
          exact (prefix_of_prefix_dropReturns hpattern hdropped).isInfix
        · exact List.infix_cons (ih hrest)

theorem filter_dropReturns (text : List Char) : (dropReturns text).filter (· ≠ '\r') = text.filter (· ≠ '\r') := by
  induction text with
  | nil => rfl
  | cons c rest ih =>
      rw [dropReturns]
      split
      next hreturn => rw [ih, List.filter_cons_of_neg (by simp [hreturn.1])]
      next => rw [List.filter_cons, List.filter_cons, ih]

theorem dropCarriageReturn_cons (c : Char) (line : List Char) : dropCarriageReturn (c :: line)
    = if c = '\r' ∧ line = [] then [] else c :: dropCarriageReturn line := by
  unfold dropCarriageReturn
  cases line with
  | nil => simp
  | cons d rest =>
      rw [List.getLast?_cons_cons, if_neg (c := c = '\r' ∧ _) (by simp)]
      split <;> rfl

theorem head?_eq_lineFeed_iff {first : List Char} {others : List (List Char)} (hsome : text ≠ [])
    (h : pieces (· = '\n') text = first :: others) : text.head? = some '\n' ↔ first = [] := by
  cases text with
  | nil => exact absurd rfl hsome
  | cons c rest =>
      rw [pieces] at h
      split at h
      next hfeed =>
        cases h
        exact iff_of_true (by simpa using hfeed) rfl
      next hfeed =>
        obtain ⟨word, more, hpieces⟩ := exists_pieces (· = '\n') rest
        rw [hpieces] at h
        cases h
        exact iff_of_false (by simpa using hfeed) (List.cons_ne_nil _ _)

theorem head?_ne_lineFeed_of_pieces {last : List Char} (h : pieces (· = '\n') text = [last]) :
    text.head? ≠ some '\n' := by
  intro hhead
  obtain ⟨others, rfl⟩ := List.head?_eq_some_iff.mp hhead
  obtain ⟨first, more, hmore⟩ := exists_pieces (· = '\n') others
  rw [pieces, if_pos (by simp), hmore] at h
  simp at h

/-- The pieces of a text between line feeds, without the carriage returns at their ends, are those of the text
without the carriage returns before line feeds. -/
theorem exists_pieces_dropReturns (text : List Char) : ∃ closed last, pieces (· = '\n') text = closed ++ [last] ∧
    dropReturns text = ['\n'].intercalate (closed.map dropCarriageReturn ++ [last]) ∧
      (last = [] → ∀ c ∈ text.getLast?, c = '\n') := by
  induction text with
  | nil => exact ⟨[], [], rfl, rfl, by simp⟩
  | cons c rest ih =>
      obtain ⟨closed, last, hpieces, hdropped, hlast⟩ := ih
      have hend : last = [] → rest ≠ [] → ∀ d ∈ (c :: rest).getLast?, d = '\n' := by
        intro hempty hsome d hd
        rw [List.getLast?_cons_of_ne_nil hsome] at hd
        exact hlast hempty d hd
      rw [pieces, dropReturns]
      by_cases hfeed : c = '\n'
      · refine ⟨[] :: closed, last, ?_, ?_, ?_⟩
        · rw [if_pos (by simpa using hfeed), hpieces, List.cons_append]
        · rw [if_neg (by simp [hfeed]), hdropped, hfeed]
          cases closed <;> rfl
        · intro hempty
          cases rest with
          | nil => simpa using hfeed
          | cons d others => exact hend hempty (List.cons_ne_nil d others)
      · rw [if_neg (by simpa using hfeed), hpieces]
        cases closed with
        | nil =>
            have hnext : rest.head? ≠ some '\n' := head?_ne_lineFeed_of_pieces hpieces
            refine ⟨[], c :: last, rfl, ?_, by simp⟩
            rw [if_neg fun hreturn => hnext hreturn.2, hdropped]
            simp
        | cons first closed =>
            have hsome : rest ≠ [] := by
              rintro rfl
              simp [pieces] at hpieces
            refine ⟨(c :: first) :: closed, last, rfl, ?_, fun hempty => hend hempty hsome⟩
            have hmore : closed.map dropCarriageReturn ++ [last] ≠ [] := by simp
            rw [List.map_cons, List.cons_append, List.intercalate_cons_of_ne_nil hmore] at hdropped
            rw [List.map_cons, List.cons_append, List.intercalate_cons_of_ne_nil hmore, dropCarriageReturn_cons,
              hdropped]
            simp only [head?_eq_lineFeed_iff hsome hpieces]
            split
            next hreturn => rw [hreturn.2]; rfl
            next => rfl

/-- The lines of a text that does not end with a line feed, put together again. -/
theorem intercalate_lines (h : text.getLast? = some c) (hc : c ≠ '\n') :
    ['\n'].intercalate (lines text) = dropReturns text := by
  obtain ⟨closed, last, hpieces, hdropped, hlast⟩ := exists_pieces_dropReturns text
  have hsome : last ≠ [] := fun hempty => hc (hlast hempty c h)
  have hlines : lines text = closed.map dropCarriageReturn ++ [last] := by
    simp only [lines, hpieces, List.dropLast_concat, List.getLast?_concat]
  rw [hlines, hdropped]

end DropReturns

/-! ## Schemas -/

/-- When each item gives at least one result, the results are those expected exactly if each item gives only its
own. -/
theorem flatMap_eq_map_iff {α β : Type} {items : List α} {read : α → List β} {expected : α → β}
    (hread : ∀ item ∈ items, read item ≠ []) :
    items.flatMap read = items.map expected ↔ ∀ item ∈ items, read item = [expected item] := by
  have hlength (items : List α) (hread : ∀ item ∈ items, read item ≠ []) :
      items.length ≤ (items.flatMap read).length := by
    induction items with
    | nil => simp
    | cons item rest ih =>
        obtain ⟨hitem, hrest⟩ := List.forall_mem_cons.mp hread
        have hle := ih hrest
        have hpos := List.length_pos_iff.mpr hitem
        rw [List.flatMap_cons, List.length_append, List.length_cons]
        omega
  induction items with
  | nil => simp
  | cons item rest ih =>
      obtain ⟨hitem, hrest⟩ := List.forall_mem_cons.mp hread
      rw [List.flatMap_cons, List.map_cons, List.forall_mem_cons]
      constructor
      · intro heq
        obtain ⟨first, others, hfirst⟩ := List.exists_cons_of_ne_nil hitem
        have hothers : others = [] := by
          have hle := hlength rest hrest
          have hsame := congrArg List.length heq
          rw [hfirst, List.length_append, List.length_cons, List.length_cons, List.length_map] at hsame
          exact List.eq_nil_of_length_eq_zero (by omega)
        rw [hfirst, hothers, List.singleton_append] at heq
        obtain ⟨rfl, htail⟩ := List.cons.inj heq
        exact ⟨by rw [hfirst, hothers], (ih hrest).mp htail⟩
      · rintro ⟨hfirst, htail⟩
        rw [hfirst, (ih hrest).mpr htail, List.singleton_append]

namespace Schema

open RawLiteral

variable {schema : Schema} {schemas : List Schema}

/-- The code before the literal of a schema. -/
def front (schema : Schema) : List Char :=
  ("\n// " ++ schema.macroName ++ "\n").toList ++ dropReturns ("const char " ++ schema.variableName ++ "[] = ").toList

/-- The code of a schema up to the end of its literal. -/
def code (schema : Schema) : List Char :=
  schema.front ++ (opening ++ (dropReturns schema.content.toList ++ closing))

/-- A schema that is read back as it is: it has no line break of two characters and nothing that closes a literal,
and no name in front of the literal opens one. -/
structure Embeds (schema : Schema) : Prop where
  front : ¬ opening <:+: schema.front
  lineBreaks : ¬ ['\r', '\n'] <:+: schema.content.toList
  closing : ¬ closing <:+: schema.content.toList

theorem closing_suffix_code (schema : Schema) : RawLiteral.closing <:+ schema.code :=
  ((List.suffix_append _ _).trans (List.suffix_append _ _)).trans (List.suffix_append _ _)

theorem opening_infix_code (schema : Schema) : opening <:+: schema.code :=
  ⟨schema.front, dropReturns schema.content.toList ++ RawLiteral.closing, by simp [code]⟩

theorem dropReturns_definition (schema : Schema) : dropReturns schema.definition.toList
    = dropReturns ("const char " ++ schema.variableName ++ "[] = ").toList
      ++ (opening ++ (dropReturns schema.content.toList ++ (RawLiteral.closing ++ [';']))) := by
  have hparts : schema.definition.toList = ("const char " ++ schema.variableName ++ "[] = ").toList
      ++ (opening ++ (schema.content.toList ++ (RawLiteral.closing ++ [';']))) := by
    simp [definition, opening, RawLiteral.closing, String.toList_append]
  have hopening : dropReturns opening = opening := by decide
  have hclosing : dropReturns (RawLiteral.closing ++ [';']) = RawLiteral.closing ++ [';'] := by decide
  rw [hparts, dropReturns_append fun _ => by simp [opening], dropReturns_append fun hlast => by simp [opening] at hlast,
    dropReturns_append fun _ => by simp [RawLiteral.closing], hopening, hclosing]

/-- The lines of a schema. -/
def definitionLines (schema : Schema) : List String :=
  "" :: ("// " ++ schema.macroName) :: (lines schema.definition.toList).map String.ofList

theorem toList_join_definitionLines (schema : Schema) :
    (join "\n" schema.definitionLines).toList = schema.code ++ [';'] := by
  have hlast : schema.definition.toList.getLast? = some ';' := by
    rw [definition, String.toList_append, List.getLast?_append]
    rfl
  have hlines := intercalate_lines hlast (by decide)
  have hsome : lines schema.definition.toList ≠ [] := by
    intro hempty
    rw [hempty, dropReturns_definition] at hlines
    simp [opening] at hlines
  have hback : (String.toList ∘ String.ofList) = id := funext fun _ => String.toList_ofList
  have hnewline : "\n".toList = ['\n'] := rfl
  rw [join, String.toList_intercalate, definitionLines, List.map_cons, List.map_cons, List.map_map, hback, List.map_id,
    hnewline, List.intercalate_cons_cons, List.intercalate_cons_of_ne_nil hsome, hlines, dropReturns_definition]
  simp [code, front, String.toList_append]

/-- The code of the schemas, each with what ends its definition, with line feeds between them. -/
theorem toList_join_definitions (schemas : List Schema) : (join "\n" (definitions schemas)).toList
    = ['\n'].intercalate (schemas.map fun schema => schema.code ++ [';']) := by
  induction schemas with
  | nil => rfl
  | cons schema rest ih =>
      have hdefinitions : definitions (schema :: rest) = schema.definitionLines ++ definitions rest := List.flatMap_cons
      have hsome : schema.definitionLines ≠ [] := List.cons_ne_nil _ _
      rw [hdefinitions, List.map_cons]
      cases rest with
      | nil =>
          have hnone : definitions [] = [] := rfl
          rw [hnone, List.append_nil, toList_join_definitionLines, List.map_nil, List.intercalate_singleton]
      | cons second others =>
          have hrest : definitions (second :: others) ≠ [] := List.cons_ne_nil _ _
          have hmore : (second :: others).map (fun schema => schema.code ++ [';']) ≠ [] := List.cons_ne_nil _ _
          rw [join, String.intercalate_append_of_ne_nil hsome hrest, String.toList_append, String.toList_append,
            ← join, ← join, toList_join_definitionLines, ih, List.intercalate_cons_of_ne_nil hmore]
          rfl

theorem literals_intercalate_code (schemas : List Schema) :
    literals (['\n'].intercalate (schemas.map fun schema => schema.code ++ [';']))
      = schemas.flatMap fun schema => literals schema.code := by
  have hnil : literals [] = [] := literals_of_not_infix (by decide)
  have hskip (text : List Char) : literals ('\n' :: text) = literals text := by
    have hnone : NoneStarts opening ['\n'] text := ⟨by simp [opening], trivial⟩
    exact literals_append_of_noneStarts hnone
  induction schemas with
  | nil => exact hnil
  | cons schema rest ih =>
      have hcode := literals_append schema.closing_suffix_code
      rw [List.flatMap_cons, ← ih, List.map_cons]
      cases rest with
      | nil => rw [List.map_nil, List.intercalate_singleton, hcode, List.intercalate_nil]
      | cons second others =>
          have hmore : (second :: others).map (fun schema => schema.code ++ [';']) ≠ [] := List.cons_ne_nil _ _
          rw [List.intercalate_cons_of_ne_nil hmore, List.append_assoc, List.append_assoc, List.singleton_append, hcode,
            List.singleton_append, hskip]

theorem literals_code_of_front (hfront : ¬ opening <:+: schema.front)
    (hbody : ¬ RawLiteral.closing <:+: dropReturns schema.content.toList) :
    literals schema.code = [dropReturns schema.content.toList] := by
  have hnil : literals [] = [] := literals_of_not_infix (by decide)
  have hread := literals_append_literal hfront hbody []
  rwa [List.append_nil, hnil] at hread

/-- A name that opens a literal is read as one, or as a part of one. -/
theorem literals_code_ne_of_front (hfront : opening <:+: schema.front)
    (hbody : ¬ RawLiteral.closing <:+: dropReturns schema.content.toList) :
    literals schema.code ≠ [schema.content.toList] := by
  obtain ⟨before, name, heq, hbefore⟩ := exists_first (by decide) hfront
  by_cases hname : RawLiteral.closing <:+: name
  -- the name has a literal of its own
  · obtain ⟨literal, rest, rfl, hliteral⟩ := exists_first (by decide) hname
    have hcode : schema.code = before ++ (opening ++ (literal ++ (RawLiteral.closing ++
        (rest ++ (opening ++ (dropReturns schema.content.toList ++ RawLiteral.closing)))))) := by
      simp only [code, heq, List.append_assoc]
    have hmore : literals (rest ++ (opening ++ (dropReturns schema.content.toList ++ RawLiteral.closing))) ≠ [] :=
      literals_ne_nil (((List.suffix_append _ _).trans (List.suffix_append _ _)).trans (List.suffix_append _ _))
        ⟨rest, dropReturns schema.content.toList ++ RawLiteral.closing, by simp⟩
    rw [hcode, literals_append_literal hbefore hliteral]
    exact fun hread => hmore (List.cons.inj hread).2
  -- the literal goes on from the name to the end of the content
  · have hliteral : ¬ RawLiteral.closing <:+: name ++ (opening ++ dropReturns schema.content.toList) := by
      intro hinfix
      rcases (infix_append_cons_iff (c := 'R') (by decide)).mp hinfix with hinfix | hinfix
      · exact hname hinfix
      · have hsplit : RawLiteral.closing <:+: "\"raw".toList ++ '(' :: dropReturns schema.content.toList := hinfix
        rcases (infix_append_cons_iff (by decide)).mp hsplit with hinfix | hinfix
        · revert hinfix
          decide
        · exact hbody hinfix
    have hcode : schema.code = before ++ (opening ++
        ((name ++ (opening ++ dropReturns schema.content.toList)) ++ (RawLiteral.closing ++ []))) := by
      simp only [code, heq, List.append_assoc, List.append_nil]
    rw [hcode, literals_append_literal hbefore hliteral]
    intro hread
    have hlength := congrArg (fun text => (text.filter (· ≠ '\r')).length) (List.cons.inj hread).1
    have hopening : (opening.filter (· ≠ '\r')).length = 6 := by decide
    simp only [List.filter_append, filter_dropReturns, List.length_append, hopening] at hlength
    omega

/-- The content of a schema is read back, and nothing else, exactly if it is embedded as it is. -/
theorem literals_code_iff : literals schema.code = [schema.content.toList] ↔ schema.Embeds := by
  constructor
  · intro h
    have hclosing : ¬ RawLiteral.closing <:+: schema.content.toList := by
      rcases cases_of_suffix schema.closing_suffix_code with hnot | ⟨before, literal, rest, hcode, hbefore, hliteral, -⟩
      · exact absurd schema.opening_infix_code hnot
      · rw [hcode, literals_append_literal hbefore hliteral] at h
        rwa [← (List.cons.inj h).1]
    have hbody : ¬ RawLiteral.closing <:+: dropReturns schema.content.toList :=
      fun hinfix => hclosing (infix_of_infix_dropReturns (by decide) hinfix)
    have hfront : ¬ opening <:+: schema.front := fun hinfix => literals_code_ne_of_front hinfix hbody h
    rw [literals_code_of_front hfront hbody] at h
    exact ⟨hfront, dropReturns_eq_self_iff.mp (List.cons.inj h).1, hclosing⟩
  · intro h
    have hsame := dropReturns_eq_self_iff.mpr h.lineBreaks
    rw [literals_code_of_front h.front (hsame.symm ▸ h.closing), hsame]

/-- The second block of the file with the schemas has a definition for each of them, in order. The literals are
those of the contents exactly if no content has a line break of two characters or what closes a literal, and no
code in front of a literal opens one. -/
theorem literals_definitions_iff (interface : Interface) (schemas : List Schema) :
    Sheet.ofBlocks "yogi-core/src/schemas/schemas.cc" (.ok [cases schemas, definitions schemas])
        ∈ CoreLibrary.sheets interface schemas ∧
      (join "\n" (definitions schemas)).toList
        = ['\n'].intercalate (schemas.map fun schema => schema.code ++ [';']) ∧
      (literals (join "\n" (definitions schemas)).toList = schemas.map (fun schema => schema.content.toList) ↔
        ∀ schema ∈ schemas, schema.Embeds) := by
  refine ⟨?_, toList_join_definitions schemas, ?_⟩
  · simp [CoreLibrary.sheets, CoreLibrary.schemaFolder, CoreLibrary.folder]
  have hsome : ∀ schema ∈ schemas, literals schema.code ≠ [] := fun schema _ =>
    literals_ne_nil schema.closing_suffix_code schema.opening_infix_code
  rw [toList_join_definitions, literals_intercalate_code, flatMap_eq_map_iff hsome]
  exact forall₂_congr fun schema _ => literals_code_iff

theorem front_ofFile (content : String) :
    (ofFile "a.schema.json" content).front = "\n// YOGI_SCM_A\nconst char kA[] = ".toList := by
  have hname : (ofFile "a.schema.json" content).name = "a" := rfl
  have hlabel : (ofFile "a.schema.json" content).macroName = "YOGI_SCM_A" := by
    rw [macroName, hname]
    decide
  have hvariable : (ofFile "a.schema.json" content).variableName = "kA" := by
    rw [variableName, hname]
    decide
  have hdeclaration : dropReturns ("const char " ++ "kA" ++ "[] = ").toList = "const char kA[] = ".toList := by
    simp [dropReturns]
  rw [front, hlabel, hvariable, hdeclaration]
  simp

/-- A line break of two characters loses its carriage return, and what closes a literal cuts a content off. -/
theorem literals_definitions_lossy :
    literals (join "\n" (definitions [ofFile "a.schema.json" "x\r\ny"])).toList = ["x\ny".toList] ∧
      literals (join "\n" (definitions [ofFile "a.schema.json" "x)raw\"y"])).toList = ["x".toList] := by
  have hread (content : String) : literals (join "\n" (definitions [ofFile "a.schema.json" content])).toList
      = literals (ofFile "a.schema.json" content).code := by
    rw [toList_join_definitions, literals_intercalate_code, List.flatMap_cons, List.flatMap_nil, List.append_nil]
  have hfront (content : String) : ¬ opening <:+: (ofFile "a.schema.json" content).front := by
    have hchars : "\n// YOGI_SCM_A\nconst char kA[] = ".toList = _ := String.toList_ofList
    rw [front_ofFile, hchars]
    decide
  constructor
  · have hbody : dropReturns (ofFile "a.schema.json" "x\r\ny").content.toList = ['x', '\n', 'y'] := by
      simp [ofFile, dropReturns]
    have hclosing : ¬ RawLiteral.closing <:+: ['x', '\n', 'y'] := by decide
    rw [← hbody] at hclosing
    rw [hread, literals_code_of_front (hfront _) hclosing, hbody]
    rfl
  · have hbody : dropReturns (ofFile "a.schema.json" "x)raw\"y").content.toList
        = ['x'] ++ (RawLiteral.closing ++ ['y']) := by
      simp [ofFile, dropReturns, RawLiteral.closing]
    rw [hread, code, hbody, List.append_assoc, List.append_assoc, literals_append_literal (hfront _) (by decide),
      literals_of_not_infix (by decide)]
    rfl

end Schema

end Bindery
