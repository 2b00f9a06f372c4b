import Bindery.Proofs.Layout
import Mathlib.Data.List.DropRight

/-!
# Lines of code

What is left of a text in C once it is read without its comments: a backslash at the end of a line joins the
line with the next one, a comment goes up to the end of its line, and lines with nothing but spaces are left
out. A line that ends in a backslash within a comment takes the next line into the comment.
-/

namespace Bindery.Code

open Text

/-- The text without the backslashes that stand before a line feed, and without those line feeds. -/
def spliced : List Char → List Char
  | '\\' :: '\n' :: rest => spliced rest
  | c :: rest => c :: spliced rest
  | [] => []

/-- The part of a line before its comment. -/
def beforeComment : List Char → List Char
  | '/' :: '/' :: _ => []
  | c :: rest => c :: beforeComment rest
  | [] => []

/-- The code of a line, without the spaces behind it. -/
def code (line : List Char) : List Char := (beforeComment line).rdropWhile (· = ' ')

/-- The code of a line that has any. -/
def code? (line : List Char) : Option (List Char) := if code line = [] then none else some (code line)

/-- The code of the lines of a text, none of which is joined with the next one. -/
def codeIn (text : List Char) : List (List Char) := (pieces (· = '\n') text).filterMap code?

/-- The lines of code of a text. -/
def codeLines (text : List Char) : List (List Char) := codeIn (spliced text)

/-- Whether a line is joined with the next one. -/
def isOpen (line : List Char) : Bool := line.getLast? = some '\\'

variable {text front back line row : List Char} {c : Char}

/-! ## Joining lines -/

theorem spliced_cons (h : ¬ (c = '\\' ∧ text.head? = some '\n')) : spliced (c :: text) = c :: spliced text := by
  rw [spliced]
  rintro rest rfl rfl
  exact h ⟨rfl, rfl⟩

theorem isOpen_cons (h : text ≠ []) : isOpen (c :: text) = isOpen text := by
  obtain ⟨d, rest, rfl⟩ := List.exists_cons_of_ne_nil h
  rw [isOpen, isOpen, List.getLast?_cons_cons]

theorem isOpen_append (h : back ≠ []) : isOpen (front ++ back) = isOpen back := by
  rw [isOpen, isOpen, List.getLast?_append, List.getLast?_eq_some_getLast h, Option.some_or]

/-- Texts are read apart, unless a backslash ends the first one and a line feed follows it. -/
theorem spliced_append (h : isOpen front = false ∨ back.head? ≠ some '\n') :
    spliced (front ++ back) = spliced front ++ spliced back := by
  induction front using spliced.induct with
  | case1 rest ih =>
      rw [List.cons_append, List.cons_append, spliced, spliced]
      refine ih (h.imp_left fun hclosed => ?_)
      cases rest with
      | nil => rfl
      | cons d others => rwa [isOpen_cons (by simp), isOpen_cons (by simp)] at hclosed
  | case2 c rest hpair ih =>
      have hfront : ¬ (c = '\\' ∧ rest.head? = some '\n') := by
        rintro ⟨rfl, hhead⟩
        obtain ⟨others, rfl⟩ := List.head?_eq_some_iff.mp hhead
        exact hpair others rfl rfl
      cases rest with
      | nil =>
          have hback : ¬ (c = '\\' ∧ back.head? = some '\n') := by
            rintro ⟨rfl, hhead⟩
            exact h.elim (fun hclosed => by cases hclosed) (fun hne => hne hhead)
          rw [List.singleton_append, spliced_cons hback, spliced_cons hfront]
          rfl
      | cons d others =>
          rw [isOpen_cons (by simp)] at h
          rw [List.cons_append, spliced_cons (by exact hfront), ih h, spliced_cons hfront, List.cons_append]
  | case3 => rfl

theorem spliced_of_line (h : '\n' ∉ line) : spliced line = line := by
  induction line with
  | nil => rfl
  | cons c rest ih =>
      rw [List.mem_cons, not_or] at h
      have hpair : ¬ (c = '\\' ∧ rest.head? = some '\n') := fun hboth => h.2 (List.mem_of_head? hboth.2)
      rw [spliced_cons hpair, ih h.2]

theorem codeIn_append : codeIn (front ++ '\n' :: back) = codeIn front ++ codeIn back := by
  unfold codeIn
  rw [pieces_eq_splitOnP, List.splitOnP_append_cons _ _ (by simp), List.filterMap_append, pieces_eq_splitOnP,
    pieces_eq_splitOnP]

theorem codeIn_of_line (h : '\n' ∉ line) : codeIn line = (code? line).toList := by
  have hline : ∀ c ∈ line, decide (c = '\n') = false := fun c hc => decide_eq_false fun heq => h (heq ▸ hc)
  rw [codeIn, pieces_eq_splitOnP, List.splitOnP_eq_singleton hline]
  cases hcode : code? line <;> simp [hcode]

/-- A line that does not end in a backslash ends there. -/
theorem codeLines_append (h : isOpen front = false) :
    codeLines (front ++ '\n' :: back) = codeLines front ++ codeLines back := by
  have hbreak : spliced ('\n' :: back) = '\n' :: spliced back := spliced_cons fun hpair => by cases hpair.1
  rw [codeLines, spliced_append (.inl h), hbreak, codeIn_append]
  rfl

theorem codeLines_intercalate_cons (h : isOpen front = false) (rows : List (List Char)) :
    codeLines (['\n'].intercalate (front :: rows)) = codeLines front ++ codeLines (['\n'].intercalate rows) := by
  cases rows with
  | nil =>
      rw [List.intercalate_singleton]
      exact (List.append_nil _).symm
  | cons next others =>
      rw [List.intercalate_cons_cons, List.append_assoc, List.singleton_append, codeLines_append h]

theorem codeLines_of_line (h : '\n' ∉ line) : codeLines line = (code? line).toList := by
  rw [codeLines, spliced_of_line h, codeIn_of_line h]

/-! ## Comments -/

theorem beforeComment_cons (h : ¬ ['/', '/'] <+: c :: text) : beforeComment (c :: text) = c :: beforeComment text := by
  rw [beforeComment]
  rintro rest rfl rfl
  exact h ⟨rest, rfl⟩

/-- What stands behind the start of a comment is no code. -/
theorem beforeComment_append (h : ['/', '/'] <:+: front) : beforeComment (front ++ back) = beforeComment front := by
  induction front with
  | nil => exact absurd h (by simp)
  | cons c rest ih =>
      by_cases hprefix : ['/', '/'] <+: c :: rest
      · obtain ⟨others, hothers⟩ := hprefix
        rw [← hothers]
        rfl
      · have hrest : ['/', '/'] <:+: rest := (List.infix_cons_iff.mp h).resolve_left hprefix
        have hlonger : ¬ ['/', '/'] <+: c :: (rest ++ back) := by
          cases rest with
          | nil => exact absurd hrest (by simp)
          | cons d others => simpa [List.cons_prefix_cons] using hprefix
        rw [List.cons_append, beforeComment_cons hlonger, beforeComment_cons hprefix, ih hrest]

theorem beforeComment_of_not_mem (h : '/' ∉ front) (back : List Char) :
    beforeComment (front ++ back) = front ++ beforeComment back := by
  induction front with
  | nil => rfl
  | cons c rest ih =>
      rw [List.mem_cons, not_or] at h
      have hprefix : ¬ ['/', '/'] <+: c :: (rest ++ back) := fun hprefix =>
        h.1 (List.cons_prefix_cons.mp hprefix).1
      rw [List.cons_append, beforeComment_cons hprefix, ih h.2, List.cons_append]

theorem code?_append (h : ['/', '/'] <:+: front) : code? (front ++ back) = code? front := by
  rw [code?, code?, code, code, beforeComment_append h]

theorem pieces_append_of_line (h : '\n' ∉ line) :
    pieces (· = '\n') (line ++ text) = (pieces (· = '\n') text).modifyHead (line ++ ·) := by
  induction line with
  | nil =>
      obtain ⟨first, rest, hpieces⟩ := exists_pieces (· = '\n') text
      rw [List.nil_append, hpieces]
      rfl
  | cons c others ih =>
      rw [List.mem_cons, not_or] at h
      rw [List.cons_append, pieces, if_neg (by simpa using Ne.symm h.1), ih h.2, List.modifyHead_modifyHead]
      rfl

/-- Behind a comment, the rest of its line is left out and the lines that follow are read as they are. -/
theorem codeIn_comment (hline : '\n' ∉ front) (h : ['/', '/'] <:+: front) :
    codeIn (front ++ text) = (code? front).toList ++ codeIn ('/' :: '/' :: text) := by
  obtain ⟨first, rest, hpieces⟩ := exists_pieces (· = '\n') text
  have hmark : pieces (· = '\n') (['/', '/'] ++ text) = ('/' :: '/' :: first) :: rest := by
    rw [pieces_append_of_line (by decide), hpieces]
    rfl
  have hempty : code? ('/' :: '/' :: first) = none := rfl
  rw [codeIn, pieces_append_of_line hline, hpieces, List.modifyHead_cons, codeIn]
  change _ = _ ++ (pieces (· = '\n') (['/', '/'] ++ text)).filterMap code?
  rw [hmark, List.filterMap_cons_none hempty, List.filterMap_cons, code?_append h]
  cases code? front <;> rfl

/-! ## Rows -/

/-- A line that ends in a backslash only within a comment. -/
structure IsRow (row : List Char) : Prop where
  line : '\n' ∉ row
  comment : isOpen row = true → ['/', '/'] <:+: row

/-- A row is read by itself, but takes the next line into its comment when a backslash ends it. -/
theorem codeLines_row (h : IsRow row) (text : List Char) : codeLines (row ++ '\n' :: text)
    = (code? row).toList ++ codeLines (if isOpen row then '/' :: '/' :: text else text) := by
  cases hopen : isOpen row with
  | false => rw [codeLines_append hopen, codeLines_of_line h.line, if_neg (by simp)]
  | true =>
      have hcomment := h.comment hopen
      have hline := h.line
      obtain ⟨front, rfl⟩ := List.getLast?_eq_some_iff.mp (of_decide_eq_true hopen)
      have hfront : ['/', '/'] <:+: front := by
        refine (List.infix_concat_iff.mp hcomment).resolve_left fun hsuffix => ?_
        have hlast := hsuffix.getLast (by simp)
        simp at hlast
      have hshort : '\n' ∉ front := fun hmem => hline (List.mem_append_left _ hmem)
      have hmark : spliced ('/' :: '/' :: text) = '/' :: '/' :: spliced text := by
        rw [spliced_cons (by simp), spliced_cons (by simp)]
      have hjoin : spliced (front ++ '\\' :: '\n' :: text) = front ++ spliced text := by
        rw [spliced_append (.inr (by simp)), spliced_of_line hshort, spliced]
      rw [if_pos rfl, codeLines, List.append_assoc, List.singleton_append, hjoin,
        codeIn_comment hshort hfront, codeLines, hmark, code?_append hfront]

/-- The code of rows, each of which is left out when the one before it is open. -/
def surviving : Bool → List (List Char) → List (List Char)
  | _, [] => []
  | behind, row :: rest => (if behind then none else code? row).toList ++ surviving (isOpen row) rest

theorem IsRow.comment_append (h : IsRow row) : IsRow ('/' :: '/' :: row) where
  line := by simpa using h.line
  comment _ := ⟨[], row, rfl⟩

theorem isOpen_comment (row : List Char) : isOpen ('/' :: '/' :: row) = isOpen row := by
  cases row with
  | nil => rfl
  | cons c rest => rw [isOpen_cons (by simp), isOpen_cons (by simp)]

theorem codeLines_rows {rows : List (List Char)} (h : ∀ row ∈ rows, IsRow row) :
    codeLines (['\n'].intercalate rows) = surviving false rows ∧
      codeLines ('/' :: '/' :: ['\n'].intercalate rows) = surviving true rows := by
  induction rows with
  | nil => exact ⟨rfl, rfl⟩
  | cons row rest ih =>
      obtain ⟨hrow, hrest⟩ := List.forall_mem_cons.mp h
      have hnone : code? ('/' :: '/' :: row) = none := rfl
      cases rest with
      | nil =>
          rw [List.intercalate_singleton, codeLines_of_line hrow.line, codeLines_of_line hrow.comment_append.line,
            hnone]
          exact ⟨(List.append_nil _).symm, rfl⟩
      | cons next others =>
          have hnext := ih hrest
          have hbehind : codeLines (if isOpen row then '/' :: '/' :: ['\n'].intercalate (next :: others)
              else ['\n'].intercalate (next :: others)) = surviving (isOpen row) (next :: others) := by
            cases isOpen row with
            | false => exact hnext.1
            | true => exact hnext.2
          have hmarked := codeLines_row hrow.comment_append (['\n'].intercalate (next :: others))
          rw [hnone, isOpen_comment, hbehind] at hmarked
          rw [List.intercalate_cons_cons, List.append_assoc, List.singleton_append, codeLines_row hrow, hbehind]
          exact ⟨rfl, hmarked⟩

theorem sublist_surviving (behind : Bool) (rows : List (List Char)) :
    List.Sublist (surviving behind rows) (rows.filterMap code?) := by
  induction rows generalizing behind with
  | nil => exact List.Sublist.refl _
  | cons row rest ih =>
      have hrest := ih (isOpen row)
      rw [surviving]
      cases hcode : code? row with
      | none =>
          rw [List.filterMap_cons_none hcode]
          cases behind <;> exact hrest
      | some line =>
          rw [List.filterMap_cons_some hcode]
          cases behind with
          | false => exact hrest.cons_cons line
          | true => exact hrest.cons line

theorem surviving_cons_eq_iff {behind : Bool} {rest : List (List Char)} :
    surviving behind (row :: rest) = (row :: rest).filterMap code? ↔
      (behind = true → code? row = none) ∧ surviving (isOpen row) rest = rest.filterMap code? := by
  rw [surviving]
  cases hcode : code? row with
  | none =>
      rw [List.filterMap_cons_none hcode]
      cases behind <;> simp
  | some line =>
      rw [List.filterMap_cons_some hcode]
      cases behind with
      | false => simp
      | true =>
          -- one line fewer is left than there are
          refine iff_of_false (fun heq => ?_) (fun h => by cases h.1 rfl)
          have hlength := congrArg List.length heq
          have hle := (sublist_surviving (isOpen row) rest).length_le
          simp at hlength
          omega

/-- No line of code is left out exactly if no open row stands before one with code. -/
theorem surviving_eq_iff (behind : Bool) (rows : List (List Char)) :
    surviving behind rows = rows.filterMap code? ↔
      (behind = true → ∀ row ∈ rows.head?, code? row = none) ∧
      rows.IsChain fun row next => isOpen row = true → code? next = none := by
  induction rows generalizing behind with
  | nil => simp [surviving]
  | cons row rest ih =>
      rw [surviving_cons_eq_iff, ih]
      cases rest with
      | nil => simp
      | cons next others => simp

/-! ## Lines behind a comment -/

/-- A line of code from its first to its last character. -/
structure IsDirective (line : List Char) : Prop where
  lineFeed_not_mem : '\n' ∉ line
  slash_not_mem : '/' ∉ line
  head : line.head? = some '#'
  last : ∀ c ∈ line.getLast?, c ≠ ' ' ∧ c ≠ '\\'

namespace IsDirective

theorem isOpen (h : IsDirective line) : isOpen line = false :=
  decide_eq_false fun hlast => (h.last _ hlast).2 rfl

theorem ne_nil (h : IsDirective line) : line ≠ [] := by
  rintro rfl
  cases h.head

theorem code (h : IsDirective line) : code line = line := by
  have hplain : beforeComment line = line := by
    have happend := beforeComment_of_not_mem h.slash_not_mem []
    rwa [List.append_nil, beforeComment, List.append_nil] at happend
  rw [Code.code, hplain, List.rdropWhile_eq_self_iff]
  intro hsome
  simpa using (h.last _ (List.getLast?_eq_some_getLast hsome)).1

theorem code?_eq (h : IsDirective line) : code? line = some line := by
  rw [code?, h.code, if_neg h.ne_nil]

/-- Behind the start of a line that has no code yet, a line of code is lost or begins with a space. -/
theorem code_append_ne (h : IsDirective line) (hsome : front ≠ []) (hempty : Code.code front = []) :
    Code.code (front ++ line) ≠ line := by
  by_cases hcomment : ['/', '/'] <+: front
  · rw [Code.code, beforeComment_append hcomment.isInfix]
    rw [Code.code] at hempty
    rw [hempty]
    exact h.ne_nil.symm
  · obtain ⟨c, rest, rfl⟩ := List.exists_cons_of_ne_nil hsome
    rw [Code.code, beforeComment_cons hcomment, List.rdropWhile_eq_nil_iff] at hempty
    have hc : c = ' ' := by simpa using hempty c List.mem_cons_self
    have hprefix : ¬ ['/', '/'] <+: c :: (rest ++ line) := by
      intro hprefix
      rw [hc] at hprefix
      cases (List.cons_prefix_cons.mp hprefix).1
    rw [Code.code, List.cons_append, beforeComment_cons hprefix]
    intro heq
    obtain ⟨others, hothers⟩ := List.rdropWhile_prefix (fun c => decide (c = ' ')) (c :: beforeComment (rest ++ line))
    have hhead := h.head
    rw [heq] at hothers
    obtain ⟨tail, rfl⟩ := List.head?_eq_some_iff.mp hhead
    cases (List.cons.inj hothers).1.trans hc

end IsDirective

theorem toList_code?_eq_nil_iff : (code? line).toList = [] ↔ code line = [] := by
  rw [code?]
  split <;> simp_all

theorem codeIn_behind (hempty : codeIn text = []) (h : IsDirective line) :
    (codeIn (text ++ line)).length ≤ 1 ∧ (codeIn (text ++ line) = [line] ↔ EndsLine text) := by
  obtain ⟨front, start, rfl, hfront, hstart⟩ := exists_endsLine_append text
  have hboth (tail : List Char) : codeIn (front ++ tail) = codeIn front ++ codeIn tail := by
    rcases hfront with rfl | hbreak
    · rfl
    · obtain ⟨others, rfl⟩ := List.getLast?_eq_some_iff.mp hbreak
      have hothers : codeIn (others ++ ['\n']) = codeIn others ++ [] := codeIn_append
      rw [hothers, List.append_nil, List.append_assoc, List.singleton_append, codeIn_append]
  have hends : EndsLine (front ++ start) ↔ start = [] := by
    constructor
    · intro hlast
      by_contra hsome
      have hget : (front ++ start).getLast? = some (start.getLast hsome) := by
        rw [List.getLast?_append, List.getLast?_eq_some_getLast hsome, Option.some_or]
      have hbreak := hlast.resolve_left (by simp [hsome])
      rw [hget] at hbreak
      exact hstart (Option.some.inj hbreak ▸ List.getLast_mem hsome)
    · rintro rfl
      rwa [List.append_nil]
  have hline : '\n' ∉ start ++ line := by simp [hstart, h.lineFeed_not_mem]
  rw [hboth, List.append_eq_nil_iff, codeIn_of_line hstart, toList_code?_eq_nil_iff] at hempty
  rw [hends, List.append_assoc, hboth, hempty.1, List.nil_append, codeIn_of_line hline]
  refine ⟨by cases code? (start ++ line) <;> simp, fun heq => ?_, fun heq => ?_⟩
  · by_contra hsome
    refine h.code_append_ne hsome hempty.2 ?_
    rw [code?] at heq
    split at heq
    · cases heq
    · exact (List.cons.inj heq).1
  · rw [heq, List.nil_append, h.code?_eq]
    rfl

/-- A line of code behind a text without any is read by itself exactly if the text ends a line, and never
comes with another one. -/
theorem codeLines_behind (hempty : codeLines (text ++ ['\n']) = []) (h : IsDirective line) :
    (codeLines (text ++ '\n' :: line)).length ≤ 1 ∧
      (codeLines (text ++ '\n' :: line) = [line] ↔ EndsLine (spliced (text ++ ['\n']))) := by
  have hclosed : isOpen (text ++ ['\n']) = false := by simp [isOpen]
  have hsplit : codeLines (text ++ '\n' :: line) = codeIn (spliced (text ++ ['\n']) ++ line) := by
    have happend : spliced (text ++ ['\n'] ++ line) = spliced (text ++ ['\n']) ++ spliced line :=
      spliced_append (.inl hclosed)
    rw [spliced_of_line h.lineFeed_not_mem, List.append_assoc, List.singleton_append] at happend
    rw [codeLines, happend]
  rw [hsplit]
  exact codeIn_behind hempty h

end Bindery.Code
