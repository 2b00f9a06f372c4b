import Bindery.Proofs.Declarations
import Bindery.Proofs.Scanners
import Bindery.Text.Quoted
import Bindery.Toml.Number

/-!
# String literals of C

The text of a string literal is read from what stands between its quotes, by the rules of C for escapes. An
escaped text is read back as it was, unless it has a line feed: that one stays as it is, and no literal goes
on behind the end of a line.
-/

namespace Bindery

/-- Whether each quote in the text between the quotes of a literal stands behind a backslash of its own. -/
def quotesEscaped (quote : Char) : List Char → Bool
  | [] => true
  | '\\' :: _ :: rest => quotesEscaped quote rest
  | c :: rest => c ≠ quote && quotesEscaped quote rest

theorem quotesEscaped_cons {quote c : Char} (hquote : c ≠ quote) (hbackslash : c ≠ '\\') (rest : List Char) :
    quotesEscaped quote (c :: rest) = quotesEscaped quote rest := by
  rw [quotesEscaped]
  · simp [hquote]
  · intro _ _ heq
    exact absurd heq hbackslash

/-- No quote is left without a backslash where quotes and backslashes are escaped. -/
theorem quotesEscaped_flatMap {quote : Char} {escape : Char → List Char}
    (h : ∀ c, (∃ sign, escape c = ['\\', sign]) ∨ escape c = [c] ∧ c ≠ quote ∧ c ≠ '\\') (text : List Char) :
    quotesEscaped quote (text.flatMap escape) = true := by
  induction text with
  | nil => rfl
  | cons c rest ih =>
      rw [List.flatMap_cons]
      rcases h c with ⟨sign, hescape⟩ | ⟨hescape, hquote, hbackslash⟩
      · rw [hescape]
        exact ih
      · rw [hescape, List.singleton_append, quotesEscaped_cons hquote hbackslash]
        exact ih

end Bindery

namespace Bindery.Literal

open Text Declaration

/-- Where a reader is between the quotes of a literal. -/
inductive State where
  | plain
  /-- behind a backslash -/
  | escape
  /-- behind octal digits of an escape: how many more may follow, and the number so far -/
  | octal (more number : Nat)
  /-- behind `\x` and its digits so far, with their number; at first there is none -/
  | hexadecimal (number? : Option Nat)
  /-- behind `\u` or `\U` and its digits so far: how many are missing, and the number so far -/
  | universal (missing number : Nat)
deriving DecidableEq, Repr

/-- The character that a backslash and one more character stand for. -/
def simpleEscape? : Char → Option Char
  | '\'' => some '\''
  | '"' => some '"'
  | '?' => some '?'
  | '\\' => some '\\'
  | 'a' => some '\x07'
  | 'b' => some '\x08'
  | 'f' => some '\x0c'
  | 'n' => some '\n'
  | 'r' => some '\r'
  | 't' => some '\t'
  | 'v' => some '\x0b'
  | _ => none

/-- The value of a digit of a base up to sixteen. -/
def digit? (base : Nat) (c : Char) : Option Nat := (Toml.hexValue? c).filter (· < base)

/-- The step outside of escapes. A quote would end the literal, and a line feed the line. -/
def plainStep (c : Char) : Option (List Char × State) :=
  if c = '"' ∨ c = '\n' then none
  else if c = '\\' then some ([], .escape)
  else some ([c], .plain)

/-- The step behind a backslash. -/
def escapeStep (c : Char) : Option (List Char × State) :=
  match simpleEscape? c, digit? 8 c with
  | some meant, _ => some ([meant], .plain)
  | none, some digit => some ([], .octal 2 digit)
  | none, none =>
      if c = 'x' then some ([], .hexadecimal none)
      else if c = 'u' then some ([], .universal 4 0)
      else if c = 'U' then some ([], .universal 8 0)
      else none

/-- The step behind an escape with a number of digits that is not fixed. -/
def endedStep (number : Nat) (c : Char) : Option (List Char × State) :=
  (plainStep c).map fun (written, next) => (Char.ofNat number :: written, next)

def State.step : State → Char → Option (List Char × State)
  | .plain, c => plainStep c
  | .escape, c => escapeStep c
  | .octal more number, c =>
      match more, digit? 8 c with
      | more + 1, some digit => some ([], .octal more (8 * number + digit))
      | _, _ => endedStep number c
  | .hexadecimal number?, c =>
      match digit? 16 c with
      | some digit => some ([], .hexadecimal (some (16 * number?.getD 0 + digit)))
      | none => number?.bind (endedStep · c)
  | .universal missing number, c =>
      (digit? 16 c).map fun digit =>
        if missing = 1 then ([Char.ofNat (16 * number + digit)], .plain)
        else ([], .universal (missing - 1) (16 * number + digit))

def State.finish : State → Option (List Char)
  | .plain => some []
  | .octal _ number => some [Char.ofNat number]
  | .hexadecimal number? => number?.map ([Char.ofNat ·])
  | .escape | .universal _ _ => none

def scanner : Scanner State Char := ⟨State.step, State.finish⟩

/-- The text of a literal with the given characters between its quotes. -/
def textOf? (inside : List Char) : Option (List Char) := scanner.run .plain inside

/-- The text of a literal. -/
def read? (literal : String) : Option (List Char) :=
  (between? "\"" "\"" literal.toList).bind fun inside => textOf? inside.toList

variable {text : List Char} {c : Char}

theorem step_plain (hquote : c ≠ '"') (hbreak : c ≠ '\n') (hbackslash : c ≠ '\\') :
    scanner.step .plain c = some ([c], .plain) := by
  change plainStep c = _
  simp [plainStep, hquote, hbreak, hbackslash]

theorem reads_escapeChar (hc : c ≠ '\n') : scanner.Reads .plain (escapeChar c) [c] .plain := by
  have hescape (meant sign : Char) (h : simpleEscape? sign = some meant) :
      scanner.Reads .plain ['\\', sign] [meant] .plain := by
    have hback : scanner.step .plain '\\' = some ([], .escape) := rfl
    have hsign : scanner.step .escape sign = some ([meant], .plain) := by
      change escapeStep sign = _
      simp [escapeStep, h]
    exact .cons hback (.single hsign)
  unfold escapeChar
  split
  · exact hescape _ _ rfl
  · exact hescape _ _ rfl
  · exact hescape _ _ rfl
  next hbackslash hquote _ => exact .single (step_plain hquote hc hbackslash)

theorem reads_flatMap_escapeChar (h : '\n' ∉ text) :
    scanner.Reads .plain (text.flatMap escapeChar) text .plain := by
  induction text with
  | nil => exact .nil _
  | cons c rest ih =>
      rw [List.mem_cons, not_or] at h
      exact (reads_escapeChar (Ne.symm h.1)).append (ih h.2)

theorem textOf?_flatMap_escapeChar (h : '\n' ∉ text) : textOf? (text.flatMap escapeChar) = some text := by
  have hread : scanner.run .plain (text.flatMap escapeChar) = some (text ++ []) :=
    (reads_flatMap_escapeChar h).run_eq_some rfl
  rwa [List.append_nil] at hread

/-- An escaped text with a line feed is read up to there, and no further. -/
theorem textOf?_flatMap_escapeChar_eq_none (h : '\n' ∈ text) : textOf? (text.flatMap escapeChar) = none := by
  obtain ⟨front, back, rfl, hfront⟩ := List.eq_append_cons_of_mem h
  have hbreak : scanner.step .plain '\n' = none := rfl
  have hlast : escapeChar '\n' = ['\n'] := rfl
  rw [textOf?, List.flatMap_append, List.flatMap_cons, (reads_flatMap_escapeChar hfront).run_append, hlast,
    List.singleton_append, Scanner.run_cons_eq_none hbreak, Option.map_none]

theorem textOf?_escape_iff (text : String) :
    textOf? (escape text).toList = some text.toList ↔ '\n' ∉ text.toList := by
  rw [escape, String.toList_ofList]
  constructor
  · intro h hbreak
    rw [textOf?_flatMap_escapeChar_eq_none hbreak] at h
    cases h
  · exact textOf?_flatMap_escapeChar

theorem read?_quoted (inside : String) : read? ("\"" ++ inside ++ "\"") = textOf? inside.toList := by
  rw [read?, between?_append, Option.bind_some]

theorem read?_cQuoted {text : String} (h : '\n' ∉ text.toList) : read? (cQuoted text) = some text.toList := by
  rw [cQuoted, read?_quoted]
  exact (textOf?_escape_iff text).mpr h

theorem read?_cQuoted_eq_none {text : String} (h : '\n' ∈ text.toList) : read? (cQuoted text) = none := by
  rw [cQuoted, read?_quoted, escape, String.toList_ofList]
  exact textOf?_flatMap_escapeChar_eq_none h

theorem quotesEscaped_flatMap_escapeChar (text : List Char) :
    quotesEscaped '"' (text.flatMap escapeChar) = true := by
  refine quotesEscaped_flatMap (fun c => ?_) text
  unfold escapeChar
  split
  · exact .inl ⟨_, rfl⟩
  · exact .inl ⟨_, rfl⟩
  · exact .inl ⟨_, rfl⟩
  next hbackslash hquote _ => exact .inr ⟨rfl, hquote, hbackslash⟩

/-- Escapes neither add line feeds nor take any away. -/
theorem lineFeed_mem_flatMap_escapeChar : '\n' ∈ text.flatMap escapeChar ↔ '\n' ∈ text := by
  rw [List.mem_flatMap]
  constructor
  · rintro ⟨c, hc, hmem⟩
    unfold escapeChar at hmem
    split at hmem
    · simp at hmem
    · simp at hmem
    · simp at hmem
    · exact List.mem_singleton.mp hmem ▸ hc
  · exact fun h => ⟨'\n', h, List.mem_cons_self⟩

end Bindery.Literal
