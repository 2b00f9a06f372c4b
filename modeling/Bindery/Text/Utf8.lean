/-!
# Reading UTF-8

Bytes are read as UTF-8 from the start. Where they are not, either a sequence of one to three bytes
cannot be continued, or the bytes end within a sequence.
-/

namespace Bindery.Text

/-- A place where bytes stop being UTF-8. -/
structure Utf8Error where
  /-- how many bytes precede the place -/
  index : Nat
  /-- how many bytes are wrong; none when the bytes end too early -/
  length? : Option Nat
deriving DecidableEq, Repr

def Utf8Error.message (error : Utf8Error) : String :=
  match error.length? with
  | some length =>
      "invalid utf-8 sequence of " ++ toString length ++ " bytes from index "
        ++ toString error.index
  | none => "incomplete utf-8 byte sequence from index " ++ toString error.index

/-- For a byte that starts a sequence: how many bytes follow, the bounds of the first of them, and
the bits that the byte itself contributes. -/
def utf8Lead? (byte : UInt8) : Option (Nat × Nat × Nat × Nat) :=
  let n := byte.toNat
  if n < 0x80 then some (0, 0, 0, n)
  else if 0xc2 ≤ n && n ≤ 0xdf then some (1, 0x80, 0xbf, n - 0xc0)
  else if n = 0xe0 then some (2, 0xa0, 0xbf, 0)
  else if n = 0xed then some (2, 0x80, 0x9f, n - 0xe0)
  else if 0xe1 ≤ n && n ≤ 0xef then some (2, 0x80, 0xbf, n - 0xe0)
  else if n = 0xf0 then some (3, 0x90, 0xbf, 0)
  else if n = 0xf4 then some (3, 0x80, 0x8f, 4)
  else if 0xf1 ≤ n && n ≤ 0xf3 then some (3, 0x80, 0xbf, n - 0xf0)
  else none

/-- The first of the bytes that follow which cannot continue a sequence. -/
def utf8Breach? (low high : Nat) : List UInt8 → Option Nat
  | [] => none
  | byte :: rest =>
      if low ≤ byte.toNat && byte.toNat ≤ high then (utf8Breach? 0x80 0xbf rest).map (· + 1)
      else some 0

/-- The character at the start of the bytes and the number of bytes it takes; or how many bytes are
wrong. -/
def utf8Char (byte : UInt8) (rest : List UInt8) : Except (Option Nat) (Char × Nat) :=
  match utf8Lead? byte with
  | none => .error (some 1)
  | some (count, low, high, bits) =>
      let followers := rest.take count
      match utf8Breach? low high followers with
      | some place => .error (some (place + 1))
      | none =>
          if followers.length < count then .error none
          else
            let code := followers.foldl (fun code byte => code * 64 + (byte.toNat - 0x80)) bits
            .ok (Char.ofNat code, count)

/-- The text that bytes hold, read from the byte with the given index on. -/
def decodeUtf8From (index : Nat) : List UInt8 → Except Utf8Error (List Char)
  | [] => .ok []
  | byte :: rest =>
      match utf8Char byte rest with
      | .error length? => .error ⟨index, length?⟩
      | .ok (c, count) => (decodeUtf8From (index + 1 + count) (rest.drop count)).map (c :: ·)
termination_by bytes => bytes.length
decreasing_by simp only [List.length_drop, List.length_cons]; omega

def decodeUtf8 (bytes : List UInt8) : Except Utf8Error String :=
  (decodeUtf8From 0 bytes).map String.ofList

/-- The characters that bytes hold, with a replacement character for each wrong sequence. -/
def decodeUtf8Lossy : List UInt8 → List Char
  | [] => []
  | byte :: rest =>
      match utf8Char byte rest with
      | .ok (c, count) => c :: decodeUtf8Lossy (rest.drop count)
      | .error (some length) => '\ufffd' :: decodeUtf8Lossy (rest.drop (length - 1))
      | .error none => ['\ufffd']
termination_by bytes => bytes.length
decreasing_by all_goals simp only [List.length_drop, List.length_cons]; omega

end Bindery.Text
