/-!
# Columns

Texts padded so that what follows them is aligned. The width of a column is a number of UTF-8
bytes, while padding counts characters; the two agree for ASCII.
-/

namespace Bindery.Text

/-- The text followed by as many spaces as it lacks characters to `width`. -/
def padRight (width : Nat) (text : String) : String :=
  text ++ String.ofList (List.replicate (width - text.length) ' ')

/-- The text behind as many spaces as it lacks characters to `width`. -/
def padLeft (width : Nat) (text : String) : String :=
  String.ofList (List.replicate (width - text.length) ' ') ++ text

/-- The greatest number of UTF-8 bytes of any of the texts. -/
def columnWidth (texts : List String) : Nat :=
  texts.foldl (fun width text => max width text.utf8ByteSize) 0

end Bindery.Text
