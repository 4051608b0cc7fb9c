/-!
Line breaks of text files: a carriage return, alone or before a line feed, is read as a line feed.
-/

namespace Cnd.Text

/-- A text with one kind of line break. -/
def unifyLineBreaks : List Char → List Char
  | [] => []
  | '\r' :: '\n' :: rest => '\n' :: unifyLineBreaks rest
  | '\r' :: rest => '\n' :: unifyLineBreaks rest
  | c :: rest => c :: unifyLineBreaks rest

end Cnd.Text
