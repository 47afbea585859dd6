/-!
# Cut — texts in parts

A text is cut at every occurrence of a character, at the last one, or at the first pair of one.  What stands
between the cuts is kept as it is, empty parts included.
-/

namespace Courier
namespace Text

/-- Cuts a text at every occurrence of a character. -/
def cutAll (sep : Char) (text : List Char) : List (List Char) :=
  text.foldr
    (fun c parts =>
      match parts with
      | part :: rest => if c = sep then [] :: part :: rest else (c :: part) :: rest
      | [] => [[c]])
    [[]]

/-- Cuts a text at the last occurrence of a character. -/
def cutLast? (sep : Char) (text : List Char) : Option (List Char × List Char) :=
  let after := text.reverse.takeWhile (· != sep)
  if after.length < text.length then
    some ((text.reverse.drop (after.length + 1)).reverse, after.reverse)
  else none

/-- Cuts a text at the first place where a character stands twice. -/
def cutPair? (sep : Char) : List Char → Option (List Char × List Char)
  | [] => none
  | [_] => none
  | c :: d :: rest =>
    if c = sep && d = sep then some ([], rest)
    else (cutPair? sep (d :: rest)).map fun (before, after) => (c :: before, after)

/-- The text between an opening and a closing character. -/
def between? (opening closing : Char) (text : List Char) : Option (List Char) :=
  match text with
  | [] => none
  | c :: rest =>
    if c = opening && rest.getLast? = some closing then some rest.dropLast else none

end Text
end Courier
