import Stencil.Text.Blank
import Stencil.Text.Word

/-!
# Shell — Blocks

How many blocks a text leaves open, judged by its spelling alone: the statement tags that begin with
a word that opens a block, less those that begin with a word that closes one.  The text need not be
a template, so tags inside comments and string literals count too, and the count may be negative.
-/

namespace Stencil.Shell

/-- Does a statement tag start here, with one of the words as a whole word? -/
def startsTagWith (words : List (List Char)) : List Char → Bool
  | '{' :: '%' :: rest =>
    let body := rest.dropWhile Text.isBlank
    words.any fun word => word.isPrefixOf body && !(body.drop word.length).head?.any Text.isWord
  | _ => false

/-- How many statement tags begin with one of the words? -/
def countTags (words : List (List Char)) : List Char → Nat
  | [] => 0
  | c :: rest => (if startsTagWith words (c :: rest) then 1 else 0) + countTags words rest

/-- The count of blocks opened and not closed. -/
def openBlocks (cs : List Char) : Int :=
  (countTags ["if".toList, "for".toList] cs : Int) -
    countTags ["endif".toList, "endfor".toList] cs

theorem openBlocks_nil : openBlocks [] = 0 := rfl

end Stencil.Shell
