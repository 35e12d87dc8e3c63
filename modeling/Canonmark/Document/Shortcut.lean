import Canonmark.Document.Basic
import Canonmark.Text.Unicode

/-!
# Shortcuts in text

A cross reference may be written as an at sign and an identifier, and a video as a directive on a
line of its own in a quote. Neither is part of Markdown; both are found in the text around them.
-/

namespace Canonmark

namespace XrefShortcut

/-- Characters that belong to the sentence when they stand at the end of an identifier. -/
def isTrailing (c : Char) : Bool := ".,;:!?'\")]\x7d>".toList.contains c

def blocks (c : Char) : Bool :=
  Unicode.isAlphanumeric c || c = '@' || c = '\\' || c = '_' || c = '\x60'

/-- The identifier behind an at sign that follows the character `before`, if there is one. -/
def identifier? (before : Option Char) (text : Text) : Option Text :=
  if before.any blocks || !text.head?.any Ascii.isLetter then none
  else
    some (Text.dropEndWhile isTrailing (text.takeWhile fun c => !Unicode.isWhitespace c))

def textLeaf (kept : Text) : List Leaf :=
  if kept.isEmpty then [] else [.text kept.reverse]

/--
The leaves of a text. Text so far is `kept`, latest first; the next `skip` characters belong to
the latest reference.
-/
def splitFrom (before : Option Char) (kept : Text) : (skip : Nat) → Text → List Leaf
  | _, [] => textLeaf kept
  | skip + 1, c :: rest => splitFrom (some c) kept skip rest
  | 0, c :: rest =>
      match if c = '@' then identifier? before rest else none with
      | some identifier =>
          textLeaf kept ++ .xref identifier false
            :: splitFrom (some c) [] identifier.length rest
      | none => splitFrom (some c) (c :: kept) 0 rest

/-- A text as texts and references, which have no known target yet. -/
def split (text : Text) : List Leaf :=
  if text.contains '@' then splitFrom none [] 0 text else [.text text]

def splitAll (content : List Inline) : List Inline :=
  content.flatMap fun node =>
    match node with
    | .leaf (.text text) => (split text).map .leaf
    | node => [node]

end XrefShortcut

namespace VideoDirective

/-- The address in a directive that fills a line, white space around it apart. -/
def url? (line : Text) : Option Text :=
  match Unicode.trim line with
  | '[' :: '!' :: text =>
      let behind := text.drop 5
      let blanks := behind.takeWhile fun c => c = ' ' || c = '\t'
      let url := behind.drop blanks.length
      if Ascii.equalsIgnoringCase (text.take 5) "video".toList && !blanks.isEmpty
          && url.getLast? = some ']' && 2 ≤ url.length
          && url.dropLast.all fun c => !Unicode.isWhitespace c && c ≠ ']' then
        some url.dropLast
      else none
  | _ => none

def markLine : List Inline → List Inline
  | [.leaf (.text text)] =>
      match url? text with
      | some url => [.leaf (.video url)]
      | none => [.leaf (.text text)]
  | line => line.reverse

def markFrom (line : List Inline) : List Inline → List Inline
  | [] => markLine line
  | .leaf .softBreak :: rest => markLine line ++ .leaf .softBreak :: markFrom [] rest
  | node :: rest => markFrom (node :: line) rest

def mark (content : List Inline) : List Inline := markFrom [] content

end VideoDirective

end Canonmark
