import Canonmark.Text.Ascii

/-!
# Pieces of HTML

A text of HTML is cut into tags, comments among them, and the texts between them.
-/

namespace Canonmark.Html

inductive Piece where
  | text (text : Text)
  | tag (text : Text)
  deriving DecidableEq, Inhabited, Repr

namespace Piece

def source : Piece → Text
  | .text source => source
  | .tag source => source

def commentEnd? : Text → Option Nat
  | [] => none
  | c :: rest =>
      if ['-', '-', '>'].isPrefixOf (c :: rest) then some 3
      else (commentEnd? rest).map (· + 1)

def bracketEnd? : Text → Option Nat
  | [] => none
  | c :: rest => if c = '>' then some 1 else (bracketEnd? rest).map (· + 1)

def tail? : Text → Option Nat
  | '!' :: '-' :: '-' :: rest => (commentEnd? rest).map (· + 3)
  | '/' :: c :: rest =>
      if Ascii.isLetter c then (bracketEnd? rest).map (· + 2) else none
  | c :: rest => if Ascii.isLetter c then (bracketEnd? rest).map (· + 1) else none
  | [] => none

def textPiece (kept : Text) : List Piece :=
  if kept.isEmpty then [] else [.text kept.reverse]

/-- The text so far is `kept`, latest first; the next `skip` characters are part of a tag. -/
def splitFrom (kept : Text) : (skip : Nat) → Text → List Piece
  | _, [] => textPiece kept
  | skip + 1, _ :: rest => splitFrom kept skip rest
  | 0, c :: rest =>
      match if c = '<' then tail? rest else none with
      | some length => textPiece kept ++ .tag (c :: rest.take length) :: splitFrom [] length rest
      | none => splitFrom (c :: kept) 0 rest

def split (html : Text) : List Piece := splitFrom [] 0 html

end Piece

end Canonmark.Html
