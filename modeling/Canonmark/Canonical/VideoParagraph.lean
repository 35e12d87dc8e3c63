import Canonmark.Document.Basic

/-!
# Videos in paragraphs of their own

A paragraph of a quote that holds videos and other content is split around the videos. Soft
breaks at the edges of the parts are dropped.
-/

namespace Canonmark.VideoParagraph

def isVideo : Inline → Bool
  | .leaf (.video _) => true
  | _ => false

def isSoftBreak : Inline → Bool
  | .leaf .softBreak => true
  | _ => false

def part (content : List Inline) : List Block :=
  let kept := ((content.dropWhile isSoftBreak).reverse.dropWhile isSoftBreak).reverse
  if kept.isEmpty then [] else [.paragraph kept]

/-- The paragraphs of content; the part so far is `kept`, latest first. -/
def splitFrom (kept : List Inline) : List Inline → List Block
  | [] => part kept.reverse
  | node :: rest =>
      if isVideo node then part kept.reverse ++ .paragraph [node] :: splitFrom [] rest
      else splitFrom (node :: kept) rest

def splitBlock : Block → List Block
  | .paragraph content =>
      if 1 < content.length && content.any isVideo then splitFrom [] content
      else [.paragraph content]
  | block => [block]

def split (blocks : List Block) : List Block := blocks.flatMap splitBlock

end Canonmark.VideoParagraph
