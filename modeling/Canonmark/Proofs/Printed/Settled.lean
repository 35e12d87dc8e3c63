import Canonmark.Document.Printer
import Canonmark.Proofs.Printed.Carried
import Canonmark.Source.LeafReader

/-!
# Blocks that are read back

A block is printed in lines. The printer writes down text, markers and fences as they are, and
what they meet in their new place may turn them into something else. Settled blocks are those
whose lines are read again as what they were printed for: no line of a paragraph starts another
block, code does not close its fence, numbers have at most nine digits, and neighbours are told
apart.
-/

namespace Canonmark.Printed

inductive Spacing where
  | tight
  | loose
  | quoted
  | document (compact : Bool)
  deriving DecidableEq

def Spacing.gap (isHeading isLast : Bool) : Spacing → Nat
  | .tight => 0
  | .loose => if isLast then 0 else 1
  | .quoted => if isLast then 2 else 1
  | .document compact => if compact && isHeading then 0 else 1

def isHeading : Block → Bool
  | .heading _ _ => true
  | _ => false

def itemSpacing (tight : Bool) : Spacing := if tight then .tight else .loose

def quoteSpacing (children : List Block) : Spacing :=
  if children.length = 1 then .loose else .quoted

def hang (marker : Text) : List Text → List Text
  | [] => [marker]
  | first :: more => (marker ++ ' ' :: first) :: more.map (hung (marker.length + 1))

mutual

def lines : Block → List Text
  | .paragraph content => Text.splitLines (Printer.inlines content)
  | .heading level content => [Printer.heading level content]
  | .quote _ children => (allLines (quoteSpacing children) children).map Level.quote.mark
  | .list kind tight items => itemLines kind (itemSpacing tight) 0 items
  | .verbatim content => Text.splitLines (Printer.verbatim content)

def allLines (spacing : Spacing) : List Block → List Text
  | [] => []
  | block :: rest =>
      lines block ++ List.replicate (spacing.gap (isHeading block) rest.isEmpty) []
        ++ allLines spacing rest

def itemLines (kind : ListKind) (spacing : Spacing) (index : Nat) : List (List Block) → List Text
  | [] => []
  | item :: rest =>
      hang (Printer.itemMarker kind index) (allLines spacing item)
        ++ List.replicate (spacing.gap false rest.isEmpty) []
        ++ itemLines kind spacing (index + 1) rest

end

/-- What a list's items have in common: their bullet or what stands behind their numbers. -/
def listMarker : ListKind → Char
  | .bullet bullet => bullet
  | .ordered _ delimiter => delimiter

def itemLevel (kind : ListKind) (index : Nat) : Level :=
  .item (listMarker kind) ((Printer.itemMarker kind index).length + 1)

mutual

/-- The containers around a paragraph that ends a block, and that a further line may go on. -/
def openLevels : Block → Option (List Level)
  | .paragraph _ => some []
  | .heading _ _ => none
  | .quote _ children => (lastLevels (quoteSpacing children) children).map (.quote :: ·)
  | .list kind tight items => itemLevels kind (itemSpacing tight) 0 items
  | .verbatim _ => none

def lastLevels (spacing : Spacing) : List Block → Option (List Level)
  | [] => none
  | block :: rest =>
      if rest.isEmpty then
        if spacing.gap (isHeading block) true = 0 then openLevels block else none
      else lastLevels spacing rest

def itemLevels (kind : ListKind) (spacing : Spacing) (index : Nat) :
    List (List Block) → Option (List Level)
  | [] => none
  | item :: rest =>
      if rest.isEmpty then (lastLevels spacing item).map (itemLevel kind index :: ·)
      else itemLevels kind spacing (index + 1) rest

end

open Source

def isVisible (line : Text) : Bool := line.head?.any fun c => !Ascii.isSpace c

/-- No label ends here that a colon follows, nor on a later line. -/
def endsNoLabel : Text → Bool
  | [] => false
  | '\\' :: [] => false
  | '\\' :: _ :: rest => endsNoLabel rest
  | '[' :: _ => true
  | ']' :: rest => rest.head? ≠ some ':'
  | _ :: rest => endsNoLabel rest

def labelsNothing (line : Text) : Bool := line.head? ≠ some '[' || endsNoLabel (line.drop 1)

def isMarked (line : Text) : Bool :=
  (rule? (line ++ ['\n'])).isSome || (headingLevel? (line ++ ['\n'])).isSome
    || (fence? (line ++ ['\n'])).isSome || line.head? = some '>'

def isMetadataFence (line : Text) : Bool :=
  countWhile (· = '-') line = 3 && (line.drop 3).all Ascii.isSpace

def startsParagraph (extensions : Extensions) (line : Text) : Bool :=
  isVisible line && !isMarked line && (itemStart? (line ++ ['\n'])).isNone && labelsNothing line
    && !(line.head? = some '<' && (HtmlBlock.end? (line.drop 1 ++ ['\n'])).isSome)
    && !(extensions.frontMatter && isMetadataFence line)

def continuesParagraph (extensions : Extensions) (line : Text) : Bool :=
  isVisible line && !isMarked line && labelsNothing line
    && (itemStart? (line ++ ['\n'])).all (fun found => !isBullet found.1 && found.2.1 ≠ 1)
    && !(line.head? = some '<' && HtmlBlock.interrupts (line.drop 1 ++ ['\n']))
    && (underline? (line ++ ['\n'])).isNone
    && !(extensions.tables && (Table.separator? (line ++ ['\n'])).isSome)

def settledText (extensions : Extensions) : List Text → Bool
  | [] => false
  | first :: later => startsParagraph extensions first && later.all (continuesParagraph extensions)

def isFence (fence : Text) : Bool :=
  match fence with
  | [] => false
  | c :: _ => (c = '\x60' || c = '~') && 3 ≤ fence.length && fence.all (· = c)

/-- An info string that is told from its fence, and is what it stands for. -/
def settledInfo (fence info : Text) : Bool :=
  info.head? ≠ fence.head? && Text.trimBoth Ascii.isSpace info = info
    && Unicode.trim info = info && !info.contains '\n' && Escape.resolve info = info
    && !(fence.head? = some '\x60' && info.contains '\x60')

def closesFence (fence line : Text) : Bool :=
  match fence with
  | [] => false
  | c :: _ =>
      (closingFence? c fence.length (line.dropWhile (fun c => c = ' ' || c = '\t') ++
      ['\n'])).isSome

def settledCode (fence info text : Text) : Bool :=
  isFence fence && settledInfo fence info
    && (text.isEmpty || text.getLast? = some '\n')
    && (Text.splitLines text).all fun line => !closesFence fence line

def settledRule (extensions : Extensions) (marker : Text) : Bool :=
  !marker.contains '\n' && rule? (marker ++ ['\n']) = some (marker.length + 1)
    && !(extensions.frontMatter && isMetadataFence marker)

def isQuote : Block → Bool
  | .quote _ _ => true
  | _ => false

def listMarker? : Block → Option Char
  | .list kind _ _ => some (listMarker kind)
  | _ => none

/-- Blocks that a paragraph before them does not swallow. -/
def interruptsText : Block → Bool
  | .paragraph _ => false
  | .heading _ _ => true
  | .quote _ _ => true
  | .list (.bullet _) _ _ => true
  | .list (.ordered start _) _ _ => start = 1
  | .verbatim (.rule marker) => marker.head? ≠ some '-'
  | .verbatim _ => true

def apart (extensions : Extensions) (gap : Nat) (block next : Block) : Bool :=
  ((listMarker? block).isNone || listMarker? block ≠ listMarker? next)
    && (0 < gap
      || !(isQuote block && isQuote next)
        && ((openLevels block).isNone
          || interruptsText next
            && !(extensions.tables && (lines next).head?.any fun line =>
              (Table.separator? (line ++ ['\n'])).isSome)))

def isCheckBox : Text → Bool
  | '[' :: c :: ']' :: rest =>
      (Ascii.isBlank c || c = 'x' || c = 'X') && rest.head?.all Ascii.isSpace
  | _ => false

def startsItem (extensions : Extensions) (marker : Text) (content : List Text) : Bool :=
  content.head?.any fun line =>
    isVisible line && (rule? (marker ++ ' ' :: line ++ ['\n'])).isNone
      && !(extensions.tasklists && isCheckBox line)

def settledKind (count : Nat) : ListKind → Bool
  | .bullet bullet => isBullet bullet
  | .ordered start delimiter =>
      (delimiter = '.' || delimiter = ')') && start + count ≤ 1000000000

mutual

def settled (extensions : Extensions) : Block → Bool
  | .paragraph content => settledText extensions (Text.splitLines (Printer.inlines content))
  | .heading level _ => 1 ≤ level && level ≤ 6
  | .quote _ children =>
      !children.isEmpty && allSettled extensions (quoteSpacing children) children
  | .list kind tight items =>
      !items.isEmpty && settledKind items.length kind
        && itemsSettled extensions kind (itemSpacing tight) 0 items
  | .verbatim (.code (some fence) info text) => settledCode fence info text
  | .verbatim (.rule marker) => settledRule extensions marker
  | .verbatim _ => false

def allSettled (extensions : Extensions) (spacing : Spacing) : List Block → Bool
  | [] => true
  | block :: rest =>
      settled extensions block
        && rest.head?.all (apart extensions (spacing.gap (isHeading block) rest.isEmpty) block)
        && allSettled extensions spacing rest

def itemsSettled (extensions : Extensions) (kind : ListKind) (spacing : Spacing) (index : Nat) :
    List (List Block) → Bool
  | [] => true
  | item :: rest =>
      !item.isEmpty && allSettled extensions spacing item
        && startsItem extensions (Printer.itemMarker kind index) (allLines spacing item)
        && itemsSettled extensions kind spacing (index + 1) rest

end

end Canonmark.Printed
