import Canonmark.Document.Basic
import Canonmark.Text.Unicode

/-!
# Printing documents

Every top-level block is followed by an empty line. In the compact layout a top-level heading
is followed by a line feed only. A quote prints its content behind `> ` on every line, empty lines
included; a quote of several blocks keeps the empty line after each of them.
-/

namespace Canonmark.Printer

/--
Puts `first` before the first line of `body` and `rest` before every other line. An empty line
stays empty where its marker would be white space alone.
-/
def markLines (body first rest : Text) : Text :=
  let mark (marker line : Text) : Text :=
    if line.isEmpty && Unicode.isBlank marker then [] else marker ++ line
  match Text.splitLines body with
  | [] => []
  | line :: lines => Text.joinLines (mark first line :: lines.map (mark rest))

def quoteMarker : Text := ['>', ' ']

def quoteLines (body : Text) : Text := markLines body quoteMarker quoteMarker

/-- An item's content hangs under its first line by the width of the marker and a space. -/
def itemLines (marker body : Text) : Text :=
  if body.isEmpty then marker
  else
    markLines body (marker ++ [' ']) (List.replicate (Text.utf8Size marker + 1) ' ')

/-- A backslash that would escape what follows it, or the closing parenthesis, is doubled. -/
def escapeDestination : Text → Text
  | [] => []
  | c :: rest =>
      let doubled := c = '\\' && (match rest with
        | [] => true
        | d :: _ => Ascii.isPunctuation d)
      c :: (if doubled then '\\' :: escapeDestination rest else escapeDestination rest)

def escapeTitle (title : Text) : Text :=
  title.flatMap fun c => if c = '\\' || c = '"' then ['\\', c] else [c]

def linkTail (destination : Text) (title : Option Text) : Text :=
  let quoted := match title with
    | some title => " \"".toList ++ escapeTitle title ++ ['"']
    | none => []
  "](".toList ++ escapeDestination destination ++ quoted ++ [')']

/-- The quote that sets off the identifier of a resolved reference, if one can. -/
def xrefQuote? (identifier : Text) (resolved : Bool) : Option Char :=
  if !resolved then none
  else if !identifier.contains '"' then some '"'
  else if !identifier.contains '\'' then some '\''
  else none

def leaf : Leaf → Text
  | .text text => text
  | .html text => text
  | .code text => text
  | .raw text => text
  | .autolink uri => '<' :: uri ++ ['>']
  | .autolinkXref scheme identifier => '<' :: scheme ++ ':' :: identifier ++ ['>']
  | .xref identifier resolved =>
      match xrefQuote? identifier resolved with
      | some quote => '@' :: quote :: identifier ++ [quote]
      | none => '@' :: identifier
  | .mail (some scheme) address => '<' :: scheme ++ ':' :: address ++ ['>']
  | .mail none address => '<' :: address ++ ['>']
  | .video url => "[!VIDEO ".toList ++ url ++ [']']
  | .softBreak => ['\n']
  | .hardBreak true => ['\\', '\n']
  | .hardBreak false => [' ', ' ', '\n']
  | .task true => "[x] ".toList
  | .task false => "[ ] ".toList

def fences : Wrapper → Text × Text
  | .emphasis delimiter => ([delimiter], [delimiter])
  | .strong delimiter => ([delimiter, delimiter], [delimiter, delimiter])
  | .strike delimiter => (delimiter, delimiter)
  | .link image destination title =>
      (if image then ['!', '['] else ['['], linkTail destination title)

mutual

def inline : Inline → Text
  | .leaf content => leaf content
  | .node wrapper children =>
      (fences wrapper).1 ++ inlines children ++ (fences wrapper).2

def inlines : List Inline → Text
  | [] => []
  | content :: rest => inline content ++ inlines rest

end

def heading (level : Nat) (content : List Inline) : Text :=
  let text := (inlines content).map fun c => if c = '\n' then ' ' else c
  let hashes := List.replicate level '#'
  if text.isEmpty then hashes else hashes ++ ' ' :: text

private def dropFinalNewline (text : Text) : Text :=
  if text.getLast? = some '\n' then text.dropLast else text

def verbatim : Verbatim → Text
  | .code (some fence) info text =>
      let body := if text.isEmpty then [] else dropFinalNewline text ++ ['\n']
      fence ++ info ++ '\n' :: body ++ fence
  | .code none _ text =>
      let indent (line : Text) : Text :=
        if line.isEmpty then [] else "    ".toList ++ line
      Text.joinLines ((Text.splitLines (dropFinalNewline text)).map indent)
  | .html text => text.dropEndWhile (· = '\n')
  | .source text => text.dropEndWhile (· = '\n')
  | .rule marker => marker
  | .frontMatter text =>
      let newline := if text.isEmpty || text.getLast? = some '\n' then [] else ['\n']
      "---\n".toList ++ text ++ newline ++ "---".toList

def blankLine : Text := ['\n', '\n']

def separator (tight : Bool) : Text := if tight then ['\n'] else blankLine

/-- The marker of the item at `index`; the numbers of an ordered list ascend by one. -/
def itemMarker (kind : ListKind) (index : Nat) : Text :=
  match kind with
  | .bullet bullet => [bullet]
  | .ordered start delimiter => Ascii.ofNat (start + index) ++ [delimiter]

def quoteBody : List Text → Text
  | [single] => single
  | texts => texts.flatMap (· ++ blankLine)

def listBody (kind : ListKind) (tight : Bool) (items : List (List Text)) : Text :=
  Text.joinWith (separator tight) (items.mapIdx fun index texts =>
    itemLines (itemMarker kind index) (Text.joinWith (separator tight) texts))

mutual

/-- One block, without what separates it from the next. -/
def block : Block → Text
  | .paragraph content => inlines content
  | .heading level content => heading level content
  | .quote _ children => quoteLines (quoteBody (blocks children))
  | .list kind tight items => listBody kind tight (itemTexts items)
  | .verbatim content => verbatim content

def blocks : List Block → List Text
  | [] => []
  | first :: rest => block first :: blocks rest

def itemTexts : List (List Block) → List (List Text)
  | [] => []
  | first :: rest => blocks first :: itemTexts rest

end

private def isHeading : Block → Bool
  | .heading _ _ => true
  | _ => false

/-- The text of a document; `compact` chooses the layout of headings. -/
def document (compact : Bool) (blocks : Document) : Text :=
  blocks.flatMap fun content =>
    block content ++ (if compact && isHeading content then ['\n'] else blankLine)

end Canonmark.Printer
