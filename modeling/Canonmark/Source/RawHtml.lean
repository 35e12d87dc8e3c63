import Canonmark.Source.Line

/-!
# Raw HTML

Tags, comments, processing instructions, declarations and CDATA sections, and the ways in which
a block of HTML starts and ends. A tag that runs over a line break goes on behind the container
markers of the next line, which are no part of it.
-/

namespace Canonmark.Source

structure Reading where
  rest : Text
  kept : Text
  length : Nat

namespace Reading

def start (text : Text) : Reading := ⟨text, [], 0⟩

def keep (n : Nat) (reading : Reading) : Reading :=
  ⟨reading.rest.drop n, (reading.rest.take n).reverse ++ reading.kept, reading.length + n⟩

def skip (n : Nat) (reading : Reading) : Reading :=
  ⟨reading.rest.drop n, reading.kept, reading.length + n⟩

def keepWhile (p : Char → Bool) (reading : Reading) : Reading :=
  reading.keep (countWhile p reading.rest)

end Reading

/-- Where line breaks are allowed, how much of a new line belongs to containers. -/
abbrev LineBreaks := Option (Text → Nat)

namespace Tag

def lineBreak? (breaks : LineBreaks) (n : Nat) (reading : Reading) : Option Reading :=
  breaks.map fun markers =>
    let next := reading.keep n
    next.skip (markers next.rest)

def spaces? (breaks : LineBreaks) : Nat → Reading → Option Reading
  | 0, reading => some reading
  | fuel + 1, reading =>
      let reading := reading.keepWhile Ascii.isBlank
      match eol? reading.rest with
      | none => some reading
      | some 0 => some reading
      | some n => (lineBreak? breaks n reading).bind (spaces? breaks fuel)

def isNameChar (c : Char) : Bool :=
  Ascii.isLetterOrDigit c || c = '_' || c = '.' || c = ':' || c = '-'

def isUnquotedChar (c : Char) : Bool :=
  !(c = '\'' || c = '"' || c = ' ' || c = '=' || c = '>' || c = '<' || c = '\x60'
    || c = '\n' || c = '\r')

def quotedValue? (breaks : LineBreaks) (quote : Char) : Nat → Reading → Option Reading
  | 0, _ => none
  | fuel + 1, reading =>
      match reading.rest with
      | [] => none
      | c :: _ =>
          if c = quote then some (reading.keep 1)
          else
            match eol? reading.rest with
            | some n => (lineBreak? breaks n reading).bind (quotedValue? breaks quote fuel)
            | none => quotedValue? breaks quote fuel (reading.keep 1)

def value? (breaks : LineBreaks) (fuel : Nat) (reading : Reading) : Option Reading :=
  match reading.rest with
  | [] => none
  | c :: _ =>
      if c = '"' || c = '\'' then quotedValue? breaks c fuel (reading.keep 1)
      else if isUnquotedChar c then some (reading.keepWhile isUnquotedChar)
      else none

def attribute? (breaks : LineBreaks) (fuel : Nat) (reading : Reading) : Option Reading :=
  match reading.rest with
  | [] => none
  | c :: _ =>
      if Ascii.isLetter c || c = '_' || c = ':' then
        let named := (reading.keep 1).keepWhile isNameChar
        match spaces? breaks fuel named with
        | none => none
        | some spaced =>
            match spaced.rest with
            | '=' :: _ => (spaces? breaks fuel (spaced.keep 1)).bind (value? breaks fuel)
            | _ => some named
      else none

def attributes? (breaks : LineBreaks) (all : Nat) : Nat → Reading → Option Reading
  | 0, _ => none
  | fuel + 1, reading =>
      match spaces? breaks all reading with
      | none => none
      | some spaced =>
          match spaced.rest with
          | [] => none
          | c :: _ =>
              if c = '/' || c = '>' then some spaced
              else if spaced.length = reading.length then none
              else (attribute? breaks all spaced).bind (attributes? breaks all fuel)

def close? (reading : Reading) : Option Reading :=
  match reading.rest with
  | '>' :: _ => some (reading.keep 1)
  | _ => none

def read? (breaks : LineBreaks) (text : Text) : Option Reading :=
  let fuel := text.length + 1
  let closing := text.head? = some '/'
  let reading := (Reading.start text).keep (if closing then 1 else 0)
  let name := countWhile Ascii.isLetter reading.rest
  if name = 0 then none
  else
    let named := (reading.keep name).keepWhile fun c => Ascii.isLetterOrDigit c || c = '-'
    if closing then close? (named.keepWhile Ascii.isBlank)
    else
      (attributes? breaks fuel fuel named).bind fun reading =>
        close? (reading.keep (if reading.rest.head? = some '/' then 1 else 0))

end Tag

namespace Markup

def through? (mark : Text) : Text → Option Nat
  | [] => none
  | c :: rest =>
      if mark.isPrefixOf (c :: rest) then some mark.length
      else (through? mark rest).map (· + 1)

/-- Length of a comment behind its opening; it may consist of the opening alone. -/
def comment? (text : Text) : Option Nat :=
  if ['>'].isPrefixOf text then some 1
  else if ['-', '>'].isPrefixOf text then some 2
  else through? ['-', '-', '>'] text

/-- Length of a CDATA section; the first bracket in it must start its end. -/
def cdata? (text : Text) : Option Nat :=
  let content := countWhile (· ≠ ']') text
  let brackets := countWhile (· = ']') (text.drop content)
  if brackets = 0 then none
  else
    match text.drop (content + brackets) with
    | '>' :: _ => some (content + brackets + 1)
    | _ => none

def declaration? (text : Text) : Option Nat :=
  match text with
  | '-' :: '-' :: rest => (comment? rest).map (· + 2)
  | c :: rest =>
      if "[CDATA[".toList.isPrefixOf text then (cdata? (text.drop 7)).map (· + 7)
      else if Ascii.isLetter c then (through? ['>'] rest).map (· + 1)
      else none
  | [] => none

def instruction? (text : Text) : Option Nat := through? ['?', '>'] text

end Markup

def inlineHtml? (markers : Text → Nat) (text : Text) : Option (Nat × Option Text) :=
  match text with
  | '!' :: rest => (Markup.declaration? rest).map fun n => (n + 1, none)
  | '?' :: rest => (Markup.instruction? rest).map fun n => (n + 1, none)
  | _ =>
      (Tag.read? (some markers) text).map fun reading =>
        let cut := reading.kept.length ≠ reading.length
        (reading.length, if cut then some reading.kept.reverse else none)

/-- How a block of HTML ends: with a line that holds a mark, or before a blank line. -/
inductive HtmlEnd where
  | mark (mark : Text)
  | blank
  deriving DecidableEq, Inhabited, Repr

namespace HtmlBlock

/-- Elements whose content is no markup; a block that starts with one runs to its end tag. -/
def literalElements : List Text :=
  ["pre", "style", "script", "textarea"].map String.toList

/-- Elements that start a block by their tag alone. -/
def blockElements : List Text :=
  ["address", "article", "aside", "base", "basefont", "blockquote", "body", "caption", "center",
    "col", "colgroup", "dd", "details", "dialog", "dir", "div", "dl", "dt", "fieldset",
    "figcaption", "figure", "footer", "form", "frame", "frameset", "h1", "h2", "h3", "h4", "h5",
    "h6", "head", "header", "hr", "html", "iframe", "legend", "li", "link", "main", "menu",
    "menuitem", "nav", "noframes", "ol", "optgroup", "option", "p", "param", "search",
    "section", "summary", "table", "tbody", "td", "tfoot", "th", "thead", "title", "tr",
    "track", "ul"].map String.toList

def literalEnd? (text : Text) : Option Text :=
  literalElements.findSome? fun name =>
    let follows := match text.drop name.length with
      | [] => true
      | c :: _ => Ascii.isSpace c || c = '>'
    if Ascii.equalsIgnoringCase (text.take name.length) name && follows then
      some ('<' :: '/' :: name ++ ['>'])
    else none

def endMark? (text : Text) : Option Text :=
  (literalEnd? text).or <|
    match text with
    | '!' :: '-' :: '-' :: _ => some ['-', '-', '>']
    | '?' :: _ => some ['?', '>']
    | '!' :: c :: _ =>
        if "![CDATA[".toList.isPrefixOf text then some [']', ']', '>']
        else if Ascii.isLetter c then some ['>']
        else none
    | _ => none

def startsElement (text : Text) : Bool :=
  let tail := if text.head? = some '/' then text.drop 1 else text
  let name := tail.takeWhile Ascii.isLetterOrDigit
  let follows := match tail.drop name.length with
    | [] => true
    | '/' :: '>' :: _ => true
    | c :: _ => c = ' ' || c = '\t' || c = '\r' || c = '\n' || c = '>'
  blockElements.contains (name.map Ascii.lower) && follows

/-- Whether a line holds one complete tag and nothing else. -/
def isLoneTag (text : Text) : Bool :=
  match Tag.read? none text with
  | some reading => isBlankLine reading.rest
  | none => false

/-- The starts of blocks that may come in the middle of a paragraph. -/
def interrupts (text : Text) : Bool := (endMark? text).isSome || startsElement text

def end? (text : Text) : Option HtmlEnd :=
  match endMark? text with
  | some mark => some (.mark mark)
  | none => if startsElement text || isLoneTag text then some .blank else none

end HtmlBlock

end Canonmark.Source
