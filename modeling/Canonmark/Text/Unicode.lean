import Canonmark.Text.Ascii
import Canonmark.Text.Table.Punctuation
import Canonmark.Text.Table.Alphanumeric
import Canonmark.Text.Table.Word
import Canonmark.Text.Table.Lowercase
import Canonmark.Text.Table.CaseFold

/-!
# Unicode classes and case

ASCII characters are decided without the tables, so that plain text never searches them.
-/

namespace Canonmark.Unicode

def isAscii (c : Char) : Bool := c.toNat < 128

/-- White space: the ASCII spaces, next line, no-break space and the space separators. -/
def isWhitespace (c : Char) : Bool :=
  let n := c.toNat
  (9 ≤ n && n ≤ 13) || n = 32 || n = 0x85 || n = 0xa0 || n = 0x1680
    || (0x2000 ≤ n && n ≤ 0x200a) || n = 0x2028 || n = 0x2029 || n = 0x202f
    || n = 0x205f || n = 0x3000

def isPunctuation (c : Char) : Bool :=
  if isAscii c then Ascii.isPunctuation c else Table.punctuation.contains c.toNat

def isAlphanumeric (c : Char) : Bool :=
  if isAscii c then Ascii.isLetterOrDigit c else Table.alphanumeric.contains c.toNat

/-- Characters that words are made of: letters, marks, digits and joiners. -/
def isWord (c : Char) : Bool :=
  if isAscii c then Ascii.isLetterOrDigit c || c = '_' else Table.word.contains c.toNat

def trim (text : Text) : Text := text.trimBoth isWhitespace

def isBlank (text : Text) : Bool := text.all isWhitespace

def isCased (c : Char) : Bool :=
  if isAscii c then Ascii.isLetter c else Table.cased.contains c.toNat

def isCaseIgnorable (c : Char) : Bool :=
  if isAscii c then
    c = '\'' || c = '.' || c = ':' || c = '^' || c = '\x60'
  else Table.caseIgnorable.contains c.toNat

def capitalSigma : Char := '\u03a3'
def smallSigma : Char := '\u03c3'
def finalSigma : Char := '\u03c2'

def lowerChar (c : Char) : Text :=
  if isAscii c then [Ascii.lower c]
  else if c = '\u0130' then ['i', '\u0307']
  else
    match CaseRun.lookup? Table.lowercase c.toNat with
    | some n => [Char.ofNat n]
    | none => [c]

private def startsCased (text : Text) : Bool :=
  match text.dropWhile isCaseIgnorable with
  | [] => false
  | c :: _ => isCased c

private def lowerFrom (before : Text) : Text → Text
  | [] => []
  | c :: rest =>
      let image :=
        if c = capitalSigma then
          if startsCased before && !startsCased rest then [finalSigma] else [smallSigma]
        else lowerChar c
      image ++ lowerFrom (c :: before) rest

/-- Lowercase; a capital sigma that ends a word becomes the final small sigma. -/
def lowercase (text : Text) : Text := lowerFrom [] text

def foldChar (c : Char) : Text :=
  if isAscii c then [Ascii.lower c]
  else
    match CaseRun.lookup? Table.folded c.toNat with
    | some n => [Char.ofNat n]
    | none =>
        match Table.foldedLong.lookup c.toNat with
        | some ns => ns.map Char.ofNat
        | none => [c]

/-- Texts that differ only by case have the same folding. -/
def fold (text : Text) : Text := text.flatMap foldChar

end Canonmark.Unicode
