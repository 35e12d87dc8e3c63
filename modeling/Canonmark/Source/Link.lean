import Canonmark.Source.Line
import Canonmark.Text.Entity
import Canonmark.Text.Unicode

/-!
# Parts of links

Labels, destinations and autolinks as they are written.
-/

namespace Canonmark.Source

namespace Label

def key (label : Text) : Text := Unicode.fold label

/-- Escapes, white space and the bytes of characters above ASCII weigh at most this much. -/
def maxWeight : Nat := 999

/--
Length of the white space at the front. It may hold one line break, behind which `follow` tells
how much of the new line is no content, or that the line belongs to another block.
-/
def space? (follow : Text → Option Nat) : Nat → (broken : Bool) → Text → Option Nat
  | 0, _, _ => none
  | fuel + 1, broken, text =>
      match text with
      | [] => some 0
      | c :: rest =>
          if !Ascii.isSpace c then some 0
          else
            match eol? text with
            | none => (space? follow fuel broken rest).map (· + 1)
            | some n =>
                if broken then none
                else
                  (follow (text.drop n)).bind fun skipped =>
                    (space? follow fuel true (text.drop (n + skipped))).map
                      (· + (n + skipped))

/-- A label counts without the white space at its ends. -/
def trim (label : Text) : Text :=
  let isEnd := fun c => c = ' ' || c = '\t' || c = '\n' || c = '\r'
  Text.dropEndWhile isEnd (label.dropWhile isEnd)

/-- The label so far is `kept`, latest first; the length includes the closing bracket. -/
def read? (follow : Text → Option Nat) :
    Nat → (weight : Nat) → (blank : Bool) → (kept : Text) → (length : Nat) → Text →
      Option (Text × Nat)
  | 0, _, _, _, _, _ => none
  | fuel + 1, weight, blank, kept, length, text =>
      if weight > maxWeight then none
      else
        match text with
        | [] => none
        | '[' :: _ => none
        | ']' :: _ => if blank then none else some (trim kept.reverse, length + 1)
        | '\\' :: [] => none
        | '\\' :: d :: rest =>
            read? follow fuel (weight + 1 + d.utf8Size) (blank && Unicode.isAscii d)
              (d :: '\\' :: kept) (length + 2) rest
        | c :: rest =>
            if Ascii.isSpace c then
              (space? follow fuel false text).bind fun n =>
                read? follow fuel (weight + n) blank (' ' :: kept) (length + n) (text.drop n)
            else
              let weight := if Unicode.isAscii c then weight else weight + c.utf8Size
              read? follow fuel weight false (c :: kept) (length + 1) rest

def scan? (follow : Text → Option Nat) (text : Text) : Option (Text × Nat) :=
  read? follow (text.length + 1) 0 true [] 0 text

end Label

namespace Destination

/-- A destination between angle brackets, from behind the first: its text and length. -/
def bracketed? : Text → Option (Text × Nat)
  | [] => none
  | '\\' :: d :: rest =>
      if Ascii.isPunctuation d then
        (bracketed? rest).map fun (text, n) => ('\\' :: d :: text, n + 2)
      else (bracketed? (d :: rest)).map fun (text, n) => ('\\' :: text, n + 1)
  | c :: rest =>
      if c = '\n' || c = '\r' || c = '<' then none
      else if c = '>' then some ([], 1)
      else (bracketed? rest).map fun (text, n) => (c :: text, n + 1)

/-- The parentheses of a bare destination are balanced, and not too deeply nested. -/
def bare? (maxNesting nesting : Nat) : Text → Option Text
  | [] => if nesting = 0 then some [] else none
  | '\\' :: d :: rest =>
      if Ascii.isPunctuation d then
        (bare? maxNesting nesting rest).map fun text => '\\' :: d :: text
      else (bare? maxNesting nesting (d :: rest)).map ('\\' :: ·)
  | c :: rest =>
      if c ≤ ' ' then (if nesting = 0 then some [] else none)
      else if c = '(' then
        if nesting > maxNesting then none
        else (bare? maxNesting (nesting + 1) rest).map (c :: ·)
      else if c = ')' then
        if nesting = 0 then some []
        else (bare? maxNesting (nesting - 1) rest).map (c :: ·)
      else (bare? maxNesting nesting rest).map (c :: ·)

def scan? (maxNesting : Nat) : Text → Option (Text × Nat)
  | '<' :: rest => (bracketed? rest).map fun (text, n) => (text, n + 1)
  | text => (bare? maxNesting 0 text).map fun found => (found, found.length)

end Destination

namespace Autolink

def uri? (text : Text) : Option Text :=
  match text with
  | [] => none
  | c :: rest =>
      if !Ascii.isLetter c then none
      else
        let scheme := rest.takeWhile fun c =>
          Ascii.isLetterOrDigit c || c = '.' || c = '-' || c = '+'
        match rest.drop scheme.length with
        | ':' :: tail =>
            if 1 ≤ scheme.length && scheme.length ≤ 31 then
              let path := tail.takeWhile fun c => ' ' < c && c ≠ '<' && c ≠ '>'
              match tail.drop path.length with
              | '>' :: _ => some (c :: scheme ++ ':' :: path)
              | _ => none
            else none
        | _ => none

def isLocal (c : Char) : Bool :=
  Ascii.isLetterOrDigit c || ".!#$%&'*+/=?^_\x60\x7b|\x7d~-".toList.contains c

/-- A label of a domain has at most 63 letters, digits and inner hyphens. -/
def isDomainLabel (label : Text) : Bool :=
  label.length ≤ 63 && label.head?.any Ascii.isLetterOrDigit
    && label.getLast?.any Ascii.isLetterOrDigit
    && label.all fun c => Ascii.isLetterOrDigit c || c = '-'

def domain? : Nat → Text → Option Nat
  | 0, _ => none
  | fuel + 1, text =>
      let label := text.takeWhile fun c => Ascii.isLetterOrDigit c || c = '-'
      if !isDomainLabel label then none
      else
        match text.drop label.length with
        | '.' :: rest => (domain? fuel rest).map (· + label.length + 1)
        | _ => some label.length

def address? (text : Text) : Option Text :=
  let localPart := text.takeWhile isLocal
  if localPart.isEmpty then none
  else
    match text.drop localPart.length with
    | '@' :: rest =>
        match domain? (rest.length + 1) rest with
        | none => none
        | some n =>
            match rest.drop n with
            | '>' :: _ => some (text.take (localPart.length + 1 + n))
            | _ => none
    | _ => none

end Autolink

end Canonmark.Source
