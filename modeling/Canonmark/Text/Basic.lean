/-!
# Text

Text is a list of characters; positions in it count characters. Strings appear only where
the program meets the outside.
-/

namespace Canonmark

abbrev Text := List Char

structure Span where
  start : Nat
  stop : Nat
  start_le_stop : start ≤ stop
  deriving DecidableEq, Repr

namespace Span

/-- The characters up to `stop`, or none if `stop` lies before `start`. -/
def upTo (start stop : Nat) : Span := ⟨start, max start stop, Nat.le_max_left start stop⟩

def ofLength (start length : Nat) : Span := ⟨start, start + length, Nat.le_add_right start length⟩

/-- Where the characters stand in a text with `n` more in front. -/
def shift (n : Nat) (span : Span) : Span :=
  ⟨span.start + n, span.stop + n, Nat.add_le_add_right span.start_le_stop n⟩

def slice (span : Span) (text : Text) : Text :=
  (text.drop span.start).take (span.stop - span.start)

instance : Inhabited Span := ⟨ofLength 0 0⟩

@[simp] theorem start_upTo (start stop : Nat) : (upTo start stop).start = start := rfl

@[simp] theorem stop_upTo (start stop : Nat) : (upTo start stop).stop = max start stop := rfl

@[simp] theorem start_ofLength (start length : Nat) : (ofLength start length).start = start := rfl

@[simp] theorem stop_ofLength (start length : Nat) :
    (ofLength start length).stop = start + length := rfl

@[simp] theorem start_shift (n : Nat) (span : Span) : (span.shift n).start = span.start + n := rfl

@[simp] theorem stop_shift (n : Nat) (span : Span) : (span.shift n).stop = span.stop + n := rfl

theorem stop_upTo_of_le {start stop : Nat} (h : start ≤ stop) : (upTo start stop).stop = stop :=
  Nat.max_eq_right h

theorem shift_ofLength (n start length : Nat) :
    (ofLength start length).shift n = ofLength (start + n) length := by
  simp [shift, ofLength, Nat.add_right_comm]

theorem upTo_add (start length : Nat) : upTo start (start + length) = ofLength start length := by
  simp [upTo, ofLength]

@[simp] theorem upTo_eq (span : Span) : upTo span.start span.stop = span := by
  obtain ⟨start, stop, h⟩ := span
  simp [upTo, h]

theorem slice_upTo (start stop : Nat) (text : Text) :
    (upTo start stop).slice text = (text.drop start).take (stop - start) := by
  rw [slice, start_upTo, stop_upTo, Nat.max_def]
  split
  · rfl
  · rw [Nat.sub_self, Nat.sub_eq_zero_of_le (by omega)]

theorem slice_ofLength (start length : Nat) (text : Text) :
    (ofLength start length).slice text = (text.drop start).take length := by
  rw [slice, start_ofLength, stop_ofLength, Nat.add_sub_cancel_left]

end Span

namespace Text

def dropEndWhile (p : Char → Bool) (text : Text) : Text :=
  (text.reverse.dropWhile p).reverse

def trimBoth (p : Char → Bool) (text : Text) : Text :=
  dropEndWhile p (text.dropWhile p)

def stripPrefix? : Text → Text → Option Text
  | [], text => some text
  | _ :: _, [] => none
  | c :: pre, d :: text => if c = d then stripPrefix? pre text else none

/-- The pieces between line feeds; there is always at least one. -/
def splitLines : Text → List Text
  | [] => [[]]
  | c :: rest =>
      if c = '\n' then [] :: splitLines rest
      else
        match splitLines rest with
        | [] => [[c]]
        | line :: lines => (c :: line) :: lines

def joinWith (separator : Text) : List Text → Text
  | [] => []
  | [text] => text
  | text :: next :: rest => text ++ separator ++ joinWith separator (next :: rest)

def joinLines (lines : List Text) : Text := joinWith ['\n'] lines

/-- The lines with their line feeds; no line is empty. -/
def lineSegments : Text → List Text
  | [] => []
  | c :: rest =>
      if c = '\n' then ['\n'] :: lineSegments rest
      else
        match lineSegments rest with
        | [] => [[c]]
        | line :: lines => (c :: line) :: lines

/-- Every carriage return, alone or before a line feed, becomes a line feed. -/
def normalizeNewlines : Text → Text
  | [] => []
  | '\r' :: '\n' :: rest => '\n' :: normalizeNewlines rest
  | c :: rest => (if c = '\r' then '\n' else c) :: normalizeNewlines rest

def hasInfix (needle : Text) : Text → Bool
  | [] => needle.isEmpty
  | c :: rest => needle.isPrefixOf (c :: rest) || hasInfix needle rest

def splitAtFirst? (c : Char) : Text → Option (Text × Text)
  | [] => none
  | d :: rest =>
      if d = c then some ([], rest)
      else (splitAtFirst? c rest).map fun (before, after) => (d :: before, after)

def utf8Size (text : Text) : Nat :=
  text.foldr (fun c size => c.utf8Size + size) 0

end Text

end Canonmark
