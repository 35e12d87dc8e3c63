import Canonmark.Proofs.Destination.Decoding
import Canonmark.Proofs.Text.Basic
import Canonmark.Proofs.Text.Marked

/-!
# Texts byte by byte

Bytes are a text when each of them is taken for a character. In the bytes of a text in UTF-8 a
character of ASCII is its own byte, and no other character has that byte. So what looks for
characters of ASCII alone finds the same in the bytes as in the text.
-/

namespace Canonmark.Text

def ofBytes (bytes : List UInt8) : Text := bytes.map Char.ofUInt8

def bytewise (text : Text) : Text := ofBytes text.utf8

def spread (c : Char) : Text := ofBytes (String.utf8EncodeChar c)

theorem length_spread (c : Char) : (spread c).length = c.utf8Size := by
  rw [spread, ofBytes, List.length_map, String.length_utf8EncodeChar]

theorem exists_spread (c : Char) : ∃ first rest, spread c = first :: rest :=
  List.exists_cons_of_length_pos (length_spread c ▸ c.utf8Size_pos)

theorem spread_of_lt {c : Char} (hsmall : c.toNat < 128) : spread c = [c] := by
  have hsame : Char.ofUInt8 (UInt8.ofNat c.toNat) = c := by
    apply Char.toNat_inj.mp
    change (UInt8.ofNat c.toNat).toNat = c.toNat
    exact UInt8.toNat_ofNat_of_lt' (Nat.lt_trans hsmall (by decide))
  rw [spread, Percent.bytes_of_lt hsmall, ofBytes, List.map_singleton, hsame]

theorem eq_of_mem_spread {byte c : Char} (hsmall : byte.toNat < 128) (hmem : byte ∈ spread c) :
    byte = c := by
  by_cases hascii : c.toNat < 128
  · rwa [spread_of_lt hascii, List.mem_singleton] at hmem
  · obtain ⟨value, hbyte, rfl⟩ := List.mem_map.mp hmem
    have hlarge := Percent.le_of_mem_bytes (Nat.le_of_not_lt hascii) value hbyte
    exact absurd hsmall (Nat.not_lt.mpr hlarge)

@[simp] theorem bytewise_nil : bytewise [] = [] := rfl

@[simp] theorem bytewise_cons (c : Char) (text : Text) :
    bytewise (c :: text) = spread c ++ bytewise text := by
  rw [bytewise, utf8_cons, ofBytes, List.map_append]
  rfl

@[simp] theorem bytewise_append (text behind : Text) :
    bytewise (text ++ behind) = bytewise text ++ bytewise behind := by
  rw [bytewise, utf8_append, ofBytes, List.map_append]
  rfl

theorem length_bytewise (text : Text) : (bytewise text).length = utf8Size text := by
  induction text with
  | nil => rfl
  | cons c rest ih => rw [bytewise_cons, List.length_append, length_spread, ih, utf8Size_cons]

theorem byteOffset_append (before behind : Text) (n : Nat) :
    byteOffset (before ++ behind) (before.length + n) =
      (bytewise before).length + byteOffset behind n := by
  rw [byteOffset, List.take_length_add_append, ← length_bytewise, bytewise_append,
    List.length_append, byteOffset, length_bytewise (behind.take n)]

theorem byteOffset_append_left {text : Text} {n : Nat} (hle : n ≤ text.length) (behind : Text) :
    byteOffset (text ++ behind) n = byteOffset text n := by
  rw [byteOffset, List.take_append_of_le_length hle, byteOffset]

theorem byteOffset_length (before behind : Text) :
    byteOffset (before ++ behind) before.length = (bytewise before).length :=
  byteOffset_append before behind 0

theorem lineSegments_append_of_notMem {block : Text} (hfilled : block ≠ [])
    (hnewline : '\n' ∉ block) {rest line : Text} {lines : List Text}
    (hsplit : lineSegments rest = line :: lines) :
    lineSegments (block ++ rest) = (block ++ line) :: lines := by
  induction block with
  | nil => exact absurd rfl hfilled
  | cons c block ih =>
      obtain ⟨hother, hnewline⟩ := not_or.mp (List.mem_cons.not.mp hnewline)
      rw [List.cons_append, lineSegments, if_neg (Ne.symm hother)]
      cases block with
      | nil => rw [List.nil_append, hsplit]; rfl
      | cons d block => rw [ih (List.cons_ne_nil _ _) hnewline]; rfl

theorem lineSegments_bytewise (text : Text) :
    lineSegments (bytewise text) = (lineSegments text).map bytewise := by
  induction text with
  | nil => rfl
  | cons c rest ih =>
      by_cases hfeed : c = '\n'
      · subst hfeed
        rw [bytewise_cons, spread_of_lt (by decide), List.singleton_append, lineSegments,
          if_pos rfl, ih, lineSegments, if_pos rfl, List.map_cons, bytewise_cons,
          spread_of_lt (by decide)]
        rfl
      · have hfilled : spread c ≠ [] := by
          obtain ⟨first, more, heq⟩ := exists_spread c
          rw [heq]
          exact List.cons_ne_nil _ _
        have hnewline : '\n' ∉ spread c := fun hmem =>
          hfeed (eq_of_mem_spread (by decide) hmem).symm
        rw [bytewise_cons, lineSegments, if_neg hfeed]
        cases hsplit : lineSegments rest with
        | nil =>
            obtain rfl : rest = [] := by
              rw [← flatten_lineSegments rest, hsplit]
              rfl
            rw [bytewise_nil, List.append_nil, lineSegments_line hfilled hnewline]
            simp
        | cons line lines =>
            rw [hsplit, List.map_cons] at ih
            rw [lineSegments_append_of_notMem hfilled hnewline ih, List.map_cons, bytewise_cons]

end Canonmark.Text
