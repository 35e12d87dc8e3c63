import Canonmark.Proofs.Destination.Percent

/-!
# What a coded destination stands for

A destination stands for bytes: a triplet for the byte that its digits spell, and everything else
for its bytes in UTF-8. Coding keeps triplets and all that is not ASCII as they are written, and
the coded destination stands for the same bytes.
-/

namespace Canonmark

def Text.utf8 (text : Text) : List UInt8 := text.flatMap String.utf8EncodeChar

@[simp] theorem Text.utf8_cons (c : Char) (text : Text) :
    utf8 (c :: text) = String.utf8EncodeChar c ++ utf8 text := rfl

@[simp] theorem Text.utf8_append (text behind : Text) :
    utf8 (text ++ behind) = utf8 text ++ utf8 behind :=
  List.flatMap_append

namespace Percent

def digit? (byte : UInt8) : Option UInt8 :=
  if 0x30 ≤ byte && byte ≤ 0x39 then some (byte - 0x30)
  else if 0x41 ≤ byte && byte ≤ 0x46 then some (byte - 0x37)
  else if 0x61 ≤ byte && byte ≤ 0x66 then some (byte - 0x57)
  else none

def spelled? (high low : UInt8) : Option UInt8 :=
  match digit? high, digit? low with
  | some high, some low => some (16 * high + low)
  | _, _ => none

/--
The bytes that coded bytes stand for. A percent sign with two hexadecimal digits behind it stands
for the byte that they spell, and each other byte for itself.
-/
def decode : List UInt8 → List UInt8
  | [] => []
  | byte :: high :: low :: rest =>
      match if byte = 0x25 then spelled? high low else none with
      | some value => value :: decode rest
      | none => byte :: decode (high :: low :: rest)
  | byte :: rest => byte :: decode rest

theorem decode_triplet {high low value : UInt8} (h : spelled? high low = some value)
    (rest : List UInt8) : decode (0x25 :: high :: low :: rest) = value :: decode rest := by
  rw [decode, if_pos rfl, h]

theorem decode_cons {byte : UInt8} {rest : List UInt8}
    (h : byte = 0x25 → ∀ high low behind, rest = high :: low :: behind → spelled? high low = none) :
    decode (byte :: rest) = byte :: decode rest := by
  match rest with
  | [] => rfl
  | [_] => rfl
  | high :: low :: behind =>
      rw [decode]
      split
      · next value hspells =>
          split at hspells
          · next hpercent => rw [h hpercent high low behind rfl] at hspells; cases hspells
          · cases hspells
      · rfl

theorem decode_append {bytes : List UInt8} (h : ∀ byte ∈ bytes, byte ≠ 0x25) (rest : List UInt8) :
    decode (bytes ++ rest) = bytes ++ decode rest := by
  induction bytes with
  | nil => rfl
  | cons byte bytes ih =>
      obtain ⟨hfirst, hothers⟩ := List.forall_mem_cons.mp h
      rw [List.cons_append, decode_cons fun hpercent => absurd hpercent hfirst, ih hothers,
        List.cons_append]

theorem bytes_of_lt {c : Char} (hsmall : c.toNat < 128) :
    String.utf8EncodeChar c = [UInt8.ofNat c.toNat] := by
  rw [String.utf8EncodeChar]
  exact if_pos (Nat.le_of_lt_succ hsmall)

theorem le_of_mem_bytes {c : Char} (hlarge : 128 ≤ c.toNat) :
    ∀ byte ∈ String.utf8EncodeChar c, 128 ≤ byte.toNat := by
  have hbeyond : ¬c.val.toNat ≤ 127 := Nat.not_le.mpr hlarge
  have habove {n : Nat} (hlow : 128 ≤ n) (hhigh : n < 256) : 128 ≤ (UInt8.ofNat n).toNat := by
    rw [UInt8.toNat_ofNat_of_lt' hhigh]
    exact hlow
  simp only [String.utf8EncodeChar, if_neg hbeyond]
  split
  · simp only [List.mem_cons, List.not_mem_nil, or_false, forall_eq_or_imp, forall_eq]
    exact ⟨habove (by omega) (by omega), habove (by omega) (by omega)⟩
  · split
    · simp only [List.mem_cons, List.not_mem_nil, or_false, forall_eq_or_imp, forall_eq]
      exact ⟨habove (by omega) (by omega), habove (by omega) (by omega),
        habove (by omega) (by omega)⟩
    · simp only [List.mem_cons, List.not_mem_nil, or_false, forall_eq_or_imp, forall_eq]
      exact ⟨habove (by omega) (by omega), habove (by omega) (by omega),
        habove (by omega) (by omega), habove (by omega) (by omega)⟩

theorem ne_percent_of_mem_bytes {c : Char} (hother : c ≠ '%') :
    ∀ byte ∈ String.utf8EncodeChar c, byte ≠ 0x25 := by
  rintro byte hmem rfl
  by_cases hsmall : c.toNat < 128
  · rw [bytes_of_lt hsmall, List.mem_singleton] at hmem
    have hsame := congrArg UInt8.toNat hmem
    rw [UInt8.toNat_ofNat_of_lt' (Nat.lt_trans hsmall (by decide))] at hsame
    exact hother (Char.toNat_inj.mp hsame.symm)
  · exact absurd (le_of_mem_bytes (Nat.le_of_not_lt hsmall) _ hmem) (by decide)

theorem isSome_digit?_ofNat :
    ∀ n < 128, (digit? (UInt8.ofNat n)).isSome = Ascii.isHexDigit (Char.ofNat n) := by
  decide

theorem lt_of_digit? {byte value : UInt8} (his : digit? byte = some value) : byte.toNat < 128 := by
  simp only [digit?, Bool.and_eq_true, decide_eq_true_eq, UInt8.le_iff_toNat_le] at his
  split at his
  · next h => exact Nat.lt_of_le_of_lt h.2 (by decide)
  · split at his
    · next h => exact Nat.lt_of_le_of_lt h.2 (by decide)
    · split at his
      · next h => exact Nat.lt_of_le_of_lt h.2 (by decide)
      · cases his

theorem spelled?_hexDigit :
    ∀ n < 128, spelled? (UInt8.ofNat (hexDigit (n / 16)).toNat)
      (UInt8.ofNat (hexDigit (n % 16)).toNat) = some (UInt8.ofNat n) := by
  decide

theorem toNat_lt_of_isHexDigit {c : Char} (h : Ascii.isHexDigit c = true) : c.toNat < 128 := by
  have hbound {last : Char} (hle : c ≤ last) (hsmall : last.toNat < 128) : c.toNat < 128 :=
    Nat.lt_of_le_of_lt (UInt32.le_iff_toNat_le.mp (Char.le_def.mp hle)) hsmall
  simp only [Ascii.isHexDigit, Ascii.isDigit, Bool.or_eq_true, Bool.and_eq_true,
    decide_eq_true_eq] at h
  rcases h with (⟨-, hle⟩ | ⟨-, hle⟩) | ⟨-, hle⟩
  · exact hbound hle (by decide)
  · exact hbound hle (by decide)
  · exact hbound hle (by decide)

theorem bytes_of_isHexDigit {c : Char} (h : Ascii.isHexDigit c = true) :
    ∃ byte value, String.utf8EncodeChar c = [byte] ∧ digit? byte = some value := by
  have hsmall := toNat_lt_of_isHexDigit h
  have his := isSome_digit?_ofNat c.toNat hsmall
  rw [Char.ofNat_toNat, h] at his
  obtain ⟨value, his⟩ := Option.isSome_iff_exists.mp his
  exact ⟨_, value, bytes_of_lt hsmall, his⟩

theorem exists_of_digit? {text : Text} {byte value : UInt8} {behind : List UInt8}
    (h : text.utf8 = byte :: behind) (his : digit? byte = some value) :
    ∃ c rest, text = c :: rest ∧ Ascii.isHexDigit c = true ∧ Text.utf8 rest = behind := by
  cases text with
  | nil => cases h
  | cons c rest =>
      rw [Text.utf8_cons] at h
      by_cases hsmall : c.toNat < 128
      · rw [bytes_of_lt hsmall] at h
        obtain ⟨rfl, rfl⟩ := List.cons.inj h
        have hsame := isSome_digit?_ofNat c.toNat hsmall
        rw [his, Char.ofNat_toNat] at hsame
        exact ⟨c, rest, rfl, hsame.symm, rfl⟩
      · -- A byte of a character beyond ASCII is no digit.
        obtain ⟨first, more, hbytes⟩ :=
          List.exists_cons_of_ne_nil (@String.utf8EncodeChar_ne_nil c)
        rw [hbytes] at h
        obtain ⟨rfl, -⟩ := List.cons.inj h
        have hmem : first ∈ String.utf8EncodeChar c := hbytes ▸ List.mem_cons_self
        have hlarge := le_of_mem_bytes (Nat.le_of_not_lt hsmall) first hmem
        exact absurd (lt_of_digit? his) (Nat.not_lt.mpr hlarge)

theorem startsTriplet_of_spelled? {text : Text} {high low value : UInt8} {behind : List UInt8}
    (h : text.utf8 = high :: low :: behind) (hspells : spelled? high low = some value) :
    startsTriplet text = true := by
  rw [spelled?] at hspells
  split at hspells
  · next hfirst hsecond =>
      obtain ⟨a, rest, rfl, hhigh, htail⟩ := exists_of_digit? h hfirst
      obtain ⟨b, rest, rfl, hlow, -⟩ := exists_of_digit? htail hsecond
      rw [startsTriplet, hhigh, hlow]
      rfl
  · cases hspells

/--
A text and a coding of it. Triplets are kept, and so is everything but ASCII characters that are
in none.
-/
inductive Coding : Text → Text → Prop
  | nil : Coding [] []
  | triplet {high low : Char} {text out : Text} : Ascii.isHexDigit high = true →
      Ascii.isHexDigit low = true → Coding text out →
        Coding ('%' :: high :: low :: text) ('%' :: high :: low :: out)
  | keep {c : Char} {text out : Text} : c ≠ '%' → Coding text out →
      Coding (c :: text) (c :: out)
  | code {c : Char} {text out : Text} : c.toNat < 128 → (c = '%' → startsTriplet text = false) →
      Coding text out → Coding (c :: text) (Percent.triplet c ++ out)

theorem decode_utf8_percent {text : Text} (halone : startsTriplet text = false) :
    decode (0x25 :: text.utf8) = 0x25 :: decode text.utf8 := by
  refine decode_cons fun _ high low behind his => ?_
  refine Option.eq_none_iff_forall_ne_some.mpr fun value hspells => ?_
  rw [startsTriplet_of_spelled? his hspells] at halone
  cases halone

theorem decode_utf8_cons {c : Char} {text : Text} (halone : c = '%' → startsTriplet text = false) :
    decode (Text.utf8 (c :: text)) = String.utf8EncodeChar c ++ decode text.utf8 := by
  by_cases hpercent : c = '%'
  · subst hpercent
    exact decode_utf8_percent (halone rfl)
  · exact decode_append (ne_percent_of_mem_bytes hpercent) _

theorem decode_utf8_triplet {c : Char} (hsmall : c.toNat < 128) (text : Text) :
    decode (Text.utf8 (triplet c ++ text)) = String.utf8EncodeChar c ++ decode text.utf8 := by
  have hdigit (n : Nat) (hlt : n < 16) : (hexDigit n).toNat < 128 :=
    toNat_lt_of_isHexDigit (isHexDigit_hexDigit n hlt)
  have hhigh := bytes_of_lt (hdigit (c.toNat / 16) (by omega))
  have hlow := bytes_of_lt (hdigit (c.toNat % 16) (by omega))
  have hspells := spelled?_hexDigit c.toNat hsmall
  simp only [triplet, List.cons_append, List.nil_append, Text.utf8_cons, hhigh, hlow]
  rw [bytes_of_lt hsmall]
  exact decode_triplet hspells _

theorem Coding.decode_eq {text out : Text} (h : Coding text out) :
    decode out.utf8 = decode text.utf8 := by
  induction h with
  | nil => rfl
  | @triplet high low text out hhigh hlow _ ih =>
      obtain ⟨first, n, heqFirst, hdigitFirst⟩ := bytes_of_isHexDigit hhigh
      obtain ⟨second, m, heqSecond, hdigitSecond⟩ := bytes_of_isHexDigit hlow
      have hspells : spelled? first second = some (16 * n + m) := by
        rw [spelled?, hdigitFirst, hdigitSecond]
      have hcoded (rest : Text) :
          decode (Text.utf8 ('%' :: high :: low :: rest)) = (16 * n + m) :: decode rest.utf8 := by
        simp only [Text.utf8_cons, heqFirst, heqSecond]
        exact decode_triplet hspells _
      rw [hcoded, hcoded, ih]
  | keep hother _ ih =>
      have halone (text : Text) : _ → startsTriplet text = false := fun hpercent =>
        absurd hpercent hother
      rw [decode_utf8_cons (halone _), decode_utf8_cons (halone _), ih]
  | code hsmall halone _ ih => rw [decode_utf8_triplet hsmall, decode_utf8_cons halone, ih]

theorem coding_encodeFrom (unmatched : List Nat) (position : Nat) (text : Text) :
    Coding text (encodeFrom unmatched position text) := by
  match text with
  | [] => exact .nil
  | c :: rest =>
      by_cases hstarts : c = '%' ∧ startsTriplet rest = true
      · obtain ⟨rfl, hstarts⟩ := hstarts
        obtain ⟨high, low, behind, rfl, hhigh, hlow⟩ := startsTriplet_iff.mp hstarts
        have hfirst :
            isReserved (unmatched.contains position) '%' (high :: low :: behind) = false :=
          by simp [isReserved, hstarts]
        simp only [encodeFrom, hfirst, not_isReserved_of_isHexDigit hhigh,
          not_isReserved_of_isHexDigit hlow]
        exact .triplet hhigh hlow (coding_encodeFrom unmatched _ behind)
      · have hlater := coding_encodeFrom unmatched (position + 1) rest
        rw [encodeFrom]
        split
        · next hreserved =>
            exact .code (isReserved_spec hreserved).1
              (fun hpercent => eq_false_of_ne_true fun htriplet => hstarts ⟨hpercent, htriplet⟩)
              hlater
        · next hfree =>
            refine .keep (fun hpercent => hstarts ⟨hpercent, ?_⟩) hlater
            simpa [isReserved, hpercent] using hfree
termination_by text.length

/--
Coding keeps triplets and all that is not ASCII, and the coded destination stands for the same
bytes.
-/
theorem decode_encode (destination : Text) :
    Coding destination (encode destination) ∧
      decode (encode destination).utf8 = decode destination.utf8 := by
  have hcoding : Coding destination (encode destination) := coding_encodeFrom _ 0 destination
  exact ⟨hcoding, hcoding.decode_eq⟩

end Percent

end Canonmark
