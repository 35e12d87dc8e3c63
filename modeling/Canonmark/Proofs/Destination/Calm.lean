import Canonmark.Proofs.Destination.Found

/-!
# Brackets that change no search

A bracket that stands neither behind a backslash nor between two backticks changes nothing for
the search for a closing parenthesis or for the end of a code span: what is found without the
bracket is found with it, at its place in the longer text.
-/

namespace Canonmark

namespace Marked

/-- Where the character with `n` characters in front of it stands when the marks are left out. -/
def place : Marked → Nat → Nat
  | [], n => n
  | (_, true) :: rest, n => place rest n + 1
  | (_, false) :: _, 0 => 0
  | (_, false) :: rest, n + 1 => place rest n + 1

/-- The length up to the end of the first `n` characters that are not marked. -/
def reach (marked : Marked) : Nat → Nat
  | 0 => 0
  | n + 1 => marked.place n + 1

theorem place_append (first : Marked) (c : Char) (second : Marked) :
    place (first ++ (c, false) :: second) first.kept.length = first.length := by
  induction first with
  | nil => rfl
  | cons mark rest ih =>
      obtain ⟨d, inserted⟩ := mark
      cases inserted with
      | true => exact congrArg (· + 1) ih
      | false => exact congrArg (· + 1) ih

theorem reach_plain (front : Text) (rest : Marked) :
    reach (plain front ++ rest) front.length = front.length := by
  rcases List.eq_nil_or_concat front with rfl | ⟨body, c, rfl⟩
  · rfl
  · have hlast := place_append (plain body) c rest
    rw [kept_plain, length_plain] at hlast
    rw [List.concat_eq_append, plain_append, List.append_assoc, List.length_append]
    exact congrArg (· + 1) hlast

theorem reach_mark {n : Nat} (h : 0 < n) (c : Char) (rest : Marked) :
    reach ((c, true) :: rest) n = reach rest n + 1 := by
  cases n with
  | zero => exact absurd h (Nat.lt_irrefl 0)
  | succ n => rfl

def startsMarked (marked : Marked) : Bool := marked.head?.any (·.2)

theorem head?_text {marked : Marked} (h : marked.startsMarked = false) :
    marked.text.head? = marked.kept.head? := by
  cases marked with
  | nil => rfl
  | cons mark rest =>
      obtain ⟨c, inserted⟩ := mark
      cases inserted with
      | true => cases h
      | false => rfl

end Marked

namespace SpacedDestination

open Marked

def Parted (before : Char) (behind : Option Char) : Prop :=
  before ≠ '\\' ∧ (before = '\x60' → behind ≠ some '\x60')

/-- Angle brackets are inserted, and none behind a backslash or between two backticks. -/
def Calm : Marked → Prop
  | [] => True
  | (c, true) :: rest => (c = '<' ∨ c = '>') ∧ Calm rest
  | (c, false) :: rest => (startsMarked rest = true → Parted c (kept rest).head?) ∧ Calm rest

theorem calm_plain {front : Text} {rest : Marked} (hcalm : Calm rest)
    (hparted : rest.startsMarked = true → ∀ c ∈ front.getLast?, Parted c rest.kept.head?) :
    Calm (plain front ++ rest) := by
  induction front with
  | nil => exact hcalm
  | cons c front ih =>
      cases front with
      | nil => exact ⟨fun hmarked => hparted hmarked c rfl, hcalm⟩
      | cons d more => exact ⟨fun hmarked => absurd hmarked Bool.false_ne_true, ih hparted⟩

theorem calm_front (front : Text) {rest : Marked} (hcalm : Calm rest)
    (hunmarked : rest.startsMarked = false) : Calm (plain front ++ rest) :=
  calm_plain hcalm fun hmarked => absurd hmarked (by simp [hunmarked])

theorem Calm.angle {marked : Marked} (h : Calm marked) :
    ∀ c, (c, true) ∈ marked → c = '<' ∨ c = '>' := by
  induction marked with
  | nil => simp
  | cons mark rest ih =>
      obtain ⟨d, inserted⟩ := mark
      intro c hmem
      rcases List.mem_cons.mp hmem with hsame | hmem
      · cases hsame
        exact h.1
      · refine ih ?_ c hmem
        cases inserted with
        | true => exact h.2
        | false => exact h.2

theorem Found.calm {space destination tail : Text} (hfound : Found space destination tail)
    {front : Text} (hgap : ∀ c ∈ front.getLast?, c = '(' ∨ Unicode.isWhitespace c = true)
    {rest : Marked} (hcalm : Calm rest) (hunmarked : rest.startsMarked = false) :
    Calm (plain front ++ ('<', true) ::
      (plain destination ++ ('>', true) :: (plain (tail ++ [')']) ++ rest))) := by
  have hblank {c : Char} (h : c = '(' ∨ Unicode.isWhitespace c = true) :
      c ≠ '\\' ∧ c ≠ '\x60' := by
    constructor
    all_goals
      rintro rfl
      exact absurd h (by decide)
  have hbehind : ∀ c ∈ (tail ++ [')']).head?, c ≠ '\x60' := by
    intro c hfirst
    cases tail with
    | nil =>
        obtain rfl : ')' = c := by simpa using hfirst
        decide
    | cons d more =>
        obtain rfl : d = c := by simpa using hfirst
        exact (hblank (.inr (isTail_cons hfound.tail))).2
  refine calm_plain ⟨.inl rfl, calm_plain ⟨.inr rfl, calm_front _ hcalm hunmarked⟩ ?_⟩ ?_
  · intro _ c hlast
    refine ⟨(hfound.last c hlast).1, fun _ hnext => ?_⟩
    refine hbehind '\x60' ?_ rfl
    simpa [List.head?_append] using hnext
  · intro _ c hlast
    exact ⟨(hblank (hgap c hlast)).1, fun htick => absurd htick (hblank (hgap c hlast)).2⟩

theorem closingParen?_angle {c : Char} (h : c = '<' ∨ c = '>') (depth : Nat) (rest : Text) :
    closingParen? depth (c :: rest) = (closingParen? depth rest).map (· + 1) := by
  rcases h with rfl | rfl
  all_goals
    rw [closingParen?_cons (by decide) (by decide), if_neg (by decide), if_neg (by decide)]

theorem closingParen?_text {marked : Marked} (hcalm : Calm marked) (depth : Nat) :
    closingParen? depth marked.text = (closingParen? depth marked.kept).map marked.place := by
  induction hsize : marked.length using Nat.strong_induction_on generalizing marked depth with
  | _ n ih =>
  subst hsize
  match marked, hcalm with
  | [], _ => rfl
  | (c, true) :: rest, hcalm =>
      rw [text_cons, kept_cons_true, closingParen?_angle hcalm.1,
        ih rest.length (Nat.lt_succ_self _) hcalm.2 depth rfl, Option.map_map]
      rfl
  | (c, false) :: rest, hcalm =>
      by_cases hbackslash : c = '\\'
      · subst hbackslash
        match rest, hcalm with
        | [], _ => rfl
        | (d, true) :: rest, hcalm => exact absurd rfl (hcalm.1 rfl).1
        | (d, false) :: rest, hcalm =>
            rw [text_cons, text_cons, kept_cons_false, kept_cons_false, closingParen?_escaped,
              closingParen?_escaped, ih rest.length (by simp only [List.length_cons]; omega)
              hcalm.2.2 depth rfl,
              Option.map_map, Option.map_map]
            rfl
      · by_cases hnewline : c = '\n'
        · subst hnewline
          rfl
        · have honward (depth : Nat) :
              (closingParen? depth (text rest)).map (· + 1)
                = ((closingParen? depth (kept rest)).map (· + 1)).map
                    (place ((c, false) :: rest)) := by
            rw [ih rest.length (Nat.lt_succ_self _) hcalm.2 depth rfl, Option.map_map,
              Option.map_map]
            rfl
          rw [text_cons, kept_cons_false, closingParen?_cons hbackslash hnewline,
            closingParen?_cons hbackslash hnewline]
          split
          · exact honward _
          · split
            · split
              · rfl
              · exact honward _
            · exact honward _

theorem closing?_cons {size seen : Nat} {c : Char} (h : c ≠ '\x60') (rest : Text) :
    codeSpanLength.closing? size seen (c :: rest)
      = if seen = size && 0 < seen then some 0
        else (codeSpanLength.closing? size 0 rest).map (· + 1) := by
  rw [codeSpanLength.closing?, if_neg h]

theorem closing?_ended {size seen : Nat} {text : Text} (h : text.head? ≠ some '\x60') :
    codeSpanLength.closing? size seen text
      = if seen = size && 0 < seen then some 0 else codeSpanLength.closing? size 0 text := by
  cases text with
  | nil => simp [codeSpanLength.closing?]
  | cons c rest =>
      have hother : c ≠ '\x60' := by simpa using h
      rw [closing?_cons hother, closing?_cons hother]
      simp

theorem closing?_text {size seen : Nat} {marked : Marked} (hcalm : Calm marked)
    (hended : 0 < seen → marked.startsMarked = true → marked.kept.head? ≠ some '\x60') :
    codeSpanLength.closing? size seen marked.text
      = (codeSpanLength.closing? size seen marked.kept).map marked.reach := by
  induction marked generalizing seen with
  | nil =>
      simp only [text_nil, kept_nil, codeSpanLength.closing?]
      split <;> rfl
  | cons mark rest ih =>
      obtain ⟨c, inserted⟩ := mark
      cases inserted with
      | true =>
          have hother : c ≠ '\x60' := by
            rcases hcalm.1 with rfl | rfl
            all_goals decide
          have hpast : codeSpanLength.closing? size seen (kept rest)
              = if seen = size && 0 < seen then some 0
                else codeSpanLength.closing? size 0 (kept rest) := by
            rcases Nat.eq_zero_or_pos seen with rfl | hcounted
            · simp
            · exact closing?_ended (hended hcounted rfl)
          rw [text_cons, kept_cons_true, closing?_cons hother, hpast,
            ih hcalm.2 fun hcounted => absurd hcounted (Nat.lt_irrefl 0)]
          split
          · rfl
          · rw [Option.map_map]
            refine Option.map_congr fun n hfound => ?_
            exact (reach_mark (closing?_pos hfound) c rest).symm
      | false =>
          by_cases htick : c = '\x60'
          · subst htick
            rw [text_cons, kept_cons_false, codeSpanLength.closing?, codeSpanLength.closing?,
              if_pos rfl, if_pos rfl, ih hcalm.2 fun _ hmarked => (hcalm.1 hmarked).2 rfl,
              Option.map_map, Option.map_map]
            refine Option.map_congr fun n _ => ?_
            cases n <;> rfl
          · rw [text_cons, kept_cons_false, closing?_cons htick, closing?_cons htick,
              ih hcalm.2 fun hcounted => absurd hcounted (Nat.lt_irrefl 0)]
            split
            · rfl
            · rw [Option.map_map, Option.map_map]
              refine Option.map_congr fun n _ => ?_
              cases n <;> rfl

theorem takeWhile_append_congr {p : Char → Bool} {front first second : Text}
    (hwithin : ((front ++ first).takeWhile p).length ≤ front.length)
    (hsame : second.head? = first.head?) :
    (front ++ second).takeWhile p = (front ++ first).takeWhile p := by
  induction front with
  | nil =>
      have hnone : first.takeWhile p = [] := by simpa using hwithin
      rw [List.nil_append, List.nil_append, hnone]
      cases second with
      | nil => rfl
      | cons c rest =>
          obtain ⟨rest', rfl⟩ := List.head?_eq_some_iff.mp hsame.symm
          by_cases h : p c = true
          · simp [h] at hnone
          · simp [h]
  | cons c front ih =>
      by_cases h : p c = true
      · simp only [List.cons_append, List.takeWhile_cons, h, if_true, List.length_cons,
          Nat.add_le_add_iff_right] at hwithin ⊢
        rw [ih hwithin]
      · simp [h]

theorem codeSpanLength_text {front : Text} {rest : Marked} (hcalm : Calm rest)
    (hunmarked : rest.startsMarked = false)
    (hspan : codeSpanLength (front ++ rest.kept) = front.length) :
    codeSpanLength (front ++ rest.text) = front.length := by
  simp only [codeSpanLength] at hspan ⊢
  have hwithin : ((front ++ rest.kept).takeWhile (· = '\x60')).length ≤ front.length := by omega
  rw [takeWhile_append_congr hwithin (head?_text hunmarked)]
  generalize ((front ++ rest.kept).takeWhile (· = '\x60')).length = size at hspan hwithin ⊢
  have hsearch := @closing?_text size 0 (plain (front.drop size) ++ rest)
    (calm_front _ hcalm hunmarked) fun hcounted => absurd hcounted (Nat.lt_irrefl 0)
  rw [text_append, kept_append, text_plain, kept_plain] at hsearch
  rw [List.drop_append_of_le_length hwithin] at hspan
  rw [List.drop_append_of_le_length hwithin, hsearch]
  cases hfound : codeSpanLength.closing? size 0 (front.drop size ++ rest.kept) with
  | none => simpa [hfound] using hspan
  | some n =>
      rw [hfound, Option.getD_some] at hspan
      obtain rfl : n = (front.drop size).length := by
        rw [List.length_drop]
        omega
      rw [Option.map_some, Option.getD_some, reach_plain]
      exact hspan

end SpacedDestination

end Canonmark
