import Canonmark.Source.Event
import Mathlib.Data.List.Basic

/-!
# Emphasis in pairs of delimiters

What is emphasised in a source lies between two delimiters of one character and width. Two spans
of emphasis lie one behind the other, or one of them between the delimiters of the other.
-/

namespace Canonmark.Source

def emphasisWidth? : Tag → Option Nat
  | .emphasis => some 1
  | .strong => some 2
  | _ => none

def emphases (events : List Located) : List (Nat × Span) :=
  events.filterMap fun (event, span) =>
    match event with
    | .enter tag => (emphasisWidth? tag).map (·, span)
    | _ => none

@[simp] theorem emphases_append (events others : List Located) :
    emphases (events ++ others) = emphases events ++ emphases others :=
  List.filterMap_append

theorem emphases_enclosed (tag : Tag) (span last : Span) (events : List Located) :
    emphases ((.enter tag, span) :: events ++ [(.leave, last)]) =
      ((emphasisWidth? tag).map (·, span)).toList ++ emphases events := by
  rw [emphases_append]
  cases h : emphasisWidth? tag <;> simp [emphases, h]

def Stands (source : Text) (c : Char) (start width : Nat) : Prop :=
  ∀ i < width, source[start + i]? = some c

/-- Spans of emphasis from `start` up to `stop`, outer ones before what lies in them. -/
inductive Paired (source : Text) : (start stop : Nat) → List (Nat × Span) → Prop
  | nil {start stop : Nat} (hle : start ≤ stop) : Paired source start stop []
  | pair {start stop width : Nat} {span : Span} {inside behind : List (Nat × Span)} {c : Char}
      (hle : start ≤ span.start) (hchar : c = '*' ∨ c = '_') (hwide : width = 1 ∨ width = 2)
      (hopening : Stands source c span.start width)
      (hclosing : Stands source c (span.stop - width) width)
      (hinner : Paired source (span.start + width) (span.stop - width) inside)
      (hlater : Paired source span.stop stop behind) :
      Paired source start stop ((width, span) :: (inside ++ behind))

namespace Paired

variable {source : Text} {start stop : Nat} {spans : List (Nat × Span)}

theorem le (h : Paired source start stop spans) : start ≤ stop := by
  induction h with
  | nil hle => exact hle
  | pair hle _ _ _ _ _ _ hinner hlater => omega

theorem widen (h : Paired source start stop spans) {first last : Nat} (hbefore : first ≤ start)
    (hbehind : stop ≤ last) : Paired source first last spans := by
  induction h generalizing first with
  | nil hle => exact .nil (by omega)
  | pair hle hchar hwide hopening hclosing hinner hlater _ ih =>
      exact .pair (Nat.le_trans hbefore hle) hchar hwide hopening hclosing hinner
        (ih (Nat.le_refl _) hbehind)

theorem append (h : Paired source start stop spans) {last : Nat} {others : List (Nat × Span)}
    (hlater : Paired source stop last others) : Paired source start last (spans ++ others) := by
  induction h with
  | nil hle => exact hlater.widen hle (Nat.le_refl _)
  | pair hle hchar hwide hopening hclosing hinner _ _ ih =>
      rw [List.cons_append, List.append_assoc]
      exact .pair hle hchar hwide hopening hclosing hinner (ih hlater)

theorem inside (h : Paired source start stop spans) (hle : start ≤ source.length) :
    Paired source start source.length spans := by
  induction h with
  | nil => exact .nil hle
  | @pair _ _ width span _ _ _ hfirst hchar hwide hopening hclosing hinner _ _ ih =>
      obtain ⟨hlt, -⟩ := List.getElem?_eq_some_iff.mp (hclosing (width - 1) (by omega))
      exact .pair hfirst hchar hwide hopening hclosing hinner (ih (by omega))

end Paired

end Canonmark.Source
