import Canonmark.Proofs.Text.Basic
import Canonmark.Source.Token

/-!
# Steps along a line

All that a character of a line can do to the tokens in front of it: nothing, to escape the next
one, or to add a mark. Which of these it does depends on the characters around it alone.
-/

namespace Canonmark.Source.TokenLine

/-- What a character does to the tokens in front of it. -/
inductive Effect where
  | plain (skip : Nat)
  | escape
  | mark (content : Mark) (offset size : Nat)

namespace Effect

def progress (tokens : List Token) (begun position : Nat) : Effect → Progress
  | .plain skip => ⟨tokens, begun, skip⟩
  | .escape => ⟨Token.pushText begun position tokens, position + 1, 1⟩
  | .mark content offset size => TokenLine.mark tokens begun position content offset size

/-- Number of characters behind it that it speaks for. -/
def skip : Effect → Nat
  | .plain skip => skip
  | .escape => 1
  | .mark _ offset size => offset + size - 1

@[simp] theorem skip_progress (effect : Effect) (tokens : List Token) (begun position : Nat) :
    (effect.progress tokens begun position).skip = effect.skip := by
  cases effect <;> rfl

end Effect

/-- What the character `c` may do in front of the rest of its line. -/
inductive EffectOf (extensions : Extensions) (c : Char) (rest : Text) : Effect → Prop
  | plain : EffectOf extensions c rest (.plain 0)
  | escape {d : Char} {behind : Text} : c = '\\' → rest = d :: behind →
      Ascii.isPunctuation d = true → EffectOf extensions c rest .escape
  | escapedTicks : c = '\\' → EffectOf extensions c rest
      (.mark (.backticks (countWhile (· = '\x60') rest) true) 1 (countWhile (· = '\x60') rest))
  | unmarkedRun : DelimiterRun.isDelimiter extensions c = true →
      EffectOf extensions c rest (.plain (countWhile (· = c) rest))
  | run (opens closes : Bool) : DelimiterRun.isDelimiter extensions c = true →
      EffectOf extensions c rest
        (.mark (.delimiters c (countWhile (· = c) rest + 1) opens closes) 0
          (countWhile (· = c) rest + 1))
  | ticks : c = '\x60' → EffectOf extensions c rest
      (.mark (.backticks (countWhile (· = '\x60') rest + 1) false) 0
        (countWhile (· = '\x60') rest + 1))
  | angle : c = '<' → EffectOf extensions c rest (.mark .angle 0 1)
  | image {behind : Text} : c = '!' → rest = '[' :: behind →
      EffectOf extensions c rest (.mark .imageBracket 0 2)
  | opening : c = '[' → EffectOf extensions c rest (.mark .bracket 0 1)
  | closing : c = ']' → EffectOf extensions c rest (.mark (.closingBracket true) 0 1)
  | entity {size : Nat} {value : Text} : c = '&' → Entity.reference? rest = some (size, value) →
      EffectOf extensions c rest (.mark (.entity value) 0 (size + 1))

theorem exists_mark? {c : Char} {size : Nat} {before after : Option Char} {found : Mark}
    (h : DelimiterRun.mark? c size before after = some found) :
    ∃ opens closes, found = .delimiters c size opens closes := by
  unfold DelimiterRun.mark? at h
  simp only at h
  split at h
  · cases h
    exact ⟨_, _, rfl⟩
  · cases h

/-- A character has one effect, whatever tokens are in front of it and wherever it stands. -/
theorem exists_effect (extensions : Extensions) (behind : Text) (c : Char) (rest : Text) :
    ∃ effect, EffectOf extensions c rest effect ∧ ∀ tokens begun position,
      step extensions behind tokens begun position c rest
        = effect.progress tokens begun position := by
  -- Each condition of a step is decided in turn; no condition looks at the tokens.
  by_cases hback : c = '\\'
  · cases rest with
    | nil => exact ⟨_, .plain, fun _ _ _ => if_pos hback⟩
    | cons d rest =>
        by_cases hother : (!Ascii.isPunctuation d) = true
        · exact ⟨_, .plain, fun _ _ _ => (if_pos hback).trans (if_pos hother)⟩
        by_cases htick : d = '\x60'
        · exact ⟨_, .escapedTicks hback,
            fun _ _ _ => (if_pos hback).trans ((if_neg hother).trans (if_pos htick))⟩
        · exact ⟨_, .escape hback rfl (by simpa using hother),
            fun _ _ _ => (if_pos hback).trans ((if_neg hother).trans (if_neg htick))⟩
  by_cases hdelimiter : DelimiterRun.isDelimiter extensions c = true
  · cases hrun : DelimiterRun.mark? c (countWhile (· = c) rest + 1) behind.head?
        (rest.drop (countWhile (· = c) rest)).head? with
    | none =>
        refine ⟨_, .unmarkedRun hdelimiter, fun _ _ _ => ?_⟩
        simp only [step, if_neg hback, if_pos hdelimiter, Nat.add_sub_cancel, hrun]
        rfl
    | some content =>
        obtain ⟨opens, closes, rfl⟩ := exists_mark? hrun
        refine ⟨_, .run opens closes hdelimiter, fun _ _ _ => ?_⟩
        simp only [step, if_neg hback, if_pos hdelimiter, Nat.add_sub_cancel, hrun]
        rfl
  have hfront (tokens : List Token) (begun position : Nat) :
      step extensions behind tokens begun position c rest = _ :=
    (if_neg hback).trans (if_neg hdelimiter)
  by_cases htick : c = '\x60'
  · exact ⟨_, .ticks htick, fun _ _ _ => (hfront _ _ _).trans (if_pos htick)⟩
  replace hfront (tokens : List Token) (begun position : Nat) :=
    (hfront tokens begun position).trans (if_neg htick)
  by_cases hangle : c = '<'
  · by_cases hescaped : rest.head? = some '\\'
    · exact ⟨_, .plain, fun _ _ _ => (hfront _ _ _).trans ((if_pos hangle).trans (if_pos hescaped))⟩
    · exact ⟨_, .angle hangle,
        fun _ _ _ => (hfront _ _ _).trans ((if_pos hangle).trans (if_neg hescaped))⟩
  replace hfront (tokens : List Token) (begun position : Nat) :=
    (hfront tokens begun position).trans (if_neg hangle)
  by_cases himage : (decide (c = '!') && decide (rest.head? = some '[')) = true
  · have hparts := himage
    simp only [Bool.and_eq_true, decide_eq_true_eq] at hparts
    obtain ⟨more, hshape⟩ := List.head?_eq_some_iff.mp hparts.2
    exact ⟨_, .image hparts.1 hshape, fun _ _ _ => (hfront _ _ _).trans (if_pos himage)⟩
  replace hfront (tokens : List Token) (begun position : Nat) :=
    (hfront tokens begun position).trans (if_neg himage)
  by_cases hopening : c = '['
  · exact ⟨_, .opening hopening, fun _ _ _ => (hfront _ _ _).trans (if_pos hopening)⟩
  replace hfront (tokens : List Token) (begun position : Nat) :=
    (hfront tokens begun position).trans (if_neg hopening)
  by_cases hclosing : c = ']'
  · exact ⟨_, .closing hclosing, fun _ _ _ => (hfront _ _ _).trans (if_pos hclosing)⟩
  replace hfront (tokens : List Token) (begun position : Nat) :=
    (hfront tokens begun position).trans (if_neg hclosing)
  by_cases hampersand : c = '&'
  · cases hentity : Entity.reference? rest with
    | none =>
        refine ⟨_, .plain, fun _ _ _ => (hfront _ _ _).trans ((if_pos hampersand).trans ?_)⟩
        rw [hentity]
        rfl
    | some found =>
        refine ⟨_, .entity hampersand hentity,
          fun _ _ _ => (hfront _ _ _).trans ((if_pos hampersand).trans ?_)⟩
        rw [hentity]
        rfl
  · exact ⟨_, .plain, fun _ _ _ => (hfront _ _ _).trans (if_neg hampersand)⟩

end Canonmark.Source.TokenLine
