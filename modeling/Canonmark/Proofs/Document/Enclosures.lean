import Canonmark.Proofs.Document.Definitions

/-!
# Containers are left again

Whatever events follow, the builder has the containers around it behind a block, the rest of a
node or the items of a list that it had in front of them.
-/

namespace Canonmark.Builder

variable {origin : Origin}

theorem enclosures_leave {enclosure : Enclosure} {builder after : Builder}
    (h : after.enclosures = (builder.enter enclosure).enclosures) :
    after.leave.enclosures = builder.enclosures :=
  (congrArg List.dropLast h).trans List.dropLast_concat

mutual

theorem enclosures_block (fuel : Nat) (event : Source.Event) (span : Span) (builder : Builder) :
    (block origin fuel event span builder).2.enclosures = builder.enclosures := by
  cases fuel with
  | zero => rfl
  | succ fuel =>
      have hinlines := (@moves_inlines origin fuel [] builder).enclosures
      have hloose : ((looseInlines origin fuel (inline origin fuel event span [] builder).1
          (inline origin fuel event span [] builder).2).2).enclosures = builder.enclosures :=
        (moves_looseInlines fuel _ _).enclosures.trans
          (moves_inline fuel event span [] builder).enclosures
      cases event with
      | enter tag =>
          cases tag with
          | paragraph => exact hinlines
          | heading level => exact hinlines
          | quote => exact enclosures_leave (enclosures_blocks fuel (builder.enter .quote))
          | list number => exact enclosures_items fuel number none builder
          | emphasis => exact hloose
          | strong => exact hloose
          | strike => exact hloose
          | link => exact hloose
          | _ => rfl
      | text => exact hloose
      | code => exact hloose
      | inlineHtml => exact hloose
      | inlineMath => exact hloose
      | footnoteReference => exact hloose
      | softBreak => exact hloose
      | hardBreak => exact hloose
      | task => exact hloose
      | _ => rfl

theorem enclosures_blocks (fuel : Nat) (builder : Builder) :
    (blocks origin fuel builder).2.enclosures = builder.enclosures := by
  cases fuel with
  | zero => rfl
  | succ fuel =>
      rw [blocks]
      split
      · rfl
      · rfl
      · next event span rest _ _ =>
          exact (enclosures_blocks fuel _).trans (enclosures_block fuel event span _)

theorem enclosures_items (fuel : Nat) (number : Option Nat) (kind : Option ListKind)
    (builder : Builder) :
    (items origin fuel number kind builder).2.2.2.enclosures = builder.enclosures := by
  cases fuel with
  | zero => rfl
  | succ fuel =>
      rw [items]
      split
      · rfl
      · rfl
      · exact (enclosures_items fuel number _ _).trans
          (enclosures_leave (enclosures_blocks fuel _))
      · exact enclosures_items fuel number kind _

end

end Canonmark.Builder
