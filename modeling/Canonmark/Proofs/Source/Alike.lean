import Canonmark.Proofs.Source.Literal

/-!
# Readers that are alike

What decides where blocks start and end is the same in both readers, and so is the literal text
they have found. Their positions and the texts in front of them may differ.
-/

namespace Canonmark.Source.BlockReader

structure Alike (first second : BlockReader) : Prop where
  extensions : first.extensions = second.extensions
  containers : first.spine.map (·.container) = second.spine.map (·.container)
  literals : first.literals.map Literal.content = second.literals.map Literal.content
  emptyItem : first.emptyItem.isSome = second.emptyItem.isSome
  lastBlank : first.lastBlank = second.lastBlank
  task : first.task.isSome = second.task.isSome

@[simp] theorem spine_append (tree : BlockTree) (reader : BlockReader) :
    (reader.append tree).spine.map (·.container) = reader.spine.map (·.container) := by
  unfold append
  split
  · next hspine => simp [hspine]
  · next hspine => simp [hspine]

theorem append_eq (tree : BlockTree) (reader : BlockReader) :
    ∃ spine blocks, reader.append tree = { reader with spine := spine, blocks := blocks } := by
  unfold append
  split
  · next hspine => exact ⟨reader.spine, _, rfl⟩
  · exact ⟨_, reader.blocks, rfl⟩

theorem top?_eq (reader : BlockReader) :
    reader.top? = (reader.spine.map (·.container)).head? := by
  cases hspine : reader.spine <;> simp [top?, hspine]

/-- Closing a container leaves all but the containers as it was, except behind a tight list. -/
theorem close_eq (stop : Nat) (reader : BlockReader) :
    ∃ spine blocks, spine.map (·.container) = (reader.spine.map (·.container)).tail ∧
      reader.close stop = { reader with
        spine := spine
        blocks := blocks
        emptyItem :=
          match reader.top? with
          | some (.list true _ _) => none
          | _ => reader.emptyItem } := by
  unfold close
  split
  · next hspine =>
      refine ⟨[], reader.blocks, by simp [hspine], ?_⟩
      cases reader
      cases hspine
      rfl
  next container start children spine hspine =>
  have happend (item : Option Nat) (tree : BlockTree) : ∃ spine' blocks,
      spine'.map (·.container) = spine.map (·.container) ∧
        ({ reader with spine := spine, emptyItem := item } : BlockReader).append tree =
          { reader with spine := spine', blocks := blocks, emptyItem := item } := by
    obtain ⟨spine', blocks, heq⟩ :=
      append_eq tree { reader with spine := spine, emptyItem := item }
    refine ⟨spine', blocks, ?_, heq⟩
    have hspine' := spine_append tree { reader with spine := spine, emptyItem := item }
    rw [heq] at hspine'
    exact hspine'
  have htop : reader.top? = some container := by simp [top?, hspine]
  simp only [htop, hspine, List.map_cons, List.tail_cons]
  split
  · obtain ⟨spine', blocks, hspine', heq⟩ := happend none
      (.node _ (.upTo start stop) (children.map BlockTree.tighten).reverse)
    exact ⟨spine', blocks, hspine', heq⟩
  · obtain ⟨spine', blocks, hspine', heq⟩ := happend reader.emptyItem
      (.node container (.upTo start stop) children.reverse)
    refine ⟨spine', blocks, hspine', heq.trans ?_⟩
    cases container with
    | list tight marker number => cases tight <;> simp_all
    | _ => rfl

/-- The containers have changed, but the reader has not moved and has read no definition or box. -/
structure Stays (reader after : BlockReader) : Prop where
  position : after.position = reader.position
  rest : after.rest = reader.rest
  extensions : after.extensions = reader.extensions
  definitions : after.definitions = reader.definitions
  task : after.task = reader.task

theorem Stays.refl (reader : BlockReader) : Stays reader reader := ⟨rfl, rfl, rfl, rfl, rfl⟩

theorem Stays.trans {first second third : BlockReader} (h : Stays first second)
    (h' : Stays second third) : Stays first third :=
  ⟨h'.position.trans h.position, h'.rest.trans h.rest, h'.extensions.trans h.extensions,
    h'.definitions.trans h.definitions, h'.task.trans h.task⟩

theorem stays_push (container : Container) (start : Nat) (reader : BlockReader) :
    Stays reader (reader.push container start) := ⟨rfl, rfl, rfl, rfl, rfl⟩

theorem stays_append (tree : BlockTree) (reader : BlockReader) :
    Stays reader (reader.append tree) := by
  obtain ⟨spine, blocks, heq⟩ := append_eq tree reader
  rw [heq]
  exact ⟨rfl, rfl, rfl, rfl, rfl⟩

theorem stays_close (stop : Nat) (reader : BlockReader) : Stays reader (reader.close stop) := by
  obtain ⟨spine, blocks, -, heq⟩ := close_eq stop reader
  rw [heq]
  exact ⟨rfl, rfl, rfl, rfl, rfl⟩

theorem stays_closeTo (depth stop : Nat) (reader : BlockReader) :
    Stays reader (reader.closeTo depth stop) := by
  unfold closeTo
  generalize List.range (reader.spine.length - depth) = steps
  induction steps generalizing reader with
  | nil => exact Stays.refl reader
  | cons step steps ih => exact (stays_close stop reader).trans (ih _)

theorem stays_finishEmptyItem (reader : BlockReader) : Stays reader reader.finishEmptyItem := by
  unfold finishEmptyItem
  simp only
  split
  · have hclose (stop : Nat) := stays_close stop reader
    exact ⟨(hclose _).position, (hclose _).rest, (hclose _).extensions, (hclose _).definitions,
      (hclose _).task⟩
  · exact ⟨rfl, rfl, rfl, rfl, rfl⟩

theorem stays_closeList (stop : Nat) (reader : BlockReader) :
    Stays reader (reader.closeList stop) := by
  unfold closeList
  split
  · exact stays_close stop reader
  · exact Stays.refl reader

theorem stays_closeFootnote (stop : Nat) (reader : BlockReader) :
    Stays reader (reader.closeFootnote stop) := by
  unfold closeFootnote
  split
  · exact stays_close stop reader
  · exact Stays.refl reader

theorem stays_loosenParent (reader : BlockReader) : Stays reader reader.loosenParent := by
  unfold loosenParent
  split <;> exact ⟨rfl, rfl, rfl, rfl, rfl⟩

theorem stays_finishList (stop : Nat) (reader : BlockReader) :
    Stays reader (reader.finishList stop) := by
  have hlist := (stays_finishEmptyItem reader).trans (stays_closeList stop _)
  rw [finishList_eq]
  split
  · have hparent := hlist.trans (stays_loosenParent _)
    exact ⟨hparent.position, hparent.rest, hparent.extensions, hparent.definitions, hparent.task⟩
  · exact hlist

theorem stays_continueList (start : Nat) (marker : Char) (number : Nat) (reader : BlockReader) :
    Stays reader (reader.continueList start marker number) := by
  have hempty := stays_finishEmptyItem reader
  have hlist := hempty.trans (stays_finishList start _)
  unfold continueList
  simp only
  split
  · exact ⟨hempty.position, hempty.rest, hempty.extensions, hempty.definitions, hempty.task⟩
  · split
    · exact ⟨hempty.position, hempty.rest, hempty.extensions, hempty.definitions, hempty.task⟩
    · exact ⟨hlist.position, hlist.rest, hlist.extensions, hlist.definitions, hlist.task⟩
  · exact ⟨hlist.position, hlist.rest, hlist.extensions, hlist.definitions, hlist.task⟩

theorem stays_blankLine (n : Nat) (reader : BlockReader) :
    Stays (reader.advance n) (reader.blankLine n) := by
  unfold blankLine
  split <;> exact ⟨rfl, rfl, rfl, rfl, rfl⟩

theorem stays_openFootnote (label : Text) (start length : Nat) (reader : BlockReader) :
    Stays (reader.advance length) (reader.openFootnote label start length) := by
  have hclosed := (stays_finishList start reader).trans (stays_closeFootnote start _)
  exact ⟨congrArg (· + length) hclosed.position, congrArg (List.drop length) hclosed.rest,
    hclosed.extensions, hclosed.definitions, hclosed.task⟩

namespace Alike

variable {first second : BlockReader}

theorem top? (h : Alike first second) : first.top? = second.top? := by
  rw [top?_eq, top?_eq, h.containers]

theorem containers_eq (h : Alike first second) :
    BlockReader.containers first = BlockReader.containers second :=
  congrArg List.reverse h.containers

theorem inFootnote (h : Alike first second) :
    BlockReader.inFootnote first.spine = BlockReader.inFootnote second.spine := by
  have hany (spine : List OpenContainer) : BlockReader.inFootnote spine =
      (spine.map (·.container)).any Container.isFootnote := by
    simp [BlockReader.inFootnote, List.any_map, Function.comp_def]
  rw [hany, hany, h.containers]

/-! ## Steps that keep readers alike -/

theorem advance (h : Alike first second) (n k : Nat) : Alike (first.advance n) (second.advance k) :=
  ⟨h.extensions, h.containers, h.literals, h.emptyItem, h.lastBlank, h.task⟩

theorem push (h : Alike first second) (container : Container) (start start' : Nat) :
    Alike (first.push container start) (second.push container start') where
  extensions := h.extensions
  containers := congrArg (container :: ·) h.containers
  literals := by rw [literals_push, literals_push, h.literals]
  emptyItem := h.emptyItem
  lastBlank := h.lastBlank
  task := h.task

theorem append {tree tree' : BlockTree} (h : Alike first second)
    (htree : ∀ inFootnote, (tree.literals inFootnote).map Literal.content =
      (tree'.literals inFootnote).map Literal.content) :
    Alike (first.append tree) (second.append tree') := by
  obtain ⟨spine, blocks, heq⟩ := append_eq tree first
  obtain ⟨spine', blocks', heq'⟩ := append_eq tree' second
  constructor
  case containers => rw [spine_append, spine_append, h.containers]
  case literals =>
    rw [literals_append, literals_append, List.map_append, List.map_append, h.literals,
      h.inFootnote, htree]
  all_goals rw [heq, heq']
  · exact h.extensions
  · exact h.emptyItem
  · exact h.lastBlank
  · exact h.task

theorem close (h : Alike first second) (stop stop' : Nat) :
    Alike (first.close stop) (second.close stop') := by
  obtain ⟨spine, blocks, hspine, heq⟩ := close_eq stop first
  obtain ⟨spine', blocks', hspine', heq'⟩ := close_eq stop' second
  constructor
  case literals => rw [literals_close, literals_close, h.literals]
  all_goals rw [heq, heq']
  · exact h.extensions
  · rw [hspine, hspine', h.containers]
  · simp only [h.top?]
    split
    · rfl
    · exact h.emptyItem
  · exact h.lastBlank
  · exact h.task

theorem closeTo (h : Alike first second) (depth stop stop' : Nat) :
    Alike (first.closeTo depth stop) (second.closeTo depth stop') := by
  have hlength : first.spine.length = second.spine.length := by
    simpa using congrArg List.length h.containers
  unfold BlockReader.closeTo
  rw [hlength]
  generalize List.range (second.spine.length - depth) = steps
  induction steps generalizing first second with
  | nil => exact h
  | cons step steps ih =>
      have hclose := h.close stop stop'
      exact ih hclose (by simpa using congrArg List.length hclose.containers)

theorem finishEmptyItem (h : Alike first second) :
    Alike first.finishEmptyItem second.finishEmptyItem := by
  have hnone {first second : BlockReader} (h : Alike first second) :
      Alike { first with emptyItem := none } { second with emptyItem := none } :=
    ⟨h.extensions, h.containers, h.literals, rfl, h.lastBlank, h.task⟩
  have hempty := h.emptyItem
  have hlast := h.lastBlank
  have htop := h.top?
  unfold BlockReader.finishEmptyItem
  refine hnone ?_
  cases hfirst : first.emptyItem with
  | none =>
      rw [hfirst] at hempty
      rw [Option.isSome_eq_false_iff.mp hempty.symm |> Option.isNone_iff_eq_none.mp]
      exact h
  | some stop =>
      rw [hfirst] at hempty
      obtain ⟨stop', hsecond⟩ := Option.isSome_iff_exists.mp hempty.symm
      rw [hsecond, hlast, htop]
      cases second.lastBlank with
      | false => exact h
      | true =>
          cases second.top? with
          | none => exact h
          | some container =>
              cases container with
              | item indent => exact h.close stop stop'
              | _ => exact h

theorem closeList (h : Alike first second) (stop stop' : Nat) :
    Alike (first.closeList stop) (second.closeList stop') := by
  unfold BlockReader.closeList
  rw [h.top?]
  split
  · exact h.close stop stop'
  · exact h

theorem closeFootnote (h : Alike first second) (stop stop' : Nat) :
    Alike (first.closeFootnote stop) (second.closeFootnote stop') := by
  unfold BlockReader.closeFootnote
  rw [h.top?]
  split
  · exact h.close stop stop'
  · exact h

theorem withLastBlank (h : Alike first second) (blank : Bool) :
    Alike { first with lastBlank := blank } { second with lastBlank := blank } :=
  ⟨h.extensions, h.containers, h.literals, h.emptyItem, rfl, h.task⟩

/-- Containers may be renamed, as long as no list turns into a footnote. -/
theorem withSpine (h : Alike first second) {spine spine' : List OpenContainer}
    (hspine : spine.map (·.container) = spine'.map (·.container))
    (hfirst : spineLiterals first.blocks spine = first.literals)
    (hsecond : spineLiterals second.blocks spine' = second.literals) :
    Alike { first with spine := spine } { second with spine := spine' } :=
  ⟨h.extensions, hspine, by simpa only [BlockReader.literals, hfirst, hsecond] using h.literals,
    h.emptyItem, h.lastBlank, h.task⟩

theorem loosenParent (h : Alike first second) : Alike first.loosenParent second.loosenParent := by
  have hfirst := literals_loosenParent first
  have hsecond := literals_loosenParent second
  have hspine := h.containers
  unfold BlockReader.loosenParent at hfirst hsecond ⊢
  split
  · next inner tight marker number start children spine heq =>
      rw [heq] at hfirst hspine
      obtain ⟨inner', next, spine', heq', hinner, hnext, hrest⟩ :
          ∃ inner' next spine', second.spine = inner' :: next :: spine' ∧
            inner.container = inner'.container ∧ .list tight marker number = next.container ∧
              spine.map (·.container) = spine'.map (·.container) := by
        rcases hsecondSpine : second.spine with - | ⟨inner', - | ⟨next, spine'⟩⟩
        · simp [hsecondSpine] at hspine
        · simp [hsecondSpine] at hspine
        · simp only [hsecondSpine, List.map_cons, List.cons.injEq] at hspine
          exact ⟨inner', next, spine', rfl, hspine⟩
      obtain ⟨container, start', children'⟩ := next
      cases hnext
      rw [heq'] at hsecond ⊢
      exact h.withSpine (by simp [hinner, hrest]) hfirst hsecond
  · next hnone =>
      split
      · next inner' tight marker number start' children' spine' heq' =>
          rcases hfirstSpine : first.spine with - | ⟨inner, - | ⟨next, spine⟩⟩
          · simp [hfirstSpine, heq'] at hspine
          · simp [hfirstSpine, heq'] at hspine
          · obtain ⟨container, start, children⟩ := next
            simp only [hfirstSpine, heq', List.map_cons, List.cons.injEq] at hspine
            obtain ⟨-, rfl, -⟩ := hspine
            exact absurd hfirstSpine (hnone inner tight marker number start children spine)
      · exact h

theorem finishList (h : Alike first second) (stop stop' : Nat) :
    Alike (first.finishList stop) (second.finishList stop') := by
  have hlist := h.finishEmptyItem.closeList stop stop'
  rw [finishList_eq, finishList_eq, hlist.lastBlank]
  split
  · exact hlist.loosenParent.withLastBlank false
  · exact hlist

theorem openList (h : Alike first second) (marker : Char) (number start start' : Nat) :
    Alike { first.push (.list true marker number) start with lastBlank := false }
      { second.push (.list true marker number) start' with lastBlank := false } :=
  (h.push _ start start').withLastBlank false

theorem continueList (h : Alike first second) (start start' : Nat) (marker : Char) (number : Nat) :
    Alike (first.continueList start marker number) (second.continueList start' marker number) := by
  have hempty := h.finishEmptyItem
  have hspine := hempty.containers
  unfold BlockReader.continueList
  simp only
  rcases hfirst : first.finishEmptyItem.spine with - | ⟨⟨container, start₁, children⟩, spine⟩
  · rcases hsecond : second.finishEmptyItem.spine with - | ⟨next, spine'⟩
    · exact hempty.openList marker number start start'
    · simp [hfirst, hsecond] at hspine
  · rcases hsecond : second.finishEmptyItem.spine with - | ⟨⟨container', start₂, children'⟩, spine'⟩
    · simp [hfirst, hsecond] at hspine
    simp only [hfirst, hsecond, List.map_cons, List.cons.injEq] at hspine
    obtain ⟨rfl, hrest⟩ := hspine
    have hopen := (hempty.finishList start start').openList marker number start start'
    cases container with
    | list tight other number' =>
        simp only
        split
        · rw [hempty.lastBlank]
          refine (@withSpine _ _ hempty
            (⟨.list (tight && !second.finishEmptyItem.lastBlank) other number', start₁, children⟩ ::
              spine)
            (⟨.list (tight && !second.finishEmptyItem.lastBlank) other number', start₂, children'⟩
              :: spine') ?_ ?_ ?_).withLastBlank false
          · simp [hrest]
          · simp [BlockReader.literals, hfirst, spineLiterals, BlockReader.inFootnote,
              Container.isFootnote]
          · simp [BlockReader.literals, hsecond, spineLiterals, BlockReader.inFootnote,
              Container.isFootnote]
        · exact hopen
    | _ => exact hopen

theorem openFootnote (h : Alike first second) (label : Text) (start start' length length' : Nat) :
    Alike (first.openFootnote label start length) (second.openFootnote label start' length') := by
  have hopened := (((h.finishList start start').closeFootnote start start').advance length
    length').push (.footnote label) start start'
  exact ⟨hopened.extensions, hopened.containers, hopened.literals, hopened.emptyItem,
    hopened.lastBlank, hopened.task⟩

theorem blankLine (h : Alike first second) (n k : Nat) :
    Alike (first.blankLine n) (second.blankLine k) := by
  have hspine := h.containers
  unfold BlockReader.blankLine
  refine advance ?_ n k
  rcases hfirst : first.spine with - | ⟨⟨container, start, children⟩, spine⟩
  · rcases hsecond : second.spine with - | ⟨next, spine'⟩
    · simpa only [hfirst, hsecond] using h.withLastBlank true
    · simp [hfirst, hsecond] at hspine
  · rcases hsecond : second.spine with - | ⟨⟨container', start', children'⟩, spine'⟩
    · simp [hfirst, hsecond] at hspine
    simp only [hfirst, hsecond, List.map_cons, List.cons.injEq] at hspine
    obtain ⟨rfl, hrest⟩ := hspine
    cases container with
    | quote => exact h
    | item indent =>
        rw [h.emptyItem]
        refine (@withSpine _ _ h
          (⟨.item (if second.emptyItem.isSome then 0 else indent), start, children⟩ :: spine)
          (⟨.item (if second.emptyItem.isSome then 0 else indent), start', children'⟩ :: spine')
            ?_ ?_ ?_).withLastBlank true
        · simp [hrest]
        · simp [BlockReader.literals, hfirst, spineLiterals, BlockReader.inFootnote,
            Container.isFootnote]
        · simp [BlockReader.literals, hsecond, spineLiterals, BlockReader.inFootnote,
            Container.isFootnote]
    | _ => simpa only [hfirst, hsecond] using h.withLastBlank true

theorem finishLeaf (h : Alike first second) {read read' : LeafRead}
    (hread : ∀ inFootnote, (read.leaf.literals inFootnote).map Literal.content =
      (read'.leaf.literals inFootnote).map Literal.content) :
    Alike (BlockReader.finishLeaf read first) (BlockReader.finishLeaf read' second) := by
  have happend := @Alike.append first second (.leaf read.leaf read.span)
    (.leaf read'.leaf read'.span) h hread
  exact ⟨happend.extensions, happend.containers, happend.literals, happend.emptyItem,
    happend.lastBlank, happend.task⟩

end Alike

end Canonmark.Source.BlockReader
