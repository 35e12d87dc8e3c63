import Canonmark.Document.Printer
import Canonmark.Proofs.Canonical.Asking

/-!
# Canonical documents

A canonical document has the nodes and leaves of the document it is made of, and what it knows of
its references is what the resolver answered when it was asked for them, one after another.
-/

namespace Canonmark

namespace Asked

instance : LawfulMonad Asked :=
  LawfulMonad.mk' Asked
    (fun asked => congrArg (Asked.mk asked.value) (List.append_nil asked.queries))
    (fun _ _ => rfl)
    (fun asked _ _ => congrArg (Asked.mk _) (List.append_assoc asked.queries _ _))

theorem mapM_ask (resolver : Resolver) (queries : List Query) :
    queries.mapM resolver.ask = ⟨queries.map resolver, queries⟩ := by
  induction queries with
  | nil => rfl
  | cons query queries ih =>
      rw [List.mapM_cons, ih]
      exact congrArg (Asked.mk _) (congrArg (query :: ·) (List.append_nil queries))

end Asked

/-- What a resolver is asked for in a document that stands at a path. -/
def Document.queries (path : Text) (document : Document) : List Query :=
  document.identifiers.map (⟨·, path⟩)

namespace Canonical

structure BlockOutcome (before : Block) (known : List Bool) (after : Block) : Prop where
  becomes : BlockBecomes before after
  answered : Answered before.leaves after.leaves known

structure BlocksOutcome (before : List Block) (known : List Bool) (after : List Block) :
    Prop where
  becomes : BlocksBecome before after
  answered : Answered (Block.leavesOf before) (Block.leavesOf after) known

structure ItemsOutcome (before : List (List Block)) (known : List Bool)
    (after : List (List Block)) : Prop where
  becomes : ItemsBecome before after
  answered : Answered (Block.itemLeaves before) (Block.itemLeaves after) known

theorem verbatimBecomes_verbatim (content : Verbatim) :
    VerbatimBecomes content (verbatim content) := by
  cases content <;> rfl

mutual

theorem asks_block : (before : Block) →
    Asks (before.leaves.filterMap Leaf.identifier?) (BlockOutcome before)
      fun _ _ ask => block ask before
  | .paragraph content => by
      simp only [block]
      exact (asks_inlines 0 content).map Block.paragraph fun _ _ h => ⟨h.becomes, h.answered⟩
  | .heading level content => by
      simp only [block]
      exact (asks_inlines 0 content).map (Block.heading level)
        fun _ _ h => ⟨⟨rfl, h.becomes⟩, h.answered⟩
  | .quote depth children => by
      simp only [block]
      refine (asks_blocks children).map
        (fun children => Block.quote depth (VideoParagraph.split children)) fun _ after h => ?_
      have hisolates := VideoParagraph.isolates_split after
      exact ⟨⟨rfl, after, h.becomes, hisolates⟩, h.answered.losesBreaks hisolates.leaves⟩
  | .list kind tight items => by
      simp only [block]
      exact (asks_items items).map (Block.list kind tight)
        fun _ _ h => ⟨⟨rfl, rfl, h.becomes⟩, h.answered⟩
  | .verbatim content => by
      simp only [block]
      exact .of_pure ⟨verbatimBecomes_verbatim content, .nil⟩

theorem asks_blocks : (before : List Block) →
    Asks ((Block.leavesOf before).filterMap Leaf.identifier?) (BlocksOutcome before)
      fun _ _ ask => blocks ask before
  | [] => by
      simp only [blocks]
      exact .of_pure ⟨rfl, .nil⟩
  | first :: rest => by
      rw [Block.leavesOf, List.filterMap_append]
      simp only [blocks]
      exact (asks_block first).both (asks_blocks rest) List.cons
        fun _ _ _ _ h h' => ⟨⟨h.becomes, h'.becomes⟩, h.answered.append h'.answered⟩

theorem asks_items : (before : List (List Block)) →
    Asks ((Block.itemLeaves before).filterMap Leaf.identifier?) (ItemsOutcome before)
      fun _ _ ask => itemsOf ask before
  | [] => by
      simp only [itemsOf]
      exact .of_pure ⟨rfl, .nil⟩
  | first :: rest => by
      rw [Block.itemLeaves, List.filterMap_append]
      simp only [itemsOf]
      exact (asks_blocks first).both (asks_items rest) List.cons
        fun _ _ _ _ h h' => ⟨⟨h.becomes, h'.becomes⟩, h.answered.append h'.answered⟩

end

/-- The document is a function of the answers to its queries, whoever gives them. -/
theorem exists_documentWith (document : Document) :
    ∃ make : List Bool → Document,
      (∀ known : List Bool, known.length = document.identifiers.length →
        BlocksOutcome document known (make known)) ∧
      ∀ (m : Type → Type) [Monad m] [LawfulMonad m] (resolver : Query → m Answer) (path : Text),
        documentWith resolver path document =
          (fun answers => make (answers.map Answer.isKnown)) <$>
            (document.queries path).mapM resolver := by
  obtain ⟨make, hmakes, hasks⟩ := asks_blocks document
  refine ⟨make, hmakes, fun m _ _ resolver path => ?_⟩
  have hanswers (identifiers : List Text) :
      identifiers.mapM (fun identifier => Answer.isKnown <$> resolver ⟨identifier, path⟩) =
        List.map Answer.isKnown <$> (identifiers.map (⟨·, path⟩)).mapM resolver := by
    induction identifiers with
    | nil => simp
    | cons identifier identifiers ih => simp [ih]
  rw [documentWith]
  refine (hasks m _).trans ?_
  rw [hanswers, Functor.map_map]
  rfl

theorem length_mapM_run {σ : Type} (resolver : Query → StateM σ Answer) (queries : List Query)
    (state : σ) : ((queries.mapM resolver).run state).1.length = queries.length := by
  induction queries generalizing state with
  | nil => rfl
  | cons query queries ih =>
      rw [List.mapM_cons]
      exact congrArg (· + 1) (ih _)

structure Becomes (before after : Document) : Prop where
  blocks : BlocksBecome before after
  leaves : LeavesBecome before.leaves after.leaves

theorem BlocksOutcome.document {before : Document} {known : List Bool} {after : Document}
    (h : BlocksOutcome before known after) : Becomes before after :=
  ⟨h.becomes, leaves_blocks before after h.becomes⟩

/-- Nothing is lost, doubled or moved, whatever the resolver answers, and also if it answers by
what it was asked before. -/
theorem document_becomes (document : Document) :
    (∀ scope : Scope, Becomes document (Canonical.document scope document).value) ∧
      ∀ (σ : Type) (resolver : Query → StateM σ Answer) (path : Text) (state : σ),
        Becomes document ((documentWith resolver path document).run state).1 := by
  obtain ⟨make, hmakes, hasks⟩ := exists_documentWith document
  have hasked (path : Text) : (document.queries path).length = document.identifiers.length :=
    List.length_map _
  refine ⟨fun scope => ?_, fun σ resolver path state => ?_⟩
  · rw [Canonical.document, hasks, Asked.mapM_ask]
    refine (hmakes _ ?_).document
    rw [List.length_map, List.length_map, hasked]
  · rw [hasks]
    refine (hmakes _ ?_).document
    exact (List.length_map _).trans ((length_mapM_run resolver _ state).trans (hasked path))

/--
The resolver is asked for each reference once, in reading order, and what it answers is all that
the document depends on. In particular resolvers that agree on these queries make the same
document and the same text of it.
-/
theorem document_asks (document : Document) :
    (∃ make : List Bool → Document,
      (∀ known : List Bool, known.length = document.identifiers.length →
        (make known).identifiers = document.identifiers ∧ (make known).resolutions = known) ∧
      ∀ (m : Type → Type) [Monad m] [LawfulMonad m] (resolver : Query → m Answer) (path : Text),
        documentWith resolver path document =
          (fun answers => make (answers.map Answer.isKnown)) <$>
            (document.queries path).mapM resolver) ∧
      ∀ (resolver : Resolver) (path : Text),
        let asked := Canonical.document ⟨resolver, path⟩ document
        asked.queries = document.queries path ∧
          asked.value.identifiers = document.identifiers ∧
          asked.value.resolutions =
            (document.queries path).map (fun query => Answer.isKnown (resolver query)) ∧
          ∀ other : Resolver,
            (∀ query ∈ document.queries path,
              Answer.isKnown (other query) = Answer.isKnown (resolver query)) →
            Canonical.document ⟨other, path⟩ document = asked ∧
              ∀ compact : Bool,
                Printer.document compact (Canonical.document ⟨other, path⟩ document).value =
                  Printer.document compact asked.value := by
  obtain ⟨make, hmakes, hasks⟩ := exists_documentWith document
  have hresult (resolver : Resolver) (path : Text) :
      Canonical.document ⟨resolver, path⟩ document =
        ⟨make ((document.queries path).map fun query => Answer.isKnown (resolver query)),
          document.queries path⟩ := by
    have hanswers : ((document.queries path).map resolver).map Answer.isKnown =
        (document.queries path).map fun query => Answer.isKnown (resolver query) := List.map_map
    rw [Canonical.document, hasks, Asked.mapM_ask, ← hanswers]
    exact congrArg (Asked.mk _) (List.append_nil _)
  refine ⟨⟨make, fun known hlength => ?_, hasks⟩, fun resolver path => ?_⟩
  · exact ⟨(hmakes known hlength).answered.identifiers, (hmakes known hlength).answered.resolutions⟩
  · have hanswered := (hmakes
      ((document.queries path).map fun query => Answer.isKnown (resolver query))
      (by rw [List.length_map, Document.queries, List.length_map])).answered
    rw [hresult resolver path]
    refine ⟨rfl, hanswered.identifiers, hanswered.resolutions, fun other hagree => ?_⟩
    have hsame : Canonical.document ⟨other, path⟩ document =
        Canonical.document ⟨resolver, path⟩ document := by
      rw [hresult other path, hresult resolver path, List.map_congr_left hagree]
    rw [← hresult resolver path, hsame]
    exact ⟨rfl, fun _ => rfl⟩

/-- Two resolvers for references in a list in a quote and in a heading, one of which fails where
the other one knows no target, and a resolver that answers by turns. -/
theorem document_asks_two :
    let document : Document :=
      [.quote 1 [.list (.bullet '-') true
        [[.paragraph [.leaf (.html "<b>".toList),
          .node (.strong '*') [.leaf (.xref "A".toList false)]]]]],
        .heading 1 [.node (.link false [] none) [.leaf (.xref "B".toList true)]]]
    let resolver : Resolver := fun query =>
      .ok (if query.uid = "A".toList then some ⟨query.uid, none, none⟩ else none)
    let other : Resolver := fun query =>
      if query.uid = "A".toList then .ok (some ⟨[], none, none⟩) else .error (.unavailable [])
    let byTurns : Query → StateM Nat Answer := fun query asked =>
      (.ok (if asked % 2 = 0 then some ⟨query.uid, none, none⟩ else none), asked + 1)
    (∀ query ∈ document.queries [],
        Answer.isKnown (other query) = Answer.isKnown (resolver query)) ∧
      Canonical.document ⟨other, []⟩ document = Canonical.document ⟨resolver, []⟩ document ∧
      [true, false].length = document.identifiers.length ∧
      ∃ make : List Bool → Document, (make [true, false]).resolutions = [true, false] ∧
        documentWith byTurns [] document =
          (fun answers => make (answers.map Answer.isKnown)) <$>
            (document.queries []).mapM byTurns := by
  intro document resolver other byTurns
  have hagree : ∀ query ∈ document.queries [],
      Answer.isKnown (other query) = Answer.isKnown (resolver query) := by decide
  have htwo : [true, false].length = document.identifiers.length := by decide
  obtain ⟨⟨make, hmakes, hasks⟩, hresolved⟩ := document_asks document
  obtain ⟨-, -, -, hdetermined⟩ := hresolved resolver []
  exact ⟨hagree, (hdetermined other hagree).1, htwo, make, (hmakes [true, false] htwo).2,
    hasks (StateM Nat) byTurns []⟩

end Canonical

end Canonmark
