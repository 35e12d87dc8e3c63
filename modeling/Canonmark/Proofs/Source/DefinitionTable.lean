import Canonmark.Proofs.Source.Alike
import Canonmark.Proofs.Source.Onward

/-!
# The table of definitions

The reader keeps a table of the definitions it has read. Each of them is a definition of the
source where its span says, they stand behind one another in the order of the table, and no two
of them define the same label.
-/

namespace Canonmark.Source

namespace Definition

/-- A definition stands in a source where its span says. -/
def StandsIn (extensions : Extensions) (source : Text) (definition : Definition) : Prop :=
  ∃ containers, scan? extensions containers definition.span.start
    (source.drop definition.span.start) =
      some (definition, definition.span.stop - definition.span.start)

/-- Definitions of a source up to a position, in their order, with different labels. -/
structure Table (extensions : Extensions) (source : Text) (position : Nat)
    (definitions : List Definition) : Prop where
  stands : ∀ definition ∈ definitions, definition.StandsIn extensions source
  ascending : definitions.Pairwise fun first second => first.span.stop ≤ second.span.start
  behind : ∀ definition ∈ definitions, definition.span.stop ≤ position
  distinct : (definitions.map (·.key)).Nodup

variable {extensions : Extensions} {containers : List Container} {source text : Text}
  {position : Nat} {definition : Definition} {definitions : List Definition}

theorem scan?_span {length : Nat}
    (h : scan? extensions containers position text = some (definition, length)) :
    definition.span = .ofLength position length := by
  unfold scan? at h
  simp only at h
  split at h
  · obtain ⟨⟨label, n⟩, -, h⟩ := Option.bind_eq_some_iff.mp h
    simp only at h
    split at h
    · obtain ⟨⟨destination, title, size⟩, -, h⟩ := Option.map_eq_some_iff.mp h
      cases h
      rfl
    · cases h
  · cases h

theorem standsIn_scan? {length : Nat} (hsource : source.drop position = text)
    (h : scan? extensions containers position text = some (definition, length)) :
    definition.StandsIn extensions source := by
  refine ⟨containers, ?_⟩
  rw [scan?_span h, Span.start_ofLength, Span.stop_ofLength, hsource, h, Nat.add_sub_cancel_left]

namespace Table

theorem mono (h : Table extensions source position definitions) {position' : Nat}
    (hposition : position ≤ position') : Table extensions source position' definitions where
  stands := h.stands
  ascending := h.ascending
  behind definition hdefinition := Nat.le_trans (h.behind definition hdefinition) hposition
  distinct := h.distinct

theorem register (h : Table extensions source position definitions)
    (hstands : definition.StandsIn extensions source)
    (hstart : position ≤ definition.span.start) :
    Table extensions source definition.span.stop (Definition.register definitions definition) := by
  have hkept := h.mono (Nat.le_trans hstart definition.span.start_le_stop)
  unfold Definition.register
  split
  · exact hkept
  next hnew =>
  simp only [List.any_eq_true, decide_eq_true_eq, not_exists, not_and] at hnew
  constructor
  case stands =>
    intro other hother
    rcases List.mem_append.mp hother with hother | hother
    · exact h.stands other hother
    · rw [List.mem_singleton.mp hother]
      exact hstands
  case ascending =>
    refine List.pairwise_append.mpr ⟨h.ascending, List.pairwise_singleton _ _, ?_⟩
    intro other hother last hlast
    rw [List.mem_singleton.mp hlast]
    exact Nat.le_trans (h.behind other hother) hstart
  case behind =>
    intro other hother
    rcases List.mem_append.mp hother with hother | hother
    · exact hkept.behind other hother
    · exact Nat.le_of_eq (congrArg (·.span.stop) (List.mem_singleton.mp hother))
  case distinct =>
    rw [List.map_append, List.map_singleton]
    refine List.nodup_append.mpr ⟨h.distinct, by simp, ?_⟩
    intro key hkey last hlast
    obtain ⟨other, hother, rfl⟩ := List.mem_map.mp hkey
    rw [List.mem_singleton.mp hlast]
    exact hnew other hother

theorem ascending_spans (h : Table extensions source position definitions) :
    (definitions.map (·.span)).Pairwise (·.start ≤ ·.start) := by
  exact List.pairwise_map.mpr (h.ascending.imp fun {first _} hbehind =>
    Nat.le_trans first.span.start_le_stop hbehind)

end Table

end Definition

namespace BlockReader

variable {extensions : Extensions} {source : Text} {reader after : BlockReader}

/-- A reader stands at its position in the source, behind the definitions of its table. -/
structure Reading (extensions : Extensions) (source : Text) (reader : BlockReader) : Prop where
  table : Definition.Table extensions source reader.position reader.definitions
  rest : source.drop reader.position = reader.rest
  extensions : reader.extensions = extensions

namespace Reading

theorem stay (h : Reading extensions source reader) (hstays : Stays reader after) :
    Reading extensions source after where
  table := by
    rw [hstays.position, hstays.definitions]
    exact h.table
  rest := by rw [hstays.position, hstays.rest, h.rest]
  extensions := hstays.extensions.trans h.extensions

theorem onward (h : Reading extensions source reader) {position : Nat} {rest : Text}
    (honward : Onward reader.position reader.rest position rest) :
    Reading extensions source { reader with position := position, rest := rest } :=
  ⟨h.table.mono honward.le, honward.source h.rest, h.extensions⟩

theorem advance (h : Reading extensions source reader) (n : Nat) :
    Reading extensions source (reader.advance n) :=
  h.onward ((Onward.refl _ _).drop n)

end Reading

def HasHead (reader : BlockReader) (head : LineHead) : Prop :=
  Onward reader.position reader.rest (reader.position + head.taken) head.rest

theorem HasHead.start (reader : BlockReader) : reader.HasHead (LineHead.start reader.rest) :=
  .refl _ _

theorem HasHead.leads {head next : LineHead} (h : reader.HasHead head) (hleads : head.Leads next) :
    reader.HasHead next :=
  hleads.onward h

theorem HasHead.stay {head : LineHead} (h : reader.HasHead head) (hstays : Stays reader after) :
    after.HasHead head := by
  unfold HasHead at h ⊢
  rwa [hstays.position, hstays.rest]

def Opened (extensions : Extensions) (source : Text)
    (opened : BlockReader × Option LineHead) : Prop :=
  Reading extensions source opened.1 ∧ ∀ head ∈ opened.2, opened.1.HasHead head

theorem opened_openItem (h : Reading extensions source reader) (indent : Nat) (inner : LineHead)
    (marker : ItemMarker) {next : LineHead} (hnext : reader.HasHead next) :
    Opened extensions source (openItem indent inner marker next reader) := by
  have hstays := (stays_continueList (reader.position + inner.taken - indent) marker.marker
    marker.number reader).trans (stays_push (.item marker.indent)
      (reader.position + inner.taken - indent) _)
  have hopened := h.stay hstays
  have hhead := hnext.stay hstays
  unfold openItem
  simp only
  split
  · exact ⟨(hopened.advance _).stay ⟨rfl, rfl, rfl, rfl, rfl⟩, by simp⟩
  split
  · exact ⟨hopened, by simpa using hhead⟩
  next checked boxed htask =>
  have hboxed : next.Leads boxed := by
    split at htask
    · exact LineHead.leads_taskMarker? htask
    · cases htask
  split
  · next n hblank =>
      have hmarked := hopened.stay (stays_append (.leaf (.task checked)
        (.upTo (reader.position + next.taken) (reader.position + boxed.taken))) _)
      exact ⟨(hmarked.advance (boxed.taken + n)).stay ⟨rfl, rfl, rfl, rfl, rfl⟩, by simp⟩
  · refine ⟨⟨hopened.table, hopened.rest, hopened.extensions⟩, fun head hfound => ?_⟩
    cases hfound
    exact hhead.leads hboxed

theorem opened_openContainers (h : Reading extensions source reader) (fuel : Nat)
    {head : LineHead} (hhead : reader.HasHead head) :
    Opened extensions source (openContainers fuel head reader) := by
  induction fuel generalizing head reader with
  | zero => exact ⟨h, by simpa [openContainers] using hhead⟩
  | succ fuel ih =>
      have hinner := hhead.leads (LineHead.leads_takeUpTo head 4)
      unfold openContainers
      simp only
      split
      · exact ⟨h, by simpa using hhead⟩
      split
      · next opened hfootnote =>
          obtain ⟨label, length, rfl⟩ := exists_openFootnote hfootnote
          exact ih ((h.advance length).stay (stays_openFootnote _ _ _ _)) (.start _)
      split
      · next marker next hmarker =>
          have hitem := opened_openItem h (head.takeUpTo 4).1 (head.takeUpTo 4).2 marker
            (hinner.leads (LineHead.leads_itemMarker? hmarker))
          split
          · next opened content hopened =>
              rw [hopened] at hitem
              split
              · exact hitem
              · exact ih hitem.1 (hitem.2 content rfl)
          · next hopened =>
              rw [hopened] at hitem
              exact hitem
      split
      · next next hquote =>
          have hstays := (stays_finishList reader.position reader).trans
            (stays_push .quote (reader.position + (head.takeUpTo 4).2.taken) _)
          exact ih (h.stay hstays) ((hinner.leads (LineHead.leads_quoteMarker? hquote)).stay hstays)
      · exact ⟨h, by simpa using hhead⟩

theorem reading_finishLeaf (h : Reading extensions source reader) {read : LeafRead}
    (hread : read.From reader.position reader.rest) :
    Reading extensions source (finishLeaf read reader) := by
  have hstays := stays_append (.leaf read.leaf read.span) reader
  refine (h.stay hstays).onward ?_
  rw [hstays.position, hstays.rest]
  exact hread

theorem HasHead.from {head : LineHead} (h : reader.HasHead head) {read : LeafRead}
    (hread : read.From (reader.position + head.taken) head.rest) :
    read.From reader.position reader.rest :=
  Onward.trans h hread

theorem reading_readText (h : Reading extensions source reader) {head : LineHead}
    (hhead : reader.HasHead head) : Reading extensions source (readText head reader) := by
  have hread : Reading extensions source { reader with task := none } :=
    ⟨h.table, h.rest, h.extensions⟩
  exact reading_finishLeaf hread (hhead.from (LeafReader.from_paragraph _ _ _ _ _))

theorem reading_readParagraph (h : Reading extensions source reader) (fuel : Nat)
    {head : LineHead} (hhead : reader.HasHead head) :
    Reading extensions source (readParagraph fuel head reader) := by
  induction fuel generalizing head reader with
  | zero => exact h
  | succ fuel ih =>
      unfold readParagraph
      simp only
      split
      · exact reading_readText h hhead
      next definition length hscan =>
      rw [h.extensions] at hscan
      have hspan := Definition.scan?_span hscan
      have hstands := Definition.standsIn_scan? (hhead.source h.rest) hscan
      have htable := h.table.register hstands
        (by rw [hspan]; exact Nat.le_add_right _ _)
      have hnext (ending : Nat) : Reading extensions source
          { reader.advance (head.taken + length + ending) with
            definitions := Definition.register reader.definitions definition } := by
        have hadvanced := h.advance (head.taken + length + ending)
        refine ⟨htable.mono ?_, hadvanced.rest, hadvanced.extensions⟩
        rw [hspan]
        simp only [advance, Span.stop_ofLength]
        omega
      split
      · exact hnext _
      · exact ih (hnext _) ((LineHead.leads_takeAll _).onward
          ((LineHead.leads_takeExactly _ 4).onward (LineHead.onward_within _ _ _)))

theorem reading_readLeaf (h : Reading extensions source reader) {head : LineHead}
    (hhead : reader.HasHead head) : Reading extensions source (readLeaf head reader) := by
  have hstays := stays_finishList reader.position reader
  have hread := h.stay hstays
  have hinner := (hhead.stay hstays).leads (LineHead.leads_takeUpTo head 4)
  unfold readLeaf
  simp only
  split
  · exact reading_readText hread ((hhead.stay hstays).leads (LineHead.leads_takeAll head))
  split
  · have hblank (blank : Bool) : Stays (reader.finishList reader.position)
        { reader.finishList reader.position with lastBlank := blank } := ⟨rfl, rfl, rfl, rfl, rfl⟩
    exact reading_finishLeaf (hread.stay (hblank _))
      ((hinner.stay (hblank _)).from (LeafReader.from_indentedCode _ _ _ _))
  split
  · exact reading_finishLeaf hread (hinner.from (LeafReader.from_metadata _ _ _))
  split
  · exact reading_finishLeaf hread (hinner.from (LeafReader.from_html _ _ _ _ _))
  split
  · exact reading_finishLeaf hread (Onward.drop hinner _)
  split
  · exact reading_finishLeaf hread (hinner.from (LeafReader.from_heading _ _ _ _))
  split
  · exact reading_finishLeaf hread (hinner.from (LeafReader.from_fencedCode _ _ _ _ _ _))
  · exact reading_readParagraph hread _ hinner

theorem reading_readBlock (h : Reading extensions source reader) :
    Reading extensions source reader.readBlock := by
  have hhead := (HasHead.start reader).leads
    (LineHead.leads_continuation reader.containers (LineHead.start reader.rest))
  have hstays := stays_closeTo
    (LineHead.continuation reader.containers (LineHead.start reader.rest)).1 reader.position reader
  have hopened := opened_openContainers (h.stay hstays)
    ((reader.closeTo (LineHead.continuation reader.containers (LineHead.start reader.rest)).1
      reader.position).rest.length + 1) (hhead.stay hstays)
  unfold readBlock
  simp only
  split
  · next opened hnone =>
      rw [hnone] at hopened
      exact hopened.1
  · next opened head hsome =>
      rw [hsome] at hopened
      split
      · exact (hopened.1.advance _).stay (stays_blankLine _ _)
      · exact reading_readLeaf hopened.1 (hopened.2 head rfl)

theorem reading_readBlocks (h : Reading extensions source reader) (fuel : Nat) :
    Reading extensions source (readBlocks fuel reader) := by
  induction fuel generalizing reader with
  | zero => exact h
  | succ fuel ih =>
      unfold readBlocks
      split
      · exact h
      · exact ih (reading_readBlock h)

/-- The table of a source holds its definitions in their order, each where it is defined. -/
theorem reading_readSource (extensions : Extensions) (source : Text) :
    Reading extensions source (readSource extensions source) := by
  have hstart : Reading extensions source
      { extensions := extensions, position := 0, rest := source } :=
    ⟨⟨by simp, .nil, by simp, .nil⟩, rfl, rfl⟩
  exact (reading_readBlocks hstart _).stay (stays_closeTo _ _ _)

end BlockReader

end Canonmark.Source
