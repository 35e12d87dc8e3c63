import Canonmark.Proofs.Printed.Blocks

/-!
# Printed lists

An item is read behind its marker, and closed by the marker of the next one, which goes on with the
list. Behind the last item the list is still open.
-/

namespace Canonmark.Printed

open Source

variable {extensions : Extensions} {source : Text} {reader : BlockReader}
variable {levels : List Level} {base draft : Draft} {more : List Container}
variable {kind : ListKind} {spacing : Spacing} {index : Nat}

theorem Reads.leave_item {items found : List Outline} {marker : Char} {width : Nat}
    (hlength : base.frames.length = depth levels)
    (h : Reads extensions source (levels ++ [.item marker width])
      (((base.push (.list kind items)).push (.item [])).append found) more reader)
    {inner : List Level} (hfits : Fits inner more) :
    ∃ tight number,
      Reads extensions source levels (base.append [.list kind (items ++ [.item found])])
        (.list tight marker number :: .item width :: more) reader ∧
      Fits (.item marker width :: inner) (.list tight marker number :: .item width :: more) ∧
      (reader.draft source).closeTo (depth levels + 1)
        = base.push (.list kind (items ++ [.item found])) := by
  obtain ⟨containers, hfits', hsame⟩ := h.stands
  obtain ⟨outer, last, rfl, houterFits, hlastFits⟩ := hfits'.split
  cases hlastFits with
  | item tight marker number hwide hnone =>
      cases hnone
      have hdeeper : depth (levels ++ [.item marker width]) = depth levels + 2 := by
        rw [depth_append]
        rfl
      have hkept : (reader.draft source).closeTo (depth levels + 1)
          = base.push (.list kind (items ++ [.item found])) := by
        have hclosed := h.draft
        rw [hdeeper] at hclosed
        rw [← Draft.closeTo_closeTo (Nat.le_succ (depth levels + 1)), hclosed,
          Draft.closeTo_of_succ]
        · exact Draft.close_push_append _ _ _
        · rw [Draft.length_append, Draft.push, Draft.push, List.length_cons, List.length_cons,
            hlength]
      refine ⟨tight, number, ⟨h.ready, ⟨outer, houterFits, ?_⟩, ?_⟩,
        .item tight marker number hwide hfits, hkept⟩
      · rw [hsame, List.append_assoc]
        rfl
      · rw [← Draft.closeTo_closeTo (Nat.le_succ (depth levels)), hkept, Draft.closeTo_of_succ]
        · rfl
        · rw [Draft.push, List.length_cons, hlength]

structure ItemFront (extensions : Extensions) (kind : ListKind) (index : Nat) (line : Text) :
    Prop where
  marks : Marks kind (itemNumber kind index) (Printer.itemMarker kind index)
  visible : Visible line
  rule : ∀ behind,
    rule? (Printer.itemMarker kind index ++ ' ' :: (line ++ '\n' :: behind)) = none
  box : extensions.tasklists = true → isCheckBox line = false

theorem itemFront {count : Nat} (hkind : settledKind count kind = true) (hless : index < count)
    {content : List Text}
    (h : startsItem extensions (Printer.itemMarker kind index) content = true) {line : Text}
    {later : List Text} (hshape : content = line :: later)
    (hone : OneLine (Printer.itemMarker kind index ++ ' ' :: line)) :
    ItemFront extensions kind index line := by
  subst hshape
  simp only [startsItem, List.head?_cons, Option.any_some, Bool.and_eq_true, Bool.not_eq_true',
    Option.isNone_iff_eq_none, Bool.and_eq_false_iff] at h
  obtain ⟨⟨hvisible, hrule⟩, hbox⟩ := h
  refine ⟨marks_itemMarker hkind hless, visible_of_isVisible hvisible, fun behind => ?_, ?_⟩
  · have hsame := (hone.same behind).rule?
    rw [hrule, List.append_assoc, List.cons_append] at hsame
    exact hsame.symm
  · intro henabled
    rcases hbox with hdisabled | hnone
    · rw [henabled] at hdisabled
      cases hdisabled
    · exact hnone

/-- A reader in an item that has been opened, in front of its content and the items behind it. -/
structure Opened (extensions : Extensions) (source : Text) (levels : List Level) (base : Draft)
    (kind : ListKind) (index : Nat) (found : List Outline) (reader : BlockReader) (taken : Nat)
    (line : Text) (later : List Text) (tail : Text) (fuel : Nat) : Prop where
  length : base.frames.length = depth levels
  reads : Reads extensions source (levels ++ [itemLevel kind index])
    ((base.push (.list kind found)).push (.item [])) [] reader
  located : source.drop (reader.position + taken) = line ++ '\n' :: (below levels later ++ tail)
  ones : ∀ other ∈ line :: later, OneLine other
  enough : line.length < fuel

def inItem (kind : ListKind) (index taken : Nat) (reader : BlockReader) : BlockReader :=
  (reader.continueList (reader.position + taken) (listMarker kind) (itemNumber kind index)).push
    (.item ((Printer.itemMarker kind index).length + 1)) (reader.position + taken)

theorem position_inItem (taken : Nat) (reader : BlockReader) :
    (inItem kind index taken reader).position = reader.position :=
  (BlockReader.stays_continueList _ _ _ reader).position

theorem ItemFront.enter {line : Text} (h : ItemFront extensions kind index line)
    {taken : Nat} (fuel : Nat) (hready : Ready extensions source (inItem kind index taken reader))
    (henabled : reader.extensions = extensions) (behind : Text) :
    enter (fuel + 1)
        (headAt taken (Printer.itemMarker kind index ++ ' ' :: (line ++ '\n' :: behind))) reader
      = enter fuel
          (headAt (taken + (Printer.itemMarker kind index).length + 1) (line ++ '\n' :: behind))
          (inItem kind index taken reader) :=
  enter_item h.marks h.visible (h.rule behind)
    (fun htasks taken => taskMarker?_none h.visible (h.box (henabled ▸ htasks)) taken behind) hready

theorem opened_inItem {found : List Outline} {taken fuel : Nat} {line tail : Text}
    {later : List Text} (hlength : base.frames.length = depth levels)
    (hspec : Ready extensions source (inItem kind index taken reader) ∧
      StandsIn (levels ++ [itemLevel kind index]) [] (inItem kind index taken reader) ∧
      (inItem kind index taken reader).draft source
        = (base.push (.list kind found)).push (.item []))
    (hlocated : source.drop (reader.position + taken)
      = (Printer.itemMarker kind index ++ ' ' :: line) ++ '\n' :: (below levels later ++ tail))
    (hones : ∀ other ∈ (Printer.itemMarker kind index ++ ' ' :: line) :: later, OneLine other)
    (henough : line.length < fuel) :
    Opened extensions source levels base kind index found (inItem kind index taken reader)
      (taken + (Printer.itemMarker kind index).length + 1) line later tail fuel := by
  obtain ⟨hready, hstands, hsame⟩ := hspec
  have hfront : Printer.itemMarker kind index ++ ' ' :: line
      = (Printer.itemMarker kind index ++ [' ']) ++ line := by simp
  refine ⟨hlength, reads_of_opened hready hstands hsame, ?_, ?_, henough⟩
  · have hbehind := congrArg (List.drop ((Printer.itemMarker kind index).length + 1)) hlocated
    have hwidth : (Printer.itemMarker kind index).length + 1
        = (Printer.itemMarker kind index ++ [' ']).length := by simp
    rw [List.drop_drop, hfront, hwidth, List.append_assoc, List.drop_left, ← hwidth] at hbehind
    rw [position_inItem, ← hbehind]
    congr 1
    omega
  · intro other hmem
    rcases List.mem_cons.mp hmem with rfl | hmem
    · have hone := hones _ List.mem_cons_self
      rw [hfront] at hone
      exact hone.append
    · exact hones other (List.mem_cons_of_mem _ hmem)

/-! ## Items one after the other -/

def KeepsList (kind : ListKind) (more : List Container) : Prop :=
  ∃ tight number, keptOpen more = [.list tight (listMarker kind) number]

theorem KeepsList.not_quote (h : KeepsList kind more) : more.head? ≠ some .quote := by
  obtain ⟨tight, number, hkept⟩ := h
  intro hquote
  obtain ⟨rest, rfl⟩ := List.head?_eq_some_iff.mp hquote
  cases hkept

theorem KeepsList.left (h : KeepsList kind more) (tight : Bool) (items : List (List Block)) :
    Left (.list kind tight items) more where
  quote := fun hquote => absurd hquote h.not_quote
  list := fun tight marker number hkept => by
    obtain ⟨_, _, hsame⟩ := h
    rw [hsame] at hkept
    cases hkept
    rfl

def ItemsReadBack (extensions : Extensions) (source : Text) (kind : ListKind) (spacing : Spacing)
    (index : Nat) (items : List (List Block)) : Prop :=
  ∀ {levels base found reader taken line later tail fuel},
    Opened extensions source levels base kind index found reader taken line later tail fuel →
      itemLines kind spacing index items = (Printer.itemMarker kind index ++ ' ' :: line) :: later →
        StopsAfter extensions levels (itemLevels kind spacing index items) tail →
          Finds extensions source levels
            (base.append [.list kind (found ++ Block.itemOutlines items)]) (KeepsList kind) tail
            (line ++ '\n' :: (below levels later ++ tail))
            (enter fuel (headAt taken (line ++ '\n' :: (below levels later ++ tail))) reader)

theorem itemsReadBack_nil : ItemsReadBack extensions source kind spacing index [] := by
  intro levels base found reader taken line later tail fuel hopened hprinted
  cases hprinted

theorem ItemsReadBack.arrive {items : List (List Block)} {found : List Outline}
    (h : ItemsReadBack extensions source kind spacing index items) {line tail : Text}
    {later : List Text} (hfront : ItemFront extensions kind index line)
    (hprinted : itemLines kind spacing index items
      = (Printer.itemMarker kind index ++ ' ' :: line) :: later)
    (hlength : base.frames.length = depth levels) (hsome : found ≠ [])
    (hreads : Reads extensions source levels (base.append [.list kind found]) more reader)
    {inner : List Level} (hfits : Fits inner more) (hkeeps : KeepsList kind more)
    (hheld : (reader.draft source).closeTo (depth levels + 1) = base.push (.list kind found))
    (hones : ∀ other ∈ (Printer.itemMarker kind index ++ ' ' :: line) :: later, OneLine other)
    (hstops : StopsAfter extensions levels (itemLevels kind spacing index items) tail)
    (hrest : reader.rest
      = below levels ((Printer.itemMarker kind index ++ ' ' :: line) :: later) ++ tail) :
    ∃ last more' inner', Steps reader last ∧
      Reads extensions source levels
        (base.append [.list kind (found ++ Block.itemOutlines items)]) more' last ∧
      Fits inner' more' ∧ last.rest = tail ∧ KeepsList kind more' := by
  rw [below_cons, List.append_assoc, List.cons_append] at hrest
  obtain ⟨taken, next, hstep, hentered, hlocated, -, hopen⟩ := hreads.arrive hfits
    (hfront.marks.isMarker.visible (' ' :: line)) (fun hquote => absurd hquote hkeeps.not_quote)
    hrest
  obtain ⟨tight, number, hkept⟩ := hkeeps
  rw [KeepsOpen, hkept, List.length_singleton, hheld] at hopen
  rw [hkept] at hentered
  have hnextDraft : next.draft source = base.push (.list kind found) := by
    obtain ⟨containers, hfits, hsame⟩ := hentered.stands
    rw [← hopen, Draft.closeTo_of_le]
    rw [BlockReader.length_draft, ← length_containers, hsame, List.length_append, hfits.length]
    exact Nat.le_refl _
  have hspec := nextItem_spec hentered.ready hentered.stands hsome hnextDraft
    (itemNumber kind index)
    (next.position + taken) (Nat.succ_pos (Printer.itemMarker kind index).length)
  have hlonger : (line ++ '\n' :: (below levels later ++ tail)).length < reader.rest.length := by
    have hcarried := length_le_carry levels (Printer.itemMarker kind index ++ ' ' :: line)
    simp only [List.length_append, List.length_cons] at hcarried
    simp only [hrest, List.length_append, List.length_cons]
    omega
  have henough : line.length < reader.rest.length := by
    rw [List.length_append] at hlonger
    omega
  have hopened := opened_inItem hlength hspec hlocated hones henough
  rw [List.append_assoc, List.cons_append,
    hfront.enter reader.rest.length hspec.1 hentered.ready.extensions] at hstep
  obtain ⟨hless, last, more', inner', hsteps, hfound', hfits', hdone, hleft⟩ :=
    h hopened hprinted hstops
  refine ⟨last, more', inner', .step ?_ (hstep ▸ hsteps), hfound', hfits', hdone, hleft⟩
  rw [hstep]
  exact hless.trans hlonger

theorem itemLines_cons (kind : ListKind) (index : Nat) {item : List Block} {line : Text}
    {inner : List Text} (h : allLines spacing item = line :: inner) (rest : List (List Block)) :
    itemLines kind spacing index (item :: rest)
      = (Printer.itemMarker kind index ++ ' ' :: line)
          :: (inner.map (itemLevel kind index).mark
            ++ (List.replicate (spacing.gap false rest.isEmpty) []
              ++ itemLines kind spacing (index + 1) rest)) := by
  rw [itemLines, h, hang, List.append_assoc, List.cons_append]
  rfl

theorem itemsSettled_cons {item : List Block} {rest : List (List Block)}
    (h : itemsSettled extensions kind spacing index (item :: rest) = true) :
    allSettled extensions spacing item = true ∧
      (∃ line inner, allLines spacing item = line :: inner) ∧
      startsItem extensions (Printer.itemMarker kind index) (allLines spacing item) = true ∧
      itemsSettled extensions kind spacing (index + 1) rest = true := by
  simp only [itemsSettled, Bool.and_eq_true] at h
  obtain ⟨line, inner, hshape, -⟩ := startsItem_cons h.1.2
  exact ⟨h.1.1.2, ⟨line, inner, hshape⟩, h.1.2, h.2⟩

/-- The paragraph that ends an item is stopped by the next item, and by what stops the list. -/
theorem stopsAfter_item {item : List Block} {rest : List (List Block)} {tail : Text}
    (hlast : spacing.gap false true = 0)
    (hnext : rest ≠ [] → ∃ line later, ItemFront extensions kind (index + 1) line ∧
      itemLines kind spacing (index + 1) rest
        = (Printer.itemMarker kind (index + 1) ++ ' ' :: line) :: later)
    (hstops : StopsAfter extensions levels (itemLevels kind spacing index (item :: rest)) tail) :
    StopsAfter extensions (levels ++ [itemLevel kind index]) (lastLevels spacing item)
      (below levels (List.replicate (spacing.gap false rest.isEmpty) [])
        ++ (below levels (itemLines kind spacing (index + 1) rest) ++ tail)) := by
  cases rest with
  | nil =>
      rw [itemLevels, List.isEmpty_nil, if_pos rfl] at hstops
      rw [List.isEmpty_nil, hlast]
      exact hstops.inside
  | cons second rest =>
      obtain ⟨line, later, hfront, hprinted⟩ := hnext (List.cons_ne_nil second rest)
      intro inner hopened containers hfits
      rw [List.append_assoc, List.singleton_append] at hfits
      cases spacing.gap false (second :: rest).isEmpty with
      | succ n =>
          rw [List.replicate_succ, below_cons, List.append_assoc, List.cons_append]
          exact stops_blank hfits _
      | zero =>
          rw [List.replicate_zero, below_nil, List.nil_append, hprinted, below_cons,
            List.append_assoc, List.cons_append]
          refine stops_item (hfront.marks.isMarker.visible (' ' :: line)) hfits
            (fun hquote => by cases hquote) ?_
          rw [List.append_assoc, List.cons_append]
          exact hfront.marks.starts hfront.visible (fun hinside => by cases hinside) _

theorem itemsReadBack_cons {item : List Block} {rest : List (List Block)} {count : Nat}
    (hitem : AllReadBack extensions source spacing item)
    (hrest : ItemsReadBack extensions source kind spacing (index + 1) rest)
    (hlast : spacing.gap false true = 0) (hkind : settledKind count kind = true)
    (hless : index + (item :: rest).length ≤ count)
    (h : itemsSettled extensions kind spacing index (item :: rest) = true) :
    ItemsReadBack extensions source kind spacing index (item :: rest) := by
  intro levels base found reader taken line later tail fuel hopened hprinted hstops
  obtain ⟨-, ⟨first, inner, hshape⟩, -, hrestSettled⟩ := itemsSettled_cons h
  rw [itemLines_cons kind index hshape, List.cons.injEq, List.append_cancel_left_eq,
    List.cons.injEq] at hprinted
  obtain ⟨⟨-, rfl⟩, rfl⟩ := hprinted
  have hones : ∀ other ∈ itemLines kind spacing (index + 1) rest, OneLine other := fun other hmem =>
    hopened.ones other
      (List.mem_cons_of_mem _ (List.mem_append_right _ (List.mem_append_right _ hmem)))
  have hnext : rest ≠ [] → ∃ line later, ItemFront extensions kind (index + 1) line ∧
      itemLines kind spacing (index + 1) rest
        = (Printer.itemMarker kind (index + 1) ++ ' ' :: line) :: later := by
    intro hsome
    obtain ⟨second, rest, rfl⟩ := List.exists_cons_of_ne_nil hsome
    obtain ⟨-, ⟨line, inner, hshape⟩, hstarts, -⟩ := itemsSettled_cons hrestSettled
    have hprinted := itemLines_cons kind (index + 1) hshape rest
    simp only [List.length_cons] at hless
    exact ⟨line, _, itemFront hkind (by omega) hstarts hshape
      (hones _ (hprinted ▸ List.mem_cons_self)), hprinted⟩
  have hsplit : below levels (inner.map (itemLevel kind index).mark
        ++ (List.replicate (spacing.gap false rest.isEmpty) []
          ++ itemLines kind spacing (index + 1) rest)) ++ tail
      = below (levels ++ [itemLevel kind index]) inner
        ++ (below levels (List.replicate (spacing.gap false rest.isEmpty) [])
          ++ (below levels (itemLines kind spacing (index + 1) rest) ++ tail)) := by
    rw [below_append, below_append, below_map, List.append_assoc, List.append_assoc]
  have hcontent : Entered extensions source (levels ++ [itemLevel kind index])
      ((base.push (.list kind found)).push (.item [])) [] reader taken first inner
      (below levels (List.replicate (spacing.gap false rest.isEmpty) [])
        ++ (below levels (itemLines kind spacing (index + 1) rest) ++ tail)) fuel := by
    refine ⟨hopened.reads, hsplit ▸ hopened.located, fun other hmem => ?_, hopened.enough⟩
    rcases List.mem_cons.mp hmem with rfl | hmem
    · exact hopened.ones _ List.mem_cons_self
    · have hone := hopened.ones ((itemLevel kind index).mark other)
        (List.mem_cons_of_mem _ (List.mem_append_left _ (List.mem_map_of_mem hmem)))
      obtain ⟨front, hhung⟩ := exists_front_hung ((Printer.itemMarker kind index).length + 1) other
      have hsame : (itemLevel kind index).mark other = front ++ other := hhung
      rw [hsame] at hone
      exact hone.append
  obtain ⟨hless, last₁, more₁, inner₁, hsteps₁, hreads₁, hfits₁, hrest₁, -⟩ :=
    hitem hcontent (.inl rfl) hshape (stopsAfter_item hlast hnext hstops)
  rw [itemLevel, place_append_item] at hreads₁
  obtain ⟨tight, number, hleft, hleftFits, hheld⟩ := hreads₁.leave_item hopened.length hfits₁
  obtain ⟨last₂, more₂, hsteps₂, hreads₂, ⟨inner₂, hfits₂⟩, hrest₂, hkept, -, hopen⟩ :=
    hleft.blankLines hleftFits hrest₁
  have hkeeps : KeepsList kind more₂ := ⟨tight, number, hkept⟩
  rw [hsplit]
  refine ⟨hless, ?_⟩
  rw [Block.itemOutlines, List.append_cons found]
  cases rest with
  | nil =>
      refine ⟨last₂, more₂, inner₂, hsteps₁.trans hsteps₂, ?_, hfits₂, hrest₂, hkeeps⟩
      rw [Block.itemOutlines, List.append_nil]
      exact hreads₂
  | cons second rest =>
      obtain ⟨line, later, hfront, hprinted⟩ := hnext (List.cons_ne_nil second rest)
      obtain ⟨last₃, more₃, inner₃, hsteps₃, hreads₃, hfits₃, hrest₃, hkeeps₃⟩ :=
        hrest.arrive hfront hprinted hopened.length (by simp) hreads₂ hfits₂ hkeeps
          (hopen.trans hheld) (hprinted ▸ hones) hstops (hprinted ▸ hrest₂)
      exact ⟨last₃, more₃, inner₃, hsteps₁.trans (hsteps₂.trans hsteps₃), hreads₃, hfits₃, hrest₃,
        hkeeps₃⟩

theorem readsBack_list {tight : Bool} {items : List (List Block)}
    (hitems : ItemsReadBack extensions source kind (itemSpacing tight) 0 items)
    (h : settled extensions (.list kind tight items) = true) :
    ReadsBack extensions source (.list kind tight items) := by
  intro levels draft more reader taken first later tail fuel hentered hunlike hprinted hstops
  rw [lines] at hprinted
  simp only [settled, Bool.and_eq_true, Bool.not_eq_true', List.isEmpty_eq_false_iff] at h
  obtain ⟨⟨hsome, hkind⟩, hsettled⟩ := h
  obtain ⟨item, rest, rfl⟩ := List.exists_cons_of_ne_nil hsome
  obtain ⟨-, ⟨line, inner, hshape⟩, hstarts, -⟩ := itemsSettled_cons hsettled
  have hfront' := itemLines_cons kind 0 hshape rest
  rw [hfront', List.cons.injEq] at hprinted
  obtain ⟨rfl, rfl⟩ := hprinted
  have hfront : ItemFront extensions kind 0 line :=
    itemFront hkind (by simp) hstarts hshape (hentered.ones _ List.mem_cons_self)
  have hlength := hentered.reads.length
  have hother : more = [] ∨ ∃ tight other number,
      more = [.list tight other number] ∧ other ≠ listMarker kind := by
    rcases hunlike with hnone | ⟨tight, other, number, hsame, hdiffers⟩
    · exact .inl hnone
    · exact .inr ⟨tight, other, number, hsame, fun hequal => hdiffers (congrArg some hequal.symm)⟩
  obtain ⟨containers, hfits, hsame⟩ := hentered.reads.stands
  have hlocated := hentered.located
  have hread : listKind source (BlockTree.listNumber (listMarker kind) (itemNumber kind 0))
      (some (reader.position + taken)) = kind := by
    rw [listKind, hlocated, List.append_assoc, List.cons_append]
    exact hfront.marks.readItemMarker _ rfl
  have hspec := newItem_spec hentered.reads.ready hfits hsame hother (itemNumber kind 0)
    (reader.position + taken) (Nat.succ_pos (Printer.itemMarker kind 0).length)
  rw [hfits.length, hentered.reads.draft, hread] at hspec
  obtain ⟨less, rfl⟩ := hentered.exists_fuel
  have henough := hentered.enough
  rw [List.length_append, List.length_cons] at henough
  have henough : line.length < less := by omega
  have hopened := opened_inItem hlength hspec hlocated hentered.ones henough
  obtain ⟨hshorter, last, more', inner', hsteps, hreads, hfits', hdone, hkeeps⟩ :=
    hitems hopened hfront' hstops
  have hentry := hfront.enter less hspec.1 hentered.reads.ready.extensions
    (below levels (inner.map (itemLevel kind 0).mark
      ++ (List.replicate ((itemSpacing tight).gap false rest.isEmpty) []
        ++ itemLines kind (itemSpacing tight) (0 + 1) rest)) ++ tail)
  rw [List.append_assoc, List.cons_append]
  rw [hentry]
  refine ⟨?_, last, more', inner', hsteps, hreads, hfits', hdone, hkeeps.left tight _⟩
  refine hshorter.trans ?_
  simp only [List.length_append, List.length_cons]
  omega

end Canonmark.Printed
