/-
Module: ConfigScan.Proofs.Document.Spans
Purpose: The mappings of a document that carry lines, in the order in which they start, each with
  its address in the document. The order that well placed lines keep is defined here.
Main exports: Span, Node.spans, Span.Precedes, Spans.Between, Node.Within,
  Node.prefix_of_mem_spans, Node.spans_infix_of_within
-/
import ConfigScan.Proofs.Document.Markers

namespace ConfigScan

/-- The lines that a mapping carries. Its address leads there from the root of the document: the
    number of an item or an entry at each step. -/
structure Span where
  address : List Nat
  first : Nat
  last : Nat
deriving DecidableEq, Repr, Inhabited

/-- A mapping that comes first starts on an earlier line, and unless it holds the other one it has
    ended before that starts. -/
def Span.Precedes (earlier later : Span) : Prop :=
  earlier.first < later.first ∧
    (¬ earlier.address <+: later.address → earlier.last < later.first)

namespace Node

mutual

/-- The lines of all mappings of a node that carry some, a mapping in front of what it holds. -/
def spans (address : List Nat) : Node → List Span
  | .map entries =>
      ((Mapping.lineRange? entries).toList.map fun range => ⟨address, range.1, range.2⟩) ++
        entrySpans address 0 entries
  | .seq items => itemSpans address 0 items
  | _ => []

/-- The lines in items, the first of which has the number `index`. -/
def itemSpans (address : List Nat) (index : Nat) : List Node → List Span
  | [] => []
  | item :: rest => item.spans (address ++ [index]) ++ itemSpans address (index + 1) rest

/-- The lines in the values of entries, the first of which has the number `index`. -/
def entrySpans (address : List Nat) (index : Nat) : List (Key × Node) → List Span
  | [] => []
  | (_, node) :: rest => node.spans (address ++ [index]) ++ entrySpans address (index + 1) rest

end

theorem entrySpans_append (address : List Nat) (index : Nat) (front back : List (Key × Node)) :
    entrySpans address index (front ++ back) =
      entrySpans address index front ++ entrySpans address (index + front.length) back := by
  induction front generalizing index with
  | nil => rfl
  | cons entry rest inductionHypothesis =>
      obtain ⟨key, node⟩ := entry
      have shift : index + ((key, node) :: rest).length = index + 1 + rest.length := by
        simp only [List.length_cons]
        omega
      rw [List.cons_append, entrySpans, inductionHypothesis, shift, entrySpans, List.append_assoc]

/-- A mapping with lines appended starts the list of its spans with them. -/
theorem spans_withLines {entries : Mapping} (unmarked : entries.Unmarked) (address : List Nat)
    {first last : Nat} (firstSmall : first < 2 ^ 63) (lastSmall : last < 2 ^ 63) :
    spans address (.map (Mapping.withLines entries first last)) =
      ⟨address, first, last⟩ :: entrySpans address 0 entries := by
  rw [spans, Mapping.lineRange?_withLines unmarked firstSmall lastSmall, Mapping.withLines,
    entrySpans_append]
  simp [entrySpans, Mapping.lineValue, spans]

/-- A node occurs in another one: it is that node, or it occurs in an item or in the value of an
    entry. -/
inductive Within (node : Node) : Node → Prop where
  | here : Within node node
  | item {items : List Node} {item : Node} (member : item ∈ items) (inside : Within node item) :
      Within node (.seq items)
  | entry {entries : List (Key × Node)} {key : Key} {value : Node}
      (member : (key, value) ∈ entries) (inside : Within node value) :
      Within node (.map entries)

theorem Within.trans {inner middle outer : Node} (inside : Within inner middle)
    (within : Within middle outer) : Within inner outer := by
  induction within with
  | here => exact inside
  | item member _ inductionHypothesis => exact .item member inductionHypothesis
  | entry member _ inductionHypothesis => exact .entry member inductionHypothesis

/-- The lines that a mapping carries are the first of its spans. -/
theorem mem_spans_of_lineRange? {entries : Mapping} {first last : Nat}
    (range : entries.lineRange? = some (first, last)) (address : List Nat) :
    ⟨address, first, last⟩ ∈ spans address (.map entries) := by
  rw [spans, range]
  simp

theorem mapping?_eq_some {node : Node} {entries : Mapping} :
    node.mapping? = some entries ↔ node = .map entries := by
  cases node <;> simp [mapping?]

/-- The lines of a sequence are those of its first and its last item. -/
theorem lineRange?_seq {items : List Node} {first last : Nat}
    (range : (Node.seq items).lineRange? = some (first, last)) :
    ∃ firstEntries lastEntries : Mapping,
      items.head? = some (.map firstEntries) ∧ items.getLast? = some (.map lastEntries) ∧
        firstEntries.startLine? = some first ∧ lastEntries.endLine? = some last := by
  simp only [lineRange?, bind, Option.bind_eq_some_iff] at range
  obtain ⟨firstEntries, ⟨head, headEq, headMap⟩, lastEntries, ⟨tail, tailEq, tailMap⟩, start,
    startEq, stop, stopEq, same⟩ := range
  rw [mapping?_eq_some] at headMap tailMap
  subst headMap tailMap
  cases same
  exact ⟨firstEntries, lastEntries, headEq, tailEq, startEq, stopEq⟩

theorem itemSpans_infix (address : List Nat) {items : List Node} {item : Node}
    (member : item ∈ items) (index : Nat) :
    ∃ place, item.spans place <:+: itemSpans address index items := by
  induction items generalizing index with
  | nil => cases member
  | cons head rest inductionHypothesis =>
      rcases List.mem_cons.mp member with same | later
      · subst same
        exact ⟨_, (List.prefix_append _ _).isInfix⟩
      · obtain ⟨place, inRest⟩ := inductionHypothesis later (index + 1)
        exact ⟨place, inRest.trans (List.suffix_append _ _).isInfix⟩

theorem entrySpans_infix (address : List Nat) {entries : List (Key × Node)} {key : Key}
    {value : Node} (member : (key, value) ∈ entries) (index : Nat) :
    ∃ place, value.spans place <:+: entrySpans address index entries := by
  induction entries generalizing index with
  | nil => cases member
  | cons head rest inductionHypothesis =>
      obtain ⟨headKey, headValue⟩ := head
      rcases List.mem_cons.mp member with same | later
      · cases same
        exact ⟨_, (List.prefix_append _ _).isInfix⟩
      · obtain ⟨place, inRest⟩ := inductionHypothesis later (index + 1)
        exact ⟨place, inRest.trans (List.suffix_append _ _).isInfix⟩

/-- In spans in order, the first item of a sequence starts no later than the last one ends. -/
theorem first_le_last_of_items {place : List Nat} {items : List Node}
    (proper : ∀ span ∈ spans place (.seq items), span.first ≤ span.last)
    (ordered : (spans place (.seq items)).Pairwise Span.Precedes)
    {firstEntries lastEntries : Mapping} {first firstStop lastStart last : Nat}
    (head : items.head? = some (.map firstEntries))
    (tail : items.getLast? = some (.map lastEntries))
    (firstRange : firstEntries.lineRange? = some (first, firstStop))
    (lastRange : lastEntries.lineRange? = some (lastStart, last)) : first ≤ last := by
  cases items with
  | nil => cases head
  | cons item rest =>
      cases head
      rw [spans, itemSpans] at proper ordered
      have firstMember := mem_spans_of_lineRange? firstRange (place ++ [0])
      cases rest with
      | nil =>
          cases tail
          rw [firstRange] at lastRange
          cases lastRange
          exact proper _ (List.mem_append_left _ firstMember)
      | cons next others =>
          rw [List.getLast?_cons_cons] at tail
          obtain ⟨lastPlace, inRest⟩ := itemSpans_infix place (List.mem_of_getLast? tail) (0 + 1)
          have lastMember := inRest.subset (mem_spans_of_lineRange? lastRange lastPlace)
          have precedes := (List.pairwise_append.mp ordered).2.2 _ firstMember _ lastMember
          have order := proper _ (List.mem_append_right _ lastMember)
          exact Nat.le_trans (Nat.le_of_lt precedes.1) order

/-! ### Addresses -/

mutual

/-- The mappings in a node stand below its address. -/
theorem prefix_of_mem_spans (address : List Nat) {span : Span} :
    ∀ node : Node, span ∈ node.spans address → address <+: span.address
  | .null, member => by cases member
  | .bool _, member => by cases member
  | .int _, member => by cases member
  | .float _, member => by cases member
  | .str _, member => by cases member
  | .seq items, member => by
      obtain ⟨place, _, below⟩ := prefix_of_mem_itemSpans address 0 items member
      exact (List.prefix_append address [place]).trans below
  | .map entries, member => by
      rw [spans] at member
      rcases List.mem_append.mp member with own | held
      · obtain ⟨_, _, same⟩ := List.mem_map.mp own
        subst same
        exact List.prefix_rfl
      · obtain ⟨place, _, below⟩ := prefix_of_mem_entrySpans address 0 entries held
        exact (List.prefix_append address [place]).trans below

/-- The mappings in items stand below the addresses of these. -/
theorem prefix_of_mem_itemSpans (address : List Nat) (index : Nat) {span : Span} :
    ∀ items : List Node, span ∈ itemSpans address index items →
      ∃ place, index ≤ place ∧ address ++ [place] <+: span.address
  | [], member => by cases member
  | item :: rest, member => by
      rw [itemSpans] at member
      rcases List.mem_append.mp member with first | later
      · exact ⟨index, Nat.le_refl _, prefix_of_mem_spans (address ++ [index]) item first⟩
      · obtain ⟨place, le, below⟩ := prefix_of_mem_itemSpans address (index + 1) rest later
        exact ⟨place, Nat.le_of_succ_le le, below⟩

/-- The mappings in the values of entries stand below the addresses of these. -/
theorem prefix_of_mem_entrySpans (address : List Nat) (index : Nat) {span : Span} :
    ∀ entries : List (Key × Node), span ∈ entrySpans address index entries →
      ∃ place, index ≤ place ∧ address ++ [place] <+: span.address
  | [], member => by cases member
  | (_, node) :: rest, member => by
      rw [entrySpans] at member
      rcases List.mem_append.mp member with first | later
      · exact ⟨index, Nat.le_refl _, prefix_of_mem_spans (address ++ [index]) node first⟩
      · obtain ⟨place, le, below⟩ := prefix_of_mem_entrySpans address (index + 1) rest later
        exact ⟨place, Nat.le_of_succ_le le, below⟩

end

/-- What stands below one child of a node holds nothing below a later one. -/
theorem not_prefix_of_lt {address : List Nat} {index place : Nat} (lt : index < place)
    {span other : Span} (below : address ++ [index] <+: span.address)
    (otherBelow : address ++ [place] <+: other.address) :
    ¬ span.address <+: other.address := by
  intro holds
  have both := List.prefix_of_prefix_length_le (below.trans holds) otherBelow (by simp)
  have same := both.eq_of_length (by simp)
  have equal : index = place := by simpa using same
  omega

/-- The spans of a node that occurs in another one stand together among those of the other. -/
theorem spans_infix_of_within {node whole : Node} (within : Within node whole)
    (address : List Nat) : ∃ place, node.spans place <:+: whole.spans address := by
  induction within generalizing address with
  | here => exact ⟨address, List.infix_rfl⟩
  | item member _ inductionHypothesis =>
      obtain ⟨itemPlace, inItems⟩ := itemSpans_infix address member 0
      obtain ⟨place, inItem⟩ := inductionHypothesis itemPlace
      exact ⟨place, inItem.trans inItems⟩
  | entry member _ inductionHypothesis =>
      obtain ⟨entryPlace, inEntries⟩ := entrySpans_infix address member 0
      obtain ⟨place, inEntry⟩ := inductionHypothesis entryPlace
      exact ⟨place, (inEntry.trans inEntries).trans (List.suffix_append _ _).isInfix⟩

end Node

/-! ### Spans between two lines -/

/-- Spans below an address that lie behind the line number `next` and up to `stop`, in order. -/
structure Spans.Between (address : List Nat) (next stop : Nat) (spans : List Span) : Prop where
  bounds : ∀ span ∈ spans, next < span.first ∧ span.first ≤ span.last ∧ span.last ≤ stop
  below : ∀ span ∈ spans, address <+: span.address
  ordered : spans.Pairwise Span.Precedes

namespace Spans.Between

variable {address : List Nat} {next stop : Nat} {spans : List Span}

theorem nil : Between address next stop [] where
  bounds := by simp
  below := by simp
  ordered := List.Pairwise.nil

theorem widen {next' stop' : Nat} (between : Between address next stop spans)
    (next_le : next' ≤ next) (le_stop : stop ≤ stop') : Between address next' stop' spans where
  bounds := by
    intro span member
    obtain ⟨lower, order, upper⟩ := between.bounds span member
    exact ⟨by omega, order, by omega⟩
  below := between.below
  ordered := between.ordered

/-- What lies below a longer address lies below the shorter one. -/
theorem shorten {index : Nat} (between : Between (address ++ [index]) next stop spans) :
    Between address next stop spans where
  bounds := between.bounds
  below := fun span member =>
    (List.prefix_append address [index]).trans (between.below span member)
  ordered := between.ordered

/-- Spans up to a line number, and then spans behind it. -/
theorem append {middle : Nat} {more : List Span} (front : Between address next middle spans)
    (back : Between address middle stop more) (next_le : next ≤ middle)
    (le_stop : middle ≤ stop) : Between address next stop (spans ++ more) where
  bounds := by
    intro span member
    rcases List.mem_append.mp member with early | late
    · obtain ⟨lower, order, upper⟩ := front.bounds span early
      exact ⟨lower, order, by omega⟩
    · obtain ⟨lower, order, upper⟩ := back.bounds span late
      exact ⟨by omega, order, upper⟩
  below := by
    intro span member
    rcases List.mem_append.mp member with early | late
    · exact front.below span early
    · exact back.below span late
  ordered := by
    refine List.pairwise_append.mpr ⟨front.ordered, back.ordered, ?_⟩
    intro earlier early later late
    obtain ⟨_, order, upper⟩ := front.bounds earlier early
    obtain ⟨lower, _, _⟩ := back.bounds later late
    exact ⟨by omega, fun _ => by omega⟩

/-- A mapping in front of the spans that it holds. -/
theorem cons {first last : Nat} (inside : Between address first stop spans)
    (next_lt : next < first) (order : first ≤ last) (le_stop : last ≤ stop) :
    Between address next stop (⟨address, first, last⟩ :: spans) where
  bounds := by
    intro span member
    rcases List.mem_cons.mp member with same | held
    · subst same
      exact ⟨next_lt, order, le_stop⟩
    · obtain ⟨lower, heldOrder, upper⟩ := inside.bounds span held
      exact ⟨by omega, heldOrder, upper⟩
  below := by
    intro span member
    rcases List.mem_cons.mp member with same | held
    · subst same
      exact List.prefix_rfl
    · exact inside.below span held
  ordered := by
    refine List.Pairwise.cons ?_ inside.ordered
    intro span held
    obtain ⟨lower, _, _⟩ := inside.bounds span held
    exact ⟨lower, fun apart => absurd (inside.below span held) apart⟩

end Spans.Between

end ConfigScan
