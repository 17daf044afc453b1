/-
Module: ConfigScan.Proofs.Layout.Texts
Purpose: Texts over several lines among the items of sequences. A mapping gets its own lines if no
  line of such a text in front of it, behind the last mapping of its sequence, reads as one with a
  key.
Main exports: Layout.Document.OfTexts, Layout.Document.Clear, Layout.Document.undisturbed_iff_clear
-/
import ConfigScan.Proofs.Layout.Exact

namespace ConfigScan.Yaml.Layout

/-! ### Leaves of scalars, some of them texts -/

mutual

/-- All leaves are scalars, and no first line of one in a sequence reads as one with a key. What the
    lines below it hold does not matter. -/
def Entries.OfTexts : {c : Nat} → Entries c → Prop
  | _, .one entry => entry.OfTexts
  | _, .cons entry _ rest => entry.OfTexts ∧ rest.OfTexts

/-- All leaves are scalars, and no first line of one in a sequence reads as one with a key. -/
def Entry.OfTexts : {c : Nat} → Entry c → Prop
  | _, .leaf _ _ value _ => value.key?.isSome = true
  | _, .mapping _ _ _ _ _ _ entries => entries.OfTexts
  | _, .sequence _ _ _ _ _ _ items => items.OfTexts

/-- All leaves are scalars, and no first line of one in a sequence reads as one with a key. -/
def Items.OfTexts : {s : Nat} → Items s → Prop
  | _, .one item => item.OfTexts
  | _, .cons item _ rest => item.OfTexts ∧ rest.OfTexts

/-- All leaves are scalars, and no first line of one in a sequence reads as one with a key. -/
def Item.OfTexts : {s : Nat} → Item s → Prop
  | _, .leaf tail value _ => value.key?.isSome = true ∧ KeyLine.read? (dashText tail) = none
  | _, .beside _ block => block.OfTexts
  | _, .beneath _ _ _ _ _ block => block.OfTexts

/-- All leaves are scalars, and no first line of one in a sequence reads as one with a key. -/
def Block.OfTexts : {c : Nat} → Block c → Prop
  | _, .mapping entries => entries.OfTexts
  | _, .sequence items => items.OfTexts

end

/-- All leaves are scalars, and no first line of one in a sequence reads as one with a key. -/
def Document.OfTexts (document : Document) : Prop :=
  match document.root with
  | .leaf value _ => value.key?.isSome = true
  | .block block => block.OfTexts

/-! ### Texts in front of mappings -/

section

variable (judge : List (List Char) → Bool)

mutual

/-- An item whose further lines are judged so stands behind the last mapping of the items, when one
    does so in front of them. -/
def Items.trails (trailing : Bool) : {s : Nat} → Items s → Bool
  | _, .one item => item.trails trailing
  | _, .cons item _ rest => rest.trails (item.trails trailing)

/-- An item whose further lines are judged so stands behind the last mapping of the item, when one
    does so in front of it. -/
def Item.trails (trailing : Bool) : {s : Nat} → Item s → Bool
  | _, .leaf _ _ more => trailing || judge more.lines
  | _, .beside _ block => block.trails trailing
  | _, .beneath _ _ _ _ _ block => block.trails trailing

/-- An item whose further lines are judged so stands behind the last mapping of the collection, when
    one does so in front of it. -/
def Block.trails (trailing : Bool) : {c : Nat} → Block c → Bool
  | _, .mapping _ => false
  | _, .sequence items => items.trails trailing

end

mutual

/-- No item whose further lines are judged so stands between a mapping and the last one in front of
    it in the same sequence. -/
def Entries.Clear : {c : Nat} → Entries c → Prop
  | _, .one entry => entry.Clear
  | _, .cons entry _ rest => entry.Clear ∧ rest.Clear

/-- No item whose further lines are judged so stands in front of a mapping. -/
def Entry.Clear : {c : Nat} → Entry c → Prop
  | _, .leaf _ _ _ _ => True
  | _, .mapping _ _ _ _ _ _ entries => entries.Clear
  | _, .sequence _ _ _ _ _ _ items => items.Clear false

/-- No item whose further lines are judged so stands in front of a mapping, not even one that stands
    in front of the items. -/
def Items.Clear (trailing : Bool) : {s : Nat} → Items s → Prop
  | _, .one item => item.Clear trailing
  | _, .cons item _ rest => item.Clear trailing ∧ rest.Clear (item.trails judge trailing)

/-- No item whose further lines are judged so stands in front of a mapping, not even one that stands
    in front of the item. -/
def Item.Clear (trailing : Bool) : {s : Nat} → Item s → Prop
  | _, .leaf _ _ _ => True
  | _, .beside _ block => block.Clear trailing
  | _, .beneath _ _ _ _ _ block => block.Clear trailing

/-- No item whose further lines are judged so stands in front of a mapping, not even one that stands
    in front of the collection. -/
def Block.Clear (trailing : Bool) : {c : Nat} → Block c → Prop
  | _, .mapping entries => trailing = false ∧ entries.Clear
  | _, .sequence items => items.Clear trailing

end

/-- In no sequence of the document does an item whose further lines are judged so stand between a
    mapping and the last one in front of it. -/
def Document.Clear (document : Document) : Prop :=
  match document.root with
  | .leaf _ _ => True
  | .block block => block.Clear judge false

end

/-! ### What waits to be searched -/

mutual

theorem Items.waits_of_texts : ∀ {s : Nat} (items : Items s), items.OfTexts →
    ∀ waiting : Bool, items.waits waiting = items.trails writesKey waiting
  | _, .one item, texts, waiting => item.waits_of_texts texts waiting
  | _, .cons item gap rest, texts, waiting => by
      rw [Items.waits, Items.trails, item.waits_of_texts texts.1, rest.waits_of_texts texts.2]

theorem Item.waits_of_texts : ∀ {s : Nat} (item : Item s), item.OfTexts →
    ∀ waiting : Bool, item.waits waiting = item.trails writesKey waiting
  | _, .leaf tail value more, texts, waiting => by
      rw [Item.waits, Item.trails, writesKey, List.any_cons, texts.2, Option.isSome_none,
        Bool.and_false, Bool.false_or, writesKey]
  | _, .beside _ block, texts, waiting => block.waits_of_texts texts waiting
  | _, .beneath _ _ _ _ _ block, texts, waiting => block.waits_of_texts texts waiting

theorem Block.waits_of_texts : ∀ {c : Nat} (block : Block c), block.OfTexts →
    ∀ waiting : Bool, block.waits waiting = block.trails writesKey waiting
  | _, .mapping _, _, _ => rfl
  | _, .sequence items, texts, waiting => items.waits_of_texts texts waiting

end

mutual

/-- Among scalars, only lines that read as ones with keys disturb the search. -/
theorem Entries.undisturbed_iff_clear : ∀ {c : Nat} (entries : Entries c), entries.OfTexts →
    ∀ after : List (List Char), entries.Undisturbed after ↔ entries.Clear writesKey
  | _, .one entry, texts, after => entry.undisturbed_iff_clear texts after
  | _, .cons entry gap rest, texts, after =>
      and_congr (entry.undisturbed_iff_clear texts.1 (gap.lines ++ (rest.lines ++ after)))
        (rest.undisturbed_iff_clear texts.2 after)

theorem Entry.undisturbed_iff_clear : ∀ {c : Nat} (entry : Entry c), entry.OfTexts →
    ∀ after : List (List Char), entry.Undisturbed after ↔ entry.Clear writesKey
  | _, .leaf _ _ value _, scalar, after => by
      refine ⟨fun _ => trivial, fun _ _ sought => ?_⟩
      rw [Value.seeksKey_of_key? scalar] at sought
      cases sought
  | _, .mapping _ _ _ _ _ _ entries, texts, after => entries.undisturbed_iff_clear texts after
  | c, .sequence _ _ _ _ _ _ items, texts, after =>
      items.undisturbed_iff_clear texts (c + 1) false after

theorem Items.undisturbed_iff_clear : ∀ {s : Nat} (items : Items s), items.OfTexts →
    ∀ (least : Nat) (waiting : Bool) (after : List (List Char)),
      items.Undisturbed least waiting after ↔ items.Clear writesKey waiting
  | _, .one item, texts, least, waiting, after =>
      item.undisturbed_iff_clear texts least waiting after
  | _, .cons item gap rest, texts, least, waiting, after => by
      rw [Items.Undisturbed, Items.Clear, item.waits_of_texts texts.1]
      exact and_congr
        (item.undisturbed_iff_clear texts.1 least waiting (gap.lines ++ (rest.lines ++ after)))
        (rest.undisturbed_iff_clear texts.2 least (item.trails writesKey waiting) after)

theorem Item.undisturbed_iff_clear : ∀ {s : Nat} (item : Item s), item.OfTexts →
    ∀ (least : Nat) (waiting : Bool) (after : List (List Char)),
      item.Undisturbed least waiting after ↔ item.Clear writesKey waiting
  | _, .leaf tail value more, texts, least, waiting, after => by
      refine ⟨fun _ => trivial, fun _ sought => ?_⟩
      rw [Value.seeksKey_of_key? texts.1] at sought
      cases sought
  | _, .beside _ block, texts, least, waiting, after =>
      block.undisturbed_iff_clear texts least waiting after
  | _, .beneath _ _ _ _ _ block, texts, least, waiting, after =>
      block.undisturbed_iff_clear texts least waiting after

theorem Block.undisturbed_iff_clear : ∀ {c : Nat} (block : Block c), block.OfTexts →
    ∀ (least : Nat) (waiting : Bool) (after : List (List Char)),
      block.Undisturbed least waiting after ↔ block.Clear writesKey waiting
  | _, .mapping entries, texts, _, _, after =>
      and_congr_right fun _ => entries.undisturbed_iff_clear texts after
  | _, .sequence items, texts, least, waiting, after =>
      items.undisturbed_iff_clear texts least waiting after

end

/-- A document of scalars is not disturbed when no line that reads as one with a key stands in a
    text in front of a mapping. -/
theorem Document.undisturbed_iff_clear (document : Document) (texts : document.OfTexts) :
    document.Undisturbed ↔ document.Clear writesKey := by
  rw [OfTexts] at texts
  rw [Undisturbed, Clear]
  cases root : document.root with
  | leaf value lines =>
      rw [root] at texts
      refine ⟨fun _ => trivial, fun _ sought => ?_⟩
      rw [Value.seeksKey_of_key? texts] at sought
      cases sought
  | block block =>
      rw [root] at texts
      exact block.undisturbed_iff_clear texts 0 false document.back

/-! ### Judging texts otherwise -/

section

variable {judge judge' : List (List Char) → Bool}

mutual

/-- What is judged more strictly leaves less behind. -/
theorem Items.trails_mono (imp : ∀ lines, judge lines = true → judge' lines = true) :
    ∀ {s : Nat} (items : Items s) {trailing trailing' : Bool},
      (trailing = true → trailing' = true) →
      items.trails judge trailing = true → items.trails judge' trailing' = true
  | _, .one item, _, _, le, trails => item.trails_mono imp le trails
  | _, .cons item _ rest, _, _, le, trails =>
      rest.trails_mono imp (item.trails_mono imp le) trails

theorem Item.trails_mono (imp : ∀ lines, judge lines = true → judge' lines = true) :
    ∀ {s : Nat} (item : Item s) {trailing trailing' : Bool},
      (trailing = true → trailing' = true) →
      item.trails judge trailing = true → item.trails judge' trailing' = true
  | _, .leaf _ _ more, _, _, le, trails => by
      rw [Item.trails, Bool.or_eq_true] at trails ⊢
      exact trails.imp le (imp more.lines)
  | _, .beside _ block, _, _, le, trails => block.trails_mono imp le trails
  | _, .beneath _ _ _ _ _ block, _, _, le, trails => block.trails_mono imp le trails

theorem Block.trails_mono (imp : ∀ lines, judge lines = true → judge' lines = true) :
    ∀ {c : Nat} (block : Block c) {trailing trailing' : Bool},
      (trailing = true → trailing' = true) →
      block.trails judge trailing = true → block.trails judge' trailing' = true
  | _, .mapping _, _, _, _, trails => trails
  | _, .sequence items, _, _, le, trails => items.trails_mono imp le trails

end

mutual

/-- What is clear of some texts is clear of fewer of them. -/
theorem Entries.clear_mono (imp : ∀ lines, judge lines = true → judge' lines = true) :
    ∀ {c : Nat} (entries : Entries c), entries.Clear judge' → entries.Clear judge
  | _, .one entry, clear => entry.clear_mono imp clear
  | _, .cons entry _ rest, clear =>
      ⟨entry.clear_mono imp clear.1, rest.clear_mono imp clear.2⟩

theorem Entry.clear_mono (imp : ∀ lines, judge lines = true → judge' lines = true) :
    ∀ {c : Nat} (entry : Entry c), entry.Clear judge' → entry.Clear judge
  | _, .leaf _ _ _ _, _ => trivial
  | _, .mapping _ _ _ _ _ _ entries, clear => entries.clear_mono imp clear
  | _, .sequence _ _ _ _ _ _ items, clear => items.clear_mono imp id clear

theorem Items.clear_mono (imp : ∀ lines, judge lines = true → judge' lines = true) :
    ∀ {s : Nat} (items : Items s) {trailing trailing' : Bool},
      (trailing = true → trailing' = true) →
      items.Clear judge' trailing' → items.Clear judge trailing
  | _, .one item, _, _, le, clear => item.clear_mono imp le clear
  | _, .cons item _ rest, _, _, le, clear =>
      ⟨item.clear_mono imp le clear.1,
        rest.clear_mono imp (item.trails_mono imp le) clear.2⟩

theorem Item.clear_mono (imp : ∀ lines, judge lines = true → judge' lines = true) :
    ∀ {s : Nat} (item : Item s) {trailing trailing' : Bool},
      (trailing = true → trailing' = true) →
      item.Clear judge' trailing' → item.Clear judge trailing
  | _, .leaf _ _ _, _, _, _, _ => trivial
  | _, .beside _ block, _, _, le, clear => block.clear_mono imp le clear
  | _, .beneath _ _ _ _ _ block, _, _, le, clear => block.clear_mono imp le clear

theorem Block.clear_mono (imp : ∀ lines, judge lines = true → judge' lines = true) :
    ∀ {c : Nat} (block : Block c) {trailing trailing' : Bool},
      (trailing = true → trailing' = true) →
      block.Clear judge' trailing' → block.Clear judge trailing
  | _, .mapping entries, _, _, le, clear => by
      refine ⟨?_, entries.clear_mono imp clear.2⟩
      rw [← Bool.not_eq_true]
      intro trailing
      have trailing' := le trailing
      rw [clear.1] at trailing'
      cases trailing'
  | _, .sequence items, _, _, le, clear => items.clear_mono imp le clear

end

theorem Document.clear_mono (document : Document)
    (imp : ∀ lines, judge lines = true → judge' lines = true) (clear : document.Clear judge') :
    document.Clear judge := by
  rw [Clear] at clear ⊢
  cases root : document.root with
  | leaf value lines => trivial
  | block block =>
      rw [root] at clear
      exact block.clear_mono imp id clear

end

end ConfigScan.Yaml.Layout
