import LegacyScript.Proofs.Conditional.Nesting

/-!
# Syntax trees of conditionals

The grammar behind well-nested items. A `Block` is a sequence of instructions
and conditionals, a conditional is an opener with its `Arms`, and the arms are
blocks with separators between them and a closer at the end. Each constructor
takes items of the right role only, so a tree cannot be ill-formed, and its
items can be read off again.

`WellNestedFrom.existsUnique_block` parses: every well-nested sequence is the
sequence of exactly one block. For existence the induction is on the items, where
what is left in a level of `outer` open conditionals is a `Forest`: the rest of
the arms of each of them, and a block behind the last. For uniqueness it is on
the tree, with any items behind it at which a block must end.
-/

namespace LegacyScript

open Item

-- ---------------------------------------------------------------------------
-- Blocks and arms
-- ---------------------------------------------------------------------------

mutual

/-- Instructions and whole conditionals in sequence. -/
inductive Block
  | nil
  | leaf (item : Item) (role_eq : item.role = .plain) (rest : Block)
  | cond (opener : Item) (expected : Bool) (role_eq : opener.role = .opens expected)
      (arms : Arms) (rest : Block)

/-- The arms of a conditional in order, up to and with the item that closes it. -/
inductive Arms
  | last (arm : Block) (closer : Item) (role_eq : closer.role = .closes)
  | next (arm : Block) (separator : Item) (role_eq : separator.role = .separates)
      (others : Arms)

end

mutual

/-- The items that a block is the tree of. -/
def Block.items : Block → List Item
  | .nil => []
  | .leaf item _ rest => item :: rest.items
  | .cond opener _ _ arms rest => opener :: (arms.items ++ rest.items)

/-- The items of all arms, with the separators and the closer. -/
def Arms.items : Arms → List Item
  | .last arm closer _ => arm.items ++ [closer]
  | .next arm separator _ others => arm.items ++ separator :: others.items

end

-- ---------------------------------------------------------------------------
-- Parsing
-- ---------------------------------------------------------------------------

/-- The arms with something done to the first of them. -/
def Arms.mapFirst (f : Block → Block) : Arms → Arms
  | .last arm closer h => .last (f arm) closer h
  | .next arm separator h others => .next (f arm) separator h others

theorem Arms.items_mapFirst {f : Block → Block} {front : List Item}
    (hf : ∀ block, (f block).items = front ++ block.items) (arms : Arms) :
    (arms.mapFirst f).items = front ++ arms.items := by
  cases arms with
  | last arm closer h => simp only [Arms.mapFirst, Arms.items, hf, List.append_assoc]
  | next arm separator h others => simp only [Arms.mapFirst, Arms.items, hf, List.append_assoc]

/-- What can be left in a level of `outer` open conditionals. -/
def Forest : Nat → List Item → Prop
  | 0, items => ∃ block : Block, block.items = items
  | outer + 1, items => ∃ (arms : Arms) (rest : List Item),
      arms.items ++ rest = items ∧ Forest outer rest

/-- Whatever puts items in front of a block puts them in front of a forest. -/
theorem Forest.append {f : Block → Block} {front : List Item}
    (hf : ∀ block, (f block).items = front ++ block.items) {outer : Nat} {items : List Item}
    (h : Forest outer items) : Forest outer (front ++ items) := by
  cases outer with
  | zero =>
    obtain ⟨block, rfl⟩ := h
    exact ⟨f block, hf block⟩
  | succ outer =>
    obtain ⟨arms, rest, rfl, hRest⟩ := h
    refine ⟨arms.mapFirst f, rest, ?_, hRest⟩
    rw [Arms.items_mapFirst hf, List.append_assoc]

theorem Forest.leaf {item : Item} {outer : Nat} {items : List Item} (hRole : item.role = .plain)
    (h : Forest outer items) : Forest outer (item :: items) := by
  have hLeaf : ∀ block, (Block.leaf item hRole block).items = [item] ++ block.items :=
    fun _ => rfl
  exact h.append hLeaf

/-- The arms that an opener is followed by become a conditional of the level it
stands in. -/
theorem Forest.cond {opener : Item} {expected : Bool} {outer : Nat} {items : List Item}
    (hRole : opener.role = .opens expected) (h : Forest (outer + 1) items) :
    Forest outer (opener :: items) := by
  obtain ⟨arms, rest, rfl, hRest⟩ := h
  have hCond : ∀ block, (Block.cond opener expected hRole arms block).items =
      opener :: arms.items ++ block.items := fun _ => rfl
  exact hRest.append hCond

theorem Forest.next {separator : Item} {outer : Nat} {items : List Item}
    (hRole : separator.role = .separates) (h : Forest (outer + 1) items) :
    Forest (outer + 1) (separator :: items) := by
  obtain ⟨arms, rest, rfl, hRest⟩ := h
  exact ⟨.next .nil separator hRole arms, rest, rfl, hRest⟩

theorem Forest.last {closer : Item} {outer : Nat} {items : List Item}
    (hRole : closer.role = .closes) (h : Forest outer items) :
    Forest (outer + 1) (closer :: items) :=
  ⟨.last .nil closer hRole, items, rfl, h⟩

/-- What is well nested in a level is a forest of that level. -/
theorem WellNestedFrom.forest {outer : Nat} {items : List Item}
    (h : WellNestedFrom outer items) : Forest outer items := by
  induction items generalizing outer with
  | nil =>
    have hClosed := h.closed
    rw [levelFrom_nil] at hClosed
    obtain rfl : outer = 0 := by omega
    exact ⟨.nil, rfl⟩
  | cons item items ih =>
    obtain ⟨⟨inner, hInner, hTail⟩, hInside⟩ := h.tail
    have hForest := ih hTail
    rw [levelChange] at hInner
    cases hRole : item.role with
    | plain =>
      rw [hRole, Role.levelChange] at hInner
      obtain rfl : inner = outer := by omega
      exact hForest.leaf hRole
    | opens expected =>
      rw [hRole, Role.levelChange] at hInner
      obtain rfl : inner = outer + 1 := by omega
      exact hForest.cond hRole
    | separates =>
      rw [hRole, Role.levelChange] at hInner
      obtain rfl : inner = outer := by omega
      obtain ⟨level, rfl⟩ := Nat.exists_eq_add_of_le' (hInside hRole)
      exact hForest.next hRole
    | closes =>
      rw [hRole, Role.levelChange] at hInner
      obtain rfl : outer = inner + 1 := by omega
      exact hForest.last hRole

-- ---------------------------------------------------------------------------
-- Unambiguity
-- ---------------------------------------------------------------------------

/-- What can stand behind a block: nothing, or the separator or closer of the
conditional around it. -/
def EndsBlock : List Item → Prop
  | [] => True
  | item :: _ => item.role = .separates ∨ item.role = .closes

mutual

/-- Where a block ends shows on the items. -/
theorem Block.eq_of_items_append {block₁ block₂ : Block} {rest₁ rest₂ : List Item}
    (h : block₁.items ++ rest₁ = block₂.items ++ rest₂) (hRest₁ : EndsBlock rest₁)
    (hRest₂ : EndsBlock rest₂) : block₁ = block₂ ∧ rest₁ = rest₂ := by
  cases block₁ with
  | nil =>
    cases block₂ with
    | nil => exact ⟨rfl, h⟩
    | leaf item hRole rest =>
      obtain rfl : rest₁ = item :: (rest.items ++ rest₂) := h
      simp [EndsBlock, hRole] at hRest₁
    | cond opener expected hRole arms rest =>
      obtain rfl : rest₁ = opener :: (arms.items ++ rest.items ++ rest₂) := h
      simp [EndsBlock, hRole] at hRest₁
  | leaf item hRole rest =>
    cases block₂ with
    | nil =>
      obtain rfl : item :: (rest.items ++ rest₁) = rest₂ := h
      simp [EndsBlock, hRole] at hRest₂
    | leaf item' hRole' rest' =>
      obtain ⟨rfl, hTail⟩ := List.cons_eq_cons.mp h
      obtain ⟨rfl, rfl⟩ := Block.eq_of_items_append hTail hRest₁ hRest₂
      exact ⟨rfl, rfl⟩
    | cond opener expected hRole' arms rest' =>
      obtain ⟨rfl, -⟩ := List.cons_eq_cons.mp h
      simp [hRole] at hRole'
  | cond opener expected hRole arms rest =>
    cases block₂ with
    | nil =>
      obtain rfl : opener :: (arms.items ++ rest.items ++ rest₁) = rest₂ := h
      simp [EndsBlock, hRole] at hRest₂
    | leaf item hRole' rest' =>
      obtain ⟨rfl, -⟩ := List.cons_eq_cons.mp h
      simp [hRole] at hRole'
    | cond opener' expected' hRole' arms' rest' =>
      rw [Block.items, Block.items, List.cons_append, List.cons_append, List.append_assoc,
        List.append_assoc] at h
      obtain ⟨rfl, hTail⟩ := List.cons_eq_cons.mp h
      obtain rfl : expected = expected' := Role.opens.inj (hRole.symm.trans hRole')
      obtain ⟨rfl, hRest⟩ := Arms.eq_of_items_append hTail
      obtain ⟨rfl, rfl⟩ := Block.eq_of_items_append hRest hRest₁ hRest₂
      exact ⟨rfl, rfl⟩

/-- Where the arms of a conditional end shows on the items, whatever stands behind. -/
theorem Arms.eq_of_items_append {arms₁ arms₂ : Arms} {rest₁ rest₂ : List Item}
    (h : arms₁.items ++ rest₁ = arms₂.items ++ rest₂) : arms₁ = arms₂ ∧ rest₁ = rest₂ := by
  cases arms₁ with
  | last arm closer hRole =>
    cases arms₂ with
    | last arm' closer' hRole' =>
      rw [Arms.items, Arms.items, List.append_assoc, List.append_assoc] at h
      obtain ⟨rfl, hTail⟩ := Block.eq_of_items_append h (.inr hRole) (.inr hRole')
      obtain ⟨rfl, rfl⟩ := List.cons_eq_cons.mp hTail
      exact ⟨rfl, rfl⟩
    | next arm' separator hRole' others =>
      rw [Arms.items, Arms.items, List.append_assoc, List.append_assoc] at h
      obtain ⟨rfl, hTail⟩ := Block.eq_of_items_append h (.inr hRole) (.inl hRole')
      obtain ⟨rfl, -⟩ := List.cons_eq_cons.mp hTail
      simp [hRole] at hRole'
  | next arm separator hRole others =>
    cases arms₂ with
    | last arm' closer hRole' =>
      rw [Arms.items, Arms.items, List.append_assoc, List.append_assoc] at h
      obtain ⟨rfl, hTail⟩ := Block.eq_of_items_append h (.inl hRole) (.inr hRole')
      obtain ⟨rfl, -⟩ := List.cons_eq_cons.mp hTail
      simp [hRole] at hRole'
    | next arm' separator' hRole' others' =>
      rw [Arms.items, Arms.items, List.append_assoc, List.append_assoc] at h
      obtain ⟨rfl, hTail⟩ := Block.eq_of_items_append h (.inl hRole) (.inl hRole')
      obtain ⟨rfl, hOthers⟩ := List.cons_eq_cons.mp hTail
      obtain ⟨rfl, rfl⟩ := Arms.eq_of_items_append hOthers
      exact ⟨rfl, rfl⟩

end

theorem Block.items_injective {block₁ block₂ : Block} (h : block₁.items = block₂.items) :
    block₁ = block₂ := by
  have hAppend : block₁.items ++ [] = block₂.items ++ [] := by rw [h]
  exact (Block.eq_of_items_append hAppend trivial trivial).1

/-- **A well-nested sequence has just one syntax tree.** -/
theorem WellNestedFrom.existsUnique_block {items : List Item} (h : WellNested items) :
    ∃! block : Block, block.items = items := by
  obtain ⟨block, hBlock⟩ : ∃ block : Block, block.items = items := h.forest
  refine ⟨block, hBlock, fun other hOther => ?_⟩
  exact Block.items_injective (hOther.trans hBlock.symm)

end LegacyScript
