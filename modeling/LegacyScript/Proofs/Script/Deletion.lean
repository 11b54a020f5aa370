import LegacyScript.Script.Deletion
import Mathlib.Algebra.Group.Embedding
import Mathlib.Algebra.Order.Group.Nat
import Mathlib.Data.Finset.Card
import Mathlib.Order.Bounds.Basic
import Mathlib.Tactic.Common

/-!
# What deletion removes

Deletion goes over a script once. Where a copy of the needle stands in front it takes the
copy, and otherwise it keeps one byte. So it cuts the script into gaps with copies of the
needle between them (`Gaps`), and no copy begins in a gap, not even one that would reach
beyond it.

Copies can overlap, and then not all of them go. Still no choice of copies that share no
byte (`Apart`) is larger than the one deletion makes: of such copies at most one begins
within the first one that is taken, and the others are copies in what is behind it.

## Results

* `scan_induction`     — what a scan of a script comes across.
* `deleteAll_flatten`  — deletion of pieces that are all the copies there are.
* `exists_gaps`        — the gaps, and what deletion makes of them.
* `removed_isGreatest` — there are no more copies side by side than those that go.
* `deleteAll_greedy`   — all of this together.
-/

namespace LegacyScript.Script

variable {needle script front : Bytes} {places : Finset Nat}

/-- A copy of the needle begins at an offset of the script. -/
def OccursAt (needle script : Bytes) (offset : Nat) : Prop :=
  needle <+: script.drop offset

instance (needle script : Bytes) (offset : Nat) : Decidable (OccursAt needle script offset) :=
  inferInstanceAs (Decidable (needle <+: script.drop offset))

/-- Offsets of copies of the needle that share no byte. -/
structure Apart (needle script : Bytes) (places : Finset Nat) : Prop where
  occursAt : ∀ p ∈ places, OccursAt needle script p
  add_le : ∀ p ∈ places, ∀ q ∈ places, p < q → p + needle.length ≤ q

/-- A script is cut at copies of the needle into gaps in which no copy begins. -/
structure Gaps (needle script : Bytes) (gaps : List Bytes) : Prop where
  /-- The script is the gaps with a copy between any two of them. -/
  intercalate_eq : needle.intercalate gaps = script
  /-- Behind `front`, a gap begins where the gaps and copies of `front` end. -/
  not_occursAt : ∀ front gap back, gaps = front ++ gap :: back → ∀ i < gap.length,
    ¬ OccursAt needle script ((front.flatMap (· ++ needle)).length + i)

-- ---------------------------------------------------------------------------
-- One scan
-- ---------------------------------------------------------------------------

/-- An empty needle does not occur. -/
theorem deleteAll_nil_left (script : Bytes) : deleteAll [] script = ⟨script, 0⟩ := by
  induction script with
  | nil => rw [deleteAll]
  | cons b bs ih => rw [deleteAll, if_neg (by simp), ih]

theorem deleteAll_append (hNeedle : needle ≠ []) (rest : Bytes) :
    deleteAll needle (needle ++ rest) =
      ⟨(deleteAll needle rest).kept, (deleteAll needle rest).removed + 1⟩ := by
  obtain ⟨b, bs, rfl⟩ := List.exists_cons_of_ne_nil hNeedle
  have hFront : (b :: bs).isPrefixOf (b :: (bs ++ rest)) = true :=
    List.isPrefixOf_iff_prefix.2 (List.prefix_append (b :: bs) rest)
  have hRest : (bs ++ rest).drop ((b :: bs).length - 1) = rest := List.drop_left
  rw [List.cons_append, deleteAll, if_pos ⟨hNeedle, hFront⟩, hRest]

theorem deleteAll_cons {b : UInt8} {bs : Bytes} (h : ¬ needle <+: b :: bs) :
    deleteAll needle (b :: bs) =
      ⟨b :: (deleteAll needle bs).kept, (deleteAll needle bs).removed⟩ := by
  rw [deleteAll, if_neg]
  rintro ⟨-, hFront⟩
  exact h (List.isPrefixOf_iff_prefix.1 hFront)

/-- **What a scan comes across**: a copy of the needle in front, or a byte at which no copy
begins, up to the end. -/
@[elab_as_elim]
theorem scan_induction {motive : Bytes → Prop} (hNeedle : needle ≠ []) (nil : motive [])
    (copy : ∀ rest, motive rest → motive (needle ++ rest))
    (byte : ∀ b bs, ¬ needle <+: b :: bs → motive bs → motive (b :: bs)) (script : Bytes) :
    motive script := by
  induction hLength : script.length using Nat.strong_induction_on generalizing script with
  | _ length ih =>
    cases script with
    | nil => exact nil
    | cons b bs =>
      by_cases hFront : needle <+: b :: bs
      · obtain ⟨rest, hRest⟩ := hFront
        have hShorter : rest.length < length := by
          have hPos := List.length_pos_iff.2 hNeedle
          rw [← hLength, ← hRest, List.length_append]
          omega
        rw [← hRest]
        exact copy rest (ih _ hShorter rest rfl)
      · refine byte b bs hFront (ih _ ?_ bs rfl)
        rw [← hLength]
        exact Nat.lt_succ_self _

/-- Every byte is kept or goes with a copy of the needle. -/
theorem length_deleteAll (hNeedle : needle ≠ []) (script : Bytes) :
    (deleteAll needle script).kept.length + (deleteAll needle script).removed * needle.length =
      script.length := by
  induction script using scan_induction hNeedle with
  | nil => simp [deleteAll]
  | copy rest ih =>
    rw [deleteAll_append hNeedle, List.length_append]
    dsimp only
    rw [Nat.succ_mul]
    omega
  | byte b bs hFront ih =>
    rw [deleteAll_cons hFront]
    dsimp only
    rw [List.length_cons, List.length_cons]
    omega

-- ---------------------------------------------------------------------------
-- Places of copies
-- ---------------------------------------------------------------------------

/-- Behind a front, the copies are those of the bytes behind it. -/
theorem occursAt_append_iff (p : Nat) :
    OccursAt needle (front ++ script) (front.length + p) ↔ OccursAt needle script p := by
  rw [OccursAt, OccursAt, List.drop_length_add_append]

/-- A copy begins within the script. -/
theorem OccursAt.lt_length {p : Nat} (hCopy : OccursAt needle script p) (hNeedle : needle ≠ []) :
    p < script.length := by
  have hPos := List.length_pos_iff.2 hNeedle
  have hLength := hCopy.length_le
  rw [List.length_drop] at hLength
  omega

/-- A copy begins somewhere just when the needle is a part of the script. -/
theorem exists_occursAt_iff : (∃ p, OccursAt needle script p) ↔ needle <:+: script := by
  constructor
  · rintro ⟨p, hCopy⟩
    exact hCopy.isInfix.trans (List.drop_suffix p script).isInfix
  · rintro ⟨front, rest, rfl⟩
    refine ⟨front.length, ?_⟩
    rw [List.append_assoc]
    exact (occursAt_append_iff 0).2 (List.prefix_append needle rest)

-- ---------------------------------------------------------------------------
-- Deleting from pieces
-- ---------------------------------------------------------------------------

/-- A front in which no copy begins is kept. -/
theorem deleteAll_append_of_clear
    (hClear : ∀ i < front.length, ¬ OccursAt needle (front ++ script) i) :
    deleteAll needle (front ++ script) =
      ⟨front ++ (deleteAll needle script).kept, (deleteAll needle script).removed⟩ := by
  induction front with
  | nil => rfl
  | cons b front ih =>
    have hFront : ¬ needle <+: b :: (front ++ script) := hClear 0 (Nat.zero_lt_succ _)
    have hBehind := ih fun i hLt => hClear (i + 1) (Nat.succ_lt_succ hLt)
    rw [List.cons_append, deleteAll_cons hFront, hBehind]
    rfl

/-- **Where every copy of the needle is a piece**, deletion leaves out those pieces. -/
theorem deleteAll_flatten {pieces : List Bytes} (hNeedle : needle ≠ [])
    (hPieces : ∀ p, OccursAt needle pieces.flatten p →
      ∃ front rest, pieces = front ++ needle :: rest ∧ p = front.flatten.length) :
    (deleteAll needle pieces.flatten).kept = (pieces.filter (· ≠ needle)).flatten := by
  induction pieces with
  | nil => simp [deleteAll]
  | cons piece pieces ih =>
    rw [List.flatten_cons] at hPieces ⊢
    -- a copy behind the first piece is a piece behind it
    have hBehind : ∀ p, OccursAt needle pieces.flatten p →
        ∃ front rest, pieces = front ++ needle :: rest ∧ p = front.flatten.length := by
      intro p hCopy
      obtain ⟨front, rest, hSplit, hPlace⟩ := hPieces _ ((occursAt_append_iff p).2 hCopy)
      cases front with
      | nil =>
        obtain ⟨rfl, -⟩ := List.cons.inj hSplit
        have hPos := List.length_pos_iff.2 hNeedle
        rw [List.flatten_nil, List.length_nil] at hPlace
        omega
      | cons first front =>
        obtain ⟨rfl, rfl⟩ := List.cons.inj hSplit
        rw [List.flatten_cons, List.length_append] at hPlace
        exact ⟨front, rest, rfl, Nat.add_left_cancel hPlace⟩
    by_cases hPiece : piece = needle
    · subst hPiece
      rw [deleteAll_append hNeedle, ih hBehind, List.filter_cons_of_neg (by simp)]
    · have hClear : ∀ i < piece.length, ¬ OccursAt needle (piece ++ pieces.flatten) i := by
        intro i hLt hCopy
        obtain ⟨front, rest, hSplit, hPlace⟩ := hPieces i hCopy
        cases front with
        | nil => exact hPiece (List.cons.inj hSplit).1
        | cons first front =>
          obtain ⟨rfl, -⟩ := List.cons.inj hSplit
          rw [List.flatten_cons, List.length_append] at hPlace
          omega
      rw [deleteAll_append_of_clear hClear, ih hBehind,
        List.filter_cons_of_pos (by simpa using hPiece), List.flatten_cons]

-- ---------------------------------------------------------------------------
-- The gaps
-- ---------------------------------------------------------------------------

namespace Gaps

variable {gaps : List Bytes} {gap : Bytes}

/-- A copy of the needle in front of a script follows an empty gap. -/
theorem append (h : Gaps needle script gaps) (hNe : gaps ≠ []) :
    Gaps needle (needle ++ script) ([] :: gaps) where
  intercalate_eq := by
    rw [List.intercalate_cons_of_ne_nil hNe, h.intercalate_eq, List.nil_append]
  not_occursAt := by
    intro front gap back hGaps i hLt
    cases front with
    | nil =>
      obtain ⟨rfl, -⟩ := List.cons.inj hGaps
      exact absurd hLt (Nat.not_lt_zero i)
    | cons first front =>
      obtain ⟨rfl, hBehind⟩ := List.cons.inj hGaps
      rw [List.flatMap_cons, List.nil_append, List.length_append, Nat.add_assoc,
        occursAt_append_iff]
      exact h.not_occursAt front gap back hBehind i hLt

/-- A byte at which no copy begins belongs to the first gap. -/
theorem cons {b : UInt8} (h : Gaps needle script (gap :: gaps)) (hByte : ¬ needle <+: b :: script) :
    Gaps needle (b :: script) ((b :: gap) :: gaps) where
  intercalate_eq := by
    have hScript := h.intercalate_eq
    cases gaps with
    | nil =>
      rw [List.intercalate_singleton] at hScript ⊢
      rw [hScript]
    | cons next gaps =>
      rw [List.intercalate_cons_cons] at hScript ⊢
      rw [← hScript]
      rfl
  not_occursAt := by
    intro front inner back hGaps i hLt
    cases front with
    | nil =>
      obtain ⟨rfl, rfl⟩ := List.cons.inj hGaps
      -- the new byte, and behind it the places of the gap as it was
      cases i with
      | zero => exact hByte
      | succ i => exact h.not_occursAt [] gap gaps rfl i (Nat.lt_of_succ_lt_succ hLt)
    | cons first front =>
      obtain ⟨rfl, rfl⟩ := List.cons.inj hGaps
      have hInner := h.not_occursAt (gap :: front) inner back rfl i hLt
      rw [List.flatMap_cons] at hInner ⊢
      rw [List.cons_append, List.cons_append, List.length_cons, Nat.add_right_comm]
      exact hInner

end Gaps

/-- **Deletion cuts a script into gaps**, one more than there are copies that go, and keeps
the gaps. -/
theorem exists_gaps (hNeedle : needle ≠ []) (script : Bytes) :
    ∃ gaps, Gaps needle script gaps ∧ gaps.length = (deleteAll needle script).removed + 1 ∧
      gaps.flatten = (deleteAll needle script).kept := by
  induction script using scan_induction hNeedle with
  | nil =>
    refine ⟨[[]], ⟨rfl, ?_⟩, by simp [deleteAll], by simp [deleteAll]⟩
    intro front gap back hGaps i hLt
    have hMem : gap ∈ [[]] := hGaps ▸ List.mem_append_right front List.mem_cons_self
    rw [List.mem_singleton.1 hMem] at hLt
    exact absurd hLt (Nat.not_lt_zero i)
  | copy rest ih =>
    obtain ⟨gaps, hGaps, hLength, hFlatten⟩ := ih
    have hNe : gaps ≠ [] := List.ne_nil_of_length_pos (by omega)
    refine ⟨[] :: gaps, hGaps.append hNe, ?_, ?_⟩
    · rw [deleteAll_append hNeedle, List.length_cons, hLength]
    · rw [deleteAll_append hNeedle, List.flatten_cons, List.nil_append, hFlatten]
  | byte b bs hFront ih =>
    obtain ⟨gaps, hGaps, hLength, hFlatten⟩ := ih
    obtain ⟨gap, gaps, rfl⟩ := List.exists_cons_of_length_eq_add_one hLength
    refine ⟨(b :: gap) :: gaps, hGaps.cons hFront, ?_, ?_⟩
    · rw [deleteAll_cons hFront]
      exact hLength
    · rw [deleteAll_cons hFront, ← hFlatten]
      rfl

-- ---------------------------------------------------------------------------
-- No more copies side by side
-- ---------------------------------------------------------------------------

namespace Apart

theorem mono {fewer : Finset Nat} (h : Apart needle script places) (hSub : fewer ⊆ places) :
    Apart needle script fewer where
  occursAt p hMem := h.occursAt p (hSub hMem)
  add_le p hMem q hMem' := h.add_le p (hSub hMem) q (hSub hMem')

/-- Places in a script are places behind a front of it, moved by its length. -/
theorem map (h : Apart needle script places) (front : Bytes) :
    Apart needle (front ++ script) (places.map (addLeftEmbedding front.length)) where
  occursAt := by
    simp only [Finset.mem_map, addLeftEmbedding_apply, forall_exists_index, and_imp,
      forall_apply_eq_imp_iff₂, occursAt_append_iff]
    exact h.occursAt
  add_le := by
    simp only [Finset.mem_map, addLeftEmbedding_apply, forall_exists_index, and_imp,
      forall_apply_eq_imp_iff₂]
    intro p hMem q hMem' hLt
    have := h.add_le p hMem q hMem' (by omega)
    omega

/-- Places that lie behind a front are places in what is behind it. -/
theorem exists_map (h : Apart needle (front ++ script) places)
    (hBehind : ∀ p ∈ places, front.length ≤ p) :
    ∃ behind, Apart needle script behind ∧ behind.card = places.card := by
  obtain ⟨behind, rfl⟩ :
      ∃ behind : Finset Nat, places = behind.map (addLeftEmbedding front.length) := by
    refine ⟨places.image (· - front.length), ?_⟩
    ext p
    simp only [Finset.mem_map, Finset.mem_image, addLeftEmbedding_apply]
    constructor
    · intro hMem
      exact ⟨_, ⟨p, hMem, rfl⟩, Nat.add_sub_cancel' (hBehind p hMem)⟩
    · rintro ⟨_, ⟨q, hMem, rfl⟩, rfl⟩
      rwa [Nat.add_sub_cancel' (hBehind q hMem)]
  have hPlace (p : Nat) (hMem : p ∈ behind) :
      front.length + p ∈ behind.map (addLeftEmbedding front.length) :=
    Finset.mem_map_of_mem _ hMem
  refine ⟨behind, ⟨?_, ?_⟩, (Finset.card_map _).symm⟩
  · intro p hMem
    exact (occursAt_append_iff p).1 (h.occursAt _ (hPlace p hMem))
  · intro p hMem q hMem' hLt
    have := h.add_le _ (hPlace p hMem) _ (hPlace q hMem') (by omega)
    omega

/-- A copy in front ends where what is behind it begins. -/
theorem insert_front (h : Apart needle script places) :
    Apart needle (needle ++ script)
      (insert 0 (places.map (addLeftEmbedding needle.length))) where
  occursAt := by
    refine (Finset.forall_mem_insert _ _ _).2 ⟨?_, (h.map needle).occursAt⟩
    exact List.prefix_append needle script
  add_le := by
    have hFar (q : Nat) (hMem : q ∈ places.map (addLeftEmbedding needle.length)) :
        needle.length ≤ q := by
      obtain ⟨r, -, rfl⟩ := Finset.mem_map.1 hMem
      exact Nat.le_add_right _ r
    intro p hMem q hMem' hLt
    rcases Finset.mem_insert.1 hMem with rfl | hMem
    · rcases Finset.mem_insert.1 hMem' with rfl | hMem'
      · exact absurd hLt (Nat.lt_irrefl 0)
      · rw [Nat.zero_add]
        exact hFar q hMem'
    · rcases Finset.mem_insert.1 hMem' with rfl | hMem'
      · exact absurd hLt (Nat.not_lt_zero p)
      · exact (h.map needle).add_le p hMem q hMem' hLt

/-- At most one copy begins within the first bytes that a copy takes. -/
theorem card_filter_lt_le_one (h : Apart needle script places) :
    (places.filter (· < needle.length)).card ≤ 1 := by
  refine Finset.card_le_one.2 fun p hMem q hMem' => ?_
  rw [Finset.mem_filter] at hMem hMem'
  rcases Nat.lt_trichotomy p q with hLt | hEq | hLt
  · have := h.add_le p hMem.1 q hMem'.1 hLt
    omega
  · exact hEq
  · have := h.add_le q hMem'.1 p hMem.1 hLt
    omega

end Apart

/-- There is room for as many copies side by side as go. -/
theorem exists_apart (hNeedle : needle ≠ []) (script : Bytes) :
    ∃ places, Apart needle script places ∧ places.card = (deleteAll needle script).removed := by
  induction script using scan_induction hNeedle with
  | nil => exact ⟨∅, ⟨by simp, by simp⟩, by simp [deleteAll]⟩
  | copy rest ih =>
    obtain ⟨places, hApart, hCard⟩ := ih
    have hPos : 0 < needle.length := List.length_pos_iff.2 hNeedle
    have hNotMem : 0 ∉ places.map (addLeftEmbedding needle.length) := by
      simp only [Finset.mem_map, addLeftEmbedding_apply, not_exists, not_and]
      intro p _
      omega
    refine ⟨_, hApart.insert_front, ?_⟩
    rw [Finset.card_insert_of_notMem hNotMem, Finset.card_map, hCard, deleteAll_append hNeedle]
  | byte b bs hFront ih =>
    obtain ⟨places, hApart, hCard⟩ := ih
    refine ⟨_, hApart.map [b], ?_⟩
    rw [Finset.card_map, hCard, deleteAll_cons hFront]

/-- **No choice of copies side by side is larger** than the copies that go. -/
theorem card_le_removed (hNeedle : needle ≠ []) (hApart : Apart needle script places) :
    places.card ≤ (deleteAll needle script).removed := by
  induction script using scan_induction hNeedle generalizing places with
  | nil =>
    have hEmpty : places = ∅ := by
      refine Finset.eq_empty_of_forall_notMem fun p hMem => hNeedle ?_
      have hCopy := hApart.occursAt p hMem
      rw [OccursAt, List.drop_nil] at hCopy
      exact List.prefix_nil.1 hCopy
    rw [hEmpty]
    exact Nat.zero_le _
  | copy rest ih =>
    -- at most one copy begins within the one in front, and the others lie behind it
    have hFront := hApart.card_filter_lt_le_one
    obtain ⟨behind, hBehind, hCard⟩ :=
      (hApart.mono (Finset.filter_subset (¬ · < needle.length) places)).exists_map fun p hMem =>
        Nat.le_of_not_lt (Finset.mem_filter.1 hMem).2
    have hRest := ih hBehind
    have hSplit : (places.filter (· < needle.length)).card +
        (places.filter (¬ · < needle.length)).card = places.card :=
      Finset.card_filter_add_card_filter_not _
    rw [deleteAll_append hNeedle]
    dsimp only
    omega
  | byte b bs hFront ih =>
    have hBehind : ∀ p ∈ places, [b].length ≤ p := by
      intro p hMem
      refine Nat.pos_of_ne_zero ?_
      rintro rfl
      exact hFront (hApart.occursAt 0 hMem)
    have hCons : Apart needle ([b] ++ bs) places := hApart
    obtain ⟨behind, hRest, hCard⟩ := hCons.exists_map hBehind
    rw [deleteAll_cons hFront, ← hCard]
    exact ih hRest

/-- What goes is the largest number of copies side by side. -/
theorem removed_isGreatest (hNeedle : needle ≠ []) (script : Bytes) :
    IsGreatest {n | ∃ places, Apart needle script places ∧ places.card = n}
      (deleteAll needle script).removed := by
  refine ⟨exists_apart hNeedle script, ?_⟩
  rintro _ ⟨places, hApart, rfl⟩
  exact card_le_removed hNeedle hApart

/-- Nothing goes just when no copy of the needle is there. -/
theorem removed_eq_zero_iff (hNeedle : needle ≠ []) (script : Bytes) :
    (deleteAll needle script).removed = 0 ↔ ¬ needle <:+: script := by
  rw [← exists_occursAt_iff]
  constructor
  · rintro hZero ⟨p, hCopy⟩
    have hOne : Apart needle script {p} := by
      refine ⟨fun q hMem => Finset.mem_singleton.1 hMem ▸ hCopy, fun q hMem r hMem' hLt => ?_⟩
      rw [Finset.mem_singleton.1 hMem, Finset.mem_singleton.1 hMem'] at hLt
      exact absurd hLt (Nat.lt_irrefl p)
    have := card_le_removed hNeedle hOne
    rw [Finset.card_singleton] at this
    omega
  · intro hNone
    obtain ⟨places, hApart, hCard⟩ := exists_apart hNeedle script
    rw [← hCard, Finset.card_eq_zero]
    exact Finset.eq_empty_of_forall_notMem fun p hMem => hNone ⟨p, hApart.occursAt p hMem⟩

/-- Deletion changes nothing just when no copy of the needle is there. -/
theorem deleteAll_eq_self_iff (hNeedle : needle ≠ []) :
    deleteAll needle script = ⟨script, 0⟩ ↔ ¬ needle <:+: script := by
  rw [← removed_eq_zero_iff hNeedle]
  constructor
  · intro hAll
    rw [hAll]
  · intro hNone
    obtain ⟨gaps, hGaps, hCount, hKept⟩ := exists_gaps hNeedle script
    -- there is a single gap, the whole script
    rw [hNone] at hCount
    obtain ⟨gap, rfl⟩ := List.length_eq_one_iff.1 hCount
    have hScript := hGaps.intercalate_eq
    rw [List.intercalate_singleton] at hScript
    rw [List.flatten_singleton, hScript] at hKept
    exact congrArg₂ Deletion.mk hKept.symm hNone

/-- **Deletion is the greedy scan.** A needle cuts the script into gaps in which no copy of
it begins, with a copy between any two, and the gaps are what is kept. No more copies can
stand in the script side by side than go, and each byte is either kept or in one of those.
Nothing goes just when the script has no copy at all, and then it stays as it is, as it
does for an empty needle. -/
theorem deleteAll_greedy (needle script : Bytes) :
    (needle ≠ [] →
      (∃ gaps, Gaps needle script gaps ∧
        gaps.length = (deleteAll needle script).removed + 1 ∧
        gaps.flatten = (deleteAll needle script).kept) ∧
      IsGreatest {n | ∃ places, Apart needle script places ∧ places.card = n}
        (deleteAll needle script).removed ∧
      (deleteAll needle script).kept.length +
        (deleteAll needle script).removed * needle.length = script.length ∧
      ((deleteAll needle script).removed = 0 ↔ ¬ needle <:+: script) ∧
      (deleteAll needle script = ⟨script, 0⟩ ↔ ¬ needle <:+: script)) ∧
    (needle = [] → deleteAll needle script = ⟨script, 0⟩) := by
  refine ⟨fun hNeedle => ?_, ?_⟩
  · exact ⟨exists_gaps hNeedle script, removed_isGreatest hNeedle script,
      length_deleteAll hNeedle script, removed_eq_zero_iff hNeedle script,
      deleteAll_eq_self_iff hNeedle⟩
  · rintro rfl
    exact deleteAll_nil_left script

/-- Of three copies that overlap the first and the last go, and what is between them stays. -/
theorem deleteAll_greedy_overlapping :
    let needle : Bytes := [0xaa, 0xbb, 0xaa]
    let script : Bytes := [0xaa, 0xbb, 0xaa, 0xbb, 0xaa, 0xbb, 0xaa]
    needle ≠ [] ∧ deleteAll needle script = ⟨[0xbb], 2⟩ ∧
      OccursAt needle script 2 ∧
      ∀ places, Apart needle script places → places.card ≤ 2 := by
  intro needle script
  have hNeedle : needle ≠ [] := by decide
  have hDeletion : deleteAll needle script = ⟨[0xbb], 2⟩ := by decide +kernel
  obtain ⟨-, ⟨-, hMost⟩, -⟩ := (deleteAll_greedy needle script).1 hNeedle
  refine ⟨hNeedle, hDeletion, ⟨[0xbb, 0xaa], rfl⟩, fun places hApart => ?_⟩
  have hCard := hMost ⟨places, hApart, rfl⟩
  rwa [hDeletion] at hCard

end LegacyScript.Script
