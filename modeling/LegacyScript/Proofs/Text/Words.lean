import LegacyScript.Text.Blank
import Mathlib.Data.List.Basic

/-!
# Words of joined texts

A blank separates: the words of two texts with a blank between them are the words of the
first and then those of the second. So the words of texts that are joined with spaces are
the words of each of them, and a text that is a word itself is given back.

## Results

* `words_intercalate`           — the words of texts joined with spaces.
* `words_intercalate_of_isWord` — words that are joined with spaces are given back.
* `isWord_of_mem_words`         — what the words of a text have in common.
-/

namespace LegacyScript.Text

-- ---------------------------------------------------------------------------
-- Pieces
-- ---------------------------------------------------------------------------

theorem pieces_ne_nil (cs : List Char) : pieces cs ≠ [] := by
  cases cs with
  | nil => exact List.cons_ne_nil _ _
  | cons c cs =>
    rw [pieces]
    split
    · exact List.cons_ne_nil _ _
    · split
      · exact List.cons_ne_nil _ _
      · exact List.cons_ne_nil _ _

theorem pieces_cons_of_blank {c : Char} (h : isBlank c = true) (cs : List Char) :
    pieces (c :: cs) = [] :: pieces cs := by
  rw [pieces, if_pos h]

theorem pieces_cons_of_not_blank {c : Char} {cs piece : List Char} {others : List (List Char)}
    (h : isBlank c = false) (hPieces : pieces cs = piece :: others) :
    pieces (c :: cs) = (c :: piece) :: others := by
  rw [pieces, h, hPieces]
  rfl

/-- A blank separates. -/
theorem pieces_append_blank {blank : Char} (h : isBlank blank = true) (front behind : List Char) :
    pieces (front ++ blank :: behind) = pieces front ++ pieces behind := by
  induction front with
  | nil =>
    rw [List.nil_append, pieces_cons_of_blank h]
    rfl
  | cons c front ih =>
    rw [List.cons_append]
    by_cases hBlank : isBlank c = true
    · rw [pieces_cons_of_blank hBlank, pieces_cons_of_blank hBlank, ih, List.cons_append]
    · have hNot : isBlank c = false := Bool.not_eq_true _ ▸ hBlank
      obtain ⟨piece, others, hPieces⟩ := List.exists_cons_of_ne_nil (pieces_ne_nil front)
      rw [hPieces, List.cons_append] at ih
      rw [pieces_cons_of_not_blank hNot ih, pieces_cons_of_not_blank hNot hPieces,
        List.cons_append]

theorem pieces_of_no_blank {cs : List Char} (h : ∀ c ∈ cs, isBlank c = false) :
    pieces cs = [cs] := by
  induction cs with
  | nil => rfl
  | cons c cs ih =>
    exact pieces_cons_of_not_blank (h c List.mem_cons_self)
      (ih fun d hMem => h d (List.mem_cons_of_mem _ hMem))

theorem no_blank_of_mem_pieces {cs piece : List Char} (h : piece ∈ pieces cs) :
    ∀ c ∈ piece, isBlank c = false := by
  induction cs generalizing piece with
  | nil =>
    obtain rfl : piece = [] := List.mem_singleton.1 h
    simp
  | cons c cs ih =>
    by_cases hBlank : isBlank c = true
    · rw [pieces_cons_of_blank hBlank] at h
      rcases List.mem_cons.1 h with rfl | hMem
      · simp
      · exact ih hMem
    · have hNot : isBlank c = false := Bool.not_eq_true _ ▸ hBlank
      obtain ⟨first, others, hPieces⟩ := List.exists_cons_of_ne_nil (pieces_ne_nil cs)
      rw [pieces_cons_of_not_blank hNot hPieces] at h
      rcases List.mem_cons.1 h with rfl | hMem
      · intro d hd
        rcases List.mem_cons.1 hd with rfl | hFirst
        · exact hNot
        · exact ih (hPieces ▸ List.mem_cons_self) d hFirst
      · exact ih (hPieces ▸ List.mem_cons_of_mem _ hMem)

-- ---------------------------------------------------------------------------
-- Words
-- ---------------------------------------------------------------------------

/-- A text that has a character and no blank. -/
def IsWord (text : String) : Prop :=
  text.toList ≠ [] ∧ ∀ c ∈ text.toList, isBlank c = false

theorem words_append_space (front behind : String) :
    words (front ++ " " ++ behind) = words front ++ words behind := by
  have hSpace : " ".toList = [' '] := rfl
  have hBlank : isBlank ' ' = true := by decide
  unfold words
  rw [String.toList_append, String.toList_append, hSpace, List.append_assoc, List.singleton_append,
    pieces_append_blank hBlank, List.filter_append, List.map_append]

/-- **Words of texts that are joined with spaces** are the words of each of them. -/
theorem words_intercalate (texts : List String) :
    words (" ".intercalate texts) = texts.flatMap words := by
  induction texts with
  | nil => rfl
  | cons text texts ih =>
    cases texts with
    | nil => simp
    | cons next texts =>
      rw [String.intercalate_cons_cons, words_append_space, ih]
      exact List.flatMap_cons.symm

theorem words_of_isWord {text : String} (h : IsWord text) : words text = [text] := by
  obtain ⟨hNil, hBlank⟩ := h
  unfold words
  rw [pieces_of_no_blank hBlank]
  simp [hNil]

/-- Every word of a text is a word. -/
theorem isWord_of_mem_words {text word : String} (h : word ∈ words text) : IsWord word := by
  obtain ⟨piece, hPiece, rfl⟩ := List.mem_map.1 h
  obtain ⟨hMem, hNil⟩ := List.mem_filter.1 hPiece
  unfold IsWord
  rw [String.toList_ofList]
  exact ⟨by simpa using hNil, no_blank_of_mem_pieces hMem⟩

/-- **Words that are joined with spaces are given back.** -/
theorem words_intercalate_of_isWord {texts : List String} (h : ∀ text ∈ texts, IsWord text) :
    words (" ".intercalate texts) = texts := by
  rw [words_intercalate]
  induction texts with
  | nil => rfl
  | cons text texts ih =>
    rw [List.flatMap_cons, words_of_isWord (h text List.mem_cons_self),
      ih fun other hMem => h other (List.mem_cons_of_mem _ hMem)]
    rfl

end LegacyScript.Text
