import Mathlib.Data.List.Infix

/-!
# Words separated by blanks

The maximal runs of elements that are not blank, in order
(`tokens_eq_filter_splitOnP`). Splitting the text that joins some words by one blank each
gives the words back (`tokens_intercalate`).

A blank cuts a text in two (`tokens_append_blank`). Elsewhere a word may go across the
cut (`tokens_append_cons_append`). Every element that is not blank is in a word
(`exists_mem_tokens`), and a part of a text has no more words than the text
(`length_tokens_le`).
-/

namespace Library

variable {α : Type*} (blank : α → Bool)

/-- The words of the text that is left, after the part `word` of the current one. -/
def tokensFrom : List α → List α → List (List α)
  | word, [] => if word.isEmpty then [] else [word]
  | word, a :: text =>
    if blank a then
      if word.isEmpty then tokensFrom [] text else word :: tokensFrom [] text
    else tokensFrom (word ++ [a]) text

/-- The words of a text. -/
def tokens (text : List α) : List (List α) := tokensFrom blank [] text

variable {blank}

/-- The words that are left, after a part of the current one. -/
theorem tokensFrom_eq_filter_splitOnP (word text : List α) : tokensFrom blank word text =
    ((text.splitOnP blank).modifyHead (word ++ ·)).filter (!·.isEmpty) := by
  induction text generalizing word with
  | nil => cases word <;> simp [tokensFrom]
  | cons a text ih =>
    have hnil : tokensFrom blank [] text = (text.splitOnP blank).filter (!·.isEmpty) := by
      rw [ih]
      cases text.splitOnP blank <;> rfl
    rw [tokensFrom, List.splitOnP_cons_eq_if_modifyHead]
    split_ifs with ha hword
    · simp [hnil, hword]
    · simp [hnil, hword]
    · -- an element that is not blank goes to the current word
      rw [ih, List.modifyHead_modifyHead]
      simp [Function.comp_def]

/-- The words are what stands between the blanks, where this is not empty. -/
theorem tokens_eq_filter_splitOnP (text : List α) :
    tokens blank text = (text.splitOnP blank).filter (!·.isEmpty) := by
  rw [tokens, tokensFrom_eq_filter_splitOnP]
  cases text.splitOnP blank <;> rfl

/-- A word is read up to its end. -/
theorem tokensFrom_append {word more : List α} (hmore : ∀ a ∈ more, blank a = false)
    (text : List α) : tokensFrom blank word (more ++ text) = tokensFrom blank (word ++ more) text := by
  induction more generalizing word with
  | nil => rw [List.nil_append, List.append_nil]
  | cons a more ih =>
    rw [List.forall_mem_cons] at hmore
    rw [List.cons_append, tokensFrom, hmore.1, if_neg Bool.false_ne_true, ih hmore.2,
      List.append_assoc, List.singleton_append]

/-- A word before a blank is the first one. -/
theorem tokens_append_cons {word text : List α} {a : α} (hword : ∀ b ∈ word, blank b = false)
    (hne : word ≠ []) (ha : blank a = true) :
    tokens blank (word ++ a :: text) = word :: tokens blank text := by
  rw [tokens, tokensFrom_append hword, List.nil_append, tokensFrom, if_pos ha,
    if_neg (by simpa using hne), tokens]

theorem tokens_of_word {word : List α} (hword : ∀ b ∈ word, blank b = false) (hne : word ≠ []) :
    tokens blank word = [word] := by
  have happend : tokensFrom blank [] (word ++ []) = tokensFrom blank ([] ++ word) [] :=
    tokensFrom_append hword []
  rw [List.append_nil, List.nil_append] at happend
  rw [tokens, happend, tokensFrom, if_neg (by simpa using hne)]

/-- Joining words by a blank and splitting again gives the words back. -/
theorem tokens_intercalate {a : α} (ha : blank a = true) {words : List (List α)}
    (hwords : ∀ word ∈ words, word ≠ [] ∧ ∀ b ∈ word, blank b = false) :
    tokens blank (List.intercalate [a] words) = words := by
  induction words with
  | nil => rfl
  | cons word words ih =>
    rw [List.forall_mem_cons] at hwords
    obtain ⟨⟨hne, hword⟩, hwords⟩ := hwords
    -- the last word has no blank after it
    cases words with
    | nil => rw [List.intercalate_singleton, tokens_of_word hword hne]
    | cons word' words =>
      rw [List.intercalate_cons_cons, List.append_assoc, List.singleton_append,
        tokens_append_cons hword hne ha, ih hwords]

/-! ## Parts of a text -/

variable {word text text' : List α} {a : α}

theorem tokensFrom_append_blank (ha : blank a = true) :
    tokensFrom blank word (text ++ a :: text') = tokensFrom blank word text ++ tokens blank text' := by
  induction text generalizing word with
  | nil =>
    rw [List.nil_append, tokensFrom, tokensFrom, if_pos ha]
    split_ifs <;> rfl
  | cons b text ih =>
    rw [List.cons_append, tokensFrom, tokensFrom]
    split_ifs
    · exact ih
    · rw [ih, List.cons_append]
    · exact ih

/-- A blank cuts a text in two. -/
theorem tokens_append_blank (ha : blank a = true) :
    tokens blank (text ++ a :: text') = tokens blank text ++ tokens blank text' :=
  tokensFrom_append_blank ha

/-- The words of a text that starts with a word, if this is not empty. -/
theorem tokens_append_of_blank (hword : ∀ b ∈ word, blank b = false)
    (htext : ∀ a ∈ text.head?, blank a = true) :
    tokens blank (word ++ text) = (if word.isEmpty then [] else [word]) ++ tokens blank text := by
  rw [tokens, tokensFrom_append hword, List.nil_append]
  cases text with
  | nil => rw [tokens, tokensFrom, tokensFrom, List.isEmpty_nil, if_pos rfl, List.append_nil]
  | cons a text =>
    have ha : blank a = true := htext a rfl
    rw [tokens, tokensFrom, tokensFrom, if_pos ha, if_pos ha, List.isEmpty_nil, if_pos rfl]
    split_ifs <;> rfl

/-- The words of a text that ends with a word, if this is not empty. -/
theorem tokens_append_word (htext : ∀ a ∈ text.getLast?, blank a = true)
    (hword : ∀ b ∈ word, blank b = false) :
    tokens blank (text ++ word) = tokens blank text ++ if word.isEmpty then [] else [word] := by
  have hnil : tokens blank word = if word.isEmpty then [] else [word] := by
    have happend : tokens blank (word ++ []) =
        (if word.isEmpty then [] else [word]) ++ tokens blank [] :=
      tokens_append_of_blank hword (by simp)
    rwa [List.append_nil, show tokens blank ([] : List α) = [] from rfl, List.append_nil] at happend
  rcases List.eq_nil_or_concat text with rfl | ⟨text, a, rfl⟩
  · rw [List.nil_append, hnil]
    rfl
  · have ha : blank a = true := htext a (by simp)
    rw [List.concat_eq_append, List.append_assoc, List.singleton_append, tokens_append_blank ha,
      tokens_append_blank ha, hnil]
    simp [tokens, tokensFrom]

/-- A word that goes across a cut. -/
theorem tokens_append_cons_append {word' : List α} (htext : ∀ b ∈ text.getLast?, blank b = true)
    (hword : ∀ b ∈ word, blank b = false) (ha : blank a = false)
    (hword' : ∀ b ∈ word', blank b = false) (htext' : ∀ b ∈ text'.head?, blank b = true) :
    tokens blank (text ++ word ++ a :: (word' ++ text')) =
      tokens blank text ++ (word ++ a :: word') :: tokens blank text' := by
  have hacross : ∀ b ∈ word ++ a :: word', blank b = false := by
    intro b hb
    rcases List.mem_append.1 hb with hb | hb
    · exact hword b hb
    · rcases List.mem_cons.1 hb with rfl | hb
      · exact ha
      · exact hword' b hb
  have hmiddle : tokens blank (word ++ a :: (word' ++ text')) =
      (word ++ a :: word') :: tokens blank text' := by
    have happend := tokens_append_of_blank hacross htext'
    rw [if_neg (by simp)] at happend
    simpa using happend
  rcases List.eq_nil_or_concat text with rfl | ⟨text, b, rfl⟩
  · simpa [tokens, tokensFrom] using hmiddle
  · have hb : blank b = true := htext b (by simp)
    rw [List.concat_eq_append, List.append_assoc, List.append_assoc, List.singleton_append,
      tokens_append_blank hb, tokens_append_blank hb, hmiddle]
    simp [tokens, tokensFrom]

/-- Every element that is not blank is in a word. -/
theorem exists_mem_tokensFrom (h : a ∈ word ∨ a ∈ text ∧ blank a = false) :
    ∃ token ∈ tokensFrom blank word text, a ∈ token := by
  induction text generalizing word with
  | nil =>
    have ha : a ∈ word := by simpa using h
    have hne : ¬ word.isEmpty = true := by simp [List.ne_nil_of_mem ha]
    rw [tokensFrom, if_neg hne]
    exact ⟨word, List.mem_singleton_self _, ha⟩
  | cons b text ih =>
    rw [tokensFrom]
    split_ifs with hb hempty
    · refine ih (.inr ?_)
      rcases h with ha | ⟨ha, hblank⟩
      · simp_all
      · rcases List.mem_cons.1 ha with rfl | ha
        · simp_all
        · exact ⟨ha, hblank⟩
    · -- the blank ends the current word
      rcases h with ha | ⟨ha, hblank⟩
      · exact ⟨word, List.mem_cons_self, ha⟩
      · have htext : a ∈ text := by
          rcases List.mem_cons.1 ha with rfl | ha
          · simp_all
          · exact ha
        obtain ⟨token, htoken, hmem⟩ : ∃ token ∈ tokensFrom blank [] text, a ∈ token :=
          ih (.inr ⟨htext, hblank⟩)
        exact ⟨token, List.mem_cons_of_mem _ htoken, hmem⟩
    · refine ih ?_
      rcases h with ha | ⟨ha, hblank⟩
      · exact .inl (List.mem_append_left _ ha)
      · rcases List.mem_cons.1 ha with rfl | ha
        · exact .inl (by simp)
        · exact .inr ⟨ha, hblank⟩

theorem exists_mem_tokens (ha : a ∈ text) (hblank : blank a = false) :
    ∃ token ∈ tokens blank text, a ∈ token :=
  exists_mem_tokensFrom (.inr ⟨ha, hblank⟩)

/-- What is in a word is in the text. -/
theorem mem_of_mem_tokensFrom {token : List α} (htoken : token ∈ tokensFrom blank word text)
    (ha : a ∈ token) : a ∈ word ∨ a ∈ text := by
  induction text generalizing word with
  | nil =>
    rw [tokensFrom] at htoken
    split_ifs at htoken
    · exact absurd htoken List.not_mem_nil
    · exact .inl (List.mem_singleton.1 htoken ▸ ha)
  | cons b text ih =>
    rw [tokensFrom] at htoken
    split_ifs at htoken
    · rcases ih htoken with hmem | hmem
      · exact absurd hmem List.not_mem_nil
      · exact .inr (List.mem_cons_of_mem _ hmem)
    · rcases List.mem_cons.1 htoken with rfl | htoken
      · exact .inl ha
      · rcases ih htoken with hmem | hmem
        · exact absurd hmem List.not_mem_nil
        · exact .inr (List.mem_cons_of_mem _ hmem)
    · rcases ih htoken with hmem | hmem
      · rcases List.mem_append.1 hmem with hmem | hmem
        · exact .inl hmem
        · exact .inr (List.mem_singleton.1 hmem ▸ List.mem_cons_self)
      · exact .inr (List.mem_cons_of_mem _ hmem)

theorem mem_of_mem_tokens {token : List α} (htoken : token ∈ tokens blank text) (ha : a ∈ token) :
    a ∈ text := (mem_of_mem_tokensFrom htoken ha).resolve_left List.not_mem_nil

theorem of_mem_tokensFrom {token : List α} (hword : ∀ b ∈ word, blank b = false)
    (htoken : token ∈ tokensFrom blank word text) : token ≠ [] ∧ ∀ b ∈ token, blank b = false := by
  induction text generalizing word with
  | nil =>
    rw [tokensFrom] at htoken
    split_ifs at htoken with hempty
    · exact absurd htoken List.not_mem_nil
    · obtain rfl := List.mem_singleton.1 htoken
      exact ⟨by simpa using hempty, hword⟩
  | cons b text ih =>
    rw [tokensFrom] at htoken
    split_ifs at htoken with hb hempty
    · exact ih (List.forall_mem_nil _) htoken
    · rcases List.mem_cons.1 htoken with rfl | htoken
      · exact ⟨by simpa using hempty, hword⟩
      · exact ih (List.forall_mem_nil _) htoken
    · refine ih (List.forall_mem_append.2 ⟨hword, ?_⟩) htoken
      simpa using hb

/-- A word is not empty, and has no blanks. -/
theorem of_mem_tokens {token : List α} (htoken : token ∈ tokens blank text) :
    token ≠ [] ∧ ∀ b ∈ token, blank b = false := of_mem_tokensFrom (List.forall_mem_nil _) htoken

/-- A text is a word at its end, if it does not end with a blank, after a part that does. -/
theorem exists_append_word (blank : α → Bool) (text : List α) :
    ∃ front word, text = front ++ word ∧ (∀ b ∈ front.getLast?, blank b = true) ∧
      ∀ b ∈ word, blank b = false := by
  induction text with
  | nil => exact ⟨[], [], rfl, by simp, by simp⟩
  | cons a text ih =>
    obtain ⟨front, word, rfl, hfront, hword⟩ := ih
    cases front with
    | cons b front => exact ⟨a :: b :: front, word, rfl, by simpa using hfront, hword⟩
    | nil =>
      cases ha : blank a with
      | true => exact ⟨[a], word, rfl, by simpa using ha, hword⟩
      | false => exact ⟨[], a :: word, rfl, by simp, List.forall_mem_cons.2 ⟨ha, hword⟩⟩

/-- A text is a word at its front, if it does not start with a blank, before a part that
    does. -/
theorem exists_word_append (blank : α → Bool) (text : List α) :
    ∃ word back, text = word ++ back ∧ (∀ b ∈ back.head?, blank b = true) ∧
      ∀ b ∈ word, blank b = false := by
  induction text with
  | nil => exact ⟨[], [], rfl, by simp, by simp⟩
  | cons a text ih =>
    cases ha : blank a with
    | true => exact ⟨[], a :: text, rfl, by simpa using ha, by simp⟩
    | false =>
      obtain ⟨word, back, rfl, hback, hword⟩ := ih
      exact ⟨a :: word, back, rfl, hback, List.forall_mem_cons.2 ⟨ha, hword⟩⟩

/-- The end of a text that does not end with a blank is in the last word. -/
theorem exists_mem_getLast_tokens (ha : a ∈ text.getLast?) (hblank : blank a = false) :
    ∃ token ∈ (tokens blank text).getLast?, a ∈ token := by
  obtain ⟨front, word, rfl, hfront, hword⟩ := exists_append_word blank text
  rw [tokens_append_word hfront hword]
  rcases List.eq_nil_or_concat word with rfl | ⟨word, b, rfl⟩
  · rw [List.append_nil] at ha
    rw [hfront a ha] at hblank
    cases hblank
  · obtain rfl : b = a := by simpa using ha
    exact ⟨word ++ [b], by simp, by simp⟩

/-- How many words there are does not depend on what the current one is. -/
theorem length_tokensFrom (hword : word ≠ []) {word' : List α} (hword' : word' ≠ []) :
    (tokensFrom blank word text).length = (tokensFrom blank word' text).length := by
  induction text generalizing word word' with
  | nil => simp [tokensFrom, hword, hword']
  | cons a text ih =>
    have hempty : ¬ word.isEmpty = true := by simpa using hword
    have hempty' : ¬ word'.isEmpty = true := by simpa using hword'
    rw [tokensFrom, tokensFrom, if_neg hempty, if_neg hempty']
    by_cases ha : blank a = true
    · rw [if_pos ha, if_pos ha, List.length_cons, List.length_cons]
    · rw [if_neg ha, if_neg ha]
      exact ih (by simp) (by simp)

theorem length_tokens_le_from :
    (tokens blank text).length ≤ (tokensFrom blank word text).length := by
  induction text generalizing word with
  | nil => simp [tokens, tokensFrom]
  | cons a text ih =>
    rw [tokens, tokensFrom, tokensFrom]
    by_cases ha : blank a = true
    · rw [if_pos ha, if_pos ha, List.isEmpty_nil, if_pos rfl]
      split_ifs
      · exact le_rfl
      · exact Nat.le_succ _
    · rw [if_neg ha, if_neg ha]
      exact (length_tokensFrom (by simp) (by simp)).le

theorem length_tokensFrom_pos (hword : word ≠ []) : 0 < (tokensFrom blank word text).length := by
  induction text generalizing word with
  | nil => simp [tokensFrom, hword]
  | cons a text ih =>
    rw [tokensFrom]
    split_ifs <;> simp_all

theorem length_tokensFrom_append_le :
    (tokensFrom blank word text).length ≤ (tokensFrom blank word (text ++ text')).length := by
  induction text generalizing word with
  | nil =>
    rw [tokensFrom, List.nil_append]
    split_ifs with hword
    · exact Nat.zero_le _
    · exact length_tokensFrom_pos (by simpa using hword)
  | cons a text ih =>
    rw [List.cons_append, tokensFrom, tokensFrom]
    split_ifs
    · exact ih
    · exact Nat.succ_le_succ ih
    · exact ih

theorem length_tokensFrom_le_append :
    (tokens blank text').length ≤ (tokensFrom blank word (text ++ text')).length := by
  induction text generalizing word with
  | nil => exact length_tokens_le_from
  | cons a text ih =>
    rw [List.cons_append, tokensFrom]
    split_ifs
    · exact ih
    · exact ih.trans (Nat.le_succ _)
    · exact ih

/-- A part of a text has no more words than the text. -/
theorem length_tokens_le (h : text <:+: text') :
    (tokens blank text).length ≤ (tokens blank text').length := by
  obtain ⟨before, after, rfl⟩ := h
  rw [List.append_assoc]
  exact length_tokensFrom_append_le.trans length_tokensFrom_le_append

end Library
