import Mathlib.Data.List.Infix

/-!
# Framing

A reader takes chunks until what it has read so far passes a test (`readUntil`). It reads
a text to its end, however the text is split, exactly if the text passes the test and no
proper part of its front does (`readUntil_eq_iff`, `forall_readUntil_iff`).

A text may be made of lines, each ended by a separator (`unlines`), the last of which is a
terminator. A reader that stops once what it has read ends with the terminator line reads
it to its end exactly if no other line ends with the terminator (`terminated_iff`).
-/

namespace Library

variable {α : Type*}

/-! ## Reading -/

/-- Reads chunks until what has been read passes the test: what has been read, the chunks
    that have not been, and whether the test has passed. -/
def readUntil (stop : List α → Bool) : List α → List (List α) → List α × List (List α) × Bool
  | text, [] => (text, [], false)
  | text, chunk :: chunks =>
    if stop (text ++ chunk) then (text ++ chunk, chunks, true)
    else readUntil stop (text ++ chunk) chunks

variable {stop : List α → Bool} {text : List α} {chunks : List (List α)}

/-- The reader goes on after chunks that have not been enough. -/
theorem readUntil_concat {read : List α} (h : readUntil stop text chunks = (read, [], false))
    (chunk : List α) :
    readUntil stop text (chunks ++ [chunk]) = (read ++ chunk, [], stop (read ++ chunk)) := by
  induction chunks generalizing text with
  | nil =>
    obtain rfl : text = read := congrArg Prod.fst h
    rw [List.nil_append, readUntil]
    split_ifs with hstop <;> simp [hstop, readUntil]
  | cons first chunks ih =>
    rw [readUntil] at h
    rw [List.cons_append, readUntil]
    split_ifs at h ⊢ with hstop
    · cases congrArg (·.2.2) h
    · exact ih h

/-- A reader that leaves nothing unread has read all of it. -/
theorem flatten_of_readUntil {read : List α} {stopped : Bool}
    (h : readUntil stop text chunks = (read, [], stopped)) : text ++ chunks.flatten = read := by
  induction chunks generalizing text with
  | nil =>
    rw [List.flatten_nil, List.append_nil]
    exact congrArg Prod.fst h
  | cons chunk chunks ih =>
    rw [readUntil] at h
    rw [List.flatten_cons, ← List.append_assoc]
    split_ifs at h with hstop
    · obtain ⟨rfl, rfl, -⟩ : text ++ chunk = read ∧ chunks = [] ∧ true = stopped := by
        simpa only [Prod.mk.injEq] using h
      exact List.append_nil _
    · exact ih h

/-- What the reader stops at passes the test. -/
theorem stop_of_readUntil {read : List α} {unread : List (List α)}
    (h : readUntil stop text chunks = (read, unread, true)) : stop read = true := by
  induction chunks generalizing text with
  | nil => cases congrArg (·.2.2) h
  | cons chunk chunks ih =>
    rw [readUntil] at h
    split_ifs at h with hstop
    · obtain rfl : text ++ chunk = read := congrArg Prod.fst h
      exact hstop
    · exact ih h

/-- The reader takes all the chunks, and stops, exactly if the test passes after the last
    of them and not before. -/
theorem readUntil_append_iff :
    readUntil stop text chunks = (text ++ chunks.flatten, [], true) ↔
      chunks ≠ [] ∧ stop (text ++ chunks.flatten) = true ∧
        ∀ k, 0 < k → k < chunks.length → stop (text ++ (chunks.take k).flatten) = false := by
  induction chunks generalizing text with
  | nil => simp [readUntil]
  | cons chunk chunks ih =>
    rw [readUntil]
    split_ifs with hstop
    · -- the reader stops here, so there must be nothing left
      constructor
      · intro h
        obtain ⟨htext, rfl, -⟩ : text ++ chunk = text ++ (chunk :: chunks).flatten ∧ chunks = [] ∧
          true = true := by simpa only [Prod.mk.injEq] using h
        refine ⟨List.cons_ne_nil _ _, by simpa using hstop, fun k hk hlt => ?_⟩
        simp only [List.length_cons, List.length_nil] at hlt
        omega
      · rintro ⟨-, -, hbefore⟩
        have hnil : chunks = [] := by
          by_contra hne
          have hlt : 1 < (chunk :: chunks).length := by
            simpa using List.length_pos_iff.2 hne
          have hfalse := hbefore 1 Nat.one_pos hlt
          rw [List.take_succ_cons, List.take_zero, List.flatten_singleton, hstop] at hfalse
          cases hfalse
        simp [hnil]
    · rw [List.flatten_cons, ← List.append_assoc, ih]
      constructor
      · rintro ⟨-, hend, hbefore⟩
        refine ⟨List.cons_ne_nil _ _, hend, fun k hk hlt => ?_⟩
        obtain ⟨k, rfl⟩ := Nat.exists_eq_add_of_lt hk
        simp only [Nat.zero_add, List.take_succ_cons, List.flatten_cons, ← List.append_assoc]
        rcases Nat.eq_zero_or_pos k with rfl | hk
        · simpa using hstop
        · exact hbefore k hk (by simpa using hlt)
      · rintro ⟨-, hend, hbefore⟩
        refine ⟨?_, hend, fun k hk hlt => ?_⟩
        · rintro rfl
          exact hstop (by simpa using hend)
        · simpa using hbefore (k + 1) k.succ_pos (by simpa using hlt)

theorem readUntil_eq_iff :
    readUntil stop [] chunks = (chunks.flatten, [], true) ↔
      chunks ≠ [] ∧ stop chunks.flatten = true ∧
        ∀ k, 0 < k → k < chunks.length → stop (chunks.take k).flatten = false :=
  readUntil_append_iff

/-- The reader reads the text to its end however it is split exactly if the text passes
    the test and no proper part of its front does. -/
theorem forall_readUntil_iff (hne : text ≠ []) :
    (∀ chunks : List (List α), (∀ chunk ∈ chunks, chunk ≠ []) → chunks.flatten = text →
        readUntil stop [] chunks = (text, [], true)) ↔
      stop text = true ∧ ∀ front, front <+: text → front ≠ [] → front ≠ text → stop front = false := by
  constructor
  · intro h
    have hwhole := h [text] (by simpa using hne) (List.flatten_singleton)
    refine ⟨?_, fun front hprefix hfront hproper => ?_⟩
    · rw [readUntil] at hwhole
      split_ifs at hwhole with hstop
      · simpa using hstop
      · simp [readUntil] at hwhole
    · obtain ⟨rest, rfl⟩ := hprefix
      have hrest : rest ≠ [] := fun hnil => hproper (by rw [hnil, List.append_nil])
      have hsplit := h [front, rest] (by simp [hfront, hrest]) (by simp)
      rw [← show [front, rest].flatten = front ++ rest by simp, readUntil_eq_iff] at hsplit
      simpa using hsplit.2.2 1 Nat.one_pos (by simp)
  · rintro ⟨hstop, hbefore⟩ chunks hchunks rfl
    refine readUntil_eq_iff.2 ⟨?_, hstop, fun k hk hlt => hbefore _ ?_ ?_ ?_⟩
    · rintro rfl
      exact hne rfl
    · exact (List.take_prefix k chunks).flatten
    · obtain ⟨chunk, more, hmore⟩ := List.exists_cons_of_ne_nil
        (List.ne_nil_of_length_pos (hk.trans hlt))
      obtain ⟨k, rfl⟩ := Nat.exists_eq_add_of_lt hk
      rw [hmore, Nat.zero_add, List.take_succ_cons, List.flatten_cons]
      simp [hchunks chunk (hmore ▸ List.mem_cons_self)]
    · -- some chunk is left, which is not empty
      intro heq
      have hdrop : (chunks.drop k).flatten = [] := by
        rw [← List.take_append_drop k chunks, List.flatten_append] at heq
        simpa using heq
      rw [List.flatten_eq_nil_iff] at hdrop
      have hmem : chunks[k] ∈ chunks.drop k :=
        List.mem_drop_iff_getElem.2 ⟨0, by simpa using hlt, by simp⟩
      exact hchunks _ (List.getElem_mem hlt) (hdrop _ hmem)

/-- A reader that stops at a separator takes all the chunks exactly if only the last has
    one. -/
theorem readUntil_separator_iff {sep : α} (hstop : ∀ text, stop text = true ↔ sep ∈ text) :
    readUntil stop [] chunks = (chunks.flatten, [], true) ↔
      sep ∈ chunks.flatten ∧ sep ∉ chunks.dropLast.flatten := by
  have hgoes (text : List α) : stop text = false ↔ sep ∉ text := by
    rw [← hstop, Bool.not_eq_true]
  rw [readUntil_eq_iff, hstop]
  constructor
  · rintro ⟨hne, hend, hbefore⟩
    refine ⟨hend, ?_⟩
    rw [List.dropLast_eq_take]
    have hlength := List.length_pos_iff.2 hne
    rcases Nat.eq_zero_or_pos (chunks.length - 1) with hzero | hpos
    · rw [hzero, List.take_zero]
      exact List.not_mem_nil
    · exact (hgoes _).1 (hbefore _ hpos (by omega))
  · rintro ⟨hend, hbefore⟩
    refine ⟨?_, hend, fun k _ hlt => (hgoes _).2 fun hmem => hbefore ?_⟩
    · rintro rfl
      exact List.not_mem_nil hend
    · rw [List.dropLast_eq_take]
      exact (List.take_prefix_take_left (by omega)).flatten.subset hmem

/-! ## Lines -/

/-- The text that the lines make up, each ended by `sep`. -/
def unlines (sep : α) (lines : List (List α)) : List α := lines.flatMap (· ++ [sep])

variable {sep : α} {lines lines' rows : List (List α)} {line front word : List α}

theorem unlines_cons : unlines sep (line :: lines) = line ++ [sep] ++ unlines sep lines := rfl

theorem unlines_append : unlines sep (lines ++ lines') = unlines sep lines ++ unlines sep lines' :=
  List.flatMap_append

/-! ### The lines of a text -/

section Splitting

variable [DecidableEq α]

/-- A text is one line, or starts with a line and a separator. -/
theorem splitting_induction (sep : α) {P : List α → Prop} (last : ∀ text, sep ∉ text → P text)
    (cons : ∀ line rest, sep ∉ line → P rest → P (line ++ sep :: rest)) (text : List α) : P text := by
  induction hlength : text.length using Nat.strongRecOn generalizing text with
  | ind length ih =>
    by_cases hsep : sep ∈ text
    · obtain ⟨line, rest, rfl, hline⟩ := List.eq_append_cons_of_mem hsep
      refine cons line rest hline (ih rest.length ?_ rest rfl)
      rw [← hlength, List.length_append, List.length_cons]
      omega
    · exact last text hsep

theorem unlines_splitOn (text : List α) : unlines sep (text.splitOn sep) = text ++ [sep] := by
  induction text using splitting_induction sep with
  | last text h =>
    rw [List.splitOn_eq_singleton h]
    simp [unlines]
  | cons line rest h ih =>
    rw [List.splitOn_append_cons_self_of_not_mem h, unlines_cons, ih]
    simp

/-- Splitting the text that the lines make up gives them back, and what follows the last of
    them. -/
theorem splitOn_unlines (h : ∀ line ∈ lines, sep ∉ line) :
    (unlines sep lines).splitOn sep = lines ++ [[]] := by
  induction lines with
  | nil => rfl
  | cons line lines ih =>
    rw [List.forall_mem_cons] at h
    rw [unlines_cons, List.append_assoc, List.singleton_append,
      List.splitOn_append_cons_self_of_not_mem h.1, ih h.2, List.cons_append]

theorem notMem_of_mem_splitOn (h : line ∈ text.splitOn sep) : sep ∉ line := by
  induction text using splitting_induction sep with
  | last text htext =>
    rw [List.splitOn_eq_singleton htext] at h
    exact List.mem_singleton.1 h ▸ htext
  | cons first rest hfirst ih =>
    rw [List.splitOn_append_cons_self_of_not_mem hfirst] at h
    rcases List.mem_cons.1 h with rfl | h
    · exact hfirst
    · exact ih h

/-- A line is a part of the text. -/
theorem infix_of_mem_splitOn (h : line ∈ text.splitOn sep) : line <:+: text := by
  induction text using splitting_induction sep with
  | last text htext =>
    rw [List.splitOn_eq_singleton htext] at h
    exact List.mem_singleton.1 h ▸ List.infix_refl _
  | cons first rest hfirst ih =>
    rw [List.splitOn_append_cons_self_of_not_mem hfirst] at h
    rcases List.mem_cons.1 h with rfl | h
    · exact (List.prefix_append _ _).isInfix
    · exact (ih h).trans ((List.suffix_cons sep rest).trans (List.suffix_append _ _)).isInfix

end Splitting

/-! ### The end of a text -/

/-- A text that starts with a line of another and more: the rest starts with the rest. -/
theorem of_append_prefix_cons (hline : sep ∉ line) (hword : sep ∉ word)
    (h : front ++ word ++ [sep] <+: line ++ [sep] ++ text) :
    front ++ word = line ∨
      ∃ more, front = line ++ [sep] ++ more ∧ more ++ word ++ [sep] <+: text := by
  obtain ⟨rest, hrest⟩ := h
  simp only [List.append_assoc, List.singleton_append] at hrest
  rw [← List.append_assoc, List.append_eq_append_iff] at hrest
  -- where the first separator of the one text is in the other
  rcases hrest with ⟨extra, hextra, hsep⟩ | ⟨extra, hextra, hsep⟩
  · cases extra with
    | nil => exact .inl (by simpa using hextra.symm)
    | cons a extra =>
      obtain ⟨rfl, -⟩ := List.cons.inj hsep
      exact absurd (hextra ▸ by simp) hline
  · cases extra with
    | nil => exact .inl (by simpa using hextra)
    | cons a extra =>
      obtain ⟨rfl, htext⟩ := List.cons.inj hsep
      have hsplit : front ++ word = line ++ [sep] ++ extra := by simpa using hextra
      rcases List.append_eq_append_iff.1 hsplit with ⟨mid, hmid, hword'⟩ | ⟨more, rfl, hextra'⟩
      · -- the separator would be in `word`
        rcases List.eq_nil_or_concat mid with rfl | ⟨mid, b, rfl⟩
        · exact .inr ⟨[], by simpa using hmid.symm, ⟨rest, by simp_all⟩⟩
        · rw [List.concat_eq_append, ← List.append_assoc] at hmid
          obtain ⟨-, hb⟩ := List.append_inj' hmid rfl
          obtain ⟨rfl⟩ := List.cons.inj hb
          exact absurd (hword' ▸ by simp) hword
      · exact .inr ⟨more, rfl, ⟨rest, by simp [htext, hextra']⟩⟩

/-- The front of a text that ends with a word and a separator ends with a line that ends
    with the word. -/
theorem exists_of_prefix_unlines (hlines : ∀ line ∈ lines, sep ∉ line) (hword : sep ∉ word)
    (h : front ++ word ++ [sep] <+: unlines sep lines) :
    ∃ before line after, lines = before ++ line :: after ∧ word <:+ line ∧
      front ++ word ++ [sep] = unlines sep (before ++ [line]) := by
  induction lines generalizing front with
  | nil =>
    have hnil : front ++ word ++ [sep] = [] := List.prefix_nil.1 h
    simp at hnil
  | cons line lines ih =>
    rw [List.forall_mem_cons] at hlines
    rcases of_append_prefix_cons hlines.1 hword h with hline | ⟨more, rfl, hmore⟩
    · refine ⟨[], line, lines, rfl, ⟨front, hline⟩, ?_⟩
      rw [hline]
      simp [unlines]
    · obtain ⟨before, last, after, rfl, hlast, heq⟩ := ih hlines.2 hmore
      refine ⟨line :: before, last, after, rfl, hlast, ?_⟩
      rw [List.cons_append, unlines_cons, ← heq]
      simp

/-- What has a symbol that the word has not does not matter for whether a text ends with
    the word. -/
theorem suffix_append_cons_iff {a : α} (h : a ∉ word) : word <:+ front ++ a :: text ↔ word <:+ text := by
  refine ⟨fun hword => ?_, fun hword => hword.trans ?_⟩
  · rcases List.suffix_or_suffix_of_suffix hword (List.suffix_append front (a :: text)) with hle | hle
    · rcases List.suffix_cons_iff.1 hle with rfl | hle
      · exact absurd List.mem_cons_self h
      · exact hle
    · exact absurd (hle.subset List.mem_cons_self) h
  · exact (List.suffix_cons a text).trans (List.suffix_append front (a :: text))

/-- A text that is ended by the line `word`: no proper part of its front ends with the
    terminator exactly if no other line ends with `word`. -/
theorem terminated_iff (hrows : ∀ row ∈ rows, sep ∉ row) (hword : sep ∉ word) :
    (∀ front, front <+: unlines sep (rows ++ [word]) → word ++ [sep] <:+ front →
        front = unlines sep (rows ++ [word])) ↔
      ∀ row ∈ rows, ¬ word <:+ row := by
  constructor
  · intro h row hrow hsuffix
    -- the text up to this row
    obtain ⟨before, after, rfl⟩ := List.append_of_mem hrow
    obtain ⟨start, rfl⟩ := hsuffix
    have hfront := h (unlines sep (before ++ [start ++ word])) ?_ ?_
    · have hlength := congrArg List.length hfront
      simp [unlines] at hlength
    · refine ⟨unlines sep (after ++ [word]), ?_⟩
      rw [← unlines_append]
      simp
    · exact ⟨unlines sep before ++ start, by simp [unlines]⟩
  · rintro h front hprefix ⟨start, rfl⟩
    rw [← List.append_assoc] at hprefix ⊢
    have hlines : ∀ line ∈ rows ++ [word], sep ∉ line := by
      intro line hline
      rcases List.mem_append.1 hline with hline | hline
      · exact hrows line hline
      · exact List.mem_singleton.1 hline ▸ hword
    obtain ⟨before, line, after, heq, hsuffix, hfront⟩ :=
      exists_of_prefix_unlines hlines hword hprefix
    rcases List.eq_nil_or_concat after with rfl | ⟨after, last, rfl⟩
    · rw [hfront, heq]
    · -- a row that ends with the terminator
      have hrow : line ∈ rows := by
        rw [List.concat_eq_append, ← List.cons_append, ← List.append_assoc] at heq
        rw [(List.append_inj' heq rfl).1]
        simp
      exact absurd hsuffix (h line hrow)

end Library
