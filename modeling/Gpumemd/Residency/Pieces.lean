import Gpumemd.Residency.Plan

/-!
# How long an operation runs

An operation of the residency manager holds `mutex_` until it returns, and calls out to what
others may be using in between. It is never held up there: it may always go on
(`exists_advance`), each of its pieces leaves fewer of them (`pieces_perform`), and no step of
anyone else makes them more. So it returns after a number of pieces that depends only on how
many records there were at its call (`pieces_le_of_call`).
-/

namespace Gpumemd

open Library

/-- At most how many pieces an operation has left, where there are so many records. -/
def Frame.pieces (records : ℕ) : Frame → ℕ
  | .planning _ => records + 4
  | .fetching _ evictions => evictions.length + 3
  | .swapping _ evictions _ => evictions.length + 2
  | .rollingBack _ _ => 1
  | .evicting _ evictions _ => evictions.length + 1
  | .unloading _ => 3
  | .releasing _ => 2
  | .reloading _ => 1
  | .erasing _ => 1

namespace Daemon

variable {s t : Daemon} {a call : Action} {input : Input} {response : Response}

/-- At most how many pieces the operation that is running has left. -/
def pieces (s : Daemon) : ℕ := (s.running.map (·.pieces s.records.keys.card)).getD 0

/-- The calls of the residency manager. -/
def Action.isCall : Action → Bool
  | .load _ | .unload _ | .share .. | .retain _ | .releaseModel _ | .unregisterModel _ => true
  | _ => false

/-- The pieces of its operations. -/
def Action.isPiece : Action → Bool
  | .advance _ => true
  | _ => false

theorem pieces_of_running {frame : Frame} (h : s.running = some frame) :
    s.pieces = frame.pieces s.records.keys.card := by
  rw [pieces, h]
  rfl

theorem pieces_of_idle (h : s.running = none) : s.pieces = 0 := by
  rw [pieces, h]
  rfl

theorem pieces_pos (h : s.running ≠ none) : 0 < s.pieces := by
  obtain ⟨frame, hframe⟩ := Option.ne_none_iff_exists'.1 h
  rw [pieces_of_running hframe]
  cases frame <;> exact Nat.succ_pos _

/-! ## What is evicted -/

theorem length_chooseEvictions {footprintBytes available : Bytes}
    {candidates : List ResidencyRecord} {evictions : List Str}
    (h : chooseEvictions footprintBytes candidates available = some evictions) :
    evictions.length ≤ candidates.length := by
  induction candidates generalizing available evictions with
  | nil =>
    rw [chooseEvictions] at h
    split_ifs at h
    obtain rfl := Option.some.inj h
    exact le_rfl
  | cons record candidates ih =>
    rw [chooseEvictions] at h
    split_ifs at h
    · obtain ⟨chosen, hchosen, rfl⟩ := Option.map_eq_some_iff.1 h
      exact Nat.succ_le_succ (ih hchosen)
    · obtain rfl := Option.some.inj h
      exact Nat.zero_le _

/-- A ranking has no more models than there are records. -/
theorem Ranks.length_le {ranking : List Str} (h : s.Ranks ranking) :
    ranking.length ≤ s.records.keys.card := by
  have hsubset : ranking.toFinset ⊆ s.records.keys := by
    intro id hid
    obtain ⟨record, hrecord, -⟩ := (h.2 id).1 (List.mem_toFinset.1 hid)
    exact Finmap.mem_keys.2 (Finmap.mem_iff.2 ⟨record, hrecord⟩)
  rw [← List.toFinset_card_of_nodup h.1]
  exact Finset.card_le_card hsubset

theorem Chooses.length_le {model : ModelRecord} {ranking evictions : List Str}
    (h : s.Chooses model ranking evictions) (hranking : s.Ranks ranking) :
    evictions.length ≤ s.records.keys.card := by
  rcases h.2 with ⟨-, rfl⟩ | ⟨-, hchosen⟩
  · exact Nat.zero_le _
  · calc evictions.length
      _ ≤ (ranking.filterMap (s.records.lookup ·)).length := length_chooseEvictions hchosen
      _ ≤ ranking.length := List.length_filterMap_le _ _
      _ ≤ s.records.keys.card := hranking.length_le

/-! ## Steps -/

/-- A piece leaves fewer pieces. -/
theorem Effect.pieces_lt (heffect : Effect s (.advance input) t response)
    (hrunning : s.running ≠ none) : t.pieces < s.pieces := by
  have hpos := pieces_pos hrunning
  cases heffect with
  | returned => exact hpos
  | plan hplanning hranking hchooses =>
    rw [pieces_of_running hplanning]
    have hle := hchooses.length_le hranking
    show _ + 3 < _ + 4
    omega
  | fetch hfetching =>
    rw [pieces_of_running hfetching]
    exact Nat.lt_succ_self _
  | swap hswapping =>
    rw [pieces_of_running hswapping]
    exact Nat.lt_succ_self _
  | refuse hswapping =>
    rw [pieces_of_running hswapping]
    exact Nat.succ_lt_succ (Nat.succ_pos _)
  | rollBack => exact hpos
  | evict hevicting =>
    rw [pieces_of_running hevicting]
    exact Nat.lt_succ_self _
  | commit => exact hpos
  | unloadBackend hunloading =>
    rw [pieces_of_running hunloading]
    exact Nat.lt_succ_self _
  | releaseReservation => exact hpos
  | reloading hreleasing =>
    rw [pieces_of_running hreleasing]
    exact Nat.lt_succ_self _
  | reload => exact hpos
  | eraseRecord => exact hpos

/-- A piece leaves fewer pieces, and what is not a call leaves no more. -/
theorem pieces_perform (henabled : s.Enabled a) (hcall : a.isCall = false) :
    (s.perform a).1.pieces + a.isPiece.toNat ≤ s.pieces := by
  cases a with
  | advance input =>
    have hrunning : s.running ≠ none := by
      intro hidle
      rw [Enabled, hidle] at henabled
      exact henabled
    exact (perform_effect henabled).pieces_lt hrunning
  | client => exact le_rfl
  | registerModel => exact le_rfl
  | registerFile => exact le_rfl
  | _ => cases hcall

/-- The models that may be evicted can be ranked. -/
theorem exists_ranks (s : Daemon) : ∃ ranking, s.Ranks ranking := by
  refine ⟨s.records.keys.toList.filter (s.IsCandidate ·), ranks_iff.2 ⟨?_, ?_, ?_⟩⟩
  · exact s.records.keys.nodup_toList.filter _
  · intro id hid
    exact of_decide_eq_true (List.mem_filter.1 hid).2
  · intro id hkey hid
    exact List.mem_filter.2 ⟨Finset.mem_toList.2 hkey, decide_eq_true hid⟩

/-- Whatever else has happened, the operation that is running may go on. -/
theorem exists_advance (h : s.running ≠ none) : ∃ input, s.Enabled (.advance input) := by
  obtain ⟨ranking, hranking⟩ := s.exists_ranks
  obtain ⟨frame, hframe⟩ := Option.ne_none_iff_exists'.1 h
  refine ⟨{ ranking }, ?_⟩
  rw [Enabled, hframe]
  cases frame with
  | planning => exact hranking
  | _ => trivial

/-! ## Runs -/

theorem pieces_run {as : List Action} (hrun : machine.Run s as t)
    (hcalls : ∀ a ∈ as, a.isCall = false) : as.countP (·.isPiece) + t.pieces ≤ s.pieces := by
  induction hrun with
  | nil => rw [List.countP_nil, zero_add]
  | @cons s u t a as hstep _ ih =>
    obtain ⟨henabled, rfl⟩ := hstep
    have hle := pieces_perform henabled (hcalls a List.mem_cons_self)
    have hrest := ih fun b hb => hcalls b (List.mem_cons_of_mem a hb)
    rw [List.countP_cons]
    cases hpiece : a.isPiece with
    | true =>
      rw [hpiece] at hle
      rw [if_pos rfl]
      have hone : s.pieces ≥ (s.perform a).1.pieces + 1 := hle
      omega
    | false =>
      rw [hpiece] at hle
      rw [if_neg Bool.false_ne_true]
      have hzero : s.pieces ≥ (s.perform a).1.pieces := hle
      omega

/-- A call has at most four pieces after it, and one for each record. -/
theorem pieces_call_le (henabled : s.Enabled call) (hcall : call.isCall = true) :
    (s.perform call).1.pieces ≤ s.records.keys.card + 4 := by
  have hidle : s.running = none := by
    cases call <;> first | exact henabled | cases hcall
  have heffect := perform_effect henabled
  generalize (s.perform call).1 = t, (s.perform call).2 = response at heffect
  cases heffect with
  | returned => exact Nat.zero_le _
  | share =>
    rw [pieces_of_idle hidle]
    exact Nat.zero_le _
  | load => exact le_rfl
  | unload => exact Nat.le_add_left 3 _
  | retain => exact Nat.zero_le _
  | releaseModel => exact Nat.zero_le _
  | unregisterModel => exact Nat.le_add_left 1 _
  | _ => cases hcall

/-- Whatever clients and registrations do meanwhile, a call goes on until it has returned, and
    there are no more pieces to it than four and one for each record. -/
theorem returns_within {as : List Action} (henabled : s.Enabled call) (hcall : call.isCall = true)
    (hrun : machine.Run (s.perform call).1 as t) (hcalls : ∀ a ∈ as, a.isCall = false) :
    as.countP (·.isPiece) ≤ s.records.keys.card + 4 ∧
      (t.running = none ∨ ∃ input, t.Enabled (.advance input)) := by
  refine ⟨?_, or_iff_not_imp_left.2 exists_advance⟩
  calc as.countP (·.isPiece)
    _ ≤ as.countP (·.isPiece) + t.pieces := Nat.le_add_right _ _
    _ ≤ (s.perform call).1.pieces := pieces_run hrun hcalls
    _ ≤ s.records.keys.card + 4 := pieces_call_le henabled hcall

/-- A load of the model `n` plans, while a client takes some of the memory, and goes on to the
    replacement of the reservations. -/
def crowding : List Action :=
  [.client (.tryAcquire (ascii "c") 20 0), .advance { ranking := [ascii "a", ascii "b"] },
    .client (.tryAcquire (ascii "d") 10 0), .advance {}]

/-- It is not held up. -/
theorem crowding_returns :
    crowding.countP (·.isPiece) ≤ shelved.records.keys.card + 4 ∧
      (((shelved.perform (.load (ascii "n"))).1.performAll crowding).running = none ∨
        ∃ input, ((shelved.perform (.load (ascii "n"))).1.performAll crowding).Enabled
          (.advance input)) :=
  returns_within (by decide) rfl
    (run_performAll (C := fun _ _ _ => True) (by decide)).of_restrict (by decide)

end Daemon

end Gpumemd
