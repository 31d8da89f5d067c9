import Gpumemd.Residency.Plan
import Gpumemd.Resource.Replacement

/-!
# The window of a load

A load reads the resource status, chooses the evictions that it needs then, reads a file
and loads the backend, and only then replaces the reservations. Meanwhile clients take and
give memory. `Calling` are the calls of `load` with their instants, the states in which
their pieces and what runs between these were carried out.

A load that is refused for lack of memory has found too little of it at one of two of its
instants (`lack_of_insufficientMemory`). When it planned, all candidates together did not
suffice. Or when it swapped, those that it had chosen did not suffice any more, and then
others may have (`squeezed_obtainable`).
-/

namespace Gpumemd

open Library

namespace Daemon

variable {s t u : Daemon} {id : Str} {model : ModelRecord} {evictions : List Str} {input : Input}
  {instants : List Daemon} {response : Response}

/-- A call of `load` from `s`, as far as it has come, with its instants so far, the latest
    first, and its last answer. -/
inductive Calling (s : Daemon) (id : Str) : List Daemon → Daemon → Response → Prop
  | call : s.running = none → Calling s id [s] (s.load id).1 (s.load id).2
  | between {instants : List Daemon} {t : Daemon} {action : ResourceManager.Action} :
      Calling s id instants t .running → t.Enabled (.client action) →
      Calling s id (t :: instants) (t.perform (.client action)).1 .running
  | registerModel {instants : List Daemon} {t : Daemon} {id' metadata : Str} {bytes : Bytes} :
      Calling s id instants t .running →
      Calling s id (t :: instants) (t.perform (.registerModel id' bytes metadata)).1 .running
  | registerFile {instants : List Daemon} {t : Daemon} {id' path metadata : Str}
      {fileSize : Option Bytes} : Calling s id instants t .running →
      Calling s id (t :: instants) (t.perform (.registerFile id' path metadata fileSize)).1 .running
  | advance {instants : List Daemon} {t : Daemon} {input : Input} :
      Calling s id instants t .running → t.Enabled (.advance input) →
      Calling s id (t :: instants) (t.advance input).1 (t.advance input).2

theorem Calling.reachable (h : Calling s id instants t response) (hs : machine.Reachable s) :
    machine.Reachable t := by
  induction h with
  | call hidle => exact hs.step (a := .load id) ⟨hidle, rfl⟩
  | between _ henabled ih => exact ih.step ⟨henabled, rfl⟩
  | registerModel _ ih => exact ih.step (a := .registerModel _ _ _) ⟨trivial, rfl⟩
  | registerFile _ ih => exact ih.step (a := .registerFile _ _ _ _) ⟨trivial, rfl⟩
  | advance _ henabled ih => exact ih.step (a := .advance _) ⟨henabled, rfl⟩

/-- A piece, with the answer that it gives. -/
theorem Calling.go (h : Calling s id instants t .running) (input : Input)
    (henabled : t.Enabled (.advance input)) (hanswer : (t.advance input).2 = response) :
    Calling s id (t :: instants) (t.advance input).1 response := hanswer ▸ h.advance henabled

theorem Calling.goBetween (h : Calling s id instants t .running) (action : ResourceManager.Action)
    (henabled : t.Enabled (.client action)) :
    Calling s id (t :: instants) (t.perform (.client action)).1 .running := h.between henabled

/-! ## The swap -/

/-- A swap that is refused has found that the chosen evictions do not suffice. -/
theorem lt_of_refuse (h : Inv s) {loadCostMs : UInt64}
    (hrunning : s.running = some (.swapping model evictions loadCostMs)) {now : TimePoint}
    (hrefused : (s.resources.replaceModelReservations evictions model.id model.footprintBytes
      now).2.ok = false) :
    s.resources.free.toNat + s.footprints evictions < model.footprintBytes.toNat := by
  have hs : s.Steady := by simp [Steady, hrunning]
  have hframe := h.frame
  rw [FrameInv, hrunning] at hframe
  obtain ⟨hloads, hnodup, hcandidates⟩ := hframe
  obtain ⟨_, hid, hbytes⟩ := h.registry model.id model hloads.1
  have hnew : model.id ∉ s.resources.modelReservations := by
    rw [← Finmap.lookup_eq_none, h.reserved, hs.expected_eq]
    exact heldBytes_eq_none_iff.2 hloads.2
  obtain ⟨haccounted, _⟩ := ResourceManager.reachable_inv h.resources
  have hlookup (id : Str) (hid : id ∈ evictions) := lookup_of_isCandidate h hs (hcandidates id hid)
  have hiff := ResourceManager.replaceModelReservations_ok_iff now haccounted
    ⟨hid, hbytes, hnew, hnodup, fun id hid => Finmap.mem_iff.2 ⟨_, hlookup id hid⟩⟩
  rw [hrefused, ResourceManager.evicted_eq hlookup] at hiff
  rw [footprints]
  exact not_le.1 fun hle => Bool.noConfusion (hiff.2 hle)

/-! ## The whole call -/

/-- At the instant `p`, the load of `model` has chosen evictions that suffice. -/
structure Plans (p : Daemon) (model : ModelRecord) (evictions : List Str) : Prop where
  planning : p.running = some (.planning model)
  candidates : ∀ id ∈ evictions, p.IsCandidate id
  enough : model.footprintBytes.toNat ≤ p.resources.free.toNat + p.footprints evictions

/-- At the instant `u`, the evictions that the load of `model` has chosen do not suffice. -/
structure Falls (u : Daemon) (model : ModelRecord) (evictions : List Str) : Prop where
  swapping : ∃ loadCostMs, u.running = some (.swapping model evictions loadCostMs)
  candidates : ∀ id ∈ evictions, u.IsCandidate id
  lacks : u.resources.free.toNat + u.footprints evictions < model.footprintBytes.toNat

/-- What a call of `load` has been through, where it stands. -/
def Passed (s : Daemon) (id : Str) (instants : List Daemon) (t : Daemon) : Prop :=
  match t.running with
  | some (.planning model) => s.registry.findModel id = some model
  | some (.fetching model evictions) =>
    s.registry.findModel id = some model ∧ ∃ p ∈ instants, p.Plans model evictions
  | some (.swapping model evictions _) =>
    s.registry.findModel id = some model ∧ ∃ p ∈ instants, p.Plans model evictions
  | some (.rollingBack model evictions) =>
    s.registry.findModel id = some model ∧ (∃ p ∈ instants, p.Plans model evictions) ∧
      ∃ u ∈ instants, u.Falls model evictions
  | some (.evicting ..) => True
  | none => True
  | _ => False

theorem Passed.congr (h : Passed s id instants t) (hrunning : u.running = t.running) :
    Passed s id (t :: instants) u := by
  rw [Passed] at h ⊢
  rw [hrunning]
  generalize t.running = running at h
  cases running with
  | none => exact h
  | some frame =>
    cases frame with
    | fetching =>
      obtain ⟨hmodel, p, hp, hplans⟩ := h
      exact ⟨hmodel, p, List.mem_cons_of_mem _ hp, hplans⟩
    | swapping =>
      obtain ⟨hmodel, p, hp, hplans⟩ := h
      exact ⟨hmodel, p, List.mem_cons_of_mem _ hp, hplans⟩
    | rollingBack =>
      obtain ⟨hmodel, ⟨p, hp, hplans⟩, u, hu, hfalls⟩ := h
      exact ⟨hmodel, ⟨p, List.mem_cons_of_mem _ hp, hplans⟩, u, List.mem_cons_of_mem _ hu, hfalls⟩
    | _ => exact h

theorem Plans.of_chooses (h : Inv s) (hrunning : s.running = some (.planning model))
    {ranking : List Str} (hranking : s.Ranks ranking) (hchooses : s.Chooses model ranking evictions) :
    s.Plans model evictions := by
  have hs : s.Steady := by simp [Steady, hrunning]
  have hplanned := (h.plan hrunning hranking hchooses).frame
  rw [FrameInv] at hplanned
  refine ⟨hrunning, hplanned.2.2, ?_⟩
  rcases hchooses.2 with ⟨hfits, rfl⟩ | ⟨_, hchosen⟩
  · exact (UInt64.le_iff_toNat_le.1 hfits).trans (Nat.le_add_right _ _)
  · exact le_of_chooseEvictions (fun _ hcandidate => recordFootprint_of_mem h hs hcandidate) hchosen

/-- The next piece of a load. -/
theorem Passed.advance (h : Passed s id instants t) (hinv : Inv t)
    (heffect : Effect t (.advance input) u response) : Passed s id (t :: instants) u := by
  have hpassed := h
  rw [Passed] at hpassed
  cases heffect with
  | returned => trivial
  | @plan _ model evictions hrunning hranking hchooses =>
    rw [hrunning] at hpassed
    exact ⟨hpassed, t, List.mem_cons_self, .of_chooses hinv hrunning hranking hchooses⟩
  | fetch hrunning _ =>
    rw [hrunning] at hpassed
    obtain ⟨hmodel, p, hp, hplans⟩ := hpassed
    exact ⟨hmodel, p, List.mem_cons_of_mem _ hp, hplans⟩
  | swap => trivial
  | @refuse _ model evictions _ hrunning hrefused =>
    have hframe := hinv.frame
    rw [FrameInv, hrunning] at hframe
    rw [hrunning] at hpassed
    obtain ⟨hmodel, p, hp, hplans⟩ := hpassed
    exact ⟨hmodel, ⟨p, List.mem_cons_of_mem _ hp, hplans⟩, t, List.mem_cons_self,
      ⟨_, hrunning⟩, hframe.2.2, lt_of_refuse hinv hrunning hrefused⟩
  | rollBack => trivial
  | evict => trivial
  | commit => trivial
  -- a load is at no piece of another operation
  | unloadBackend hrunning | releaseReservation hrunning | reloading hrunning | reload hrunning
  | eraseRecord hrunning =>
    rw [hrunning] at hpassed
    exact hpassed.elim

theorem Calling.passed (h : Calling s id instants t response) (hs : machine.Reachable s) :
    Passed s id instants t := by
  induction h with
  | call hidle =>
    rw [load]
    split
    next => trivial
    next model hmodel =>
      split
      next => trivial
      next => exact hmodel
  | between _ _ ih => exact ih.congr rfl
  | registerModel _ ih => exact ih.congr rfl
  | registerFile _ ih => exact ih.congr rfl
  | advance hcalling henabled ih =>
    exact ih.advance (reachable_inv (hcalling.reachable hs)) (advance_effect henabled)

/-- Only a load whose plan has failed or whose swap was refused lacks memory. -/
theorem insufficientMemory_cases (henabled : t.Enabled (.advance input))
    (hanswer : (t.advance input).2 = .returned ⟨.insufficientMemory, 0⟩) :
    (∃ model, t.running = some (.planning model) ∧ t.Ranks input.ranking ∧
        (t.plan model input.ranking).2 ≠ .running) ∨
      ∃ model evictions, t.running = some (.rollingBack model evictions) := by
  rw [Enabled] at henabled
  rw [Daemon.advance] at hanswer
  split at hanswer
  next => cases hanswer
  next model hrunning =>
    rw [hrunning] at henabled
    exact .inl ⟨model, hrunning, henabled, fun hgoes => by rw [hgoes] at hanswer; cases hanswer⟩
  next model evictions _ =>
    -- what a loader reports is never a lack of memory
    rw [fetch] at hanswer
    split at hanswer
    next error _ => cases error <;> cases hanswer
    next =>
      dsimp only at hanswer
      split_ifs at hanswer
      · cases hanswer
      · cases hanswer
  next =>
    rw [swap] at hanswer
    dsimp only at hanswer
    split_ifs at hanswer
    · cases hanswer
    · cases hanswer
  next model evictions hrunning => exact .inr ⟨model, evictions, hrunning⟩
  next => cases hanswer
  next => cases hanswer
  next =>
    rw [unloadBackend] at hanswer
    dsimp only at hanswer
    split_ifs at hanswer
    · cases hanswer
    · cases hanswer
  next =>
    rw [releaseReservation] at hanswer
    dsimp only at hanswer
    split_ifs at hanswer
    · cases hanswer
    · cases hanswer
  next => cases hanswer
  next => cases hanswer

/-- A load that lacks memory has found, when it planned, that the model needs more than
    the free memory and the footprints of all resident models that are not retained, or,
    when it swapped, that it needs more than the free memory and the footprints of those of
    them that it had chosen, which sufficed when it planned. -/
theorem lack_of_insufficientMemory (hs : machine.Reachable s)
    (h : Calling s id instants t (.returned ⟨.insufficientMemory, 0⟩)) :
    ∃ model, s.registry.findModel id = some model ∧
      ((∃ p ∈ instants, p.running = some (.planning model) ∧
          p.obtainable < model.footprintBytes.toNat) ∨
        ∃ evictions, (∃ p ∈ instants, p.Plans model evictions) ∧
          ∃ u ∈ instants, u.Falls model evictions) := by
  generalize hresponse : Response.returned ⟨.insufficientMemory, 0⟩ = response at h
  cases h with
  | call hidle =>
    -- the call itself does not look at the memory
    rw [load] at hresponse
    split at hresponse
    · cases hresponse
    · split at hresponse <;> cases hresponse
  | between => cases hresponse
  | registerModel => cases hresponse
  | registerFile => cases hresponse
  | @advance instants t input hcalling henabled =>
    have hinv := reachable_inv (hcalling.reachable hs)
    have hpassed := hcalling.passed hs
    rw [Passed] at hpassed
    rcases insufficientMemory_cases henabled hresponse.symm with
      ⟨model, hrunning, hranking, hfails⟩ | ⟨model, evictions, hrunning⟩
    · rw [hrunning] at hpassed
      exact ⟨model, hpassed, .inl ⟨t, List.mem_cons_self, hrunning,
        obtainable_lt_of_plan hinv hrunning hranking hfails⟩⟩
    · rw [hrunning] at hpassed
      obtain ⟨hmodel, ⟨p, hp, hplans⟩, u, hu, hfalls⟩ := hpassed
      exact ⟨model, hmodel, .inr ⟨evictions, ⟨p, List.mem_cons_of_mem _ hp, hplans⟩,
        u, List.mem_cons_of_mem _ hu, hfalls⟩⟩

/-- The load of `n`, which evicts only `a`, while a client takes 20 bytes. -/
def squeezing : List Action :=
  [.load (ascii "n"), .advance { ranking := [ascii "a", ascii "b"] }, .advance {},
    .client (.tryAcquire (ascii "c") 20 0), .advance {}, .advance {}]

/-- The instants of this load. -/
def squeezedInstants : List Daemon :=
  [5, 4, 3, 2, 1, 0].map fun n => shelved.performAll (squeezing.take n)

theorem squeezed_calling :
    Calling shelved (ascii "n") squeezedInstants (shelved.performAll squeezing)
      (.returned ⟨.insufficientMemory, 0⟩) := by
  have hcall : Calling shelved (ascii "n") [shelved] (shelved.load (ascii "n")).1 .running := by
    have hanswer : (shelved.load (ascii "n")).2 = .running := by decide
    exact hanswer ▸ .call (by decide)
  have hplanned := hcall.go { ranking := [ascii "a", ascii "b"] } (by decide)
    (Eq.refl Response.running)
  have hfetched := hplanned.go {} (by decide) (Eq.refl Response.running)
  have htaken := hfetched.goBetween (.tryAcquire (ascii "c") 20 0) (by decide)
  have hrefused := htaken.go {} (by decide) (Eq.refl Response.running)
  exact hrefused.go {} (by decide) (by decide)

theorem squeezed_lack :
    ∃ model, shelved.registry.findModel (ascii "n") = some model ∧
      ((∃ p ∈ squeezedInstants, p.running = some (.planning model) ∧
          p.obtainable < model.footprintBytes.toNat) ∨
        ∃ evictions, (∃ p ∈ squeezedInstants, p.Plans model evictions) ∧
          ∃ u ∈ squeezedInstants, u.Falls model evictions) :=
  lack_of_insufficientMemory shelved_reachable squeezed_calling

/-- A load may lack memory although at every instant of it what could be obtained was
    enough. -/
theorem squeezed_obtainable :
    (∀ u ∈ squeezedInstants, 60 < u.obtainable) ∧
      ¬ ∀ s id instants t, machine.Reachable s →
        Calling s id instants t (.returned ⟨.insufficientMemory, 0⟩) →
        ∃ model, s.registry.findModel id = some model ∧
          ∃ u ∈ instants, u.obtainable < model.footprintBytes.toNat := by
  have henough : ∀ u ∈ squeezedInstants, 60 < u.obtainable := by decide
  refine ⟨henough, fun h => ?_⟩
  obtain ⟨model, hmodel, u, hu, hlack⟩ := h _ _ _ _ shelved_reachable squeezed_calling
  have hfound : shelved.registry.findModel (ascii "n") =
      some ⟨ascii "n", ascii "-", 60, 0, 0, []⟩ := by decide
  obtain rfl := Option.some.inj (hfound.symm.trans hmodel)
  exact absurd hlack (Nat.lt_asymm (henough u hu))

end Daemon

end Gpumemd
