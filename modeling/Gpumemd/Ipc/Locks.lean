import Gpumemd.Ipc.Balance
import Gpumemd.Ipc.Workers
import Gpumemd.Residency.Pieces
import Gpumemd.Resource.Blocking

/-!
# Who holds what

The mutex of the residency manager is held exactly when a worker is in an operation of it, and
by no more than one of them. A worker that waits for memory is blocked in `condition_.wait`, in
a call of its own. So what the workers hold together is what the managers think that they do, in
every order of their steps (`Server.reachable_held`).
-/

namespace Gpumemd

open Library Protocol

/-! ## Operations -/

/-- The worker is in an operation of the residency manager. -/
def Activity.operates : Activity → Bool
  | .operating _ => true
  | _ => false

/-- The commands that call an operation of the residency manager that has pieces, or might. -/
def Command.Operates (command : Command) : Prop :=
  command.type = .unregisterModel ∨ command.type = .retainModel ∨ command.type = .releaseModel ∨
    command.type = .loadModel ∨ command.type = .unloadModel

theorem Command.Operates.type_ne {command : Command} (h : command.Operates) :
    command.type ≠ .acquire := by
  intro htype
  simp [Operates, htype] at h

/-- Only these commands are executed so. -/
def Activity.Operated (activity : Activity) : Prop :=
  ∀ command, activity = .operating command → command.Operates

namespace Daemon

variable {s : Daemon} {a : Action}

/-- An operation goes on until it has returned. -/
theorem isSome_running_iff (henabled : s.Enabled a) (ha : a.isCall = true ∨ a.isPiece = true) :
    (s.perform a).1.running.isSome = true ↔ (s.perform a).2 = .running := by
  have hidle (hcall : a.isCall = true) : s.running = none := by
    cases a <;> first | exact henabled | cases hcall
  have heffect := perform_effect henabled
  generalize (s.perform a).1 = t, (s.perform a).2 = response at heffect
  cases heffect with
  | client => simp [Action.isCall, Action.isPiece] at ha
  | registerModel => simp [Action.isCall, Action.isPiece] at ha
  | registerFile => simp [Action.isCall, Action.isPiece] at ha
  | share => simp [hidle rfl]
  | returned => simp [returned]
  | rollBack => simp [rollBack, returned]
  | commit => simp [commit, returned]
  | releaseReservation => simp [returned]
  | reload => simp [reload, returned]
  | retain => simp [returned]
  | releaseModel => simp [returned]
  | eraseRecord => simp [eraseRecord, returned]
  | _ => simp [proceed, evict]

/-- The call of `acquire` that a step lets run. -/
def Action.resumed : Action → Option ℕ
  | .client action => action.resumed
  | _ => none

/-- A call that is blocked stays so until it runs. -/
theorem blocked_perform (henabled : s.Enabled a) {n : ℕ} (hn : a.resumed ≠ some n)
    (h : s.resources.Blocked n) : (s.perform a).1.resources.Blocked n := by
  rcases resources_effect (perform_effect henabled) with hsame | ⟨action, haction, hclient⟩
  · rwa [hsame]
  · rw [haction]
    refine ResourceManager.blocked_perform (fun hresumed => ?_) h
    have hisClient : action.IsClient := by
      cases action <;> trivial
    rw [hclient hisClient] at hn
    exact hn hresumed

/-- What answers a call, or a piece of one. -/
theorem response_cases (henabled : s.Enabled a) (ha : a.isCall = true ∨ a.isPiece = true) :
    (s.perform a).2 = .running ∨ (∃ result, (s.perform a).2 = .returned result) ∨
      ∃ id shared result, a = .share id shared ∧ (s.perform a).2 = .shared result := by
  have heffect := perform_effect henabled
  generalize (s.perform a).1 = t, (s.perform a).2 = response at heffect
  cases heffect with
  | client => simp [Action.isCall, Action.isPiece] at ha
  | registerModel => simp [Action.isCall, Action.isPiece] at ha
  | registerFile => simp [Action.isCall, Action.isPiece] at ha
  | share => exact .inr (.inr ⟨_, _, _, rfl, rfl⟩)
  | returned => exact .inr (.inl ⟨_, rfl⟩)
  | rollBack => exact .inr (.inl ⟨_, rfl⟩)
  | commit => exact .inr (.inl ⟨_, rfl⟩)
  | releaseReservation => exact .inr (.inl ⟨_, rfl⟩)
  | reload => exact .inr (.inl ⟨_, rfl⟩)
  | retain => exact .inr (.inl ⟨_, rfl⟩)
  | releaseModel => exact .inr (.inl ⟨_, rfl⟩)
  | eraseRecord => exact .inr (.inl ⟨_, rfl⟩)
  | _ => exact .inl rfl

theorem shared_share (s : Daemon) (id : Str) (shared : BackendShareResult) :
    (s.share id shared).1 = s ∧ ∃ result, (s.share id shared).2 = .shared result := by
  rw [share]
  split
  next => exact ⟨rfl, _, rfl⟩
  next =>
    split
    next => exact ⟨rfl, _, rfl⟩
    next => split_ifs <;> exact ⟨rfl, _, rfl⟩

end Daemon

section Outcomes

variable {command : Command}

theorem outcome_running (command : Command) : outcome command .running = none := by
  rw [outcome.eq_def]
  split
  any_goals contradiction
  rfl

theorem outcome_returned (h : command.Operates) (result : ModelOperationResult) :
    outcome command (.returned result) ≠ none := by
  rcases h with h | h | h | h | h <;> simp [outcome, h]

end Outcomes

namespace Broker

variable {s t : Broker} {worker worker' : Worker} {command : Command} {activity resume : Activity}
  {action : Daemon.Action} {outside : Outside} {stop : Bool} {work : Work} {others : List ℕ}
  {operating : ℕ}

/-- How a call starts. -/
inductive Starts (s : Daemon) (command : Command) (action : Daemon.Action) : Prop
  /-- It takes no lock, and returns at once, unless it waits for memory. -/
  | returns : (s.perform action).1.running = s.running →
      command.type = .acquire ∨ outcome command (s.perform action).2 ≠ none → Starts s command action
  /-- It is one of an operation, which goes on. -/
  | operates : s.running = none → command.Operates → (s.perform action).1.running.isSome = true →
      (s.perform action).2 = .running → Starts s command action

theorem starts_of_operates {s : Daemon} (henabled : s.Enabled action) (hcall : action.isCall = true)
    (hidle : s.running = none) (hoperates : command.Operates)
    (hshare : ∀ id shared, action ≠ .share id shared) : Starts s command action := by
  have hiff := Daemon.isSome_running_iff henabled (.inl hcall)
  rcases Daemon.response_cases henabled (.inl hcall) with hrunning | ⟨result, hreturned⟩ |
    ⟨id, shared, result, hsame, -⟩
  · exact .operates hidle hoperates (hiff.2 hrunning) hrunning
  · refine .returns ?_ (.inr (hreturned ▸ outcome_returned hoperates result))
    rw [hidle, ← Option.not_isSome_iff_eq_none, hiff, hreturned]
    exact Response.noConfusion
  · exact absurd hsame (hshare id shared)

theorem starts {s : Daemon} (hoperation : operation s command outside = some action)
    (henabled : s.Enabled action) : Starts s command action := by
  rw [operation] at hoperation
  split at hoperation
  next htype => split at hoperation <;> cases hoperation <;> exact .returns rfl (.inl htype)
  next htype =>
    cases hoperation
    exact .returns rfl (.inr (by simp [Daemon.perform, ResourceManager.perform, outcome, htype]))
  next htype =>
    cases hoperation
    exact .returns rfl (.inr (by simp [Daemon.perform, outcome, htype]))
  next htype =>
    cases hoperation
    exact .returns rfl (.inr (by simp [Daemon.perform, outcome, htype]))
  next htype =>
    cases hoperation
    exact starts_of_operates henabled rfl henabled (.inl htype) (by simp)
  next htype =>
    cases hoperation
    exact starts_of_operates henabled rfl henabled (.inr (.inl htype)) (by simp)
  next htype =>
    cases hoperation
    exact starts_of_operates henabled rfl henabled (.inr (.inr (.inl htype))) (by simp)
  next htype =>
    cases hoperation
    exact starts_of_operates henabled rfl henabled (.inr (.inr (.inr (.inl htype)))) (by simp)
  next htype =>
    cases hoperation
    exact starts_of_operates henabled rfl henabled (.inr (.inr (.inr (.inr htype)))) (by simp)
  next htype =>
    cases hoperation
    obtain ⟨hsame, result, hresult⟩ :=
      s.shared_share command.name (s.backend.share command.name outside.sharing)
    exact .returns (congrArg _ hsame) (.inr (by simp [Daemon.perform, hresult, outcome, htype]))
  all_goals cases hoperation

/-- A worker has the mutex as long as an operation runs for it. -/
theorem Calls.locked (hcalls : s.Calls command work activity resume action)
    (henabled : s.daemon.Enabled action) (hoperated : activity.Operated)
    (h : activity.operates.toNat + operating = s.daemon.running.isSome.toNat) :
    (Activity.after command resume (s.daemon.perform action).2).operates.toNat + operating =
      (s.daemon.perform action).1.running.isSome.toNat := by
  cases hcalls with
  | start hoperation =>
    cases starts hoperation henabled with
    | returns hsame hreturns =>
      rw [hsame, Activity.after]
      split
      next => exact h
      next houtcome =>
        rw [if_pos (hreturns.resolve_right (not_not.2 houtcome))]
        exact h
    | operates hidle hoperates hholds hrunning =>
      rw [hidle] at h
      rw [hholds, Activity.after, hrunning, outcome_running, if_neg hoperates.type_ne]
      have hnone : operating = 0 := by simpa [Activity.operates] using h
      rw [hnone]
      rfl
  | wake n now =>
    rw [Activity.after]
    split <;> exact h
  | expire n now =>
    rw [Activity.after]
    split <;> exact h
  | advance input =>
    have hiff := Daemon.isSome_running_iff henabled (.inr rfl)
    have hholds : s.daemon.running.isSome = true := by
      by_contra hnone
      rw [Bool.not_eq_true] at hnone
      rw [hnone] at h
      exact absurd h (by simp [Activity.operates])
    have hnone : operating = 0 := by simpa [hholds, Activity.operates] using h
    rcases Daemon.response_cases henabled (.inr rfl) with hrunning | ⟨result, hreturned⟩ |
      ⟨id, shared, result, hsame, -⟩
    · rw [Activity.after, hiff.2 hrunning, hrunning, outcome_running, hnone]
      rfl
    · obtain ⟨outcome, houtcome⟩ := Option.ne_none_iff_exists'.1
        (outcome_returned (hoperated command rfl) result)
      have hleft : (s.daemon.perform (.advance input)).1.running.isSome = false := by
        rw [← Bool.not_eq_true, hiff, hreturned]
        exact Response.noConfusion
      rw [Activity.after, hleft, hreturned, houtcome, hnone]
      rfl
    · cases hsame

/-- What a worker waits in after a piece of its call. -/
theorem mem_calls_after {n : ℕ} {response : Response}
    (hn : n ∈ (Activity.after command resume response).calls) :
    outcome command response = none ∧ n ∈ resume.calls := by
  rw [Activity.after] at hn
  split at hn
  next => exact absurd hn List.not_mem_nil
  next houtcome => exact ⟨houtcome, hn⟩

theorem eq_none_of_outcome {result : Option OperationResult} (htype : command.type = .acquire)
    (h : outcome command (.client result) = none) : result = none := by
  cases result with
  | none => rfl
  | some result => simp [outcome, htype] at h

/-- A call that goes on waits for memory is blocked. -/
theorem Calls.blocks (hcalls : s.Calls command work activity resume action)
    (htyped : activity.Typed) {n : ℕ} (hn : n ∈ resume.calls)
    (houtcome : outcome command (s.daemon.perform action).2 = none) :
    (s.daemon.perform action).1.resources.Blocked n := by
  cases hcalls with
  | start hoperation =>
    split_ifs at hn with htype
    · obtain rfl := List.mem_singleton.1 hn
      rcases operation_cases hoperation with ⟨-, rfl⟩ | ⟨-, rfl⟩ | ⟨hother, -⟩ | ⟨hother, -⟩
      · cases eq_none_of_outcome htype houtcome
      · exact ResourceManager.blocked_of_acquire (eq_none_of_outcome htype houtcome)
      · rw [htype] at hother
        cases hother
      · exact absurd htype hother
    · exact absurd hn List.not_mem_nil
  | wake m now =>
    obtain rfl := List.mem_singleton.1 hn
    exact ResourceManager.blocked_of_wake (eq_none_of_outcome (htyped _ _ rfl) houtcome)
  | expire m now =>
    exact absurd (eq_none_of_outcome (htyped _ _ rfl) houtcome)
      (ResourceManager.expireWait_returns m now)
  | advance => exact absurd hn List.not_mem_nil

/-- A step lets no other call run. -/
theorem Calls.resumed_ne (hcalls : s.Calls command work activity resume action) {n : ℕ}
    (hn : n ∉ activity.calls) : action.resumed ≠ some n := by
  cases hcalls with
  | start hoperation =>
    rcases operation_cases hoperation with ⟨-, rfl⟩ | ⟨-, rfl⟩ | ⟨-, rfl⟩ | ⟨-, haction⟩
    · exact fun heq => nomatch heq
    · exact fun heq => nomatch heq
    · exact fun heq => nomatch heq
    · cases action with
      | client action => exact absurd rfl (haction action)
      | _ => exact fun heq => nomatch heq
  | wake m now => exact fun heq => hn (List.mem_singleton.2 (Option.some.inj heq).symm)
  | expire m now => exact fun heq => hn (List.mem_singleton.2 (Option.some.inj heq).symm)
  | advance => exact fun heq => nomatch heq

/-- The calls that workers wait in stay blocked. -/
theorem Calls.blocked (hcalls : s.Calls command work activity resume action)
    (henabled : s.daemon.Enabled action) (htyped : activity.Typed)
    (hnodup : (activity.calls ++ others).Nodup)
    (h : ∀ n ∈ activity.calls ++ others, s.daemon.resources.Blocked n) :
    ∀ n ∈ (Activity.after command resume (s.daemon.perform action).2).calls ++ others,
      (s.daemon.perform action).1.resources.Blocked n := by
  intro n hn
  rcases List.mem_append.1 hn with hn | hn
  · obtain ⟨houtcome, hresume⟩ := mem_calls_after hn
    exact hcalls.blocks htyped hresume houtcome
  · refine Daemon.blocked_perform henabled (hcalls.resumed_ne fun hmem => ?_)
      (h n (List.mem_append_right _ hn))
    exact List.disjoint_of_nodup_append hnodup hmem hn

/-! ## Steps of a worker -/

/-- A worker that moves on to where it is quiet was in no operation. -/
theorem operates_of_quiet (hstep : worker.Step stop work worker')
    (hquiet : worker'.activity.Quiet) : worker.activity.operates = false := by
  cases hactivity : worker.activity with
  | operating command =>
    cases hstep with
    | stays =>
      rw [hactivity] at hquiet
      exact hquiet.elim
    | returns => exact hquiet.elim
    | _ => simp_all
  | _ => rfl

/-- What the workers hold, as one of them sees it: `operating` of the others have the mutex of
    the residency manager, and `others` are the calls that they wait in. -/
structure Holds (s : Daemon) (activity : Activity) (operating : ℕ) (others : List ℕ) : Prop where
  locked : activity.operates.toNat + operating = s.running.isSome.toNat
  blocked : ∀ n ∈ activity.calls ++ others, s.resources.Blocked n

theorem Holds.moves {s : Daemon} (h : Holds s activity operating others)
    (hoperates : resume.operates = activity.operates) (hcalls : resume.calls = activity.calls) :
    Holds s resume operating others where
  locked := hoperates ▸ h.locked
  blocked := hcalls ▸ h.blocked

theorem holds_work (h : Holds s.daemon worker.activity operating others)
    (hoperated : worker.activity.Operated) (htyped : worker.activity.Typed)
    (hnodup : (worker.activity.calls ++ others).Nodup)
    (hwork : s.work stop worker work = some (t, worker')) :
    Holds t.daemon worker'.activity operating others := by
  have hcall {command : Command} {resume : Activity} {action : Daemon.Action}
      (hcalls : s.Calls command work worker.activity resume action)
      (henabled : s.daemon.Enabled action) : Holds (s.daemon.perform action).1
        (.after command resume (s.daemon.perform action).2) operating others :=
    ⟨hcalls.locked henabled hoperated h.locked, hcalls.blocked henabled htyped hnodup h.blocked⟩
  cases work_effect hwork with
  | @moves input activity hquiet =>
    refine h.moves ?_ ?_
    · rw [operates_of_quiet (work_step hwork) hquiet]
      cases activity <;> first | rfl | exact hquiet.elim
    · rw [(calls_of_quiet hwork hquiet).1]
      cases activity <;> first | rfl | exact hquiet.elim
  | accepts hactivity => exact h.moves (by rw [hactivity]; rfl) (by rw [hactivity]; rfl)
  | rejects hactivity => exact h.moves (by rw [hactivity]; rfl) (by rw [hactivity]; rfl)
  | goesOn hcalls henabled houtcome =>
    have hafter := hcall hcalls henabled
    rw [Activity.after, houtcome] at hafter
    exact hafter
  | returns hcalls henabled houtcome =>
    have hafter := hcall hcalls henabled
    rw [Activity.after, houtcome] at hafter
    exact hafter
  | answers hactivity hanswer =>
    rw [hactivity] at h
    cases answer_answers hanswer <;> exact h.moves rfl rfl
  | records hactivity =>
    rw [hactivity] at h
    exact h.moves rfl rfl
  | counts hactivity =>
    rw [hactivity] at h
    exact h.moves rfl rfl

end Broker

namespace Server

variable {s t : Server} {action : Action}

/-- How many workers are in an operation of the residency manager. -/
def operating (workers : List Worker) : ℕ := (workers.map (·.activity.operates.toNat)).sum

theorem operating_middle (before after : List Worker) (worker : Worker) :
    operating (before ++ worker :: after) =
      worker.activity.operates.toNat + operating (before ++ after) := by
  simp only [operating, List.map_append, List.map_cons, List.sum_append, List.sum_cons]
  omega

/-- The other workers stay where they are. -/
theorem exists_of_index {workers : List Worker} {index : ℕ} {worker : Worker}
    (hindex : workers[index]? = some worker) (worker' : Worker) :
    ∃ before after, workers = before ++ worker :: after ∧
      workers.set index worker' = before ++ worker' :: after := by
  obtain ⟨hlt, rfl⟩ := List.getElem?_eq_some_iff.1 hindex
  obtain ⟨before, after, hworkers, -, hset⟩ := List.exists_of_set hlt
  exact ⟨before, after, hworkers, hset⟩

/-- What the workers hold, as one sees it who is in no call. -/
def Held (s : Server) : Prop :=
  Broker.Holds s.broker.daemon .closed (operating s.workers) (calls s.workers)

theorem Held.accept (h : Held s) : Held { s with workers := s.workers ++ [{}] } := by
  have hoperating := operating_middle s.workers [] {}
  rw [List.append_nil] at hoperating
  refine ⟨?_, fun n hn => ?_⟩
  · show 0 + operating (s.workers ++ [({} : Worker)]) = _
    rw [hoperating, zero_add]
    exact h.locked
  · have hcalls := (calls_middle s.workers [] {}).mem_iff.1 hn
    rw [List.append_nil] at hcalls
    exact h.blocked n hcalls

/-- A step of one worker, seen from where it stands. -/
theorem Held.work {index : ℕ} {work : Work} {worker worker' : Worker} {broker : Broker}
    (h : Held s) (hs : Balanced s) (hoperated : worker.activity.Operated)
    (htyped : worker.activity.Typed) (hindex : s.workers[index]? = some worker)
    (hwork : s.broker.work s.stopRequested worker work = some (broker, worker')) :
    Held { s with broker, workers := s.workers.set index worker' } := by
  obtain ⟨before, after, hworkers, hset⟩ := exists_of_index hindex worker'
  have hnodup : (worker.activity.calls ++ calls (before ++ after)).Nodup := by
    rw [← (calls_middle before after worker).nodup_iff, ← hworkers]
    exact hs.books.nodup
  have hholds : Broker.Holds s.broker.daemon worker.activity (operating (before ++ after))
      (calls (before ++ after)) := by
    refine ⟨?_, fun n hn => h.blocked n ?_⟩
    · rw [← operating_middle, ← hworkers, ← h.locked]
      exact (zero_add _).symm
    · rw [hworkers]
      exact (calls_middle before after worker).mem_iff.2 hn
  have hafter := Broker.holds_work hholds hoperated htyped hnodup hwork
  refine ⟨?_, fun n hn => hafter.blocked n ?_⟩
  · show 0 + operating (s.workers.set index worker') = _
    rw [hset, operating_middle, zero_add]
    exact hafter.locked
  · have hn : n ∈ calls (s.workers.set index worker') := hn
    rw [hset] at hn
    exact (calls_middle before after worker').mem_iff.1 hn

theorem Held.step (h : Held s) (hs : Balanced s) (hoperated : All Activity.Operated s)
    (htyped : All Activity.Typed s) (hstep : s.perform action = some t) : Held t := by
  cases perform_effect hstep with
  | requestShutdown => exact h
  | accept => exact h.accept
  | leave => exact h
  | cancel =>
    refine ⟨h.locked, fun n hn => ?_⟩
    exact ResourceManager.blocked_perform (a := .cancelWaiters) (fun heq => nomatch heq) (h.blocked n hn)
  | join => exact h
  | work hindex hwork _ =>
    have hmem := List.mem_of_getElem? hindex
    exact h.work hs (hoperated.workers _ hmem) (htyped.workers _ hmem) hindex hwork

end Server

end Gpumemd
