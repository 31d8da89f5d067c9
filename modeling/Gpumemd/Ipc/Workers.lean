import Gpumemd.Ipc.Steps

/-!
# What a step does to its worker

`Broker.work_effect` says what the steps of a worker do to what the workers share. Here is
what they do to the worker itself (`Broker.work_step`): which step it was, where the worker
stood, and where it stands after it.
-/

namespace Gpumemd

open Library Protocol

/-- The command whose execution has started. -/
def Activity.executing : Activity → Option Command
  | .waiting command _ | .operating command | .answered command _ => some command
  | .responding command _ => command
  | _ => none

/-- The steps of a call. -/
def Work.isPiece : Work → Bool
  | .wake _ | .expire _ | .advance _ => true
  | _ => false

namespace Worker

/-- What a step does to its worker, where `stop` is the flag that it looks at. -/
inductive Step (stop : Bool) (worker : Worker) : Work → Worker → Prop
  | goes : worker.activity = .checking → stop = false →
      Step stop worker .check { worker with activity := .reading }
  | stops : worker.activity = .checking → stop = true →
      Step stop worker .check { worker with activity := .closed }
  | receive {chunk : Str} : worker.activity = .reading → chunk.length ≤ 4096 →
      Step stop worker (.receive chunk) ⟨worker.input ++ chunk, .processing⟩
  | retry : worker.activity = .reading → Step stop worker .retry { worker with activity := .checking }
  | hangUp : worker.activity = .reading → worker.input = [] →
      Step stop worker .hangUp { worker with activity := .closed }
  | unterminated : worker.activity = .reading → worker.input ≠ [] →
      Step stop worker .hangUp { worker with activity := .closing Reply.unterminated.response }
  | fail : worker.activity = .reading → Step stop worker .fail { worker with activity := .closed }
  | incomplete : worker.activity = .processing → cutLine worker.input = .incomplete →
      Step stop worker .cut { worker with activity := .checking }
  | tooLarge : worker.activity = .processing → cutLine worker.input = .tooLarge →
      Step stop worker .cut { worker with activity := .closing Reply.tooLarge.response }
  | line {line rest : Str} : worker.activity = .processing →
      cutLine worker.input = .line line rest → Step stop worker .cut ⟨rest, .ofLine line⟩
  | execute {outside : Outside} {command : Command} {activity : Activity} :
      worker.activity = .dispatching command → activity.executing = some command →
      Step stop worker (.execute outside) { worker with activity }
  /-- The call goes on. -/
  | stays {work : Work} {command : Command} : work.isPiece = true →
      worker.activity.executing = some command → Step stop worker work worker
  | returns {work : Work} {command : Command} {outcome : Outcome} : work.isPiece = true →
      ((∃ n, worker.activity = .waiting command n) ∨ worker.activity = .operating command) →
      Step stop worker work { worker with activity := .answered command outcome }
  | record {command : Command} {outcome : Outcome} : worker.activity = .answered command outcome →
      Step stop worker .record { worker with activity := .responding (some command) outcome.response }
  | count {command : Option Command} {response : Str} :
      worker.activity = .responding command response →
      Step stop worker .count { worker with activity := .sending command response }
  | sent {command : Option Command} {response : Str} : worker.activity = .sending command response →
      Step stop worker (.send true) { worker with activity := .processing }
  | unsent {command : Option Command} {response : Str} :
      worker.activity = .sending command response →
      Step stop worker (.send false) { worker with activity := .closed }
  | closes {sent : Bool} {response : Str} : worker.activity = .closing response →
      Step stop worker (.send sent) { worker with activity := .closed }

end Worker

namespace Broker

variable {s t : Broker} {worker worker' : Worker} {command : Command} {resume activity : Activity}
  {action : Daemon.Action} {outside : Outside} {stop : Bool} {work : Work}

/-- A piece of a call ends with its outcome, or goes on. -/
theorem call_cases (h : s.call command resume action = some (t, activity)) :
    (∃ outcome, activity = .answered command outcome) ∨ activity = resume := by
  rw [call] at h
  split_ifs at h
  dsimp only at h
  split at h
  next outcome _ =>
    obtain ⟨-, rfl⟩ := Prod.mk.inj (Option.some.inj h)
    exact .inl ⟨outcome, rfl⟩
  next =>
    obtain ⟨-, rfl⟩ := Prod.mk.inj (Option.some.inj h)
    exact .inr rfl

theorem executing_of_dispatch (h : s.dispatch command outside = some (t, activity)) :
    activity.executing = some command := by
  rw [dispatch] at h
  split at h
  · rw [start] at h
    rcases call_cases h with ⟨outcome, rfl⟩ | rfl
    · rfl
    · split_ifs <;> rfl
  · obtain ⟨⟨t', response⟩, -, heq⟩ := Option.map_eq_some_iff.1 h
    obtain ⟨-, rfl⟩ := Prod.mk.inj heq
    rfl

/-- A piece of a call that the worker is in. -/
theorem step_of_call (hpiece : work.isPiece = true)
    (hactivity : (∃ n, worker.activity = .waiting command n) ∨ worker.activity = .operating command)
    (h : ((s.call command worker.activity action).map fun (s, activity) =>
      (s, { worker with activity })) = some (t, worker')) : worker.Step stop work worker' := by
  obtain ⟨activity, heq, rfl⟩ := eq_of_map h
  rcases call_cases heq with ⟨outcome, rfl⟩ | rfl
  · exact .returns hpiece hactivity
  · have hexecuting : worker.activity.executing = some command := by
      rcases hactivity with ⟨n, hactivity⟩ | hactivity <;> rw [hactivity] <;> rfl
    exact .stays hpiece hexecuting

theorem cut_step (h : s.work stop worker .cut = some (t, worker')) :
    worker.Step stop .cut worker' := by
  rw [Broker.work] at h
  split at h
  next hactivity =>
    split at h
    next hcut =>
      obtain ⟨-, rfl⟩ := Prod.mk.inj (Option.some.inj h)
      exact .incomplete hactivity hcut
    next hcut =>
      obtain ⟨-, rfl⟩ := Prod.mk.inj (Option.some.inj h)
      exact .tooLarge hactivity hcut
    next hcut =>
      obtain ⟨-, rfl⟩ := Prod.mk.inj (Option.some.inj h)
      exact .line hactivity hcut
  next => cases h

theorem work_step (h : s.work stop worker work = some (t, worker')) :
    worker.Step stop work worker' := by
  cases work with
  | check =>
    rw [Broker.work] at h
    split at h
    next hactivity =>
      obtain ⟨-, rfl⟩ := Prod.mk.inj (Option.some.inj h)
      cases stop with
      | true => exact .stops hactivity rfl
      | false => exact .goes hactivity rfl
    next => cases h
  | receive chunk =>
    rw [Broker.work] at h
    split at h
    next hactivity =>
      split_ifs at h with hchunk
      obtain ⟨-, rfl⟩ := Prod.mk.inj (Option.some.inj h)
      exact .receive hactivity (by simp_all)
    next => cases h
  | retry =>
    rw [Broker.work] at h
    split at h
    next hactivity =>
      obtain ⟨-, rfl⟩ := Prod.mk.inj (Option.some.inj h)
      exact .retry hactivity
    next => cases h
  | hangUp =>
    rw [Broker.work] at h
    split at h
    next hactivity =>
      obtain ⟨-, rfl⟩ := Prod.mk.inj (Option.some.inj h)
      split_ifs with hinput
      · exact .hangUp hactivity (List.isEmpty_iff.1 hinput)
      · exact .unterminated hactivity (mt List.isEmpty_iff.2 hinput)
    next => cases h
  | fail =>
    rw [Broker.work] at h
    split at h
    next hactivity =>
      obtain ⟨-, rfl⟩ := Prod.mk.inj (Option.some.inj h)
      exact .fail hactivity
    next => cases h
  | cut => exact cut_step h
  | execute outside =>
    rw [Broker.work] at h
    split at h
    next hactivity =>
      obtain ⟨activity, heq, rfl⟩ := eq_of_map h
      exact .execute hactivity (executing_of_dispatch heq)
    next => cases h
  | wake now =>
    rw [Broker.work] at h
    split at h
    next hactivity =>
      rw [← hactivity] at h
      exact step_of_call rfl (.inl ⟨_, hactivity⟩) h
    next => cases h
  | expire now =>
    rw [Broker.work] at h
    split at h
    next hactivity =>
      rw [← hactivity] at h
      exact step_of_call rfl (.inl ⟨_, hactivity⟩) h
    next => cases h
  | advance input =>
    rw [Broker.work] at h
    split at h
    next hactivity =>
      rw [← hactivity] at h
      exact step_of_call rfl (.inr hactivity) h
    next => cases h
  | record =>
    rw [Broker.work] at h
    split at h
    next hactivity =>
      obtain ⟨-, rfl⟩ := Prod.mk.inj (Option.some.inj h)
      exact .record hactivity
    next => cases h
  | count =>
    rw [Broker.work] at h
    split at h
    next hactivity =>
      obtain ⟨-, rfl⟩ := Prod.mk.inj (Option.some.inj h)
      exact .count hactivity
    next => cases h
  | send sent =>
    rw [Broker.work] at h
    split at h
    next hactivity =>
      obtain ⟨-, rfl⟩ := Prod.mk.inj (Option.some.inj h)
      cases sent with
      | true => exact .sent hactivity
      | false => exact .unsent hactivity
    next hactivity =>
      obtain ⟨-, rfl⟩ := Prod.mk.inj (Option.some.inj h)
      exact .closes hactivity
    next => cases h

end Broker

end Gpumemd
