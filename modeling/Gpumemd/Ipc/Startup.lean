import Gpumemd.Ipc.Descriptors
import Gpumemd.Protocol.Numbers
import Gpumemd.Residency.Capacity

/-!
# The program

`gpumemd` (`src/daemon/main.cpp`): `main` reads its options, each of them as often as it is given,
constructs the server and runs it.

It runs a server exactly if its arguments are options with values, of which the last ones are good
(`main_eq_runs_iff`). Whatever then happens, what is reserved never exceeds the memory that the
options tell (`reachable_within_memory`).
-/

namespace Gpumemd

open Library Protocol

namespace Launch

/-- `print_usage`. -/
def usage : Str :=
  ascii ("Usage: gpumemd --memory SIZE --socket PATH\n\n" ++
    "Start a simulated GPU memory broker.\n" ++
    "SIZE accepts B, KB, MB, GB, KiB, MiB, and GiB units.\n" ++
    "--scheduling accepts priority or cost.\n")

/-- The options that `main` knows. -/
inductive Flag
  | memory
  | socket
  | scheduling
  deriving DecidableEq

/-- How an option is written. -/
def Flag.text : Flag → Str
  | .memory => ascii "--memory"
  | .socket => ascii "--socket"
  | .scheduling => ascii "--scheduling"

/-- The variables of `main` that its options set. -/
structure Options where
  memoryToken : Str := []
  socketPath : Str := []
  schedulingPolicy : SchedulingPolicy := .priorityFifo

/-- The loop of `main` over its arguments: the message, if there is anything wrong with them. -/
def readOptions (options : Options) : List Str → Except Str Options
  | [] => .ok options
  | [_] => .error (ascii "gpumemd: expected --memory SIZE and --socket PATH\n" ++ usage)
  | argument :: value :: rest =>
    if argument = ascii "--memory" then readOptions { options with memoryToken := value } rest
    else if argument = ascii "--socket" then readOptions { options with socketPath := value } rest
    else if argument = ascii "--scheduling" then
      if value = ascii "priority" then
        readOptions { options with schedulingPolicy := .priorityFifo } rest
      else if value = ascii "cost" then
        readOptions { options with schedulingPolicy := .costAware } rest
      else .error (ascii "gpumemd: invalid scheduling policy\n")
    else .error (ascii "gpumemd: expected --memory SIZE and --socket PATH\n" ++ usage)

/-- What `main` does before it calls `run`. -/
inductive Launched
  /-- It returns. -/
  | exits (code : ℕ) (output errors : Str)
  /-- It constructs a server, which it runs at a path. -/
  | runs (server : Server) (socketPath : Str)

/-- The server that `main` constructs. -/
def serve (resources : ResourceManager) : Server :=
  { broker := { daemon := { resources }, metrics := some {}, nodes := some {} } }

/-- `main`, without the name of the program, up to its call of `run`. -/
def main (args : List Str) : Launched :=
  if args = [ascii "--help"] then .exits 0 usage []
  else
    match readOptions {} args with
    | .error errors => .exits 2 [] errors
    | .ok options =>
      match parseBytes options.memoryToken with
      | none =>
        .exits 2 [] (ascii "gpumemd: invalid or missing memory/socket option\n" ++ usage)
      | some capacity =>
        if options.socketPath.isEmpty then
          .exits 2 [] (ascii "gpumemd: invalid or missing memory/socket option\n" ++ usage)
        else
          match ResourceManager.create capacity options.schedulingPolicy with
          | .error what => .exits 1 [] (ascii "gpumemd: " ++ ascii what ++ ascii "\n")
          | .ok manager => .runs (serve manager) options.socketPath

/-- The arguments that options are made of. -/
def arguments (pairs : List (Flag × Str)) : List Str := pairs.flatMap fun (flag, value) =>
  [flag.text, value]

/-- The value that is given last. -/
def lastValue (flag : Flag) (pairs : List (Flag × Str)) : Str :=
  (((pairs.filter fun pair => pair.1 == flag).getLast?).map (·.2)).getD []

/-- The policies that are given are there. -/
def Known (pairs : List (Flag × Str)) : Prop :=
  ∀ value, (.scheduling, value) ∈ pairs → value = ascii "priority" ∨ value = ascii "cost"

/-- The options, by the values that are given last. -/
def optionsOf (pairs : List (Flag × Str)) : Options where
  memoryToken := lastValue .memory pairs
  socketPath := lastValue .socket pairs
  schedulingPolicy := if lastValue .scheduling pairs = ascii "cost" then .costAware else .priorityFifo

/-- An option is read. -/
def Options.set (options : Options) : Flag × Str → Options
  | (.memory, value) => { options with memoryToken := value }
  | (.socket, value) => { options with socketPath := value }
  | (.scheduling, value) => { options with
      schedulingPolicy := if value = ascii "cost" then .costAware else .priorityFifo }

variable {args : List Str} {pairs : List (Flag × Str)} {options options' : Options} {server : Server}
  {socketPath : Str} {capacity : Bytes}

/-! ## The options -/

theorem readOptions_arguments (hknown : Known pairs) :
    readOptions options (arguments pairs) = .ok (pairs.foldl Options.set options) := by
  induction pairs generalizing options with
  | nil => rfl
  | cons pair pairs ih =>
    have hrest : Known pairs := fun value hmem => hknown value (List.mem_cons_of_mem _ hmem)
    obtain ⟨flag, value⟩ := pair
    cases flag with
    | memory => exact ih hrest
    | socket => exact ih hrest
    | scheduling =>
      rcases hknown value (List.mem_cons_self ..) with rfl | rfl
      · exact ih hrest
      · exact ih hrest

theorem exists_arguments (h : readOptions options args = .ok options') :
    ∃ pairs, args = arguments pairs ∧ Known pairs := by
  have hcons (flag : Flag) {value : Str} {rest : List Str} (hflag : flag ≠ .scheduling ∨
      value = ascii "priority" ∨ value = ascii "cost")
      (hrest : ∃ pairs, rest = arguments pairs ∧ Known pairs) :
      ∃ pairs, flag.text :: value :: rest = arguments pairs ∧ Known pairs := by
    obtain ⟨pairs, rfl, hknown⟩ := hrest
    refine ⟨(flag, value) :: pairs, rfl, fun value' hmem => ?_⟩
    rcases List.mem_cons.1 hmem with heq | hmem
    · obtain ⟨rfl, rfl⟩ := Prod.mk.inj heq
      exact hflag.resolve_left fun hne => hne rfl
    · exact hknown value' hmem
  induction options, args using readOptions.induct with
  | case1 => exact ⟨[], rfl, fun _ hmem => absurd hmem List.not_mem_nil⟩
  | case2 => cases h
  | case3 options value rest ih =>
    rw [readOptions, if_pos rfl] at h
    exact hcons .memory (.inl (by decide)) (ih h)
  | case4 options value rest hmemory ih =>
    rw [readOptions, if_neg hmemory, if_pos rfl] at h
    exact hcons .socket (.inl (by decide)) (ih h)
  | case5 options rest hmemory hsocket ih =>
    rw [readOptions, if_neg hmemory, if_neg hsocket, if_pos rfl, if_pos rfl] at h
    exact hcons .scheduling (.inr (.inl rfl)) (ih h)
  | case6 options rest hmemory hsocket hpriority ih =>
    rw [readOptions, if_neg hmemory, if_neg hsocket, if_pos rfl, if_neg hpriority, if_pos rfl] at h
    exact hcons .scheduling (.inr (.inr rfl)) (ih h)
  | case7 options value rest hmemory hsocket hpriority hcost =>
    rw [readOptions, if_neg hmemory, if_neg hsocket, if_pos rfl, if_neg hpriority, if_neg hcost] at h
    cases h
  | case8 options argument value rest hmemory hsocket hscheduling =>
    rw [readOptions, if_neg hmemory, if_neg hsocket, if_neg hscheduling] at h
    cases h

theorem foldl_set (pairs : List (Flag × Str)) : pairs.foldl Options.set {} = optionsOf pairs := by
  induction pairs using List.reverseRecOn with
  | nil => rfl
  | append_singleton pairs pair ih =>
    rw [List.foldl_append, ih]
    obtain ⟨flag, value⟩ := pair
    cases flag <;> simp [optionsOf, Options.set, lastValue, List.filter_append]

theorem readOptions_eq_ok_iff : readOptions {} args = .ok options ↔
    ∃ pairs, args = arguments pairs ∧ Known pairs ∧ options = optionsOf pairs := by
  constructor
  · intro h
    obtain ⟨pairs, rfl, hknown⟩ := exists_arguments h
    rw [readOptions_arguments hknown, foldl_set] at h
    exact ⟨pairs, rfl, hknown, (Except.ok.inj h).symm⟩
  · rintro ⟨pairs, rfl, hknown, rfl⟩
    rw [readOptions_arguments hknown, foldl_set]

theorem optionsOf_eq (hread : readOptions {} args = .ok options) (hargs : args = arguments pairs)
    (hknown : Known pairs) : optionsOf pairs = options := by
  rw [readOptions_eq_ok_iff.2 ⟨pairs, hargs, hknown, rfl⟩] at hread
  exact Except.ok.inj hread

/-! ## What is run -/

/-- A size that can be read is positive. -/
theorem create_of_parseBytes {text : Str} (h : parseBytes text = some capacity)
    (policy : SchedulingPolicy) : ResourceManager.create capacity policy =
      .ok { capacity := capacity, schedulingPolicy := policy } := by
  obtain ⟨digits, -, unit, -, -, hone, -, hvalue⟩ := parseSize_iff.1 h
  have hpos : capacity ≠ 0 := by
    rintro rfl
    rw [← hvalue] at hone
    cases hone
  rw [ResourceManager.create, if_neg hpos]

/-- `main` runs a server exactly if its arguments are options with values, each as often as one
    likes, of which the last ones tell a memory, a path and a policy; and it never fails to construct
    one. -/
theorem main_eq_runs_iff : (main args = .runs server socketPath ↔
    ∃ pairs capacity, args = arguments pairs ∧ Known pairs ∧
      parseBytes (lastValue .memory pairs) = some capacity ∧
      lastValue .socket pairs = socketPath ∧ socketPath ≠ [] ∧
      server = serve { capacity, schedulingPolicy := (optionsOf pairs).schedulingPolicy }) ∧
    ∀ output errors, main args ≠ .exits 1 output errors := by
  rw [main]
  by_cases hhelp : args = [ascii "--help"]
  · rw [if_pos hhelp]
    refine ⟨iff_of_false nofun ?_, nofun⟩
    rintro ⟨pairs, capacity, rfl, -⟩
    cases pairs with
    | nil => cases hhelp
    | cons pair pairs => cases List.tail_eq_of_cons_eq hhelp
  rw [if_neg hhelp]
  cases hread : readOptions {} args with
  | error errors =>
    refine ⟨iff_of_false nofun ?_, nofun⟩
    rintro ⟨pairs, capacity, hargs, hknown, -⟩
    rw [readOptions_eq_ok_iff.2 ⟨pairs, hargs, hknown, rfl⟩] at hread
    cases hread
  | ok options =>
    obtain ⟨pairs, hargs, hknown, hoptions⟩ := readOptions_eq_ok_iff.1 hread
    dsimp only
    cases hparsed : parseBytes options.memoryToken with
    | none =>
      refine ⟨iff_of_false nofun ?_, nofun⟩
      rintro ⟨pairs, capacity, hargs, hknown, hcapacity, -⟩
      obtain rfl := optionsOf_eq hread hargs hknown
      cases hparsed.symm.trans hcapacity
    | some capacity =>
      dsimp only
      by_cases hpath : options.socketPath = []
      · rw [if_pos (List.isEmpty_iff.2 hpath)]
        refine ⟨iff_of_false nofun ?_, nofun⟩
        rintro ⟨pairs, capacity, hargs, hknown, -, rfl, hne, -⟩
        obtain rfl := optionsOf_eq hread hargs hknown
        exact hne hpath
      · rw [if_neg (mt List.isEmpty_iff.1 hpath), create_of_parseBytes hparsed]
        refine ⟨⟨fun h => ?_, ?_⟩, nofun⟩
        · obtain ⟨rfl, rfl⟩ := Launched.runs.inj h
          rw [hoptions] at hparsed hpath ⊢
          exact ⟨pairs, capacity, hargs, hknown, hparsed, rfl, hpath, rfl⟩
        · rintro ⟨pairs, capacity', hargs, hknown, hcapacity, rfl, -, rfl⟩
          obtain rfl := optionsOf_eq hread hargs hknown
          obtain rfl := Option.some.inj (hparsed.symm.trans hcapacity)
          rfl

end Launch

/-! ## What stays -/

theorem Daemon.capacity_effect {s t : Daemon} {a : Daemon.Action} {response : Response}
    (hinv : s.Inv) (heffect : s.Effect a t response) :
    t.resources.capacity = s.resources.capacity := by
  have hkept (action : ResourceManager.Action) (henabled : s.resources.Enabled action) :
      (s.resources.perform action).1.capacity = s.resources.capacity :=
    ResourceManager.capacity_perform hinv.resources henabled
  cases heffect with
  | client _ henabled => exact hkept _ henabled
  | @swap input model evictions =>
    exact hkept (.replaceModelReservations evictions model.id model.footprintBytes input.now) trivial
  | @refuse input model evictions =>
    exact hkept (.replaceModelReservations evictions model.id model.footprintBytes input.now) trivial
  | @releaseReservation input id => exact hkept (.releaseModel id input.now) trivial
  | @reloading input id => exact hkept (.releaseModel id input.now) trivial
  | _ => rfl

/-- The memory that a server gives out. -/
def Server.capacity (s : Server) : Bytes := s.broker.daemon.resources.capacity

theorem Server.capacity_step {s t : Server} {a : Server.Action} (hs : machine.Reachable s)
    (hstep : s.perform a = some t) : t.capacity = s.capacity := by
  have hdaemon := reachable_daemon hs
  have hkept {a : Daemon.Action} (henabled : s.broker.daemon.Enabled a) :
      (s.broker.daemon.perform a).1.resources.capacity = s.capacity :=
    Daemon.capacity_effect (Daemon.reachable_inv hdaemon) (Daemon.perform_effect henabled)
  cases perform_effect hstep with
  | cancel => exact hkept (a := .client .cancelWaiters) ⟨trivial, trivial⟩
  | work _ _ heffect =>
    cases heffect with
    | goesOn _ henabled => exact hkept henabled
    | returns _ henabled => exact hkept henabled
    | answers _ hanswer =>
      cases Broker.answer_answers hanswer <;> rfl
    | _ => rfl
  | _ => rfl

namespace Launch

variable {args : List Str} {server : Server} {socketPath : Str} {file : Option SocketFile}
  {pathSize : ℕ} {actions : List UnixSocketServer.Action} {s : UnixSocketServer}

theorem init_serve {manager : ResourceManager} {policy : SchedulingPolicy} {capacity : Bytes}
    (h : ResourceManager.create capacity policy = .ok manager) : Server.machine.init (serve manager) :=
  ⟨_, some {}, some {}, ⟨capacity, policy, manager, h, rfl⟩, by simp, by simp, rfl⟩

/-- Whatever the clients, the threads, the system calls and other processes do once `main` runs a
    server: what is reserved for clients and models is at most the memory of the last `--memory`
    option, which never changes. -/
theorem reachable_within_memory (h : main args = .runs server socketPath) (hfile : file ≠ some .own)
    (hr : (UnixSocketServer.machine pathSize).Run { server, socketPath, file } actions s) :
    ∃ pairs capacity, args = arguments pairs ∧
      parseBytes (lastValue .memory pairs) = some capacity ∧
      s.server.broker.daemon.resources.capacity = capacity ∧
      Table.weight UInt64.toNat s.server.broker.daemon.resources.reservations +
        Table.weight UInt64.toNat s.server.broker.daemon.resources.modelReservations ≤
          capacity.toNat := by
  obtain ⟨pairs, capacity, hargs, -, hcapacity, -, -, rfl⟩ := main_eq_runs_iff.1.1 h
  have hinit := init_serve (create_of_parseBytes hcapacity (optionsOf pairs).schedulingPolicy)
  have hserver : (UnixSocketServer.machine pathSize).Reachable
      { server := serve { capacity, schedulingPolicy := (optionsOf pairs).schedulingPolicy },
        socketPath, file } := .init ⟨_, _, _, hinit, hfile, rfl⟩
  -- the run is one of the threads
  obtain ⟨bs, hthreads⟩ := UnixSocketServer.refines_server.run hr hserver
  have hbroker : s.threads.broker = s.server.broker := by
    rw [UnixSocketServer.threads]
    split_ifs <;> rfl
  have hsame : s.server.broker.daemon.resources.capacity = capacity := by
    rw [← hbroker]
    exact hthreads.stable (P := fun t => t.capacity = capacity)
      (fun _ _ _ ht hcapacity hstep => (Server.capacity_step ht hstep).trans hcapacity)
      (.init hinit) rfl
  have hdaemon := Server.reachable_daemon ((Machine.Reachable.init hinit).run hthreads)
  rw [hbroker] at hdaemon
  have hbalanced := (ResourceManager.reachable_inv (Daemon.reachable_inv hdaemon).resources)
    |>.accounted.balanced
  refine ⟨pairs, capacity, hargs, hcapacity, hsame, ?_⟩
  rw [← hbalanced.used_eq, ← hsame]
  exact hbalanced.used_le

/-- A memory is given twice. -/
def commandLine : List Str :=
  [ascii "--memory", ascii "1GiB", ascii "--socket", ascii "/tmp/gpumemd.sock", ascii "--memory",
    ascii "10B"]

/-- The server that is run. -/
def launched : UnixSocketServer where
  server := serve { capacity := 10, schedulingPolicy := .priorityFifo }
  socketPath := ascii "/tmp/gpumemd.sock"

/-- The set-up, and a client. -/
def serving : List UnixSocketServer.Action :=
  [.run false, .socket 3, .bind true, .chmod true, .listen true, .fcntl true, .accept 4,
    .work 0 .check]

theorem launched_within_memory :
    main commandLine = .runs launched.server (ascii "/tmp/gpumemd.sock") ∧
      ∃ s, (UnixSocketServer.machine 108).Run launched serving s ∧
        ∃ pairs capacity, commandLine = arguments pairs ∧
          parseBytes (lastValue .memory pairs) = some capacity ∧
          s.server.broker.daemon.resources.capacity = capacity := by
  have hmain : main commandLine = .runs launched.server (ascii "/tmp/gpumemd.sock") := rfl
  have hserving : (serving.foldlM (UnixSocketServer.admitted 108) launched).isSome = true := by decide
  obtain ⟨s, hs⟩ := Option.isSome_iff_exists.1 hserving
  have hrun : (UnixSocketServer.machine 108).Run launched serving s :=
    (Machine.run_of_foldlM (fun _ _ _ => UnixSocketServer.step_of_admitted) hs).of_restrict
  obtain ⟨pairs, capacity, hargs, hcapacity, hsame, -⟩ :=
    reachable_within_memory hmain (show none ≠ _ from nofun) hrun
  exact ⟨hmain, s, hrun, pairs, capacity, hargs, hcapacity, hsame⟩

end Launch

end Gpumemd
