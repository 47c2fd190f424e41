import ScopedFn.Proofs.Config.Signals
import ScopedFn.Proofs.Run.Calls

/-!
# From the configuration to the process

What a process is started with: its variables come from a snapshot, from the fixed signals and from
the signals of the configuration, and a container is told the names of all variables that it can be
told.

* `Invoker.get?_environment`, `Invoker.keys_environment` : the variables and their order;
* `Invoker.command_container` : the command line of a container;
* `Invoker.exists_started` : what processes are started with;
* `Invoker.started_from_config` : all of it, for the settings of a configuration that is accepted.
-/

set_option autoImplicit false

namespace ScopedFn

namespace Invoker

open Config (configuredSignals rendered)
open Environment (fixedSignals snapshotNames)
open TextMap (last? newNames)

variable {inv : Invoker} {config : Value} {d : Descriptor} {child : Child} {rs : List Resource}
  {w w' : World} {res : Except Failure Invocation}

/-- The names of the signals that every function gets. -/
def signalNames : List String := ["LOG_TO_STDERR", "STRUCTURED_RESULTS"]

theorem last?_fixedSignals (name : String) :
    last? fixedSignals name = if name ∈ signalNames then some "true" else none := by
  split_ifs with h
  · exact (by decide : ∀ n ∈ signalNames, last? fixedSignals n = some "true") name h
  · exact TextMap.last?_eq_none h

/-- **What a variable is**: as configured, else `true` for a fixed signal, else as in the
snapshot. -/
theorem get?_environment (hconfig : Config.Settings.ofConfig config = .ok inv.settings)
    (hkeyed : (configuredSignals config).Keyed) (name : String) :
    inv.environment.get? name = (last? (rendered (configuredSignals config)) name).or
      (if name ∈ signalNames then some "true"
        else if name = "" then none else last? inv.environ name) := by
  rw [environment, Config.signals_of_ofConfig hconfig, Environment.get?_build,
    Config.last?_signalTexts hkeyed (Config.isWord_of_ofConfig hconfig), last?_fixedSignals, Option.or_assoc]
  refine congrArg _ ?_
  split_ifs <;> rfl

/-- **The order of the variables**: those of the snapshot, the fixed signals that are missing, the
other signals that are configured. -/
theorem keys_environment (hconfig : Config.Settings.ofConfig config = .ok inv.settings)
    (hkeyed : (configuredSignals config).Keyed) :
    inv.environment.keys = snapshotNames inv.environ ++
      newNames (snapshotNames inv.environ) signalNames ++
        newNames (snapshotNames inv.environ ++ signalNames)
          (rendered (configuredSignals config)).keys := by
  have hseen : fixedSignals.keys ⊆ snapshotNames inv.environ ++ signalNames :=
    List.subset_append_right _ _
  rw [environment, Environment.keys_build, Config.signals_of_ofConfig hconfig]
  exact congrArg _ (Config.newNames_signalTexts hkeyed (Config.isWord_of_ofConfig hconfig) hseen)

theorem signalNames_subset (inv : Invoker) : signalNames ⊆ inv.environment.keys := by
  intro name hname
  rw [environment, Environment.keys_build, List.mem_append, List.mem_append, TextMap.mem_newNames]
  by_cases hold : name ∈ snapshotNames inv.environ
  · exact .inl (.inl hold)
  · exact .inl (.inr ⟨hname, hold⟩)

/-- The command line of a container, which names every variable that has a name without an equals
sign. -/
theorem command_container (hoverride : inv.override = []) (himage : d.image ≠ "") (env : TextMap) :
    inv.command d env = .ok (
      [inv.settings.engine, "run", "--rm", "-i", "-a", "STDIN", "-a", "STDOUT", "-a", "STDERR",
        "--network", if d.network ≠ "" then d.network else inv.settings.network,
        "--user", inv.settings.user, "--security-opt=no-new-privileges"] ++
      d.mounts.flatMap (fun m => ["--mount", m.render]) ++
      (env.keys.filter fun name => name ≠ "" ∧ '=' ∉ name.toList).flatMap
        (fun name => ["-e", name]) ++
      [d.image]) := by
  have hdeclared : Environment.declared env =
      env.keys.filter fun name => name ≠ "" ∧ '=' ∉ name.toList := by
    refine List.filter_congr fun name _ => ?_
    rw [Bool.eq_iff_iff]
    simp
  rw [command, if_neg (not_not.2 hoverride), Descriptor.runtime, if_pos himage]
  dsimp only
  rw [containerCommand, hdeclared]

/-- **What processes are started with.** A call starts at most one process, with the command of the
descriptor and the variables, and starts it if there are a command and a text to send. -/
theorem exists_started (h : (inv.invoke child d rs).exec w = (res, w')) : ∃ started,
    w'.calls = w.calls ++ started ∧
      (∀ request ∈ started, inv.command d inv.environment = .ok request.command ∧
        request.environment = inv.environment) ∧
      ∀ command payload, inv.command d inv.environment = .ok command →
        (inv.package d rs w.supply).encode = .ok payload →
          started = [⟨command, inv.environment, payload⟩] := by
  have hcalls := exec_invoke.1 h
  by_cases hstarts : ∃ command payload, inv.command d inv.environment = .ok command ∧
      (inv.package d rs w.supply).encode = .ok payload
  · obtain ⟨command, payload, hcommand, hpayload⟩ := hstarts
    refine ⟨_, hcalls.calls_eq hcommand hpayload, List.forall_mem_singleton.2 ⟨hcommand, rfl⟩, ?_⟩
    intro command' payload' hcommand' hpayload'
    obtain rfl := Except.ok.inj (hcommand.symm.trans hcommand')
    obtain rfl := Except.ok.inj (hpayload.symm.trans hpayload')
    rfl
  · refine ⟨[], ?_, nofun, fun command payload hcommand hpayload =>
      absurd ⟨command, payload, hcommand, hpayload⟩ hstarts⟩
    rw [List.append_nil]
    cases hcalls with
    | noCommand => rfl
    | noPayload => rfl
    | refused hcommand hpayload | unreadable hcommand hpayload | answered hcommand hpayload =>
      exact absurd ⟨_, _, hcommand, hpayload⟩ hstarts

/-- **From the configuration to the process.** Let the settings be those of a configuration that is
accepted, whose signals have different keys as in every map. A variable of the processes that are
started is what is configured last under its name, else `true` if it is a fixed signal, else what it
is in the snapshot; the variables of the snapshot come first, then the fixed signals, then the others
that are configured. So the fixed signals are always there. A container is started without new
privileges, sees the storage of its descriptor, and is told the name of every variable that has a
name without an equals sign. -/
theorem started_from_config (hconfig : Config.Settings.ofConfig config = .ok inv.settings)
    (hkeyed : (configuredSignals config).Keyed) :
    (∀ name, inv.environment.get? name = (last? (rendered (configuredSignals config)) name).or
      (if name ∈ signalNames then some "true"
        else if name = "" then none else last? inv.environ name)) ∧
    (inv.environment.keys = snapshotNames inv.environ ++
      newNames (snapshotNames inv.environ) signalNames ++
        newNames (snapshotNames inv.environ ++ signalNames)
          (rendered (configuredSignals config)).keys ∧
      inv.environment.keys.Nodup ∧ signalNames ⊆ inv.environment.keys) ∧
    (∀ d : Descriptor, inv.override = [] → d.image ≠ "" → inv.command d inv.environment = .ok (
      [inv.settings.engine, "run", "--rm", "-i", "-a", "STDIN", "-a", "STDOUT", "-a", "STDERR",
        "--network", if d.network ≠ "" then d.network else inv.settings.network,
        "--user", inv.settings.user, "--security-opt=no-new-privileges"] ++
      d.mounts.flatMap (fun m => ["--mount", m.render]) ++
      (inv.environment.keys.filter fun name => name ≠ "" ∧ '=' ∉ name.toList).flatMap
        (fun name => ["-e", name]) ++
      [d.image])) ∧
    ∀ (child : Child) (d : Descriptor) (rs : List Resource) (w w' : World)
      (res : Except Failure Invocation), (inv.invoke child d rs).exec w = (res, w') →
      ∃ started, w'.calls = w.calls ++ started ∧
        (∀ request ∈ started, inv.command d inv.environment = .ok request.command ∧
          request.environment = inv.environment) ∧
        ∀ command payload, inv.command d inv.environment = .ok command →
          (inv.package d rs w.supply).encode = .ok payload →
            started = [⟨command, inv.environment, payload⟩] :=
  ⟨get?_environment hconfig hkeyed,
    ⟨keys_environment hconfig hkeyed, Environment.nodup_keys_build _ _, signalNames_subset inv⟩,
    fun _ hoverride himage => command_container hoverride himage _,
    fun _ _ _ _ _ _ h => exists_started h⟩

/-- A configuration that sets a fixed signal and one more, and a snapshot that sets the other fixed
signal and has a nameless variable and one that no container can be told. -/
theorem started_from_config_silenced :
    ∃ settings, Config.Settings.ofConfig (.map 1 [(.text "runtime", .map 2 [(.text "signals",
        .map 3 [(.text "X", .text "on"), (.text "LOG_TO_STDERR", .bool false)])])]) = .ok settings ∧
      let inv : Invoker := ⟨settings, [("STRUCTURED_RESULTS", "no"), ("", "x"), ("A=B", "y")], []⟩
      inv.environment.get? "LOG_TO_STDERR" = some "False" ∧
      inv.environment.get? "STRUCTURED_RESULTS" = some "true" ∧
      inv.environment.get? "" = none ∧
      inv.environment.keys = ["STRUCTURED_RESULTS", "A=B", "LOG_TO_STDERR", "X"] ∧
      inv.command { Descriptor.empty with image := "fn", network := "host" } inv.environment = .ok
        [settings.engine, "run", "--rm", "-i", "-a", "STDIN", "-a", "STDOUT", "-a", "STDERR",
          "--network", "host", "--user", settings.user, "--security-opt=no-new-privileges",
          "-e", "STRUCTURED_RESULTS", "-e", "LOG_TO_STDERR", "-e", "X", "fn"] := by
  obtain ⟨-, -, settings, hok⟩ | ⟨-, hnot, -⟩ | ⟨hnot, -⟩ := Config.ofConfig_cases 1
    [(.text "runtime", .map 2 [(.text "signals",
      .map 3 [(.text "X", .text "on"), (.text "LOG_TO_STDERR", .bool false)])])]
  · refine ⟨settings, hok, ?_⟩
    intro inv
    have hconfig : Config.Settings.ofConfig _ = .ok inv.settings := hok
    obtain ⟨hget, ⟨hkeys, -, -⟩, hcommand, -⟩ := started_from_config hconfig ⟨by decide, by decide⟩
    refine ⟨(hget _).trans rfl, (hget _).trans rfl, (hget _).trans rfl, hkeys.trans rfl, ?_⟩
    rw [hcommand _ rfl (by decide), hkeys]
    rfl
  · refine absurd ?_ hnot
    simp [Json.isExpressible_map, Json.isExpressible_atom, Json.AreComparable, Json.isText,
      Json.IsWord]
  · exact absurd ⟨.inr ⟨_, _, rfl⟩, fun _ => .inr ⟨_, _, rfl⟩⟩ hnot

end Invoker

end ScopedFn
