import UpAndDownESP.Proofs.Capacity

namespace UpAndDownESP.Proofs.Commands
open Table Sending Refinement Capacity Session

/-- The frame a recognised command asks for: type and payload. -/
def request : MqttCommand → UInt8 × List UInt8
  | .status => (msgTypeCmd, getStatusCmd.bytes)
  | .reset => (msgTypeCmd, resetCmd.bytes)
  | .estop => (msgTypeEstop, [0x01])
  | .floor n => (msgTypeCmd, (moveToFloorCmd n).bytes)

/-- From `s` to `s'` the command's frame was written, or else some event was
published about it. -/
def Handled (cmd : MqttCommand) (s s' : Endpoint) : Prop :=
  (∃ id, writes s' = writes s ++ [Spec.frame (id, request cmd)]) ∨
    ∃ text ok, s'.app.mqtt.attempts = s.app.mqtt.attempts ++ [(text, ok)]

/-- A command sent with a slot free is one frame; with none free it leaves no trace
but the refusal. -/
theorem command_writes (s : Session) (cmd : CmdRequest) :
    (command cmd s).2.app = s.app ∧
    if (Slots.live s.table).length < s.table.length then
      writesOf (command cmd s).2.wire =
        writesOf s.wire ++ [Spec.frame (s.ownId, msgTypeCmd, cmd.bytes)]
    else writesOf (command cmd s).2.wire = writesOf s.wire := by
  rw [← frameBytes_eq _ _ (by rw [cmd.bytes_length]; decide)]
  cases hi : Slots.insert (commandQuery s.ownId) queryTicks s.table with
  | none =>
    have hfull := (Slots.insert_isSome (commandQuery s.ownId) queryTicks s.table).not.mp (by simp [hi])
    rw [if_neg hfull]
    simp [command, ask_none hi, writesOf]
  | some t =>
    have hroom := (Slots.insert_isSome (commandQuery s.ownId) queryTicks s.table).mp (by simp [hi])
    rw [if_pos hroom]
    simp [command, ask_some hi, sent, writesOf]

theorem estop_writes (s : Session) :
    writesOf s.estop.wire = writesOf s.wire ++ [Spec.frame (s.ownId, msgTypeEstop, [0x01])] := by
  rw [← frameBytes_eq _ _ (by decide)]
  simp [estop, sent, writesOf]

theorem handled_command {s s' : Endpoint} (hs : Legal (session s)) (cmd : MqttCommand)
    {req : CmdRequest} (hreq : request cmd = (msgTypeCmd, req.bytes))
    (hs' : session s' = (command req (session s)).2) :
    Handled cmd s s' ↔ (pending s).length < tfMaxIdLst := by
  obtain ⟨happ, hw⟩ := command_writes (session s) req
  rw [← hs', hs.slots, ← pending_session] at hw
  rw [← hs'] at happ
  have hattempts : s'.app.mqtt.attempts = s.app.mqtt.attempts := congrArg (·.mqtt.attempts) happ
  simp only [Handled, hreq]
  constructor
  · rintro (⟨id, hid⟩ | ⟨text, ok, ha⟩)
    · by_contra hfull
      rw [if_neg hfull] at hw
      have hsame : writes s' = writes s := hw
      rw [hsame] at hid
      simpa using congrArg List.length hid
    · rw [hattempts] at ha
      simpa using congrArg List.length ha
  · intro hroom
    rw [if_pos hroom] at hw
    exact Or.inl ⟨_, hw⟩

/-- A recognised command is acted on or reported exactly when it is an e-stop or
fewer than four queries are pending. -/
theorem command_handled_iff {s : Endpoint} (h : Reachable s) {payload : List UInt8} {len : Nat}
    {cmd : MqttCommand} (hcmd : parseMqttCommand payload len = some cmd) :
    Handled cmd s (maxCommOnMqttCommand payload len s) ↔
      cmd = .estop ∨ (pending s).length < tfMaxIdLst := by
  have hr := regular_of_reachable h
  have hs := (mqttCommand_refines hr payload len).1
  rw [hcmd] at hs
  cases cmd with
  | status => simpa using handled_command hr.legal .status rfl hs
  | reset => simpa using handled_command hr.legal .reset rfl hs
  | floor n => simpa using handled_command hr.legal (.floor n) rfl hs
  | estop =>
    have hw := estop_writes (session s)
    rw [show (session s).estop = _ from hs.symm] at hw
    exact ⟨fun _ => Or.inl rfl, fun _ => Or.inl ⟨_, hw⟩⟩

/-- The broker is connected and four commands wait for their responses. -/
def busy : Endpoint :=
  run (boot fun _ => 0)
    ([.mqttInit true, .mqttEvent .connected] ++ List.replicate 4 (.sendCmd getStatusCmd))

theorem busy_reachable : Reachable busy := ⟨_, _, rfl⟩

/-- A status command that arrives then is neither sent nor reported. -/
theorem status_disappears :
    Reachable busy ∧ mqttIsConnected busy.app.mqtt = true ∧
      parseMqttCommand (ascii "status") 6 = some .status ∧
      ¬ Handled .status busy (maxCommOnMqttCommand (ascii "status") 6 busy) := by
  have hr := regular_of_reachable busy_reachable
  have hs := (mqttCommand_refines hr (ascii "status") 6).1
  have hcmd : parseMqttCommand (ascii "status") 6 = some .status := by decide
  have hfull : (pending busy).length = tfMaxIdLst := rfl
  rw [hcmd] at hs
  refine ⟨busy_reachable, rfl, hcmd, ?_⟩
  rw [handled_command hr.legal _ rfl hs, hfull]
  exact Nat.lt_irrefl _

/-- After the e-stop that arrives then its frame is on the wire. -/
theorem estop_handled_when_busy :
    Handled .estop busy (maxCommOnMqttCommand (ascii "estop") 5 busy) :=
  (command_handled_iff busy_reachable (by decide)).mpr (Or.inl rfl)

end UpAndDownESP.Proofs.Commands
