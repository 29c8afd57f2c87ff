import UpAndDownESP.Proofs.Application
import UpAndDownESP.Proofs.Refinement

namespace UpAndDownESP.Proofs.History
open Table Refinement Application Session

/-! Nothing the program does depends on what it has done: its calls, publications and
writes are added to their logs, and the client library's answers are taken in turn. -/

/-! ### Without a past -/

/-- The MQTT client's statics as if no call had been made; the answers are those still to
come. -/
def forgetMqtt (m : Mqtt) : Mqtt :=
  { m with
    msgIds := fun n => m.msgIds (m.publishCalls + n)
    publishCalls := 0, subscriptions := [], attempts := [] }

def forgetApp (a : App) : App := { a with mqtt := forgetMqtt a.mqtt, calls := [] }

/-- The endpoint's present state, all it will act on. -/
def forget (s : Endpoint) : Endpoint := { s with wire := [], app := forgetApp s.app }

/-! ### With a past -/

def mqttAfter (past m : Mqtt) : Mqtt :=
  { m with
    msgIds := fun n =>
      if n < past.publishCalls then past.msgIds n else m.msgIds (n - past.publishCalls)
    publishCalls := past.publishCalls + m.publishCalls
    subscriptions := past.subscriptions ++ m.subscriptions
    attempts := past.attempts ++ m.attempts }

def appAfter (past a : App) : App :=
  { a with mqtt := mqttAfter past.mqtt a.mqtt, calls := past.calls ++ a.calls }

/-- The session with what `past` has behind it put before what it has itself. -/
def after (past s : Session) : Session :=
  { s with wire := past.wire ++ s.wire, app := appAfter past.app s.app }

theorem mqttAfter_forget (m : Mqtt) : mqttAfter m (forgetMqtt m) = m := by
  have hids : (fun n => if n < m.publishCalls then m.msgIds n
      else m.msgIds (m.publishCalls + (n - m.publishCalls))) = m.msgIds := by
    funext n
    split
    · rfl
    · rw [Nat.add_sub_cancel' (by omega)]
  obtain ⟨client, events, cmd, handler, connected, msgIds, publishCalls, subscriptions, attempts⟩ := m
  simp only [mqttAfter, forgetMqtt, List.append_nil, Nat.add_zero] at hids ⊢
  rw [hids]

/-- A state is its present with its past put back. -/
theorem after_forget (s : Endpoint) : after (session s) (session (forget s)) = session s := by
  simp only [after, appAfter, session, forget, forgetApp, List.append_nil, mqttAfter_forget]

/-! ### The application -/

variable (past : App)

theorem after_called (a : App) (c : Call) :
    (appAfter past a).called c = appAfter past (a.called c) := by
  simp only [App.called, appAfter, List.append_assoc]

theorem mqttAfter_publish (past m : Mqtt) (payload : String) :
    (mqttPublishEvent payload (mqttAfter past m)).2 =
      mqttAfter past (mqttPublishEvent payload m).2 := by
  have hanswer : (mqttAfter past m).msgIds (past.publishCalls + m.publishCalls) =
      m.msgIds m.publishCalls := by
    simp [mqttAfter]
  cases hguard : !m.sConnected || !m.sMqttClient || m.sTopicEvents.isNone with
  | true =>
    have hafter : (!(mqttAfter past m).sConnected || !(mqttAfter past m).sMqttClient ||
        (mqttAfter past m).sTopicEvents.isNone) = true := hguard
    simp only [mqttPublishEvent, hguard, hafter, if_true]
    simp only [mqttAfter, List.append_assoc]
  | false =>
    have hafter : (!(mqttAfter past m).sConnected || !(mqttAfter past m).sMqttClient ||
        (mqttAfter past m).sTopicEvents.isNone) = false := hguard
    have hcalls : (mqttAfter past m).publishCalls = past.publishCalls + m.publishCalls := rfl
    simp only [mqttPublishEvent, hguard, hafter, hcalls, hanswer, Bool.false_eq_true, if_false]
    simp only [mqttAfter, List.append_assoc, Nat.add_assoc]

theorem after_publish (a : App) (payload : String) :
    (appAfter past a).publish payload = appAfter past (a.publish payload) := by
  simp only [App.publish, appAfter, mqttAfter_publish]

/-- The callbacks look only at the link flag, which is no history. -/
theorem after_respected : Respects fun a b => a = appAfter past b where
  connected := by rintro _ _ rfl; rfl
  called := by
    rintro _ b c rfl
    exact after_called past b c
  publish := by
    rintro _ b payload rfl
    exact after_publish past b payload
  link := by rintro _ _ _ rfl; rfl

theorem after_fn (l : Listener) (msg : TfMsg) (a : App) :
    ((callbacks protoCfg).fn l msg (appAfter past a)).2 =
      appAfter past ((callbacks protoCfg).fn l msg a).2 :=
  (after_respected past).kept.fn l msg rfl

theorem after_expire_all (a : App) (qs : List PendingQuery) :
    qs.foldl (expire (callbacks protoCfg)) (appAfter past a) =
      appAfter past (qs.foldl (expire (callbacks protoCfg)) a) :=
  (after_respected past).kept.expire_all qs rfl

theorem after_handler (past m : Mqtt) (event : MqttEvent) :
    mqttEventHandler event (mqttAfter past m) =
      (mqttAfter past (mqttEventHandler event m).1, (mqttEventHandler event m).2) := by
  cases event with
  | connected =>
    simp only [mqttEventHandler, mqttAfter, List.append_assoc]
  | disconnected | subscribed | error | other => rfl
  | data topic topicLen data dataLen offset total => rfl

/-! ### The session -/

section
variable (past : Session)

@[simp] theorem after_receiver (s : Session) : (after past s).parser = s.parser := rfl

@[simp] theorem after_table (s : Session) : (after past s).table = s.table := rfl

@[simp] theorem after_app (s : Session) : (after past s).app = appAfter past.app s.app := rfl

theorem after_ask (q : UInt8 → PendingQuery) (msgType : UInt8) (data : List UInt8) (s : Session) :
    ask q msgType data (after past s) =
      ((ask q msgType data s).1, after past (ask q msgType data s).2) := by
  cases hi : Slots.insert (q s.ownId) queryTicks s.table with
  | none =>
    rw [ask_none hi, ask_none (s := after past s) hi]
    simp only [after, List.append_assoc]
  | some t =>
    rw [ask_some hi, ask_some (s := after past s) hi]
    simp only [after, sent, ownId, List.append_assoc]

theorem after_command (cmd : CmdRequest) (s : Session) :
    (command cmd (after past s)).2 = after past (command cmd s).2 := by
  simp only [command, after_ask]
  simp only [after, List.append_assoc]

theorem after_estop (s : Session) : (after past s).estop = after past s.estop := by
  simp only [estop, sent, after, ownId, List.append_assoc]

theorem after_heartbeat (s : Session) : (after past s).heartbeat = after past s.heartbeat :=
  congrArg Prod.snd (after_ask past heartbeatQuery msgTypeHeartbeat
    (heartbeatText s.heartbeatCounter) { s with heartbeatCounter := s.heartbeatCounter + 1 })

theorem after_deliver (msg : TfMsg) (s : Session) :
    (after past s).deliver msg = after past (s.deliver msg) := by
  have hfn : ∀ l, ((callbacks protoCfg).fn l msg (after past s).app).2 =
      appAfter past.app ((callbacks protoCfg).fn l msg s.app).2 :=
    fun l => after_fn past.app l msg s.app
  have hevent : (eventListener protoCfg msg (after past s).app).2 =
      appAfter past.app (eventListener protoCfg msg s.app).2 := hfn .eventListener
  simp only [deliver, answer, hfn, hevent, after_table]
  cases Slots.remove (awaits msg) s.table with
  | some e => rfl
  | none =>
    dsimp only
    split <;> rfl

theorem after_acceptByte (c : UInt8) (s : Session) :
    (after past s).acceptByte c = after past (s.acceptByte c) := by
  simp only [acceptByte, after_receiver]
  cases (parseChar s.parser c).2 with
  | none => rfl
  | some msg => exact after_deliver past msg { s with parser := (parseChar s.parser c).1 }

theorem after_tick (s : Session) : (after past s).tick = after past s.tick := by
  simp only [tick, after_receiver, after_table, after_app, after_expire_all]
  rfl

theorem after_mqttCommand (cmd : Option MqttCommand) (s : Session) :
    onMqttCommand cmd (after past s) = after past (s.onMqttCommand cmd) := by
  cases cmd with
  | none => rfl
  | some cmd =>
    cases cmd with
    | status => exact after_command past getStatusCmd s
    | reset => exact after_command past resetCmd s
    | estop => exact after_estop past s
    | floor n => exact after_command past (moveToFloorCmd n) s

theorem after_mqttEvent (event : MqttEvent) (s : Session) :
    Session.onMqttEvent event (after past s) = after past (Session.onMqttEvent event s) := by
  have hhandler := after_handler past.app.mqtt s.app.mqtt event
  simp only [Session.onMqttEvent, after_app, appAfter, hhandler]
  cases (mqttEventHandler event s.app.mqtt).2 with
  | none => rfl
  | some call =>
    exact after_mqttCommand past _
      { s with app := { s.app with mqtt := (mqttEventHandler event s.app.mqtt).1 } }

theorem after_step (s : Session) (act : Act) : (after past s).step act = after past (s.step act) := by
  cases act with
  | mqttInit client =>
    have hsame : (after past s).app.mqtt.sTopicCmd = s.app.mqtt.sTopicCmd := rfl
    simp only [Session.step]
    by_cases htopic : s.app.mqtt.sTopicCmd = none
    · rw [if_pos htopic, if_pos (hsame.trans htopic)]
      rfl
    · rw [if_neg htopic, if_neg fun h => htopic (hsame.symm.trans h)]
  | mqttEvent event =>
    have hsame : (after past s).app.mqtt.sMqttClient = s.app.mqtt.sMqttClient := rfl
    simp only [Session.step]
    by_cases hclient : s.app.mqtt.sMqttClient = true
    · rw [if_pos hclient, if_pos (hsame.trans hclient)]
      exact after_mqttEvent past event s
    · rw [if_neg hclient, if_neg fun h => hclient (hsame.symm.trans h)]
  | sendCmd cmd => exact after_command past cmd s
  | sendEstop => exact after_estop past s
  | heartbeat => exact after_heartbeat past s
  | uartRead rx => exact List.foldl_hom (after past) fun s c => after_acceptByte past c s
  | tick => exact after_tick past s

/-- A run does on top of a past what it does without one. -/
theorem after_run (s : Session) (acts : List Act) :
    (after past s).run acts = after past (s.run acts) :=
  List.foldl_hom (after past) fun s act => after_step past s act

end

end UpAndDownESP.Proofs.History
