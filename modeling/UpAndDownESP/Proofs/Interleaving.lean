import UpAndDownESP.Proofs.Application
import UpAndDownESP.Proofs.Deadlock
import UpAndDownESP.Proofs.Refinement

namespace UpAndDownESP.Proofs.Interleaving
open Table Receiving Refinement Application Deadlock Session

/-! ### The MQTT client set aside -/

/-- The texts passed to `mqtt_publish_event`. -/
def texts (a : App) : List String := a.mqtt.attempts.map Prod.fst

/-- The applications differ at most in the MQTT client's statics, and once the texts in
`todo` have been passed to `mqtt_publish_event` these have been called with the same. -/
structure SameApp (todo : List String) (a b : App) : Prop where
  connected : a.max32655Connected = b.max32655Connected
  calls : a.calls = b.calls
  texts : texts a ++ todo = texts b

/-- The first session has counted so many heartbeats more, and agrees in all else but the
MQTT client. -/
structure Same (ahead : UInt32) (todo : List String) (s t : Session) : Prop where
  nextId : s.nextId = t.nextId
  heartbeatCounter : s.heartbeatCounter = t.heartbeatCounter + ahead
  parser : s.parser = t.parser
  table : s.table = t.table
  wire : s.wire = t.wire
  app : SameApp todo s.app t.app

theorem SameApp.refl (a : App) : SameApp [] a a := ⟨rfl, rfl, List.append_nil _⟩

theorem Same.refl (s : Session) : Same 0 [] s s :=
  ⟨rfl, (UInt32.add_zero _).symm, rfl, rfl, rfl, .refl _⟩

/-- What the callbacks do to the application does not depend on the client. -/
theorem sameApp_respected : Respects (SameApp []) where
  connected h := h.connected
  called c h := ⟨h.connected, congrArg (· ++ [c]) h.calls, h.texts⟩
  publish payload h := by
    refine ⟨h.connected, h.calls, ?_⟩
    rw [texts, texts, App.publish_texts, App.publish_texts, ← texts, ← texts, ← h.texts,
      List.append_nil, List.append_nil]
  link up h := ⟨rfl, h.calls, h.texts⟩

/-! ### Actions under the mutex

Sending does not look at the application, nor at how many heartbeats have been counted. -/

theorem Same.ask {s t : Session} (h : Same ahead todo s t) (q : UInt8 → PendingQuery)
    (msgType : UInt8) (data : List UInt8) :
    (ask q msgType data s).1 = (ask q msgType data t).1 ∧
      Same ahead todo (ask q msgType data s).2 (ask q msgType data t).2 := by
  have hid : s.ownId = t.ownId := by rw [ownId, ownId, h.nextId]
  cases hi : Slots.insert (q t.ownId) queryTicks t.table with
  | none =>
    rw [ask_none hi, ask_none (by rw [hid, h.table]; exact hi)]
    exact ⟨rfl, { h with
      nextId := congrArg (· + 1) h.nextId
      wire := congrArg (· ++ [.transport msgType data false]) h.wire }⟩
  | some slots =>
    rw [ask_some hi, ask_some (by rw [hid, h.table]; exact hi)]
    refine ⟨rfl, { h with nextId := congrArg (· + 1) h.nextId, table := rfl, wire := ?_ }⟩
    simp only [sent, hid, h.wire]

theorem Same.command {s t : Session} (h : Same ahead todo s t) (cmd : CmdRequest) :
    Same ahead todo (command cmd s).2 (command cmd t).2 := by
  obtain ⟨hok, hs⟩ := h.ask commandQuery msgTypeCmd cmd.bytes
  simp only [Session.command, hok]
  exact { hs with
    wire := congrArg (· ++ [.command cmd (Session.ask commandQuery msgTypeCmd cmd.bytes t).1]) hs.wire }

/-- The one heartbeat that was counted ahead is sent. -/
theorem Same.heartbeat {s t : Session} (h : Same 1 todo s t) :
    Same 0 todo
      (Session.ask heartbeatQuery msgTypeHeartbeat (heartbeatText t.heartbeatCounter) s).2
      t.heartbeat := by
  have hcounted : Same 0 todo s { t with heartbeatCounter := t.heartbeatCounter + 1 } :=
    { h with heartbeatCounter := h.heartbeatCounter.trans (UInt32.add_zero _).symm }
  exact (hcounted.ask heartbeatQuery msgTypeHeartbeat _).2

theorem Same.estop {s t : Session} (h : Same ahead todo s t) : Same ahead todo s.estop t.estop := by
  have hid : s.ownId = t.ownId := by rw [ownId, ownId, h.nextId]
  refine { h with nextId := congrArg (· + 1) h.nextId, wire := ?_ }
  simp only [Session.estop, sent, hid, h.wire]

theorem Same.mqttCommand {s t : Session} (h : Same ahead todo s t) (cmd : Option MqttCommand) :
    Same ahead todo (s.onMqttCommand cmd) (t.onMqttCommand cmd) := by
  cases cmd with
  | none => exact h
  | some cmd =>
    cases cmd with
    | status => exact h.command getStatusCmd
    | reset => exact h.command resetCmd
    | estop => exact h.estop
    | floor n => exact h.command (moveToFloorCmd n)

theorem Same.deliver {s t : Session} (h : Same ahead [] s t) (msg : TfMsg) :
    Same ahead [] (s.deliver msg) (t.deliver msg) := by
  simp only [Session.deliver, h.table]
  split
  · rename_i q slots _
    exact { h with table := rfl, app := sameApp_respected.kept.fn q.fn msg h.app }
  · split
    · exact { h with table := rfl, app := sameApp_respected.kept.fn .eventListener msg h.app }
    · exact h

theorem Same.acceptByte {s t : Session} (h : Same ahead [] s t) (c : UInt8) :
    Same ahead [] (s.acceptByte c) (t.acceptByte c) := by
  simp only [Session.acceptByte, h.parser]
  have hp : Same ahead [] { s with parser := (parseChar t.parser c).1 }
      { t with parser := (parseChar t.parser c).1 } := { h with parser := rfl }
  split
  · exact hp
  · exact hp.deliver _

theorem Same.read {s t : Session} (h : Same ahead [] s t) (rx : List UInt8) :
    Same ahead [] (rx.foldl Session.acceptByte s) (rx.foldl Session.acceptByte t) :=
  Runs.related Session.acceptByte (fun _ _ c hs => hs.acceptByte c) h rx

theorem Same.tick {s t : Session} (h : Same ahead [] s t) : Same ahead [] s.tick t.tick := by
  simp only [Session.tick, h.parser, h.table]
  exact { h with parser := rfl, table := rfl, app := sameApp_respected.kept.expire_all _ h.app }

/-! ### What a turn publishes -/

/-- The publications one after the other. -/
def publishAll (m : Mqtt) (payloads : List String) : Mqtt :=
  payloads.foldl (fun m payload => (mqttPublishEvent payload m).2) m

theorem publish_eq (payload : String) (m : Mqtt) :
    (mqttPublishEvent payload m).2 =
      if canPublish m then published payload m else notPublished payload m := by
  have hguard : (!m.sConnected || !m.sMqttClient || m.sTopicEvents.isNone) = !canPublish m := by
    simp [canPublish, Bool.not_and]
  simp only [mqttPublishEvent, hguard]
  cases canPublish m <;> rfl

theorem publishAll_attempts (payloads : List String) (m : Mqtt) :
    ∃ new, (publishAll m payloads).attempts = m.attempts ++ new ∧ new.map Prod.fst = payloads := by
  induction payloads generalizing m with
  | nil => exact ⟨[], by simp [publishAll], rfl⟩
  | cons payload payloads ih =>
    obtain ⟨ok, ha⟩ := App.publish_attempts ⟨false, m, []⟩ payload
    obtain ⟨new, hn, hm⟩ := ih (mqttPublishEvent payload m).2
    refine ⟨(payload, ok) :: new, ?_, by rw [List.map_cons, hm]⟩
    rw [show (mqttPublishEvent payload m).2.attempts = _ from ha, List.append_assoc] at hn
    exact hn

/-- Nothing but publications happened to the MQTT client. -/
def Publishes (a b : App) : Prop := ∃ payloads, b.mqtt = publishAll a.mqtt payloads

theorem Publishes.refl (a : App) : Publishes a a := ⟨[], rfl⟩

theorem Publishes.trans {a b c : App} (h : Publishes a b) (h' : Publishes b c) :
    Publishes a c := by
  obtain ⟨ps, hp⟩ := h
  obtain ⟨qs, hq⟩ := h'
  refine ⟨ps ++ qs, ?_⟩
  rw [hq, hp, publishAll, publishAll, publishAll, List.foldl_append]

theorem publishes_kept (start : App) : Kept fun a _ => Publishes start a where
  response resp h := by
    refine h.trans ?_
    unfold onCmdResponse
    split
    · exact ⟨[_], rfl⟩
    · split <;> exact ⟨[_], rfl⟩
  timeout h := h.trans ⟨["cmd_timeout"], rfl⟩
  event evt h := h.trans ⟨[stateEventText evt], rfl⟩
  heartbeat data len h := by
    refine h.trans ?_
    simp only [onHeartbeat]
    split
    · exact ⟨["max32655_connected"], rfl⟩
    · exact ⟨[], rfl⟩
  heartbeatTimeout h := by
    refine h.trans ?_
    simp only [onHeartbeatTimeout]
    split
    · exact ⟨["max32655_disconnected"], rfl⟩
    · exact ⟨[], rfl⟩

theorem fn_publishes (l : Listener) (msg : TfMsg) (a : App) :
    Publishes a ((callbacks protoCfg).fn l msg a).2 :=
  (publishes_kept a).fn l msg (b := a) (.refl a)

theorem expire_all_publishes (qs : List PendingQuery) (a : App) :
    Publishes a (qs.foldl (Table.expire (callbacks protoCfg)) a) :=
  (publishes_kept a).expire_all qs (b := a) (.refl a)

theorem deliver_publishes (s : Session) (msg : TfMsg) : Publishes s.app (s.deliver msg).app := by
  unfold Session.deliver
  split
  · exact fn_publishes _ msg s.app
  · split
    · exact fn_publishes .eventListener msg s.app
    · exact .refl s.app

theorem accept_publishes (s : Session) (c : UInt8) : Publishes s.app (s.acceptByte c).app := by
  simp only [Session.acceptByte]
  split
  · exact .refl s.app
  · exact deliver_publishes { s with parser := (parseChar s.parser c).1 } _

theorem read_publishes (rx : List UInt8) (s : Session) :
    Publishes s.app (rx.foldl Session.acceptByte s).app :=
  Runs.progress (R := fun s t : Session => Publishes s.app t.app) Session.acceptByte
    (fun s => .refl s.app) (fun _ _ _ h h' => h.trans h') accept_publishes s rx

/-- A turn of `tf_task` does to the MQTT client what its publications do. -/
theorem turn_publishes {s : Endpoint} (h : Regular s) (rx : List UInt8) :
    (tfTask rx s).app.mqtt = publishAll s.app.mqtt (publications s (tfTask rx s)) := by
  have hturn : (tfTask rx s).app = ((rx.foldl Session.acceptByte (session s)).tick).app := by
    rw [tf_task_run]
    exact congrArg (·.app) (run_refines h [.uartRead rx, .tick]).1
  obtain ⟨ps, hp⟩ : Publishes s.app (tfTask rx s).app := by
    rw [hturn]
    exact (read_publishes rx (session s)).trans (expire_all_publishes _ _)
  obtain ⟨new, hn, hm⟩ := publishAll_attempts ps s.app.mqtt
  have hpubs : publications s (tfTask rx s) = ps := by
    rw [publications, hp, hn, List.drop_left, hm]
  rw [hpubs, hp]

theorem turn_texts {s : Endpoint} (h : Regular s) (rx : List UInt8) :
    texts s.app ++ publications s (tfTask rx s) = texts (tfTask rx s).app := by
  obtain ⟨new, hn, hm⟩ := publishAll_attempts (publications s (tfTask rx s)) s.app.mqtt
  rw [texts, texts, turn_publishes h, hn, List.map_append, hm]

/-! ### The tasks' steps -/

/-- The heartbeats counted and not yet sent. -/
def ahead : ProtocolControl → UInt32
  | .taking _ => 1
  | .sleeping | .inside => 0

/-- The texts that `tf_task` has still to publish. -/
def todoOf : TfControl → List String
  | .reading | .taking _ => []
  | .inside todo => todo
  | .publishing payload todo | .published payload todo => payload :: todo

/-- The tasks have brought the endpoint to where the session is, but for the heartbeat
counted, whose text is made, and the texts to be published. -/
structure Serves (s : Tasks) (t : Session) : Prop where
  regular : Regular s.esp
  same : Same (ahead s.protocol) (todoOf s.tf) (session s.esp) t
  text : ∀ msg, s.protocol = .taking msg → msg = heartbeatText (s.esp.heartbeatCounter - 1)

/-- The MQTT client's statics do not matter as long as the texts stay. -/
theorem Serves.mqtt {s s' : Tasks} {t : Session} (h : Serves s t) {m : Mqtt}
    (hesp : s'.esp = { s.esp with app.mqtt := m })
    (htexts : m.attempts.map Prod.fst ++ todoOf s'.tf = texts s.esp.app ++ todoOf s.tf)
    (hprotocol : s'.protocol = s.protocol) : Serves s' t := by
  obtain ⟨hr, hs, htext⟩ := h
  refine ⟨?_, ?_, ?_⟩
  · rw [hesp]
    exact { hr with legal := hr.legal.of_table rfl }
  · rw [hesp, hprotocol]
    exact { hs with app := ⟨hs.app.connected, hs.app.calls, htexts.trans hs.app.texts⟩ }
  · rw [hesp, hprotocol]
    exact htext

/-- The endpoint stays. -/
theorem Serves.stay {s s' : Tasks} {t : Session} (h : Serves s t) (hesp : s'.esp = s.esp)
    (htodo : todoOf s'.tf = todoOf s.tf) (hprotocol : s'.protocol = s.protocol) : Serves s' t :=
  h.mqtt (m := s.esp.app.mqtt) hesp (by rw [htodo]; rfl) hprotocol

theorem tfTask_counter (rx : List UInt8) (s : Endpoint) :
    (tfTask rx s).heartbeatCounter = s.heartbeatCounter := by
  simp only [tfTask]
  split <;> rfl

theorem command_counter (payload : List UInt8) (len : Nat) (s : Endpoint) :
    (maxCommOnMqttCommand payload len s).heartbeatCounter = s.heartbeatCounter := by
  unfold maxCommOnMqttCommand
  split <;> rfl

/-- The turn is done but for its publications. -/
theorem Serves.turn {s s' : Tasks} {t : Session} (h : Serves s t) (hnone : todoOf s.tf = [])
    (rx : List UInt8) (hesp : s'.esp = { tfTask rx s.esp with app.mqtt := s.esp.app.mqtt })
    (htodo : todoOf s'.tf = publications s.esp (tfTask rx s.esp))
    (hprotocol : s'.protocol = s.protocol) : Serves s' (t.run [.uartRead rx, .tick]) := by
  obtain ⟨hr, hs, htext⟩ := h
  obtain ⟨hturn, hregular⟩ := run_refines hr [.uartRead rx, .tick]
  rw [← tf_task_run] at hturn hregular
  rw [hnone] at hs
  have hsame := (hs.read rx).tick
  change Same _ [] ((session s.esp).run [.uartRead rx, .tick]) (t.run [.uartRead rx, .tick]) at hsame
  rw [← hturn] at hsame
  have htexts := (turn_texts hr rx).trans ((List.append_nil _).symm.trans hsame.app.texts)
  refine ⟨?_, ?_, ?_⟩
  · rw [hesp]
    exact { hregular with legal := hregular.legal.of_table rfl }
  · rw [hesp, hprotocol, htodo]
    exact { hsame with app := ⟨hsame.app.connected, hsame.app.calls, htexts⟩ }
  · rw [hesp, hprotocol]
    intro msg hm
    rw [htext msg hm, ← tfTask_counter rx s.esp]

theorem runTf_serves {s : Tasks} {t : Session} (h : Serves s t) :
    ∃ acts, Serves s.runTf (t.run acts) := by
  obtain ⟨esp, tfMutex, clientLock, tf, mqtt, protocol⟩ := s
  cases tf with
  | reading => exact ⟨[], h⟩
  | taking rx =>
    simp only [Tasks.runTf]
    cases tfMutex.take .tfTask with
    | none => exact ⟨[], h⟩
    | some m => exact ⟨[.uartRead rx, .tick], h.turn rfl rx rfl rfl rfl⟩
  | inside todo =>
    cases todo with
    | nil => exact ⟨[], h.stay rfl rfl rfl⟩
    | cons payload todo =>
      simp only [Tasks.runTf]
      split
      · exact ⟨[], h.stay rfl rfl rfl⟩
      · refine ⟨[], h.mqtt rfl ?_ rfl⟩
        simp [notPublished, texts, todoOf]
  | publishing payload todo =>
    simp only [Tasks.runTf]
    cases clientLock.take .tfTask with
    | none => exact ⟨[], h⟩
    | some m => exact ⟨[], h.stay rfl rfl rfl⟩
  | published payload todo =>
    refine ⟨[], h.mqtt rfl ?_ rfl⟩
    simp [Tasks.runTf, published, texts, todoOf]

theorem handler_texts (event : MqttEvent) (m : Mqtt) :
    (mqttEventHandler event m).1.attempts = m.attempts := by
  cases event <;> rfl

theorem command_acts (t : Session) (cmd : Option MqttCommand) :
    ∃ acts, t.onMqttCommand cmd = t.run acts := by
  cases cmd with
  | none => exact ⟨[], rfl⟩
  | some cmd =>
    cases cmd with
    | status => exact ⟨[.sendCmd getStatusCmd], rfl⟩
    | reset => exact ⟨[.sendCmd resetCmd], rfl⟩
    | estop => exact ⟨[.sendEstop], rfl⟩
    | floor n => exact ⟨[.sendCmd (moveToFloorCmd n)], rfl⟩

/-- The command that the event holds is one more action. -/
theorem Serves.command {s s' : Tasks} {t : Session} (h : Serves s t) (payload : List UInt8)
    (len : Nat) (hesp : s'.esp = maxCommOnMqttCommand payload len s.esp) (htf : s'.tf = s.tf)
    (hprotocol : s'.protocol = s.protocol) : ∃ acts, Serves s' (t.run acts) := by
  obtain ⟨hr, hs, htext⟩ := h
  obtain ⟨hcommand, hregular⟩ := mqttCommand_refines hr payload len
  have hsame := hs.mqttCommand (parseMqttCommand payload len)
  rw [← hcommand] at hsame
  obtain ⟨acts, hacts⟩ := command_acts t (parseMqttCommand payload len)
  rw [hacts] at hsame
  refine ⟨acts, ?_, ?_, ?_⟩
  · rw [hesp]
    exact hregular
  · rw [hesp, htf, hprotocol]
    exact hsame
  · rw [hesp, hprotocol, command_counter]
    exact htext

theorem runMqtt_serves {s : Tasks} {t : Session} (h : Serves s t) :
    ∃ acts, Serves s.runMqtt (t.run acts) := by
  obtain ⟨esp, tfMutex, clientLock, tf, mqtt, protocol⟩ := s
  cases mqtt with
  | waiting => exact ⟨[], h⟩
  | dispatching event =>
    simp only [Tasks.runMqtt]
    cases clientLock.take .mqttTask with
    | none => exact ⟨[], h⟩
    | some m => exact ⟨[], h.stay rfl rfl rfl⟩
  | handling event =>
    have htexts : ((mqttEventHandler event esp.app.mqtt).1.attempts.map Prod.fst) ++ todoOf tf =
        texts esp.app ++ todoOf tf := by
      rw [handler_texts]
      rfl
    simp only [Tasks.runMqtt]
    split <;> exact ⟨[], h.mqtt rfl htexts rfl⟩
  | subscribing =>
    simp only [Tasks.runMqtt]
    cases clientLock.take .mqttTask with
    | none => exact ⟨[], h⟩
    | some m => exact ⟨[], h.stay rfl rfl rfl⟩
  | subscribed => exact ⟨[], h.stay rfl rfl rfl⟩
  | sending payload len =>
    simp only [Tasks.runMqtt]
    cases tfMutex.take .mqttTask with
    | none => exact ⟨[], h⟩
    | some m => exact h.command payload len rfl rfl rfl
  | sent => exact ⟨[], h.stay rfl rfl rfl⟩
  | leaving => exact ⟨[], h.stay rfl rfl rfl⟩

theorem runProtocol_serves {s : Tasks} {t : Session} (h : Serves s t) :
    ∃ acts, Serves s.runProtocol (t.run acts) := by
  obtain ⟨esp, tfMutex, clientLock, tf, mqtt, protocol⟩ := s
  cases protocol with
  | sleeping => exact ⟨[], h⟩
  | taking msg =>
    simp only [Tasks.runProtocol]
    cases tfMutex.take .protocolTask with
    | none => exact ⟨[], h⟩
    | some m =>
      obtain ⟨hr, hs, htext⟩ := h
      have hcounter : esp.heartbeatCounter - 1 = t.heartbeatCounter := by
        rw [show esp.heartbeatCounter = t.heartbeatCounter + 1 from hs.heartbeatCounter,
          UInt32.add_sub_cancel]
      obtain rfl : msg = heartbeatText t.heartbeatCounter := by
        rw [htext msg rfl, hcounter]
      obtain ⟨hquery, hregular⟩ := queryHeartbeat_refines hr t.heartbeatCounter
      refine ⟨[.heartbeat], hregular, ?_, by simp⟩
      rw [hquery]
      exact hs.heartbeat
  | inside => exact ⟨[], h.regular, h.same, by simp [Tasks.runProtocol]⟩

/-- What the tasks do next, they do one whole action after the other. -/
theorem step_serves {s : Tasks} {t : Session} (h : Serves s t) (a : Sched) :
    ∃ acts, Serves (s.step a) (t.run acts) := by
  obtain ⟨esp, tfMutex, clientLock, tf, mqtt, protocol⟩ := s
  cases a with
  | mqttInit client =>
    simp only [Tasks.step, UpAndDownESP.step]
    split
    · exact ⟨[], h.mqtt rfl rfl rfl⟩
    · exact ⟨[], h⟩
  | uartRead rx =>
    cases tf with
    | reading => exact ⟨[], h.stay rfl rfl rfl⟩
    | taking _ | inside _ | publishing _ _ | published _ _ => exact ⟨[], h⟩
  | mqttEvent event =>
    simp only [Tasks.step]
    split
    · split
      · exact ⟨[], h.stay rfl rfl rfl⟩
      · exact ⟨[], h⟩
    · exact ⟨[], h⟩
  | heartbeatDue =>
    cases protocol with
    | sleeping =>
      obtain ⟨hr, hs, -⟩ := h
      have hcounter : esp.heartbeatCounter + 1 = t.heartbeatCounter + 1 :=
        congrArg (· + 1) (hs.heartbeatCounter.trans (UInt32.add_zero _))
      refine ⟨[], { hr with legal := hr.legal.of_table rfl }, ?_, ?_⟩
      · exact { hs with heartbeatCounter := hcounter }
      · rintro msg hm
        cases hm
        exact congrArg heartbeatText (UInt32.add_sub_cancel _ _).symm
    | taking _ | inside => exact ⟨[], h⟩
  | run task =>
    cases task with
    | tfTask => exact runTf_serves h
    | mqttTask => exact runMqtt_serves h
    | protocolTask => exact runProtocol_serves h

theorem run_serves (as : List Sched) {s : Tasks} {t : Session} (h : Serves s t) :
    ∃ acts, Serves (Runs.run Tasks.step s as) (t.run acts) := by
  induction as generalizing s t with
  | nil => exact ⟨[], h⟩
  | cons a as ih =>
    obtain ⟨before, hstep⟩ := step_serves h a
    obtain ⟨acts, hrun⟩ := ih hstep
    refine ⟨before ++ acts, ?_⟩
    rw [Session.run, Runs.run_append]
    exact hrun

/-- Only a task that has `tf_mutex` has anything left to publish. -/
theorem settled {s : Tasks} (h : Consistent s) (hfree : s.tfMutex = none) : todoOf s.tf = [] := by
  have hdepth : tfDepth s .tfTask = 0 := by
    have htf := h.tf
    rw [hfree] at htf
    exact htf .tfTask
  simp only [tfDepth] at hdepth
  split at hdepth
  · rename_i hreading
    rw [hreading]
    rfl
  · rename_i rx htaking
    rw [htaking]
    rfl
  · cases hdepth

/-- However the tasks are interleaved, whenever nobody has `tf_mutex` the endpoint is, the
MQTT client's other statics aside, in a state that whole actions one after the other lead
to, but for a heartbeat that is counted and waits to be sent. -/
theorem interleaving_serial (msgIds : Nat → Int) (as : List Sched)
    (hfree : (Runs.run Tasks.step (Tasks.start msgIds) as).tfMutex = none) :
    let s := Runs.run Tasks.step (Tasks.start msgIds) as
    ∃ t, Reachable t ∧ Same (ahead s.protocol) [] (session s.esp) (session t) := by
  intro s
  have hboot := boot_regular msgIds
  have hconsistent : Consistent s :=
    Runs.invariant Tasks.step (I := Consistent) (fun _ a hs => step_consistent hs a)
      (start_consistent msgIds) as
  have hstart : Serves (Tasks.start msgIds) (session (boot msgIds)) :=
    ⟨hboot, .refl _, by simp [Tasks.start]⟩
  obtain ⟨acts, hserves⟩ := run_serves as hstart
  refine ⟨UpAndDownESP.run (boot msgIds) acts, ⟨msgIds, acts, rfl⟩, ?_⟩
  rw [(run_refines hboot acts).1, ← settled hconsistent hfree]
  exact hserves.same

/-- An e-stop comes in while a heartbeat waits for `tf_mutex`, and overtakes it. -/
def estopOvertakes : List Sched :=
  [.mqttInit true, .heartbeatDue, .mqttEvent (.data mqttTopicCmd 18 (ascii "estop") 5 0 5),
    .run .mqttTask, .run .mqttTask, .run .mqttTask, .run .protocolTask, .run .mqttTask]

theorem overtaken_heartbeat_serial :
    let s := Runs.run Tasks.step (Tasks.start fun _ => 0) estopOvertakes
    ∃ t, Reachable t ∧ Same (ahead s.protocol) [] (session s.esp) (session t) :=
  interleaving_serial (fun _ => 0) estopOvertakes (by decide +kernel)

/-! ### A turn that nobody interrupts -/

/-- Under `tf_mutex`, with the client lock free, the publications go through. -/
theorem publish_turn (todo : List String) {s : Tasks} (ht : s.tf = .inside todo)
    (hm : s.tfMutex = some (.tfTask, 0)) (hc : s.clientLock = none) :
    ∃ n, Runs.run Tasks.step s (List.replicate n (.run .tfTask)) =
      { s with
        esp := { s.esp with app.mqtt := publishAll s.esp.app.mqtt todo }
        tfMutex := none
        tf := .reading } := by
  induction todo generalizing s with
  | nil =>
    refine ⟨1, ?_⟩
    simp only [List.replicate, Runs.run_cons, Runs.run_nil, Tasks.step, Tasks.runTf, ht, hm]
    rfl
  | cons payload todo ih =>
    cases hp : canPublish s.esp.app.mqtt with
    | true =>
      have hthree : Runs.run Tasks.step s (List.replicate 3 (.run .tfTask)) = { s with
          esp := { s.esp with app.mqtt := published payload s.esp.app.mqtt }
          tf := .inside todo } := by
        simp only [List.replicate, Runs.run_cons, Runs.run_nil, Tasks.step, Tasks.runTf, ht, hp,
          if_true, hc, RecMutex.take, RecMutex.give]
      obtain ⟨n, hn⟩ := ih (s := { s with
        esp := { s.esp with app.mqtt := published payload s.esp.app.mqtt }, tf := .inside todo })
        rfl hm hc
      refine ⟨3 + n, ?_⟩
      rw [List.replicate_add, Runs.run_append, hthree, hn, publishAll, publishAll, List.foldl_cons,
        publish_eq, if_pos hp]
    | false =>
      obtain ⟨n, hn⟩ := ih (s := { s with
        esp := { s.esp with app.mqtt := notPublished payload s.esp.app.mqtt }, tf := .inside todo })
        rfl hm hc
      refine ⟨n + 1, ?_⟩
      rw [List.replicate_succ, Runs.run_cons]
      simp only [Tasks.step, Tasks.runTf, ht, hp, Bool.false_eq_true, if_false]
      rw [hn, publishAll, publishAll, List.foldl_cons, publish_eq, if_neg (by rw [hp]; decide)]

/-- A turn of `tf_task` with both locks free is the turn of the endpoint. -/
theorem tf_turn {s : Tasks} (h : Regular s.esp) (ht : s.tf = .reading) (hm : s.tfMutex = none)
    (hc : s.clientLock = none) (rx : List UInt8) :
    ∃ n, Runs.run Tasks.step s (.uartRead rx :: List.replicate n (.run .tfTask)) =
      { s with esp := tfTask (rx.take rxBufLen) s.esp } := by
  let esp := tfTask (rx.take rxBufLen) s.esp
  let s1 : Tasks := { s with
    esp := { esp with app.mqtt := s.esp.app.mqtt }
    tfMutex := some (.tfTask, 0)
    tf := .inside (publications s.esp esp) }
  obtain ⟨n, hn⟩ := publish_turn (publications s.esp esp) (s := s1) rfl rfl hc
  refine ⟨n + 1, ?_⟩
  have htwo : (s.step (.uartRead rx)).step (.run .tfTask) = s1 := by
    simp only [Tasks.step, Tasks.runTf, ht, hm, RecMutex.take]
    rfl
  rw [List.replicate_succ, Runs.run_cons, Runs.run_cons, htwo, hn]
  simp only [s1]
  rw [← turn_publishes h, ← ht, ← hm]

end UpAndDownESP.Proofs.Interleaving
