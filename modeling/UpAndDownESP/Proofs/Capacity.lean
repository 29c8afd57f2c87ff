import UpAndDownESP.Lib.Mealy
import UpAndDownESP.Proofs.Refinement

namespace UpAndDownESP.Proofs.Capacity
open Table Sending Refinement Session

/-! ### What a step does to the table -/

theorem ask_ok {s : Session} {q : UInt8 → PendingQuery} (msgType : UInt8) (data : List UInt8) :
    (ask q msgType data s).1 = true ↔ (Slots.live s.table).length < s.table.length := by
  rw [← Slots.insert_isSome (q s.ownId) queryTicks]
  cases hi : Slots.insert (q s.ownId) queryTicks s.table with
  | none => simp [ask_none hi]
  | some t => simp [ask_some hi]

/-- An accepted query is pending with all its ticks, among those that were before. -/
theorem ask_pending {s : Session} {q : UInt8 → PendingQuery} {msgType : UInt8}
    {data : List UInt8} (h : (ask q msgType data s).1 = true) :
    ∃ before after, Slots.live s.table = before ++ after ∧
      Slots.live (ask q msgType data s).2.table =
        before ++ (q s.ownId, queryTicks) :: after := by
  cases hi : Slots.insert (q s.ownId) queryTicks s.table with
  | none =>
    rw [ask_none hi] at h
    cases h
  | some t =>
    rw [ask_some hi]
    exact Slots.insert_live hi

/-- Either the table stays as it is or one more send has been accepted. -/
theorem ask_table {s : Session} {q : UInt8 → PendingQuery} (msgType : UInt8)
    (data : List UInt8) :
    ((ask q msgType data s).2.table = s.table ∧
      acceptedOf (ask q msgType data s).2.wire = acceptedOf s.wire) ∨
    acceptedOf (ask q msgType data s).2.wire = acceptedOf s.wire ++ [(msgType, data)] := by
  cases hi : Slots.insert (q s.ownId) queryTicks s.table with
  | none =>
    rw [ask_none hi]
    exact Or.inl ⟨rfl, by simp [acceptedOf]⟩
  | some t =>
    rw [ask_some hi]
    exact Or.inr (by simp [sent, acceptedOf])

theorem deliver_mem {s : Session} {msg : TfMsg} {e : PendingQuery × Nat}
    (h : e ∈ Slots.live (s.deliver msg).table) : e ∈ Slots.live s.table := by
  simp only [deliver] at h
  split at h
  · rename_i hr
    exact Slots.mem_of_remove hr h
  · split at h <;> exact h

/-- What receiving leaves alone. -/
structure SameOutput (s s' : Session) : Prop where
  nextId : s'.nextId = s.nextId
  counter : s'.heartbeatCounter = s.heartbeatCounter
  wire : s'.wire = s.wire

theorem SameOutput.trans (h : SameOutput s t) (h' : SameOutput t u) : SameOutput s u :=
  ⟨h'.nextId.trans h.nextId, h'.counter.trans h.counter, h'.wire.trans h.wire⟩

theorem deliver_output (s : Session) (msg : TfMsg) : SameOutput s (s.deliver msg) := by
  unfold deliver
  split
  · exact ⟨rfl, rfl, rfl⟩
  · split <;> exact ⟨rfl, rfl, rfl⟩

theorem accept_mem {s : Session} {c : UInt8} {e : PendingQuery × Nat}
    (h : e ∈ Slots.live (s.acceptByte c).table) : e ∈ Slots.live s.table := by
  simp only [acceptByte] at h
  split at h
  · exact h
  · exact deliver_mem (s := { s with parser := (parseChar s.parser c).1 }) h

theorem accept_output (s : Session) (c : UInt8) : SameOutput s (s.acceptByte c) := by
  simp only [acceptByte]
  split
  · exact ⟨rfl, rfl, rfl⟩
  · obtain ⟨hn, hc, hw⟩ := deliver_output { s with parser := (parseChar s.parser c).1 } _
    exact ⟨hn, hc, hw⟩

theorem read_mem (rx : List UInt8) {s : Session} {e : PendingQuery × Nat}
    (h : e ∈ Slots.live (rx.foldl acceptByte s).table) : e ∈ Slots.live s.table :=
  Runs.progress (R := fun s t : Session => e ∈ Slots.live t.table → e ∈ Slots.live s.table)
    acceptByte (fun _ => id) (fun _ _ _ hs ht => hs ∘ ht) (fun _ _ => accept_mem) s rx h

theorem read_output (rx : List UInt8) (s : Session) : SameOutput s (rx.foldl acceptByte s) :=
  Runs.progress acceptByte (fun _ => ⟨rfl, rfl, rfl⟩) (fun _ _ _ h h' => h.trans h') accept_output
    s rx

theorem deliver_moved (msg : TfMsg) (s : Session) (p : Parser) :
    deliver msg { s with parser := p } = { s.deliver msg with parser := p } := by
  simp only [deliver]
  split
  · rfl
  · split <;> rfl

theorem parser_deliver (msgs : List TfMsg) (s : Session) (p : Parser) :
    msgs.foldl (fun s msg => s.deliver msg) { s with parser := p } =
      { msgs.foldl (fun s msg => s.deliver msg) s with parser := p } := by
  induction msgs generalizing s with
  | nil => rfl
  | cons msg msgs ih =>
    rw [List.foldl_cons, List.foldl_cons, deliver_moved, ih]

/-- A read moves the parser on and delivers, in order, the messages this hands up. -/
theorem read_deliver (rx : List UInt8) (s : Session) :
    rx.foldl acceptByte s =
      { (Mealy.run parseChar s.parser rx).2.foldl (fun s msg => s.deliver msg) s with
        parser := (Mealy.run parseChar s.parser rx).1 } := by
  induction rx generalizing s with
  | nil => rfl
  | cons c rx ih =>
    have hb : s.acceptByte c =
        { (parseChar s.parser c).2.toList.foldl (fun s msg => s.deliver msg) s with
          parser := (parseChar s.parser c).1 } := by
      rw [← parser_deliver]
      simp only [acceptByte]
      split <;> rename_i hm <;> rw [hm] <;> rfl
    rw [List.foldl_cons, ih, hb, parser_deliver, Mealy.run, List.foldl_append]

/-- What sending leaves alone. -/
structure SameInput (s s' : Session) : Prop where
  parser : s'.parser = s.parser
  app : s'.app = s.app

theorem ask_input (q : UInt8 → PendingQuery) (msgType : UInt8) (data : List UInt8) (s : Session) :
    SameInput s (ask q msgType data s).2 := by
  unfold ask
  split <;> exact ⟨rfl, rfl⟩

theorem command_input (cmd : CmdRequest) (s : Session) : SameInput s (command cmd s).2 :=
  ⟨(ask_input commandQuery msgTypeCmd cmd.bytes s).parser,
    (ask_input commandQuery msgTypeCmd cmd.bytes s).app⟩

theorem heartbeat_input (s : Session) : SameInput s s.heartbeat :=
  let h := ask_input heartbeatQuery msgTypeHeartbeat (heartbeatText s.heartbeatCounter)
    { s with heartbeatCounter := s.heartbeatCounter + 1 }
  ⟨h.parser, h.app⟩

/-- An MQTT event changes statics of the MQTT client, or else it is a command. -/
theorem mqttEvent_cases (s : Session) (event : MqttEvent) :
    (∃ m, s.onMqttEvent event = { s with app := { s.app with mqtt := m } } ∧
      m.attempts = s.app.mqtt.attempts) ∨
    (∃ cmd, s.onMqttEvent event = (command cmd s).2) ∨ s.onMqttEvent event = s.estop := by
  cases event with
  | connected => exact Or.inl ⟨_, rfl, rfl⟩
  | disconnected => exact Or.inl ⟨_, rfl, rfl⟩
  | subscribed => exact Or.inl ⟨_, rfl, rfl⟩
  | error => exact Or.inl ⟨_, rfl, rfl⟩
  | other => exact Or.inl ⟨_, rfl, rfl⟩
  | data topic topicLen data dataLen offset total =>
    simp only [Session.onMqttEvent, mqttEventHandler]
    by_cases ht : isCommandTopic s.app.mqtt topic topicLen = true
    · rw [if_pos ht]
      dsimp only
      cases parseMqttCommand data dataLen with
      | none => exact Or.inl ⟨_, rfl, rfl⟩
      | some cmd =>
        cases cmd with
        | status => exact Or.inr (Or.inl ⟨getStatusCmd, rfl⟩)
        | reset => exact Or.inr (Or.inl ⟨resetCmd, rfl⟩)
        | estop => exact Or.inr (Or.inr rfl)
        | floor n => exact Or.inr (Or.inl ⟨moveToFloorCmd n, rfl⟩)
    · rw [if_neg ht]
      exact Or.inl ⟨_, rfl, rfl⟩

theorem command_table (s : Session) (cmd : CmdRequest) :
    ((command cmd s).2.table = s.table ∧
      acceptedOf (command cmd s).2.wire = acceptedOf s.wire) ∨
    acceptedOf (command cmd s).2.wire = acceptedOf s.wire ++ [(msgTypeCmd, cmd.bytes)] := by
  simp only [command, acceptedOf_append]
  rcases ask_table (s := s) (q := commandQuery) msgTypeCmd cmd.bytes with ⟨ht, ha⟩ | ha
  · exact Or.inl ⟨ht, by rw [ha]; exact List.append_nil _⟩
  · exact Or.inr (by rw [ha]; exact List.append_nil _)

/-- Either a step sends something, or it takes a tick from every pending query if it
is a tick and otherwise at most removes some. -/
theorem step_quiet (s : Session) (act : Act) :
    (∃ send, acceptedOf (s.step act).wire = acceptedOf s.wire ++ [send]) ∨
    acceptedOf (s.step act).wire = acceptedOf s.wire ∧
      ∀ e ∈ Slots.live (s.step act).table, (e.1, e.2 + ticks [act]) ∈ Slots.live s.table := by
  have hcommand : ∀ cmd, (∃ send, acceptedOf (command cmd s).2.wire = acceptedOf s.wire ++ [send]) ∨
      acceptedOf (command cmd s).2.wire = acceptedOf s.wire ∧
        ∀ e ∈ Slots.live (command cmd s).2.table, e ∈ Slots.live s.table := by
    intro cmd
    rcases command_table s cmd with ⟨ht, ha⟩ | ha
    · exact Or.inr ⟨ha, by rw [ht]; exact fun e he => he⟩
    · exact Or.inl ⟨_, ha⟩
  have hestop : acceptedOf s.estop.wire = acceptedOf s.wire ++ [(msgTypeEstop, [1])] := by
    simp [estop, sent, acceptedOf]
  cases act with
  | mqttInit client =>
    simp only [Session.step]
    split
    · exact Or.inr ⟨rfl, fun e he => he⟩
    · exact Or.inr ⟨rfl, fun e he => he⟩
  | mqttEvent event =>
    simp only [Session.step]
    split
    · rcases mqttEvent_cases s event with ⟨m, he, _⟩ | ⟨cmd, he⟩ | he
      · rw [he]
        exact Or.inr ⟨rfl, fun e he => he⟩
      · rw [he]
        exact hcommand cmd
      · rw [he]
        exact Or.inl ⟨_, hestop⟩
    · exact Or.inr ⟨rfl, fun e he => he⟩
  | sendCmd cmd => exact hcommand cmd
  | sendEstop => exact Or.inl ⟨_, hestop⟩
  | heartbeat =>
    rcases ask_table (s := { s with heartbeatCounter := s.heartbeatCounter + 1 })
      (q := heartbeatQuery) msgTypeHeartbeat (heartbeatText s.heartbeatCounter) with ⟨ht, ha⟩ | ha
    · refine Or.inr ⟨ha, ?_⟩
      intro e he
      rw [← ht]
      exact he
    · exact Or.inl ⟨_, ha⟩
  | uartRead rx =>
    refine Or.inr ⟨congrArg acceptedOf (read_output rx s).wire, ?_⟩
    intro e he
    exact read_mem rx he
  | tick => exact Or.inr ⟨rfl, fun e he => (Slots.mem_tick he).2⟩

theorem ticks_cons (act : Act) (acts : List Act) : ticks (act :: acts) = ticks acts + ticks [act] := by
  simp [ticks, List.countP_cons]

theorem step_prefix (s : Session) (act : Act) :
    acceptedOf s.wire <+: acceptedOf (s.step act).wire := by
  rcases step_quiet s act with ⟨send, h⟩ | ⟨h, _⟩
  · exact ⟨[send], h.symm⟩
  · exact ⟨[], by rw [h, List.append_nil]⟩

/-- The sends of a run only grow. -/
theorem accepted_prefix (s : Session) (acts : List Act) :
    acceptedOf s.wire <+: acceptedOf (s.run acts).wire :=
  Runs.progress (R := fun s t : Session => acceptedOf s.wire <+: acceptedOf t.wire) Session.step
    (fun _ => List.prefix_rfl) (fun _ _ _ h h' => h.trans h') step_prefix s acts

/-- Over a run that sends nothing, each query still pending was pending before with
as many more ticks left as the run made. -/
theorem run_quiet {s : Session} {acts : List Act}
    (h : acceptedOf (s.run acts).wire = acceptedOf s.wire) {e : PendingQuery × Nat}
    (he : e ∈ Slots.live (s.run acts).table) : (e.1, e.2 + ticks acts) ∈ Slots.live s.table := by
  induction acts generalizing s with
  | nil => exact he
  | cons act acts ih =>
    have hp := accepted_prefix (s.step act) acts
    rcases step_quiet s act with ⟨send, hs⟩ | ⟨hs, hm⟩
    · have hl := hp.length_le
      rw [show acceptedOf ((s.step act).run acts).wire = acceptedOf s.wire from h, hs,
        List.length_append, List.length_singleton] at hl
      omega
    · have := hm _ (ih (h.trans hs.symm) he)
      rw [ticks_cons, ← Nat.add_assoc]
      exact this

/-- With enough free slots a batch of commands is accepted whole. -/
theorem commands_accepted (cmds : List CmdRequest) {s : Session}
    (h : (Slots.live s.table).length + cmds.length ≤ s.table.length) :
    acceptedCmdsOf (s.run (cmds.map .sendCmd)).wire = acceptedCmdsOf s.wire ++ cmds := by
  induction cmds generalizing s with
  | nil => simp
  | cons cmd cmds ih =>
    rw [List.length_cons] at h
    have hroom := (Slots.insert_isSome (commandQuery s.ownId) queryTicks s.table).mpr (by omega)
    obtain ⟨t, hi⟩ := Option.isSome_iff_exists.mp hroom
    have hcmd : s.step (.sendCmd cmd) = { s.sent msgTypeCmd cmd.bytes with
        table := t, wire := (s.sent msgTypeCmd cmd.bytes).wire ++ [.command cmd true] } := by
      simp only [Session.step, command, ask_some hi]
    have hlive : (Slots.live t).length = (Slots.live s.table).length + 1 := by
      obtain ⟨xs, ys, hx, hy⟩ := Slots.insert_live hi
      simp [hx, hy]
      omega
    have hwire : acceptedCmdsOf (s.step (.sendCmd cmd)).wire = acceptedCmdsOf s.wire ++ [cmd] := by
      rw [hcmd]
      simp [sent, acceptedCmdsOf]
    rw [List.map_cons, Session.run, Runs.run_cons, ih, hwire, List.append_assoc]
    · rfl
    · rw [hcmd]
      change (Slots.live t).length + cmds.length ≤ t.length
      rw [Slots.insert_length hi]
      omega

/-! ### The endpoint -/

theorem pending_session (s : Endpoint) : pending s = Slots.live (session s).table := rfl

/-- What is pending had to be sent less than 500 ticks ago. -/
theorem drained {s : Endpoint} (h : Regular s) {acts : List Act}
    (hquiet : accepted (run s acts) = accepted s) (hticks : 500 ≤ ticks acts) :
    pending (run s acts) = [] := by
  obtain ⟨hs, hr⟩ := run_refines h acts
  rw [List.eq_nil_iff_forall_not_mem]
  intro e he
  rw [pending_session, hs] at he
  have hq : acceptedOf (Session.run (session s) acts).wire = acceptedOf (session s).wire := by
    rw [← hs]
    exact hquiet
  have hold := (h.legal.queries _ (run_quiet hq he)).left.2
  have hleft := (hr.legal.queries e (by rw [hs]; exact he)).left.1
  simp only [queryTicks] at hold
  omega

theorem batch_accepted {s : Endpoint} (h : Regular s) (hnone : pending s = [])
    {cmds : List CmdRequest} (hlen : cmds.length ≤ tfMaxIdLst) :
    acceptedCmds (run s (cmds.map .sendCmd)) = acceptedCmds s + cmds.length := by
  have hroom : (Slots.live (session s).table).length + cmds.length ≤ (session s).table.length := by
    rw [h.legal.slots, ← pending_session, hnone]
    simpa using hlen
  have hall := commands_accepted cmds hroom
  rw [← (run_refines h _).1] at hall
  have hwire : acceptedCmdsOf (run s (cmds.map .sendCmd)).wire = acceptedCmdsOf s.wire ++ cmds :=
    hall
  rw [acceptedCmds, hwire, List.length_append]
  rfl

/-- The query is pending with 500 ticks left, among those that were before. -/
def Added (q : PendingQuery) (s s' : Endpoint) : Prop :=
  ∃ before after, pending s = before ++ after ∧ pending s' = before ++ (q, 500) :: after

/-- At most four queries are pending at any time, each within its timeout; a command
is accepted exactly when fewer are, and then it is pending, and so is a heartbeat; and 500
ticks with nothing new sent leave none, so that four commands in a row are accepted again. -/
theorem query_capacity {s : Endpoint} (h : Reachable s) :
    (pending s).length ≤ tfMaxIdLst ∧
    (∀ e ∈ pending s, 1 ≤ e.2 ∧ e.2 ≤ 500) ∧
    (∀ cmd, (protocolSendCmd cmd s).1 = true ↔ (pending s).length < tfMaxIdLst) ∧
    (∀ cmd, (protocolSendCmd cmd s).1 = true →
      Added (commandQuery (composeId s.tf)) s (protocolSendCmd cmd s).2) ∧
    ((pending s).length < tfMaxIdLst →
      Added (heartbeatQuery (composeId s.tf)) s (sendHeartbeat s)) ∧
    ∀ acts, accepted (run s acts) = accepted s → 500 ≤ ticks acts →
      pending (run s acts) = [] ∧
      ∀ cmds : List CmdRequest, cmds.length ≤ tfMaxIdLst →
        acceptedCmds (run (run s acts) (cmds.map .sendCmd)) =
          acceptedCmds (run s acts) + cmds.length := by
  have hr := regular_of_reachable h
  refine ⟨?_, ?_, ?_, ?_, ?_, ?_⟩
  · rw [pending_session, ← hr.legal.slots]
    exact Slots.live_length_le _
  · intro e he
    exact (hr.legal.queries e he).left
  · intro cmd
    rw [(command_refines hr cmd).1, pending_session, ← hr.legal.slots]
    exact ask_ok msgTypeCmd cmd.bytes
  · intro cmd hok
    obtain ⟨hresult, hs, -⟩ := command_refines hr cmd
    rw [hresult] at hok
    rw [Added, pending_session, pending_session, hs, composeId_eq hr]
    exact ask_pending hok
  · intro hroom
    rw [pending_session, ← hr.legal.slots] at hroom
    rw [Added, pending_session, pending_session, (heartbeat_refines hr).1, composeId_eq hr]
    exact ask_pending (s := { session s with heartbeatCounter := s.heartbeatCounter + 1 })
      ((ask_ok msgTypeHeartbeat (heartbeatText s.heartbeatCounter)).mpr hroom)
  · intro acts hquiet hticks
    have hnone := drained hr hquiet hticks
    refine ⟨hnone, ?_⟩
    intro cmds hlen
    exact batch_accepted (run_refines hr acts).2 hnone hlen

/-- Four commands, and a fifth that is refused. -/
def fullTable : List Act := List.replicate 5 (.sendCmd getStatusCmd)

theorem ticks_replicate (n : Nat) : ticks (List.replicate n .tick) = n := by
  simp [ticks, List.countP_replicate]

theorem ticks_send_nothing (n : Nat) (s : Endpoint) :
    accepted (run s (List.replicate n .tick)) = accepted s := by
  induction n generalizing s with
  | zero => rfl
  | succ n ih => exact ih (transportTick s)

theorem capacity_of_full_table :
    pending (run (run (boot fun _ => 0) fullTable) (List.replicate 500 .tick)) = [] :=
  ((query_capacity ⟨fun _ => 0, fullTable, rfl⟩).2.2.2.2.2 _ (ticks_send_nothing 500 _)
    (ticks_replicate 500).ge).1

/-- The e-stop goes out as one complete frame in one write, whatever is pending, and
nothing else changes. -/
theorem estop_never_refused {s : Endpoint} (h : Reachable s) :
    (maxCommSendEstop s).1 = true ∧
    writes (maxCommSendEstop s).2 =
      writes s ++ [Spec.frame (composeId s.tf, msgTypeEstop, [0x01])] ∧
    (maxCommSendEstop s).2.tf.idListeners = s.tf.idListeners ∧
    (maxCommSendEstop s).2.tf.countIdLst = s.tf.countIdLst ∧
    (maxCommSendEstop s).2.tf.parser = s.tf.parser ∧
    (maxCommSendEstop s).2.tf.typeListeners = s.tf.typeListeners ∧
    (maxCommSendEstop s).2.tf.countTypeLst = s.tf.countTypeLst ∧
    (maxCommSendEstop s).2.tf.genericListeners = s.tf.genericListeners ∧
    (maxCommSendEstop s).2.tf.countGenericLst = s.tf.countGenericLst ∧
    (maxCommSendEstop s).2.app = s.app := by
  have hr := regular_of_reachable h
  obtain ⟨tx, ws, _, hone, he⟩ := sendSimple_spec hr.idle msgTypeEstop [0x01] 1 (by decide)
  have hw : ws = [frameBytes (composeId s.tf) msgTypeEstop [0x01]] :=
    one_write hone (by decide)
  have hsend : maxCommSendEstop s = (true, { s with
      tf := { s.tf with nextId := s.tf.nextId + 1, tx := tx }
      wire := s.wire ++ [.write (frameBytes (composeId s.tf) msgTypeEstop [0x01]),
        .transport msgTypeEstop [0x01] true] }) := by
    simp only [maxCommSendEstop, protocolSendEstop, tfTransportSend, he, hw, Handler.sent]
    rfl
  rw [hsend]
  refine ⟨rfl, ?_, rfl, rfl, rfl, rfl, rfl, rfl, rfl, rfl⟩
  rw [← frameBytes_eq _ _ (by decide)]
  simp [writes, writesOf]

theorem estop_with_full_table :
    (maxCommSendEstop (run (boot fun _ => 0) fullTable)).1 = true :=
  (estop_never_refused ⟨fun _ => 0, fullTable, rfl⟩).1

end UpAndDownESP.Proofs.Capacity
