import UpAndDownESP.Proofs.Events
import UpAndDownESP.Proofs.History

namespace UpAndDownESP.Proofs.StaleBytes
open Table Receiving Refinement Capacity Events History Session

/-! ### What the receive buffer holds -/

/-- How much of the frame being received is stored. -/
def heldBytes (p : Parser) : Nat :=
  if p.discardData then 0
  else match p.state with
    | .data => p.rxi
    | .dataCksum => p.len.toNat
    | _ => 0

/-- The parsers differ at most in what the buffer has beyond that. -/
structure SameHeld (p q : Parser) : Prop where
  rest : { p with data := q.data } = q
  held : p.data.toList.take (heldBytes p) = q.data.toList.take (heldBytes p)

/-- The messages differ at most in what stands behind their payloads. -/
structure SameMsg (m m' : TfMsg) : Prop where
  rest : { m with data := m'.data } = m'
  data : ∃ d d', m.data = some d ∧ m'.data = some d' ∧ d.take m.len.toNat = d'.take m.len.toNat

/-- The same step of two parsers. -/
structure SameStep (r r' : Parser × Option TfMsg) : Prop where
  parser : SameHeld r.1 r'.1
  msg : Option.Rel SameMsg r.2 r'.2

theorem heldBytes_zero {p : Parser} (hd : p.state ≠ .data) (hc : p.state ≠ .dataCksum) :
    heldBytes p = 0 := by
  unfold heldBytes
  split
  · rfl
  · split
    · rename_i hs
      exact absurd hs hd
    · rename_i hs
      exact absurd hs hc
    · rfl

theorem same_none {p : Parser} (hz : heldBytes p = 0) (d : Vector UInt8 tfMaxPayloadRx) :
    SameHeld p { p with data := d } := ⟨rfl, by rw [hz]; rfl⟩

/-- A parser that waits for the next frame holds nothing. -/
theorem same_reset (p : Parser) (d : Vector UInt8 tfMaxPayloadRx) :
    SameHeld (tfResetParser p) { tfResetParser p with data := d } :=
  same_none (heldBytes_zero (by simp [tfResetParser]) (by simp [tfResetParser])) d

/-- One more byte stored in the same place. -/
theorem take_set_succ {l l' : List UInt8} {n : Nat} (hlen : l.length = l'.length)
    (h : l.take n = l'.take n) (c : UInt8) :
    (l.set n c).take (n + 1) = (l'.set n c).take (n + 1) := by
  apply List.ext_getElem?
  intro i
  have hi := congrArg (·[i]?) h
  simp only [List.getElem?_take, List.getElem?_set, hlen] at hi ⊢
  by_cases hlt : i < n
  · have hne : ¬ n = i := by omega
    rw [if_pos hlt, if_pos hlt] at hi
    simp only [hne, if_false, hi]
  · by_cases he : n = i
    · simp only [he, if_true]
    · have hge : ¬ i < n + 1 := by omega
      simp only [hge, if_false]

theorem same_msg {p : Parser} {d : Vector UInt8 tfMaxPayloadRx}
    (h : p.data.toList.take p.len.toNat = d.toList.take p.len.toNat) :
    SameMsg (receivedMsg p) (receivedMsg { p with data := d }) :=
  ⟨rfl, _, _, rfl, rfl, h⟩

/-- A byte is taken in without a look at what is not held. -/
theorem SameHeld.byte (h : SameHeld p q) (c : UInt8) :
    SameStep (parseByte p c) (parseByte q c) := by
  obtain ⟨hrest, hheld⟩ := h
  generalize q.data = d at hrest hheld
  subst hrest
  cases hs : p.state with
  | sof =>
    have hz : heldBytes p = 0 := heldBytes_zero (by simp [hs]) (by simp [hs])
    simp only [parseByte, hs]
    refine ⟨?_, .none⟩
    split
    · exact same_none (heldBytes_zero (by simp [parsBeginFrame]) (by simp [parsBeginFrame])) d
    · rw [← hs]
      exact same_none hz d
  | id | len | type =>
    simp only [parseByte, hs]
    refine ⟨?_, .none⟩
    split
    · exact same_none (heldBytes_zero (by simp) (by simp)) d
    · exact same_none (heldBytes_zero (by simp) (by simp)) d
  | headCksum =>
    simp only [parseByte, hs]
    split
    · split
      · exact ⟨same_reset _ d, .none⟩
      · split
        · rename_i hlen
          -- an empty payload skips the data phase, with the buffer as it was
          refine ⟨same_reset _ d, .some (same_msg ?_)⟩
          simp [hlen]
        · refine ⟨same_none ?_ d, .none⟩
          simp [heldBytes]
    · exact ⟨same_none (heldBytes_zero (by simp) (by simp)) d, .none⟩
  | data =>
    simp only [parseByte, hs]
    refine ⟨?_, .none⟩
    cases hd : p.discardData with
    | true =>
      simp only [if_true]
      split
      · exact same_none (by simp [heldBytes]) d
      · exact same_none (by simp [heldBytes]) d
    | false =>
      have hstored : p.data.toList.take p.rxi = d.toList.take p.rxi := by
        simpa [heldBytes, hs, hd] using hheld
      have hset := take_set_succ (by simp) hstored c
      simp only [Bool.false_eq_true, if_false]
      split
      · rename_i hlast
        -- the last byte: what is held is now the whole payload
        refine ⟨rfl, ?_⟩
        simpa [heldBytes, ← hlast] using hset
      · refine ⟨rfl, ?_⟩
        simpa [heldBytes] using hset
  | dataCksum =>
    simp only [parseByte, hs]
    split
    · split
      · rename_i hok
        refine ⟨same_reset _ d, .some (same_msg ?_)⟩
        have hd : p.discardData = false := by simpa using hok.1
        simpa [heldBytes, hs, hd] using hheld
      · exact ⟨same_reset _ d, .none⟩
    · refine ⟨⟨rfl, ?_⟩, .none⟩
      simpa [heldBytes, hs] using hheld

theorem SameHeld.char (h : SameHeld p q) (c : UInt8) :
    SameStep (parseChar p c) (parseChar q c) := by
  simp only [parseChar]
  apply SameHeld.byte
  obtain ⟨hrest, hheld⟩ := h
  generalize q.data = d at hrest hheld
  subst hrest
  split
  · exact same_reset { p with parserTimeoutTicks := 0 } d
  · exact ⟨rfl, hheld⟩

theorem SameHeld.tick (h : SameHeld p q) : SameHeld (tickParser p) (tickParser q) := by
  obtain ⟨hrest, hheld⟩ := h
  generalize q.data = d at hrest hheld
  subst hrest
  unfold tickParser
  split <;> exact ⟨rfl, hheld⟩

/-! ### What the listeners read -/

/-- A read below the length sees payload only. -/
theorem getD_of_take {d d' : List UInt8} (h : d.take n = d'.take n) (hi : i < n) :
    d.getD i 0 = d'.getD i 0 := by
  have hi' := congrArg (·[i]?) h
  simp only [List.getElem?_take, hi, if_true] at hi'
  rw [List.getD_eq_getElem?_getD, List.getD_eq_getElem?_getD, hi']

theorem cmdResponse_of_take {d d' : List UInt8} (h : d.take n = d'.take n)
    (hn : sizeofCmdResponse ≤ n) : CmdResponse.ofBytes d = CmdResponse.ofBytes d' := by
  have hget : ∀ i, i < sizeofCmdResponse → d.getD i 0 = d'.getD i 0 :=
    fun i hi => getD_of_take h (hi.trans_le hn)
  have hdata : ∀ i : Fin 16, d.getD (2 + i.val) 0 = d'.getD (2 + i.val) 0 :=
    fun i => hget _ (by rw [sizeofCmdResponse]; omega)
  simp only [CmdResponse.ofBytes, hget 0 (by decide), hget 1 (by decide), hget 18 (by decide),
    hdata]

theorem stateEvent_of_take {d d' : List UInt8} (h : d.take n = d'.take n)
    (hn : sizeofStateEvent ≤ n) : StateEvent.ofBytes d = StateEvent.ofBytes d' := by
  have hget : ∀ i, i < sizeofStateEvent → d.getD i 0 = d'.getD i 0 :=
    fun i hi => getD_of_take h (hi.trans_le hn)
  simp only [StateEvent.ofBytes, hget 0 (by decide), hget 1 (by decide)]

/-- No listener of this program looks beyond the payload of its message. -/
theorem fn_same (h : SameMsg m m') (l : Listener) (a : App) :
    (callbacks protoCfg).fn l m a = (callbacks protoCfg).fn l m' a := by
  obtain ⟨hrest, d, d', hd, hd', htake⟩ := h
  rw [hd'] at hrest
  subst hrest
  cases l with
  | genericListener => rfl
  | heartbeatResponseListener =>
    simp only [callbacks, heartbeatResponseListener, protoCfg, hd, onHeartbeat, htake]
  | cmdResponseListener =>
    simp only [callbacks, cmdResponseListener, protoCfg, hd]
    split
    · rfl
    · rw [cmdResponse_of_take htake (by omega)]
  | eventListener =>
    simp only [callbacks, eventListener, protoCfg, hd]
    split
    · rfl
    · rw [stateEvent_of_take htake (by omega)]

/-! ### Two sessions -/

/-- The sessions differ at most in what their receive buffers have beyond the stored
bytes. -/
structure SameSession (s t : Session) : Prop where
  rest : { s with parser := t.parser } = t
  held : SameHeld s.parser t.parser

/-- An operation that neither reads nor moves the parser. -/
theorem SameSession.frame {f : Session → Session}
    (hf : ∀ s p, f { s with parser := p } = { f s with parser := p }) (h : SameSession s t) :
    SameSession (f s) (f t) := by
  obtain ⟨hrest, hheld⟩ := h
  have ht : f t = { f s with parser := t.parser } := by rw [← hf s t.parser, hrest]
  have hs : f s = { f s with parser := s.parser } := hf s s.parser
  refine ⟨by rw [ht], ?_⟩
  rw [ht, hs]
  exact hheld

theorem ask_frame (q : UInt8 → PendingQuery) (msgType : UInt8) (data : List UInt8) (s : Session)
    (p : Parser) :
    ask q msgType data { s with parser := p } =
      ((ask q msgType data s).1, { (ask q msgType data s).2 with parser := p }) := by
  cases hi : Slots.insert (q s.ownId) queryTicks s.table with
  | none => rw [ask_none hi, ask_none (s := { s with parser := p }) hi]
  | some t =>
    rw [ask_some hi, ask_some (s := { s with parser := p }) hi]
    rfl

theorem command_frame (cmd : CmdRequest) (s : Session) (p : Parser) :
    (command cmd { s with parser := p }).2 = { (command cmd s).2 with parser := p } := by
  simp only [command, ask_frame]

theorem heartbeat_frame (s : Session) (p : Parser) :
    heartbeat { s with parser := p } = { s.heartbeat with parser := p } :=
  congrArg Prod.snd (ask_frame heartbeatQuery msgTypeHeartbeat (heartbeatText s.heartbeatCounter)
    { s with heartbeatCounter := s.heartbeatCounter + 1 } p)

theorem mqttCommand_frame (cmd : Option MqttCommand) (s : Session) (p : Parser) :
    onMqttCommand cmd { s with parser := p } = { s.onMqttCommand cmd with parser := p } := by
  cases cmd with
  | none => rfl
  | some cmd =>
    cases cmd with
    | status => exact command_frame getStatusCmd s p
    | reset => exact command_frame resetCmd s p
    | estop => rfl
    | floor n => exact command_frame (moveToFloorCmd n) s p

theorem mqttEvent_frame (event : MqttEvent) (s : Session) (p : Parser) :
    Session.onMqttEvent event { s with parser := p } =
      { Session.onMqttEvent event s with parser := p } := by
  simp only [Session.onMqttEvent]
  split
  · exact mqttCommand_frame _ { s with
      app := { s.app with mqtt := (mqttEventHandler event s.app.mqtt).1 } } p
  · rfl

/-- Messages with the same payload are delivered alike. -/
theorem deliver_same (h : SameMsg m m') (s : Session) : s.deliver m = s.deliver m' := by
  have hid : m.frameId = m'.frameId := by rw [← h.rest]
  have htype : m.type = m'.type := by rw [← h.rest]
  have hfn : ∀ l, (callbacks protoCfg).fn l m s.app = (callbacks protoCfg).fn l m' s.app :=
    fun l => fn_same h l s.app
  have hawaits : awaits m = fun q : PendingQuery => awaits m' q := by
    funext q
    simp only [awaits, hid]
  have hevent : eventListener protoCfg m s.app = eventListener protoCfg m' s.app :=
    hfn .eventListener
  simp only [deliver, answer, hawaits, hfn, htype, hevent]

/-- A byte keeps the sessions the same, and so does the message it completes. -/
theorem SameSession.acceptByte (h : SameSession s t) (c : UInt8) :
    SameSession (s.acceptByte c) (t.acceptByte c) := by
  obtain ⟨hrest, hheld⟩ := h
  obtain ⟨hp, hm⟩ := hheld.char c
  generalize t.parser = q at hrest hp hm
  subst hrest
  have hmoved : SameSession { s with parser := (parseChar s.parser c).1 }
      { s with parser := (parseChar q c).1 } := ⟨rfl, hp⟩
  simp only [Session.acceptByte]
  generalize (parseChar s.parser c).2 = o at hm ⊢
  generalize (parseChar q c).2 = o' at hm ⊢
  cases hm with
  | none => exact hmoved
  | some hm =>
    dsimp only
    rw [deliver_same hm]
    exact hmoved.frame (deliver_moved _)

theorem SameSession.step (h : SameSession s t) (act : Act) :
    SameSession (s.step act) (t.step act) := by
  cases act with
  | mqttInit client =>
    apply h.frame (f := fun s => s.step (.mqttInit client))
    intro s p
    simp only [Session.step]
    split <;> rfl
  | mqttEvent event =>
    apply h.frame (f := fun s => s.step (.mqttEvent event))
    intro s p
    simp only [Session.step]
    split
    · exact mqttEvent_frame event s p
    · rfl
  | sendCmd cmd => exact h.frame (f := fun s => (command cmd s).2) (command_frame cmd)
  | sendEstop => exact h.frame (f := estop) fun _ _ => rfl
  | heartbeat => exact h.frame heartbeat_frame
  | uartRead rx => exact Runs.related Session.acceptByte (fun _ _ c hs => hs.acceptByte c) h rx
  | tick =>
    obtain ⟨hrest, hheld⟩ := h
    generalize t.parser = q at hrest hheld
    subst hrest
    exact ⟨rfl, hheld.tick⟩

/-! ### The endpoint -/

/-- The states are equal, whatever is behind them, but for stale bytes of the receive
buffer: those at or beyond the number stored of the frame being received. -/
structure SameButStale (s t : Endpoint) : Prop where
  rest : { forget s with tf.parser.data := t.tf.parser.data } = forget t
  held : s.tf.parser.data.toList.take (heldBytes s.tf.parser) =
    t.tf.parser.data.toList.take (heldBytes s.tf.parser)

/-- From `s` to `s'` the same calls with the same arguments were added as from `t` to `t'`, the
same publications attempted with the same results, and the same bytes written. -/
structure SameAdded (s s' t t' : Endpoint) : Prop where
  calls : ∃ new, s'.app.calls = s.app.calls ++ new ∧ t'.app.calls = t.app.calls ++ new
  published : ∃ new, s'.app.mqtt.attempts = s.app.mqtt.attempts ++ new ∧
    t'.app.mqtt.attempts = t.app.mqtt.attempts ++ new
  written : ∃ new, writes s' = writes s ++ new ∧ writes t' = writes t ++ new

/-- A run from a state is a run from its present, put after its past. -/
theorem run_after {s : Endpoint} (h : Reachable s) (acts : List Act) :
    session (run s acts) = after (session s) ((session (forget s)).run acts) := by
  rw [(run_refines (regular_of_reachable h) acts).1, ← after_run, after_forget]

/-- Received frames are interpreted from their own bytes only: no run makes a
difference between states that differ in stale bytes and in their past alone. -/
theorem own_bytes_only {s t : Endpoint} (hs : Reachable s) (ht : Reachable t)
    (h : SameButStale s t) (acts : List Act) : SameAdded s (run s acts) t (run t acts) := by
  have hsame : SameSession (session (forget s)) (session (forget t)) := by
    obtain ⟨hrest, hheld⟩ := h
    rw [← hrest]
    exact ⟨rfl, rfl, hheld⟩
  have hrun : SameSession ((session (forget s)).run acts) ((session (forget t)).run acts) :=
    Runs.related Session.step (fun _ _ act hk => hk.step act) hsame acts
  have happ : ((session (forget s)).run acts).app = ((session (forget t)).run acts).app := by
    rw [← hrun.rest]
  have hwire : ((session (forget s)).run acts).wire = ((session (forget t)).run acts).wire := by
    rw [← hrun.rest]
  have hrs := run_after hs acts
  have hrt := run_after ht acts
  rw [after, ← happ, ← hwire] at hrt
  have hsapp : (run s acts).app = _ := congrArg Session.app hrs
  have htapp : (run t acts).app = _ := congrArg Session.app hrt
  have hswire : (run s acts).wire = _ := congrArg Session.wire hrs
  have htwire : (run t acts).wire = _ := congrArg Session.wire hrt
  refine ⟨⟨_, congrArg App.calls hsapp, congrArg App.calls htapp⟩,
    ⟨_, congrArg (·.mqtt.attempts) hsapp, congrArg (·.mqtt.attempts) htapp⟩,
    ⟨writesOf ((session (forget s)).run acts).wire, ?_, ?_⟩⟩
  · rw [writes, hswire]
    exact writesOf_append _ _
  · rw [writes, htwire]
    exact writesOf_append _ _

/-! Events that come in while the broker is away leave nothing behind but history. -/

theorem offline_event {a : App} (h : a.mqtt.sConnected = false) (evt : StateEvent) :
    forgetApp (onStateEvent evt a) = forgetApp a ∧
      (onStateEvent evt a).mqtt.sConnected = false := by
  have hguard : (!a.mqtt.sConnected || !a.mqtt.sMqttClient || a.mqtt.sTopicEvents.isNone) = true := by
    rw [h]
    rfl
  simp only [onStateEvent, App.publish, App.called_mqtt, mqttPublishEvent, hguard, if_true]
  exact ⟨rfl, h⟩

theorem offline_events (msgs : List TfMsg) {s : Session} (hl : Legal s)
    (hoff : s.app.mqtt.sConnected = false) (h : ∀ msg ∈ msgs, SlaveEvent msg) :
    forgetApp (msgs.foldl (fun s msg => s.deliver msg) s).app = forgetApp s.app := by
  induction msgs generalizing s with
  | nil => rfl
  | cons msg msgs ih =>
    obtain ⟨hforget, hoff'⟩ := offline_event hoff (eventOf msg)
    rw [← deliver_app hl (h msg (by simp))] at hforget hoff'
    rw [List.foldl_cons, ih (hl.deliver msg) hoff' fun m hm => h m (List.mem_cons_of_mem _ hm),
      hforget]

theorem offline_read {s : Endpoint} (h : Regular s) (hoff : s.app.mqtt.sConnected = false)
    {rx : List UInt8} (hev : ∀ msg ∈ (Mealy.run parseChar s.tf.parser rx).2, SlaveEvent msg) :
    forgetApp (uartRead rx s).app = forgetApp s.app := by
  have happ : (uartRead rx s).app = _ := congrArg Session.app (read_refines h rx).1
  rw [happ, read_deliver]
  exact offline_events _ h.legal hoff hev

/-- Event frames, and the head of another as far as its type. -/
def eventsThenHead (payloads : List (List UInt8)) : List UInt8 :=
  (payloads.map (frameBytes 0x05 msgTypeEvent)).flatten ++
    (frameBytes 0x05 msgTypeEvent [0x02]).take 5

/-- The rest of that event frame, which has a byte too few, and a whole one. -/
def shortThenWhole : List UInt8 :=
  (frameBytes 0x05 msgTypeEvent [0x02]).drop 5 ++ frameBytes 0x06 msgTypeEvent [0x03, 0x07]

theorem reachable_read (rx : List UInt8) : Reachable (uartRead rx (boot fun _ => 0)) :=
  ⟨fun _ => 0, [.uartRead rx], rfl⟩

theorem same_read {s : Endpoint} {rx rx' : List UInt8}
    (htf : { (uartRead rx s).tf with parser.data := (uartRead rx' s).tf.parser.data } =
      (uartRead rx' s).tf)
    (happ : forgetApp (uartRead rx s).app = forgetApp (uartRead rx' s).app)
    (hheld : (uartRead rx s).tf.parser.data.toList.take (heldBytes (uartRead rx s).tf.parser) =
      (uartRead rx' s).tf.parser.data.toList.take (heldBytes (uartRead rx s).tf.parser)) :
    SameButStale (uartRead rx s) (uartRead rx' s) := by
  refine ⟨?_, hheld⟩
  simp only [forget, happ]
  exact congrArg (fun tf => { uartRead rx' s with
    tf := tf, wire := [], app := forgetApp (uartRead rx' s).app }) htf

theorem boot_read_events {payloads : List (List UInt8)}
    (h : (Mealy.run parseChar (boot fun _ => 0).tf.parser (eventsThenHead payloads)).2.all
      fun msg => msg.frameId < 0x80 && msg.type = msgTypeEvent && msg.data.isSome &&
        sizeofStateEvent ≤ msg.len.toNat) :
    forgetApp (uartRead (eventsThenHead payloads) (boot fun _ => 0)).app =
      forgetApp (boot fun _ => 0).app := by
  refine offline_read (boot_regular _) rfl ?_
  intro msg hm
  have hmsg := List.all_eq_true.mp h msg hm
  simp only [Bool.and_eq_true, decide_eq_true_eq] at hmsg
  obtain ⟨⟨⟨hid, htype⟩, hdata⟩, hlen⟩ := hmsg
  exact ⟨hid, htype, hdata, hlen⟩

/-- After one event or two others, all published in vain. -/
theorem events_same :
    SameButStale (uartRead (eventsThenHead [[0x01, 0x02]]) (boot fun _ => 0))
      (uartRead (eventsThenHead [[0x03, 0x09], [0x02, 0x08, 0xff]]) (boot fun _ => 0)) := by
  apply same_read
  · decide +kernel
  · exact (boot_read_events (by decide +kernel)).trans (boot_read_events (by decide +kernel)).symm
  · decide +kernel

theorem short_event_unseen :
    SameAdded (uartRead (eventsThenHead [[0x01, 0x02]]) (boot fun _ => 0))
      (run (uartRead (eventsThenHead [[0x01, 0x02]]) (boot fun _ => 0)) [.uartRead shortThenWhole])
      (uartRead (eventsThenHead [[0x03, 0x09], [0x02, 0x08, 0xff]]) (boot fun _ => 0))
      (run (uartRead (eventsThenHead [[0x03, 0x09], [0x02, 0x08, 0xff]]) (boot fun _ => 0))
        [.uartRead shortThenWhole]) :=
  own_bytes_only (reachable_read _) (reachable_read _) events_same _

end UpAndDownESP.Proofs.StaleBytes
