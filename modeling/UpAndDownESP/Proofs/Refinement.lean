import UpAndDownESP.Proofs.Receiving
import UpAndDownESP.Proofs.Sending
import UpAndDownESP.Spec.Session

namespace UpAndDownESP.Proofs.Refinement
open Table Sending Receiving Session

/-! ### Legal sessions -/

/-- A query is of one of the two kinds, carries an ID of the master's half and has
time left. -/
structure Proper (e : PendingQuery × Nat) : Prop where
  kind : e.1 = commandQuery e.1.id ∨ e.1 = heartbeatQuery e.1.id
  own : 0x80 ≤ e.1.id
  left : 1 ≤ e.2 ∧ e.2 ≤ queryTicks

structure Legal (s : Session) : Prop where
  slots : s.table.length = tfMaxIdLst
  queries : ∀ e ∈ Slots.live s.table, Proper e

theorem Proper.closes {e : PendingQuery × Nat} (h : Proper e) (m : TfMsg) (a : App) :
    ((callbacks protoCfg).fn e.1.fn m a).1 = .close := by
  rcases h.kind with hk | hk <;> rw [hk]
  · simp only [commandQuery, callbacks, cmdResponseListener]
    cases m.data with
    | none => rfl
    | some d => dsimp only; split <;> rfl
  · simp only [heartbeatQuery, callbacks, heartbeatResponseListener]
    cases m.data <;> rfl

theorem own_id_high (n : UInt8) : 0x80 ≤ n &&& 0x7f ||| 0x80 := by
  rw [UInt8.le_iff_toNat_le, UInt8.toNat_or]
  exact Nat.right_le_or

theorem Legal.insert {s : Session} (h : Legal s) {q : PendingQuery}
    (hk : q = commandQuery q.id ∨ q = heartbeatQuery q.id) (hid : 0x80 ≤ q.id)
    (hi : Slots.insert q queryTicks s.table = some t) {s' : Session} (ht : s'.table = t) :
    Legal s' := by
  subst ht
  refine ⟨(Slots.insert_length hi).trans h.slots, ?_⟩
  intro e he
  rcases (Slots.mem_insert hi e).mp he with rfl | he
  · exact ⟨hk, hid, by simp [queryTicks]⟩
  · exact h.queries e he

theorem Legal.remove {s : Session} (h : Legal s) (hr : Slots.remove p s.table = some (q, t))
    {s' : Session} (ht : s'.table = t) : Legal s' := by
  subst ht
  exact ⟨(Slots.remove_length hr).trans h.slots,
    fun e he => h.queries e (Slots.mem_of_remove hr he)⟩

theorem Legal.of_table {s s' : Session} (h : Legal s) (ht : s'.table = s.table) : Legal s' :=
  ⟨ht ▸ h.slots, ht ▸ h.queries⟩

theorem Legal.tick {s : Session} (h : Legal s) : Legal s.tick := by
  refine ⟨(Slots.tick_length s.table).trans h.slots, ?_⟩
  intro e he
  obtain ⟨hpos, hmem⟩ := Slots.mem_tick he
  obtain ⟨hk, hid, _, hle⟩ := h.queries _ hmem
  exact ⟨hk, hid, hpos, by dsimp only at hle; omega⟩

theorem Legal.ask {s : Session} (h : Legal s) {q : UInt8 → PendingQuery}
    (hq : q = commandQuery ∨ q = heartbeatQuery) (msgType : UInt8) (data : List UInt8) :
    Legal (ask q msgType data s).2 := by
  unfold Session.ask
  split
  · exact h.of_table rfl
  · rename_i t hi
    refine h.insert ?_ ?_ hi rfl
    · rcases hq with rfl | rfl
      · exact Or.inl rfl
      · exact Or.inr rfl
    · rcases hq with rfl | rfl <;> exact own_id_high s.nextId

theorem Legal.command {s : Session} (h : Legal s) (cmd : CmdRequest) :
    Legal (command cmd s).2 :=
  (h.ask (Or.inl rfl) msgTypeCmd cmd.bytes).of_table rfl

theorem Legal.heartbeat {s : Session} (h : Legal s) : Legal s.heartbeat :=
  Legal.ask (s := { s with heartbeatCounter := s.heartbeatCounter + 1 }) (h.of_table rfl)
    (Or.inr rfl) _ _

theorem Legal.deliver {s : Session} (h : Legal s) (msg : TfMsg) : Legal (s.deliver msg) := by
  unfold Session.deliver
  split
  · rename_i hr
    exact h.remove hr rfl
  · split
    · exact h.of_table rfl
    · exact h

theorem Legal.acceptByte {s : Session} (h : Legal s) (c : UInt8) : Legal (s.acceptByte c) := by
  simp only [Session.acceptByte]
  split
  · exact h.of_table rfl
  · exact Legal.deliver (s := { s with parser := (parseChar s.parser c).1 }) (h.of_table rfl) _

theorem Legal.onMqttCommand {s : Session} (h : Legal s) (cmd : Option MqttCommand) :
    Legal (s.onMqttCommand cmd) := by
  cases cmd with
  | none => exact h
  | some cmd =>
    cases cmd with
    | status => exact h.command _
    | reset => exact h.command _
    | estop => exact h.of_table rfl
    | floor n => exact h.command _

theorem Legal.onMqttEvent {s : Session} (h : Legal s) (event : MqttEvent) :
    Legal (s.onMqttEvent event) := by
  simp only [Session.onMqttEvent]
  split
  · exact Legal.onMqttCommand (s := { s with
      app := { s.app with mqtt := (mqttEventHandler event s.app.mqtt).1 } }) (h.of_table rfl) _
  · exact h.of_table rfl

theorem Legal.step {s : Session} (h : Legal s) (act : Act) : Legal (s.step act) := by
  cases act with
  | mqttInit client =>
    simp only [Session.step]
    split
    · exact h.of_table rfl
    · exact h
  | mqttEvent event =>
    simp only [Session.step]
    split
    · exact h.onMqttEvent event
    · exact h
  | sendCmd cmd => exact h.command cmd
  | sendEstop => exact h.of_table rfl
  | heartbeat => exact h.heartbeat
  | uartRead rx => exact Runs.invariant Session.acceptByte (fun _ c hs => hs.acceptByte c) h rx
  | tick => exact h.tick

/-! ### The endpoint's bookkeeping -/

/-- The type and generic listeners as `MaxComm_Init` leaves them. -/
def eventOnly : List (TypeListener Listener) :=
  { type := msgTypeEvent, fn := some .eventListener } :: List.replicate 3 { type := 0, fn := none }

def ignoreRest : List (GenericListener Listener) :=
  [{ fn := some .genericListener }, { fn := none }]

/-- What every state between two actions keeps besides what the session sees: the
transmitter is at rest, the high-water count covers every live slot, and the
listeners of `MaxComm_Init` are where it put them. -/
structure Regular (s : Endpoint) : Prop where
  below : Below s.tf.countIdLst 0 s.tf.idListeners
  idle : Idle s.tf.tx
  master : s.tf.peerBit = .master
  types : s.tf.typeListeners = eventOnly
  countTypes : s.tf.countTypeLst = 1
  generics : s.tf.genericListeners = ignoreRest
  countGenerics : s.tf.countGenericLst = 1
  config : s.protoConfig = protoCfg
  legal : Legal (session s)

theorem boot_regular (msgIds : Nat → Int) : Regular (boot msgIds) where
  below := below_of_dead fun lst h => by
    have hr : lst ∈ List.replicate tfMaxIdLst _ := h
    rw [List.eq_of_mem_replicate hr]
  idle := ⟨rfl, rfl⟩
  master := rfl
  types := rfl
  countTypes := rfl
  generics := rfl
  countGenerics := rfl
  config := rfl
  legal := ⟨rfl, by intro e he; cases he⟩

theorem composeId_eq {s : Endpoint} (h : Regular s) : composeId s.tf = (session s).ownId := by
  simp [composeId, h.master, session, ownId]

/-! ### Sending -/

/-- A frame that fits the send buffer is written in one call. -/
theorem one_write {id type : UInt8} {payload : List UInt8} {writes : List (List UInt8)}
    (h : OneFrame (frameBytes id type payload) writes) (hp : payload.length ≤ 55) :
    writes = [frameBytes id type payload] := by
  apply h.single
  rw [frameBytes_length, tfSendbufLen]
  split <;> omega

theorem send_refines {s : Endpoint} (h : Regular s) (msgType : UInt8) (bs : List UInt8)
    (len : UInt16) (hlen : len.toNat ≤ bs.length) (hsmall : len.toNat ≤ 55) :
    (tfTransportSend msgType (some bs) len s).1 = true ∧
      session (tfTransportSend msgType (some bs) len s).2 =
        (session s).sent msgType (bs.take len.toNat) ∧
      Regular (tfTransportSend msgType (some bs) len s).2 := by
  obtain ⟨tx, writes, hidle, hone, he⟩ := sendSimple_spec h.idle msgType bs len hlen
  have hw := one_write hone (by simpa using hsmall.trans' (Nat.min_le_left _ _))
  rw [composeId_eq h] at hw
  simp only [tfTransportSend, he, Handler.sent, hw]
  exact ⟨trivial, rfl, { h with idle := hidle, legal := h.legal.of_table rfl }⟩

theorem ask_none {s : Session} {q : UInt8 → PendingQuery}
    (hi : Slots.insert (q s.ownId) queryTicks s.table = none) (msgType : UInt8)
    (data : List UInt8) :
    ask q msgType data s = (false, { s with
      nextId := s.nextId + 1, wire := s.wire ++ [.transport msgType data false] }) := by
  simp only [ask, hi]

theorem ask_some {s : Session} {q : UInt8 → PendingQuery}
    (hi : Slots.insert (q s.ownId) queryTicks s.table = some t) (msgType : UInt8)
    (data : List UInt8) :
    ask q msgType data s = (true, { s.sent msgType data with table := t }) := by
  simp only [ask, hi]

/-- A query of the code is a query of the session, refused or accepted alike. -/
theorem query_refines {s : Endpoint} (h : Regular s) {q : UInt8 → PendingQuery}
    (hq : q = commandQuery ∨ q = heartbeatQuery) {l : Listener} {g : TimeoutListener}
    (hlg : ∀ id, q id = ⟨id, l, some g⟩) (msgType : UInt8) (bs : List UInt8) (len : UInt16)
    (hlen : len.toNat ≤ bs.length) (hsmall : len.toNat ≤ 55) :
    let r := tfTransportQuery msgType (some bs) len (some l) (some g) queryTicks s
    let t := ask q msgType (bs.take len.toNat) (session s)
    r.1 = t.1 ∧ session r.2 = t.2 ∧ Regular r.2 := by
  intro r t
  have hlegal : Legal t.2 := h.legal.ask hq msgType (bs.take len.toNat)
  rcases querySimple_spec h.idle h.below msgType bs len hlen l (some g) queryTicks
    (by decide) with ⟨hn, tx, hidle, he⟩ | ⟨slots, count, tx, writes, hi, hbelow, hidle, hone, he⟩
  · rw [composeId_eq h, ← hlg] at hn
    have ht : t = _ := ask_none (s := session s) hn msgType _
    rw [ht] at hlegal ⊢
    simp only [r, tfTransportQuery, he, Handler.sent]
    exact ⟨trivial, rfl, { h with idle := hidle, legal := hlegal }⟩
  · have hw := one_write hone (by simpa using hsmall.trans' (Nat.min_le_left _ _))
    rw [composeId_eq h] at hw
    rw [composeId_eq h, ← hlg] at hi
    have ht : t = _ := ask_some (s := session s) hi msgType _
    rw [ht] at hlegal ⊢
    simp only [r, tfTransportQuery, he, Handler.sent, hw]
    exact ⟨trivial, rfl, { h with idle := hidle, below := hbelow, legal := hlegal }⟩

theorem estop_refines {s : Endpoint} (h : Regular s) :
    (maxCommSendEstop s).1 = true ∧ session (maxCommSendEstop s).2 = (session s).estop ∧
      Regular (maxCommSendEstop s).2 :=
  send_refines h msgTypeEstop [1] 1 (by decide) (by decide)

theorem command_refines {s : Endpoint} (h : Regular s) (cmd : CmdRequest) :
    (protocolSendCmd cmd s).1 = (command cmd (session s)).1 ∧
      session (protocolSendCmd cmd s).2 = (command cmd (session s)).2 ∧
      Regular (protocolSendCmd cmd s).2 := by
  have hl : cmd.bytes.length = 18 := cmd.bytes_length
  obtain ⟨hok, hs, hr⟩ := query_refines h (Or.inl rfl) (q := commandQuery) (fun _ => rfl) msgTypeCmd
    cmd.bytes 18 (by rw [hl]; decide) (by decide)
  rw [List.take_of_length_le (by rw [hl]; decide)] at hok hs
  simp only [protocolSendCmd, command, h.config]
  refine ⟨hok, ?_, { hr with legal := hr.legal.of_table rfl }⟩
  rw [← hs, ← hok]
  rfl

theorem heartbeatText_length (n : UInt32) :
    (heartbeatText n).length ≤ 13 := by
  have hlt : n.toNat < 10 ^ 10 := n.toNat_lt.trans (by decide)
  have hd := (Nat.length_toDigits_le_iff (b := 10) (by decide) (by decide)).mpr hlt
  simp only [heartbeatText, decimal, List.length_append, List.length_map]
  rw [show (ascii "HB ").length = 3 from rfl]
  omega

theorem queryHeartbeat_refines {s : Endpoint} (h : Regular s) (n : UInt32) :
    session (queryHeartbeat (heartbeatText n) s) =
        (ask heartbeatQuery msgTypeHeartbeat (heartbeatText n) (session s)).2 ∧
      Regular (queryHeartbeat (heartbeatText n) s) := by
  let text := heartbeatText n
  have hl : text.length ≤ 13 := heartbeatText_length n
  have hlen : (UInt16.ofNat text.length).toNat = text.length := by
    rw [UInt16.toNat_ofNat']
    omega
  have hbuf : text.take 31 ++ [0] = text ++ [0] := by rw [List.take_of_length_le (by omega)]
  obtain ⟨_, hs, hr⟩ := query_refines h (Or.inr rfl) (q := heartbeatQuery) (fun _ => rfl)
    msgTypeHeartbeat (text ++ [0]) (UInt16.ofNat text.length)
    (by rw [hlen]; simp) (by omega)
  rw [hlen, List.take_left] at hs
  have hticks : s.protoConfig.heartbeatTimeoutTicks = queryTicks := by rw [h.config]; rfl
  simp only [queryHeartbeat, hticks]
  rw [show (heartbeatText n).take 31 ++ [0] = text ++ [0] from hbuf]
  exact ⟨hs, hr⟩

theorem heartbeat_refines {s : Endpoint} (h : Regular s) :
    session (sendHeartbeat s) = (session s).heartbeat ∧ Regular (sendHeartbeat s) := by
  let s1 : Endpoint := { s with heartbeatCounter := s.heartbeatCounter + 1 }
  have h1 : Regular s1 := { h with legal := h.legal.of_table rfl }
  exact queryHeartbeat_refines h1 s.heartbeatCounter

/-! ### Receiving -/

theorem event_stays (msg : TfMsg) (a : App) : (eventListener protoCfg msg a).1 = .stay := by
  unfold eventListener
  cases msg.data with
  | none => rfl
  | some d => dsimp only; split <;> rfl

/-- Of the type listeners only the event's is set, and it stays. -/
theorem offer_types (msg : TfMsg) (a : App) :
    offerTo (callbacks protoCfg) (fun lst => lst.fn) (fun lst => lst.type == msg.type)
        (fun lst => { lst with fn := none }) 0 1 msg a eventOnly =
      (msg.type == msgTypeEvent, eventOnly, 1,
        if msg.type = msgTypeEvent then (eventListener protoCfg msg a).2 else a) := by
  by_cases he : msg.type = msgTypeEvent
  · have hs := offerTo_stay (callbacks protoCfg) TypeListener.fn
      (fun lst => lst.type == msg.type) (fun lst => { lst with fn := none }) msg a
      Nat.zero_lt_one { type := msgTypeEvent, fn := some .eventListener }
      (List.replicate 3 { type := 0, fn := none }) rfl (by simp [he]) (event_stays msg a)
    rw [eventOnly, hs, if_pos he, beq_iff_eq.mpr he]
    rfl
  · rw [offerTo_none]
    · simp [he]
    · intro lst hl
      rcases List.mem_cons.mp hl with rfl | hl
      · exact Or.inr (by simpa using fun h => he h.symm)
      · exact Or.inl (by rw [List.eq_of_mem_replicate hl])

theorem offer_generics (msg : TfMsg) (a : App) :
    offerTo (callbacks protoCfg) (fun lst => lst.fn) (fun _ => true)
        (fun lst => { lst with fn := none }) 0 1 msg a ignoreRest =
      (true, ignoreRest, 1, a) :=
  rfl

/-- A message that no query awaits meets the type listeners, and what these leave
goes to the generic listener, which ignores it. -/
theorem unclaimed {s : Endpoint} (h : Regular s) {msg : TfMsg}
    (hmsg : msg.userdata = none ∧ msg.userdata2 = none)
    (hr : Slots.remove (awaits msg) (view s.tf.idListeners) = none) (a : App) :
    tfHandleReceivedMessage (callbacks protoCfg) s.tf msg a =
      (s.tf, if msg.type = msgTypeEvent then (eventListener protoCfg msg a).2 else a) := by
  have hclear : { msg with userdata := none, userdata2 := none } = msg := by
    obtain ⟨_, _, _, _, _, u, u2⟩ := msg
    obtain ⟨rfl, rfl⟩ := hmsg
    rfl
  have ht := offer_types msg a
  rw [← h.types, ← h.countTypes] at ht
  have hg := offer_generics msg a
  rw [← h.generics, ← h.countGenerics] at hg
  simp only [tfHandleReceivedMessage, offer_none _ msg a hr, hclear, ht]
  by_cases he : msg.type = msgTypeEvent
  · simp [he]
  · have hne : (msg.type == msgTypeEvent) = false := by simpa using he
    simp [hne, he, hg]

/-- One handed-up message. -/
theorem deliver_refines {s : Endpoint} (h : Regular s) {msg : TfMsg}
    (hmsg : msg.userdata = none ∧ msg.userdata2 = none) :
    let r := tfHandleReceivedMessage (callbacks protoCfg) s.tf msg s.app
    session { s with tf := r.1, app := r.2 } = (session s).deliver msg ∧
      Regular { s with tf := r.1, app := r.2 } := by
  intro r
  have hlegal : Legal ((session s).deliver msg) := h.legal.deliver msg
  cases hr : Slots.remove (awaits msg) (view s.tf.idListeners) with
  | none =>
    have hd : (session s).deliver msg = { session s with
        app := if msg.type = msgTypeEvent then (eventListener protoCfg msg s.app).2 else s.app } := by
      simp only [deliver, session_table, hr]
      split <;> rfl
    have hu : r = _ := unclaimed h hmsg hr s.app
    rw [hu, hd]
    exact ⟨rfl, { h with legal := h.legal.of_table rfl }⟩
  | some res =>
    obtain ⟨q, t⟩ := res
    have hd : (session s).deliver msg =
        { session s with table := t, app := answer q msg s.app } := by
      simp only [deliver, session_table, hr]
      rfl
    obtain ⟨slots, count, _, ho, hv, hb⟩ := offer_some (callbacks protoCfg) s.app hmsg h.below
      (fun e he m b => (h.legal.queries e he).closes m b) hr
    have hu : r = ({ s.tf with idListeners := slots, countIdLst := count }, answer q msg s.app) := by
      simp only [r, tfHandleReceivedMessage, ho]
      rfl
    subst t
    rw [hd] at hlegal ⊢
    rw [hu]
    exact ⟨rfl, { h with below := hb, legal := hlegal }⟩

theorem accept_refines {s : Endpoint} (h : Regular s) (c : UInt8) :
    let r := tfAcceptChar (callbacks protoCfg) (s.tf, s.app) c
    session { s with tf := r.1, app := r.2 } = (session s).acceptByte c ∧
      Regular { s with tf := r.1, app := r.2 } := by
  intro r
  let s1 : Endpoint := { s with tf := { s.tf with parser := (parseChar s.tf.parser c).1 } }
  have h1 : Regular s1 := { h with legal := h.legal.of_table rfl }
  cases hm : (parseChar s.tf.parser c).2 with
  | none =>
    have hr : r = _ := accept_quiet (callbacks protoCfg) s.tf s.app hm
    have hd : (session s).acceptByte c = session s1 := by
      simp only [acceptByte, parser_session, hm]
      rfl
    rw [hr, hd]
    exact ⟨rfl, h1⟩
  | some msg =>
    have hr : r = _ := accept_msg (callbacks protoCfg) s.tf s.app hm
    have hd : (session s).acceptByte c = (session s1).deliver msg := by
      simp only [acceptByte, parser_session, hm]
      rfl
    obtain ⟨q, rfl⟩ := parseChar_msg hm
    rw [hr, hd]
    exact deliver_refines h1 ⟨rfl, rfl⟩

/-- A read is its bytes, one after the other. -/
theorem read_refines {s : Endpoint} (h : Regular s) (rx : List UInt8) :
    session (uartRead rx s) = rx.foldl acceptByte (session s) ∧ Regular (uartRead rx s) := by
  have hrun : ∀ (bs : List UInt8) (tf : TinyFrame Listener TimeoutListener) (a : App),
      Regular { s with tf := tf, app := a } →
      let r := bs.foldl (tfAcceptChar (callbacks protoCfg)) (tf, a)
      session { s with tf := r.1, app := r.2 } =
          bs.foldl acceptByte (session { s with tf := tf, app := a }) ∧
        Regular { s with tf := r.1, app := r.2 } := by
    intro bs
    induction bs with
    | nil => exact fun tf a hs => ⟨rfl, hs⟩
    | cons c bs ih =>
      intro tf a hs
      obtain ⟨he, hs'⟩ := accept_refines hs c
      obtain ⟨he', hr'⟩ := ih _ _ hs'
      exact ⟨he'.trans (by rw [he]; rfl), hr'⟩
  have hr := hrun rx s.tf s.app h
  rw [← h.config] at hr
  exact hr

/-! ### Ticking -/

theorem tick_refines {s : Endpoint} (h : Regular s) :
    session (transportTick s) = (session s).tick ∧ Regular (transportTick s) := by
  obtain ⟨slots, count, ht, hv, hb, _⟩ := tick_view (callbacks protoCfg) s.app h.below
  rw [← h.config] at ht
  have hs : session (transportTick s) = (session s).tick := by
    simp only [transportTick, tfTick, ht, session, hv]
    rw [h.config]
    rfl
  refine ⟨hs, ?_⟩
  have hlegal := h.legal.tick
  rw [← hs] at hlegal
  simp only [transportTick, tfTick, ht] at hlegal ⊢
  exact { h with below := hb, legal := hlegal }

/-! ### The whole step -/

theorem mqttCommand_refines {s : Endpoint} (h : Regular s) (payload : List UInt8) (len : Nat) :
    session (maxCommOnMqttCommand payload len s) =
        (session s).onMqttCommand (parseMqttCommand payload len) ∧
      Regular (maxCommOnMqttCommand payload len s) := by
  unfold maxCommOnMqttCommand
  cases parseMqttCommand payload len with
  | none => exact ⟨rfl, h⟩
  | some cmd =>
    cases cmd with
    | status => exact (command_refines h getStatusCmd).2
    | reset => exact (command_refines h resetCmd).2
    | estop => exact (estop_refines h).2
    | floor n => exact (command_refines h (moveToFloorCmd n)).2

theorem mqttEvent_refines {s : Endpoint} (h : Regular s) (event : MqttEvent) :
    session (onMqttEvent event s) = (session s).onMqttEvent event ∧
      Regular (onMqttEvent event s) := by
  let s1 : Endpoint := { s with
    app := { s.app with mqtt := (mqttEventHandler event s.app.mqtt).1 } }
  have h1 : Regular s1 := { h with legal := h.legal.of_table rfl }
  simp only [onMqttEvent, Session.onMqttEvent, session_app]
  cases (mqttEventHandler event s.app.mqtt).2 with
  | none => exact ⟨rfl, h1⟩
  | some r => exact mqttCommand_refines h1 r.1 r.2

/-- One action of the code is one action of the session. -/
theorem step_refines {s : Endpoint} (h : Regular s) (act : Act) :
    session (step s act) = (session s).step act ∧ Regular (step s act) := by
  cases act with
  | mqttInit client =>
    by_cases hc : s.app.mqtt.sTopicCmd = none
    · have hc' : (session s).app.mqtt.sTopicCmd = none := hc
      simp only [step, Session.step, if_pos hc, if_pos hc']
      exact ⟨rfl, { h with legal := h.legal.of_table rfl }⟩
    · have hc' : ¬ (session s).app.mqtt.sTopicCmd = none := hc
      simp only [step, Session.step, if_neg hc, if_neg hc']
      exact ⟨trivial, h⟩
  | mqttEvent event =>
    by_cases hc : s.app.mqtt.sMqttClient = true
    · have hc' : (session s).app.mqtt.sMqttClient = true := hc
      simp only [step, Session.step, if_pos hc, if_pos hc']
      exact mqttEvent_refines h event
    · have hc' : ¬ (session s).app.mqtt.sMqttClient = true := hc
      simp only [step, Session.step, if_neg hc, if_neg hc']
      exact ⟨trivial, h⟩
  | sendCmd cmd => exact (command_refines h cmd).2
  | sendEstop => exact (estop_refines h).2
  | heartbeat => exact heartbeat_refines h
  | uartRead rx => exact read_refines h rx
  | tick => exact tick_refines h

/-- Every run of the code is the run of the session. -/
theorem run_refines {s : Endpoint} (h : Regular s) (acts : List Act) :
    session (run s acts) = Session.run (session s) acts ∧ Regular (run s acts) :=
  Runs.simulates step (fun _ act hs => step_refines hs act) h acts

theorem regular_of_reachable {s : Endpoint} (h : Reachable s) : Regular s := by
  obtain ⟨msgIds, acts, rfl⟩ := h
  exact (run_refines (boot_regular msgIds) acts).2

end UpAndDownESP.Proofs.Refinement
