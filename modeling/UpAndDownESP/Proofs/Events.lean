import UpAndDownESP.Proofs.Capacity
import UpAndDownESP.Proofs.FrameFormat

namespace UpAndDownESP.Proofs.Events
open Table Receiving Refinement Capacity FrameFormat Session

/-- What an action brings to the receive parser. -/
def heard : Act → List (Option UInt8)
  | .uartRead rx => rx.map some
  | .tick => [none]
  | _ => []

/-- The `on_state_event` calls, in order. -/
def stateEvents (a : App) : List StateEvent :=
  a.calls.filterMap fun
    | .onStateEvent evt => some evt
    | _ => none

/-- The parser is idle, or its last byte is at least fifty ticks ago. -/
def Rested (s : Endpoint) : Prop :=
  s.tf.parser.state = .sof ∨
    ∃ s₀ quiet, Reachable s₀ ∧ s = run s₀ quiet ∧ (quiet.flatMap heard).filterMap id = [] ∧
      tfParserTimeoutTicks ≤ ticks quiet

/-- The frames come in one by one, each well paced, with any waits before and after. -/
def Delivers (frames : List (List UInt8)) (is : List (Option UInt8)) : Prop :=
  ∃ segs n, List.Forall₂ Spelled frames segs ∧ is = segs.flatten ++ List.replicate n none

/-! ### Messages handed up by a step -/

/-- An event from the slave's half of the IDs. -/
structure SlaveEvent (msg : TfMsg) : Prop where
  id : msg.frameId < 0x80
  type : msg.type = msgTypeEvent
  data : msg.data.isSome = true
  len : sizeofStateEvent ≤ msg.len.toNat

def eventOf (msg : TfMsg) : StateEvent := StateEvent.ofBytes (msg.data.getD [])

theorem stateEvents_snoc {a a' : App} {c : Call} (h : a'.calls = a.calls ++ [c]) :
    stateEvents a' = stateEvents a ++ stateEvents { a with calls := [c] } := by
  simp [stateEvents, h, List.filterMap_append]

/-- No query carries an ID of the slave's half. -/
theorem unawaited {s : Session} (hl : Legal s) {msg : TfMsg} (h : msg.frameId < 0x80) :
    Slots.remove (awaits msg) s.table = none := by
  rw [Slots.remove_eq_none]
  intro e he
  have hown := (hl.queries e he).own
  simp only [awaits, beq_eq_false_iff_ne]
  rintro heq
  rw [heq] at hown
  exact absurd (UInt8.lt_of_lt_of_le h hown) (UInt8.lt_irrefl _)

/-- The message reaches the event listener. -/
theorem deliver_app {s : Session} (hl : Legal s) {msg : TfMsg} (h : SlaveEvent msg) :
    (s.deliver msg).app = onStateEvent (eventOf msg) s.app := by
  obtain ⟨d, hd⟩ := Option.isSome_iff_exists.mp h.data
  have hlen : ¬ msg.len.toNat < sizeofStateEvent := Nat.not_lt.mpr h.len
  simp only [deliver, unawaited hl h.id, h.type, if_true, eventListener, hd, hlen, if_false,
    protoCfg, eventOf, Option.getD_some]

theorem deliver_event {s : Session} (hl : Legal s) {msg : TfMsg} (h : SlaveEvent msg) :
    stateEvents (s.deliver msg).app = stateEvents s.app ++ [eventOf msg] := by
  rw [deliver_app hl h, stateEvents_snoc (onStateEvent_calls _ _)]
  rfl

theorem deliver_events (msgs : List TfMsg) {s : Session} (hl : Legal s)
    (h : ∀ msg ∈ msgs, SlaveEvent msg) :
    stateEvents (msgs.foldl (fun s msg => s.deliver msg) s).app =
      stateEvents s.app ++ msgs.map eventOf := by
  induction msgs generalizing s with
  | nil => simp
  | cons msg msgs ih =>
    have hrest := ih (hl.deliver msg) fun m hm => h m (List.mem_cons_of_mem _ hm)
    rw [List.foldl_cons, hrest, deliver_event hl (h msg (by simp)), List.map_cons,
      List.append_assoc]
    rfl

theorem read_events (rx : List UInt8) {s : Session} (hl : Legal s)
    (h : ∀ msg ∈ (Mealy.run parserStep s.parser (rx.map some)).2, SlaveEvent msg) :
    stateEvents (rx.foldl acceptByte s).app =
        stateEvents s.app ++ (Mealy.run parserStep s.parser (rx.map some)).2.map eventOf ∧
      (rx.foldl acceptByte s).parser = (Mealy.run parserStep s.parser (rx.map some)).1 := by
  rw [run_bytes] at h ⊢
  rw [read_deliver]
  exact ⟨deliver_events _ hl h, rfl⟩

theorem expire_events (qs : List PendingQuery)
    (hq : ∀ q ∈ qs, q = commandQuery q.id ∨ q = heartbeatQuery q.id) (a : App) :
    stateEvents (qs.foldl (expire (callbacks protoCfg)) a) = stateEvents a := by
  induction qs generalizing a with
  | nil => rfl
  | cons q qs ih =>
    rw [List.foldl_cons, ih fun x hx => hq x (by simp [hx])]
    rcases hq q (by simp) with he | he
    · rw [he]
      exact (stateEvents_snoc (onCmdTimeout_calls a)).trans (List.append_nil _)
    · rw [he]
      exact (stateEvents_snoc (onHeartbeatTimeout_calls a)).trans (List.append_nil _)

/-- One action: the messages it completes are reported, if they are events of the
slave, and it moves the parser on by what it brings. -/
theorem step_events {s : Session} (hl : Legal s) (act : Act)
    (h : ∀ msg ∈ (Mealy.run parserStep s.parser (heard act)).2, SlaveEvent msg) :
    stateEvents (s.step act).app =
        stateEvents s.app ++ (Mealy.run parserStep s.parser (heard act)).2.map eventOf ∧
      (s.step act).parser = (Mealy.run parserStep s.parser (heard act)).1 := by
  have hsame : ∀ s' : Session, SameInput s s' →
      stateEvents s'.app = stateEvents s.app ++ [] ∧ s'.parser = s.parser := by
    intro s' hi
    rw [hi.app, List.append_nil]
    exact ⟨rfl, hi.parser⟩
  cases act with
  | mqttInit client =>
    simp only [Session.step]
    split
    · exact ⟨(List.append_nil _).symm, rfl⟩
    · exact hsame s ⟨rfl, rfl⟩
  | mqttEvent event =>
    simp only [Session.step]
    split
    · rcases mqttEvent_cases s event with ⟨m, he, _⟩ | ⟨cmd, he⟩ | he
      · rw [he]
        exact ⟨(List.append_nil _).symm, rfl⟩
      · rw [he]
        exact hsame _ (command_input cmd s)
      · rw [he]
        exact hsame _ ⟨rfl, rfl⟩
    · exact hsame s ⟨rfl, rfl⟩
  | sendCmd cmd => exact hsame _ (command_input cmd s)
  | sendEstop => exact hsame _ ⟨rfl, rfl⟩
  | heartbeat => exact hsame _ (heartbeat_input s)
  | uartRead rx => exact read_events rx hl h
  | tick =>
    refine ⟨?_, rfl⟩
    have he := expire_events (Slots.tick s.table).1 (fun q hq => by
      obtain ⟨n, hn⟩ := Slots.expired_mem hq
      exact (hl.queries _ hn).kind) s.app
    exact he.trans (List.append_nil _).symm

theorem run_events (acts : List Act) {s : Session} (hl : Legal s)
    (h : ∀ msg ∈ (Mealy.run parserStep s.parser (acts.flatMap heard)).2, SlaveEvent msg) :
    stateEvents (s.run acts).app = stateEvents s.app ++
        (Mealy.run parserStep s.parser (acts.flatMap heard)).2.map eventOf ∧
      (s.run acts).parser = (Mealy.run parserStep s.parser (acts.flatMap heard)).1 := by
  induction acts generalizing s with
  | nil => simp
  | cons act acts ih =>
    rw [List.flatMap_cons, Mealy.run_append] at h ⊢
    obtain ⟨hev, hp⟩ := step_events hl act fun msg hm => h msg (List.mem_append_left _ hm)
    have hrest := ih (hl.step act)
    rw [hp] at hrest
    obtain ⟨hev', hp'⟩ := hrest fun msg hm => h msg (List.mem_append_right _ hm)
    rw [Session.run, Runs.run_cons, hev', hev, List.map_append, List.append_assoc]
    exact ⟨rfl, hp'⟩

/-! ### Silence -/

theorem ticks_le_heard (acts : List Act) : ticks acts ≤ (acts.flatMap heard).length := by
  induction acts with
  | nil => exact Nat.le_refl _
  | cons act acts ih =>
    rw [ticks_cons, List.flatMap_cons, List.length_append, Nat.add_comm]
    refine Nat.add_le_add ?_ ih
    cases act with
    | tick => exact Nat.le_refl _
    | _ => exact Nat.zero_le _

/-- Fifty ticks without a byte run the timeout out, and hand up nothing. -/
theorem silence {is : List (Option UInt8)} (h : is.filterMap id = []) (p : Parser) :
    (Mealy.run parserStep p is).2 = [] ∧
      (tfParserTimeoutTicks ≤ p.parserTimeoutTicks + is.length →
        tfParserTimeoutTicks ≤ (Mealy.run parserStep p is).1.parserTimeoutTicks) := by
  induction is generalizing p with
  | nil => exact ⟨rfl, id⟩
  | cons i is ih =>
    cases i with
    | some c => cases h
    | none =>
      obtain ⟨hm, ht⟩ := ih h (tickParser p)
      refine ⟨by simpa [Mealy.run, parserStep] using hm, fun hle => ht ?_⟩
      rw [List.length_cons] at hle
      unfold tickParser
      split
      · dsimp only
        omega
      · omega

/-- A rested parser hands up what an idle one would. -/
theorem parser_rested {s : Endpoint} (h : Rested s) :
    ∃ p : Parser, p.state = .sof ∧ ∀ is,
      (Mealy.run parserStep s.tf.parser is).2 = (Mealy.run parserStep p is).2 := by
  rcases h with hs | ⟨s₀, quiet, hr, rfl, hbytes, hticks⟩
  · exact ⟨s.tf.parser, hs, fun _ => rfl⟩
  · have hreg := regular_of_reachable hr
    obtain ⟨hm, ht⟩ := silence hbytes (session s₀).parser
    obtain ⟨_, hp⟩ := run_events quiet hreg.legal (s := session s₀) (by rw [hm]; simp)
    have hexp : tfParserTimeoutTicks ≤ (run s₀ quiet).tf.parser.parserTimeoutTicks := by
      rw [← parser_session, (run_refines hreg quiet).1, hp]
      have := ticks_le_heard quiet
      exact ht (by omega)
    exact ⟨tfResetParser (run s₀ quiet).tf.parser, rfl, expired_run hexp⟩

/-! ### Events -/

/-- The first two bytes of a payload are all of it that an event shows. -/
theorem ofBytes_take (buf : List UInt8) {n : Nat} (h : sizeofStateEvent ≤ n) :
    StateEvent.ofBytes (buf.take n) = StateEvent.ofBytes buf := by
  simp only [sizeofStateEvent] at h
  have h0 : 0 < n := by omega
  have h1 : 1 < n := by omega
  simp [StateEvent.ofBytes, h0, h1]

theorem slave_event {q : Parser} {f : UInt8 × List UInt8}
    (hsaid : said (receivedMsg q) = (f.1, msgTypeEvent, f.2)) (hid : f.1 < 0x80)
    (hlen : sizeofStateEvent ≤ f.2.length) :
    SlaveEvent (receivedMsg q) ∧ eventOf (receivedMsg q) = StateEvent.ofBytes f.2 := by
  obtain ⟨id, payload⟩ := f
  simp only [said, Prod.mk.injEq] at hsaid
  obtain ⟨rfl, htype, rfl⟩ := hsaid
  have hl : sizeofStateEvent ≤ (receivedMsg q).len.toNat := by
    rw [List.length_take] at hlen
    exact hlen.trans (Nat.min_le_left _ _)
  exact ⟨⟨hid, htype, rfl, hl⟩, (ofBytes_take _ hl).symm⟩

/-- What an idle parser makes of event frames, segment by segment. -/
theorem frames_heard {p : Parser} (hp : p.state = .sof) {frames : List (UInt8 × List UInt8)}
    (hfit : ∀ f ∈ frames, f.2.length ≤ tfMaxPayloadRx) {segs : List (List (Option UInt8))}
    (hsegs : List.Forall₂ Spelled (frames.map fun f => frameBytes f.1 msgTypeEvent f.2) segs) :
    (Mealy.run parserStep p segs.flatten).2.map said =
      frames.map fun f => (f.1, msgTypeEvent, f.2) := by
  have hfit' : ∀ m ∈ frames.map fun f => (f.1, msgTypeEvent, f.2),
      m.2.2.length ≤ tfMaxPayloadRx := by
    intro m hm
    obtain ⟨f, hf, rfl⟩ := List.mem_map.mp hm
    exact hfit f hf
  have hspelled : List.Forall₂ (fun m seg => Spelled (frameOf m) seg)
      (frames.map fun f => (f.1, msgTypeEvent, f.2)) segs := by
    rw [List.forall₂_map_left_iff] at hsegs ⊢
    exact hsegs
  obtain ⟨htimely, hbytes⟩ := stream_timely hp hfit' hspelled
  exact (decode_stream hp htimely _ hfit' hbytes).2

/-- Each message that says what an event frame does is an event of the slave. -/
theorem frames_events {is : List (Option UInt8)} {p : Parser} {frames : List (UInt8 × List UInt8)}
    (hframes : ∀ f ∈ frames, f.1 < 0x80 ∧ 2 ≤ f.2.length)
    (hsaid : (Mealy.run parserStep p is).2.map said =
      frames.map fun f => (f.1, msgTypeEvent, f.2)) :
    (∀ msg ∈ (Mealy.run parserStep p is).2, SlaveEvent msg) ∧
      (Mealy.run parserStep p is).2.map eventOf = frames.map fun f => StateEvent.ofBytes f.2 := by
  have hall : ∀ msg ∈ (Mealy.run parserStep p is).2,
      SlaveEvent msg ∧ eventOf msg = StateEvent.ofBytes (said msg).2.2 := by
    intro msg hm
    obtain ⟨q, rfl⟩ := run_msgs msg hm
    have hmem := List.mem_map_of_mem (f := said) hm
    rw [hsaid] at hmem
    obtain ⟨f, hf, he⟩ := List.mem_map.mp hmem
    obtain ⟨hid, hlen⟩ := hframes f hf
    obtain ⟨hslave, hev⟩ := slave_event he.symm hid hlen
    exact ⟨hslave, by rw [← he]; exact hev⟩
  refine ⟨fun msg hm => (hall msg hm).1, ?_⟩
  rw [List.map_congr_left fun msg hm => (hall msg hm).2,
    show (fun msg => StateEvent.ofBytes (said msg).2.2) =
      (fun m : UInt8 × UInt8 × List UInt8 => StateEvent.ofBytes m.2.2) ∘ said from rfl,
    ← List.map_map, hsaid, List.map_map]
  rfl

/-- The event says what the first two bytes of the payload do. -/
structure Says (evt : StateEvent) (payload : List UInt8) : Prop where
  eventType : payload[0]? = some evt.eventType
  data : payload[1]? = some evt.data

theorem Says.eq {evt : StateEvent} {eventType data : UInt8} {rest : List UInt8}
    (h : Says evt (eventType :: data :: rest)) : evt = ⟨eventType, data⟩ := by
  obtain ⟨ht, hd⟩ := h
  obtain ⟨t, d⟩ := evt
  simp only [List.getElem?_cons_zero, List.getElem?_cons_succ, Option.some.injEq] at ht hd
  rw [ht, hd]

theorem ofBytes_says {payload : List UInt8} (h : 2 ≤ payload.length) :
    Says (StateEvent.ofBytes payload) payload := by
  obtain ⟨eventType, payload, rfl⟩ := List.exists_cons_of_length_pos (by omega : 0 < payload.length)
  rw [List.length_cons] at h
  obtain ⟨data, payload, rfl⟩ := List.exists_cons_of_length_pos (by omega : 0 < payload.length)
  exact ⟨rfl, rfl⟩

/-- The event frames of the slave, however their bytes are read, are reported once each
and in order, each with the first two bytes of its payload, whatever else goes on. -/
theorem events_reported {s : Endpoint} (h : Reachable s) (hrest : Rested s)
    {frames : List (UInt8 × List UInt8)}
    (hframes : ∀ f ∈ frames, f.1 < 0x80 ∧ 2 ≤ f.2.length ∧ f.2.length ≤ 128)
    {acts : List Act}
    (hacts : Delivers (frames.map fun f => frameBytes f.1 msgTypeEvent f.2) (acts.flatMap heard)) :
    ∃ events : List StateEvent, stateEvents (run s acts).app = stateEvents s.app ++ events ∧
      List.Forall₂ (fun evt f => Says evt f.2) events frames := by
  have hr := regular_of_reachable h
  obtain ⟨segs, n, hsegs, his⟩ := hacts
  obtain ⟨p, hp, hsame⟩ := parser_rested hrest
  have hsaid := frames_heard hp (fun f hf => (hframes f hf).2.2) hsegs
  obtain ⟨hslave, hevents⟩ := frames_events (fun f hf => ⟨(hframes f hf).1, (hframes f hf).2.1⟩)
    hsaid
  have hmsgs : (Mealy.run parserStep s.tf.parser (acts.flatMap heard)).2 =
      (Mealy.run parserStep p segs.flatten).2 := by
    have htail := (silence (ticks_bytes n) (Mealy.run parserStep p segs.flatten).1).1
    rw [hsame, his, Mealy.run_append, htail, List.append_nil]
  have hrun := (run_events acts hr.legal (s := session s)
    (by rw [parser_session, hmsgs]; exact hslave)).1
  rw [← (run_refines hr acts).1, parser_session, hmsgs, hevents] at hrun
  refine ⟨frames.map fun f : UInt8 × List UInt8 => StateEvent.ofBytes f.2, hrun, ?_⟩
  rw [List.forall₂_map_left_iff, List.forall₂_same]
  exact fun f hf => ofBytes_says (hframes f hf).2.1

def stopEvent : List UInt8 := frameBytes 0x00 msgTypeEvent [protoEvtStoppedAtFloor, 0x02]

def buttonEvent : List UInt8 := frameBytes 0x7f msgTypeEvent [protoEvtCallButton, 0x05, 0xff]

theorem spelled_whole {c : UInt8} {bs : List UInt8} (n : Nat) :
    Spelled (c :: bs) (List.replicate n none ++ some c :: bs.map some) :=
  ⟨n, c, bs.map some, rfl, paced_bytes bs (by decide), by simp⟩

/-- Two events of different kinds, the first cut in two by a tick and a heartbeat. -/
theorem two_events_reported :
    stateEvents (run (boot fun _ => 0)
        [.uartRead [0x01, 0x00], .tick, .heartbeat, .uartRead (stopEvent.drop 2), .tick,
          .uartRead buttonEvent, .uartRead []]).app =
      [⟨protoEvtStoppedAtFloor, 0x02⟩, ⟨protoEvtCallButton, 0x05⟩] := by
  have hfirst : Spelled stopEvent
      (some 0x01 :: some 0x00 :: none :: (stopEvent.drop 2).map some) :=
    ⟨0, 0x01, _, rfl, ⟨by decide, paced_bytes (stopEvent.drop 2) (by decide)⟩, by decide +kernel⟩
  have hsecond : Spelled buttonEvent (none :: buttonEvent.map some) := spelled_whole 1
  obtain ⟨events, hevents, hsays⟩ := @events_reported (boot fun _ => 0) ⟨_, [], rfl⟩ (Or.inl rfl)
    [(0x00, [protoEvtStoppedAtFloor, 0x02]), (0x7f, [protoEvtCallButton, 0x05, 0xff])] (by decide)
    [.uartRead [0x01, 0x00], .tick, .heartbeat, .uartRead (stopEvent.drop 2), .tick,
      .uartRead buttonEvent, .uartRead []]
    ⟨_, 0, .cons hfirst (.cons hsecond .nil), by simp [heard]⟩
  rw [hevents]
  obtain _ | ⟨hstop, _ | ⟨hbutton, hnil⟩⟩ := hsays
  cases hnil
  rw [hstop.eq, hbutton.eq]
  rfl

end UpAndDownESP.Proofs.Events
