import Mathlib.Data.List.Find
import UpAndDownESP.Proofs.Capacity
import UpAndDownESP.Proofs.FrameFormat
import UpAndDownESP.System.Link

namespace UpAndDownESP.Proofs.Attribution
open Table Refinement Capacity FrameFormat Session

/-! ### Frame IDs -/

/-- The ID of send number `n`. -/
def wireId (n : Nat) : UInt8 := UInt8.ofNat n &&& 0x7f ||| 0x80

theorem wireId_toNat (n : Nat) : (wireId n).toNat = 128 + n % 128 := by
  have hlow : (UInt8.ofNat n &&& 0x7f).toNat = n % 128 := by
    rw [UInt8.toNat_and, UInt8.toNat_ofNat', show (0x7f : UInt8).toNat = 2 ^ 7 - 1 from rfl,
      Nat.and_two_pow_sub_one_eq_mod]
    omega
  have hor := Nat.two_pow_add_eq_or_of_lt (i := 7) (Nat.mod_lt n (by decide)) 1
  rw [wireId, UInt8.toNat_or, hlow, Nat.or_comm]
  exact hor.symm

/-- Two sends share an ID exactly when 128 divides their distance. -/
theorem wireId_eq_iff (m n : Nat) : wireId m = wireId n ↔ m % 128 = n % 128 := by
  rw [← UInt8.toNat_inj, wireId_toNat, wireId_toNat]
  omega

/-! ### The endpoint's own steps -/

/-- What the link sees of one of the endpoint's own steps. -/
structure Sends (s : Session) (snd : Option Send) (s' : Session) : Prop where
  parser : s'.parser = s.parser
  nextId : s'.nextId = s.nextId + if snd.isSome then 1 else 0
  table : s'.table = match snd.bind Send.query with
    | none => s.table
    | some q => (Slots.insert (q s.ownId) queryTicks s.table).getD s.table

theorem ask_sends {q : UInt8 → PendingQuery} (snd : Send) (hq : snd.query = some q)
    (msgType : UInt8) (data : List UInt8) (s : Session) :
    Sends s (some snd) (ask q msgType data s).2 := by
  cases hi : Slots.insert (q s.ownId) queryTicks s.table with
  | none =>
    rw [ask_none hi]
    exact ⟨rfl, rfl, by simp [hq, hi]⟩
  | some t =>
    rw [ask_some hi]
    exact ⟨rfl, rfl, by simp [hq, hi]⟩

theorem command_sends (cmd : CmdRequest) (s : Session) :
    Sends s (some (.command cmd)) (command cmd s).2 :=
  let h := ask_sends (.command cmd) rfl msgTypeCmd cmd.bytes s
  ⟨h.parser, h.nextId, h.table⟩

theorem heartbeat_sends (s : Session) :
    Sends s (some (.heartbeat s.heartbeatCounter)) s.heartbeat :=
  let h := ask_sends (.heartbeat s.heartbeatCounter) rfl msgTypeHeartbeat
    (heartbeatText s.heartbeatCounter) { s with heartbeatCounter := s.heartbeatCounter + 1 }
  ⟨h.parser, h.nextId, h.table⟩

theorem estop_sends (s : Session) : Sends s (some .estop) s.estop := ⟨rfl, rfl, rfl⟩

theorem nothing_sent {s s' : Session} (hp : s'.parser = s.parser) (hn : s'.nextId = s.nextId)
    (ht : s'.table = s.table) : Sends s none s' :=
  ⟨hp, by simpa using hn, ht⟩

theorem mqttCommand_sends (cmd : Option MqttCommand) (s : Session) :
    Sends s (cmd.map Send.ofMqtt) (s.onMqttCommand cmd) := by
  cases cmd with
  | none => exact nothing_sent rfl rfl rfl
  | some cmd =>
    cases cmd with
    | status => exact command_sends getStatusCmd s
    | reset => exact command_sends resetCmd s
    | estop => exact estop_sends s
    | floor n => exact command_sends (moveToFloorCmd n) s

/-- `sendOf` is right about what a step sends. -/
theorem step_sends (s : Endpoint) {act : Act} (hread : ∀ rx, act ≠ .uartRead rx)
    (htick : act ≠ .tick) : Sends (session s) (sendOf s act) ((session s).step act) := by
  cases act with
  | mqttInit client =>
    simp only [Session.step, sendOf]
    split <;> exact nothing_sent rfl rfl rfl
  | mqttEvent event =>
    by_cases hc : s.app.mqtt.sMqttClient = true
    · have hc' : (session s).app.mqtt.sMqttClient = true := hc
      simp only [Session.step, sendOf, if_pos hc, if_pos hc', Session.onMqttEvent]
      rw [session_app]
      cases (mqttEventHandler event s.app.mqtt).2 with
      | none => exact nothing_sent rfl rfl rfl
      | some r =>
        have h := mqttCommand_sends (parseMqttCommand r.1 r.2) { session s with
          app := { s.app with mqtt := (mqttEventHandler event s.app.mqtt).1 } }
        exact ⟨h.parser, h.nextId, h.table⟩
    · have hc' : ¬ (session s).app.mqtt.sMqttClient = true := hc
      simp only [Session.step, sendOf, if_neg hc, if_neg hc']
      exact nothing_sent rfl rfl rfl
  | sendCmd cmd => exact command_sends cmd (session s)
  | sendEstop => exact estop_sends (session s)
  | heartbeat => exact heartbeat_sends (session s)
  | uartRead rx => exact absurd rfl (hread rx)
  | tick => exact absurd rfl htick

/-! ### What the link knows of the endpoint -/

/-- Without their numbers the labels are what the slots of `id_listeners` hold, so the
slot of the label taken away is the one the endpoint emptied. -/
def Mirrored (L : Link) : Prop := Slots.map Prod.fst L.labels = view L.esp.tf.idListeners

/-- The labels mirror the endpoint's table, and every ID in play is that of the
number it goes with. -/
structure Mirrors (L : Link) : Prop where
  regular : Regular L.esp
  idle : L.esp.tf.parser.state = .sof
  next : L.esp.tf.nextId = UInt8.ofNat L.number
  erase : Mirrored L
  labelled : ∀ l ∈ Slots.live L.labels, l.1.1.id = wireId l.1.2
  down : ∀ r ∈ L.down, r.id = wireId r.number
  received : ∀ r ∈ L.received, r.id = wireId r.number
  up : ∀ r ∈ L.up, r.request.id = wireId r.request.number ∧ Conforming r.request r.payload

theorem start_mirrors (msgIds : Nat → Int) : Mirrors (Link.start msgIds) where
  regular := boot_regular msgIds
  idle := rfl
  next := rfl
  erase := rfl
  labelled := by intro l hl; cases hl
  down := by intro r hr; cases hr
  received := by intro r hr; cases hr
  up := by intro r hr; cases hr

theorem Mirrors.ownId (h : Mirrors L) : (session L.esp).ownId = wireId L.number := by
  rw [Session.ownId, wireId, ← h.next]
  rfl

theorem Mirrors.requestId (h : Mirrors L) : composeId L.esp.tf = wireId L.number := by
  rw [composeId_eq h.regular, h.ownId]

theorem Mirrors.idle_step (h : Mirrors L) {esp : Endpoint} (hr : Regular esp)
    (hs : Sends (session L.esp) none (session esp)) : Mirrors { L with esp := esp } where
  regular := hr
  idle := (congrArg (·.state) hs.parser).trans h.idle
  next := by
    have hn := hs.nextId
    simp only [Option.isSome_none, Bool.false_eq_true, if_false] at hn
    exact hn.trans ((UInt8.add_zero _).trans h.next)
  erase := h.erase.trans hs.table.symm
  labelled := h.labelled
  down := h.down
  received := h.received
  up := h.up

theorem Mirrors.send (h : Mirrors L) {esp : Endpoint} (hr : Regular esp) {snd : Send}
    (hs : Sends (session L.esp) (some snd) (session esp)) : Mirrors (L.send esp snd) := by
  have hidle : esp.tf.parser.state = .sof := (congrArg (·.state) hs.parser).trans h.idle
  have hnext : esp.tf.nextId = UInt8.ofNat (L.number + 1) := by
    have hn : esp.tf.nextId = L.esp.tf.nextId + 1 := hs.nextId
    rw [hn, h.next, UInt8.ofNat_add]
    rfl
  have hdown : ∀ r ∈ L.down ++ [⟨L.number, composeId L.esp.tf, snd.type, snd.payload⟩],
      r.id = wireId r.number := by
    intro r hm
    rcases List.mem_append.mp hm with hm | hm
    · exact h.down r hm
    · rw [List.mem_singleton.mp hm]
      exact h.requestId
  have htable := hs.table
  simp only [Option.bind_some] at htable
  unfold Link.send
  cases hq : snd.query with
  | none =>
    rw [hq] at htable
    exact { h with
      regular := hr, idle := hidle, next := hnext, erase := h.erase.trans htable.symm, down := hdown }
  | some q =>
    rw [hq] at htable
    dsimp only at htable ⊢
    have hmap := Slots.insert_map Prod.fst (q (composeId L.esp.tf), L.number) queryTicks L.labels
    rw [h.erase, composeId_eq h.regular] at hmap
    rw [session_table, session_table, hmap] at htable
    rw [composeId_eq h.regular] at hdown ⊢
    cases hi : Slots.insert (q (session L.esp).ownId, L.number) queryTicks L.labels with
    | none =>
      rw [hi] at htable
      exact { h with
        regular := hr, idle := hidle, next := hnext, erase := h.erase.trans htable.symm }
    | some t =>
      rw [hi] at htable
      refine { h with
        regular := hr, idle := hidle, next := hnext, erase := htable.symm, down := hdown
        labelled := ?_ }
      intro l hl
      rcases (Slots.mem_insert hi l).mp hl with rfl | hl
      · have hid : ∀ id, (q id).id = id := by
          cases snd <;> cases hq <;> exact fun _ => rfl
        exact (hid _).trans h.ownId
      · exact h.labelled l hl

/-! ### Replies -/

/-- Reading a whole frame is delivering its message. -/
theorem read_reply {s : Endpoint} (h : Regular s) (hidle : s.tf.parser.state = .sof) (id type : UInt8)
    {payload : List UInt8} (hfit : payload.length ≤ tfMaxPayloadRx) :
    let s' := uartRead (frameBytes id type payload) s
    Regular s' ∧ s'.tf.parser.state = .sof ∧
      ∃ q, said (receivedMsg q) = (id, type, payload) ∧
        s'.tf.nextId = s.tf.nextId ∧
        view s'.tf.idListeners = ((session s).deliver (receivedMsg q)).table ∧
        s'.app = ((session s).deliver (receivedMsg q)).app := by
  intro s'
  obtain ⟨hs, hr⟩ := read_refines h (frameBytes id type payload)
  obtain ⟨hstate, q, hm, hsaid⟩ := read_frame hidle id type hfit
  rw [read_deliver, parser_session, hm] at hs
  have hnext : ((session s).deliver (receivedMsg q)).nextId = s.tf.nextId :=
    (deliver_output (session s) (receivedMsg q)).nextId
  exact ⟨hr, (congrArg (·.parser.state) hs).trans hstate, q, hsaid,
    (congrArg (·.nextId) hs).trans hnext, congrArg (·.table) hs, congrArg (·.app) hs⟩

/-- A listener calls back unless it is a command's and the message too short for it. -/
theorem answer_calls {q : PendingQuery} (hq : q = commandQuery q.id ∨ q = heartbeatQuery q.id)
    (p : Parser) (a : App) :
    (answer q (receivedMsg p) a).calls.length = a.calls.length ↔
      q.fn = .cmdResponseListener ∧ p.len.toNat < sizeofCmdResponse := by
  rcases hq with hk | hk <;> rw [hk]
  · by_cases hl : p.len.toNat < sizeofCmdResponse
    · simp [answer, commandQuery, callbacks, cmdResponseListener, receivedMsg, hl]
    · simp [answer, commandQuery, callbacks, cmdResponseListener, receivedMsg, hl, protoCfg]
  · simp [answer, heartbeatQuery, callbacks, heartbeatResponseListener, receivedMsg, protoCfg]

theorem said_short {q : Parser} {id type : UInt8} {payload : List UInt8}
    (h : said (receivedMsg q) = (id, type, payload)) :
    q.len.toNat < sizeofCmdResponse ↔ payload.length < sizeofCmdResponse := by
  simp only [said, receivedMsg, Option.getD_some, Prod.mk.injEq] at h
  rw [← h.2.2, List.length_take, Vector.length_toList]
  simp only [sizeofCmdResponse, tfMaxPayloadRx]
  omega

/-- The query a message closes, found among the labels. -/
theorem Mirrors.removed (h : Mirrors L) {q : Parser} {id : UInt8} (hid : q.id = id) :
    Slots.remove (awaits (receivedMsg q)) (session L.esp).table =
      (Slots.remove (fun l => l.1.id == id) L.labels).map fun r => (r.1.1, Slots.map Prod.fst r.2) := by
  have hawaits : awaits (receivedMsg q) = fun e : PendingQuery => e.id == id := by
    rw [← hid]
    rfl
  rw [session_table, ← h.erase, hawaits, Slots.remove_map]

/-- A delivery takes away the first listener under the reply's ID, if there is one, which
calls back unless it is a command's and the reply too short for it. -/
theorem Mirrors.deliver (h : Mirrors L) {reply : Reply}
    (hfit : reply.payload.length ≤ tfMaxPayloadRx) :
    Mirrors (L.deliver reply) ∧
      (L.deliver reply).closed =
        match (Slots.live L.labels).find? (fun l => l.1.1.id == reply.request.id) with
        | none => L.closed
        | some l => L.closed ++ [⟨l.1.2, reply.request.number,
            !decide (l.1.1.fn = .cmdResponseListener ∧ reply.payload.length < sizeofCmdResponse)⟩] := by
  obtain ⟨hr, hidle, q, hsaid, hnext, htable, happ⟩ :=
    read_reply h.regular h.idle reply.request.id reply.request.type hfit
  have hid : q.id = reply.request.id := congrArg Prod.fst hsaid
  have hrem := h.removed hid
  have hfind := Slots.remove_find (fun l => l.1.id == reply.request.id) L.labels
  simp only [Link.deliver]
  cases hl : Slots.remove (fun l => l.1.id == reply.request.id) L.labels with
  | none =>
    rw [hl] at hrem hfind
    rw [Option.map_eq_none_iff.mp hfind.symm]
    have hsame : ((session L.esp).deliver (receivedMsg q)).table = view L.esp.tf.idListeners := by
      simp only [Session.deliver, hrem, Option.map_none]
      split <;> rfl
    exact ⟨{ h with
      regular := hr, idle := hidle, next := hnext.trans h.next
      erase := h.erase.trans (htable.trans hsame).symm }, rfl⟩
  | some r =>
    obtain ⟨l, t⟩ := r
    rw [hl] at hrem hfind
    obtain ⟨e, he, hel⟩ := Option.map_eq_some_iff.mp hfind.symm
    obtain ⟨⟨n, hmem⟩, -⟩ := Slots.remove_mem hl
    have hview : (l.1, n) ∈ Slots.live (session L.esp).table := by
      rw [session_table, ← h.erase, Slots.live_map]
      exact List.mem_map_of_mem hmem
    have hcalls := answer_calls (h.regular.legal.queries _ hview).kind q L.esp.app
    have happ' : ((session L.esp).deliver (receivedMsg q)).app =
        answer l.1 (receivedMsg q) L.esp.app := by
      simp only [Session.deliver, hrem, Option.map_some]
      rfl
    have htable' : ((session L.esp).deliver (receivedMsg q)).table = Slots.map Prod.fst t := by
      simp only [Session.deliver, hrem, Option.map_some]
    refine ⟨{ h with
      regular := hr, idle := hidle, next := hnext.trans h.next
      erase := (htable.trans htable').symm
      labelled := fun x hx => h.labelled x (Slots.mem_of_remove hl hx) }, ?_⟩
    have hshort := hcalls.trans (and_congr_right fun _ => said_short hsaid)
    rw [he, happ, happ']
    dsimp only
    rw [hel, bne, beq_eq_decide, decide_eq_decide.mpr hshort]

/-! ### Steps and runs -/

theorem own_send {L : Link} {act : Act} {snd : Send} (h : sendOf L.esp act = some snd) :
    L.own act = L.send (UpAndDownESP.step L.esp act) snd := by
  cases act with
  | uartRead rx => cases h
  | tick => cases h
  | _ => simp only [Link.own, h]

theorem own_quiet {L : Link} {act : Act} (h : sendOf L.esp act = none)
    (hread : ∀ rx, act ≠ .uartRead rx) (htick : act ≠ .tick) :
    L.own act = { L with esp := UpAndDownESP.step L.esp act } := by
  cases act with
  | uartRead rx => exact absurd rfl (hread rx)
  | tick => exact absurd rfl htick
  | _ => simp only [Link.own, h]

theorem Mirrors.tick (h : Mirrors L) : Mirrors (L.own .tick) := by
  obtain ⟨hs, hr⟩ := tick_refines h.regular
  have hmap := Slots.tick_map Prod.fst L.labels
  rw [h.erase] at hmap
  refine { h with
    regular := hr
    idle := ?_
    next := (congrArg (·.nextId) hs).trans h.next
    erase := (congrArg Prod.snd hmap).symm.trans (congrArg (·.table) hs).symm
    labelled := fun l hl => h.labelled (l.1, l.2 + 1) (Slots.mem_tick hl).2 }
  have hp : (transportTick L.esp).tf.parser = tickParser L.esp.tf.parser := congrArg (·.parser) hs
  change (transportTick L.esp).tf.parser.state = .sof
  rw [hp, tickParser]
  split <;> exact h.idle

theorem send_closed (L : Link) (esp : Endpoint) (snd : Send) :
    (L.send esp snd).closed = L.closed := by
  simp only [Link.send]
  split
  · rfl
  · split <;> rfl

theorem Mirrors.own (h : Mirrors L) (act : Act) :
    Mirrors (L.own act) ∧ (L.own act).closed = L.closed := by
  by_cases hread : ∃ rx, act = .uartRead rx
  · obtain ⟨rx, rfl⟩ := hread
    exact ⟨h, rfl⟩
  by_cases htick : act = .tick
  · subst htick
    exact ⟨h.tick, rfl⟩
  have hread' : ∀ rx, act ≠ .uartRead rx := fun rx he => hread ⟨rx, he⟩
  obtain ⟨hs, hr⟩ := step_refines h.regular act
  have hsends := step_sends L.esp hread' htick
  rw [← hs] at hsends
  cases hsnd : sendOf L.esp act with
  | none =>
    rw [hsnd] at hsends
    rw [own_quiet hsnd hread' htick]
    exact ⟨h.idle_step hr hsends, rfl⟩
  | some snd =>
    rw [hsnd] at hsends
    rw [own_send hsnd]
    exact ⟨h.send hr hsends, send_closed L _ snd⟩

/-- Among the pending queries an ID is a number modulo 128. -/
theorem Mirrors.find (h : Mirrors L) {reply : Reply}
    (hid : reply.request.id = wireId reply.request.number) :
    (Slots.live L.labels).find? (fun l => l.1.1.id == reply.request.id) =
      (Slots.live L.labels).find? fun l => l.1.2 % 128 == reply.request.number % 128 := by
  apply List.find?_congr
  intro l hl
  rw [h.labelled l hl, hid, Bool.eq_iff_iff, beq_iff_eq, beq_iff_eq, wireId_eq_iff]

theorem step_mirrors (h : Mirrors L) (move : Move) : Mirrors (L.step move) := by
  cases move with
  | own act => exact (h.own act).1
  | toPeer lost =>
    simp only [Link.step]
    split
    · exact h
    · rename_i request rest hd
      have hmem := h.down
      rw [hd] at hmem
      refine { h with down := fun r hr => hmem r (List.mem_cons_of_mem _ hr), received := ?_ }
      intro r hr
      split at hr
      · exact h.received r hr
      · rcases List.mem_append.mp hr with hr | hr
        · exact h.received r hr
        · rw [List.mem_singleton.mp hr]
          exact hmem request (by simp)
  | answer i payload =>
    simp only [Link.step]
    split
    · exact h
    · rename_i request hg
      split
      · rename_i hc
        refine { h with up := ?_ }
        intro r hr
        rcases List.mem_append.mp hr with hr | hr
        · exact h.up r hr
        · rw [List.mem_singleton.mp hr]
          exact ⟨h.received request (List.mem_of_getElem? hg), hc⟩
      · exact h
  | toEsp lost =>
    simp only [Link.step]
    split
    · exact h
    · rename_i reply rest hu
      have hmem := h.up
      rw [hu] at hmem
      have hrest : Mirrors { L with up := rest } :=
        { h with up := fun r hr => hmem r (List.mem_cons_of_mem _ hr) }
      split
      · exact hrest
      · exact (hrest.deliver (hmem reply (by simp)).2.1).1

theorem attributed_snoc {L : Link} (h : L.Attributed) {L' : Link}
    (hc : L'.closed = L.closed ++ [p]) :
    L'.Attributed ↔ (p.called = true → p.listener = p.answered) := by
  simp only [Link.Attributed] at h ⊢
  rw [hc]
  constructor
  · intro hall
    exact hall p (by simp)
  · intro hp x hx
    rcases List.mem_append.mp hx with hx | hx
    · exact h x hx
    · rw [List.mem_singleton.mp hx]
      exact hp

theorem attributed_same {L L' : Link} (h : L.Attributed) (hc : L'.closed = L.closed) :
    L'.Attributed := by
  rw [Link.Attributed, hc]
  exact h

/-- Only an ambiguous delivery closes a wrong listener. -/
theorem step_attributed (h : Mirrors L) (ha : L.Attributed) (move : Move) :
    (L.step move).Attributed ↔ L.Unambiguous move := by
  cases move with
  | own act => exact iff_of_true (attributed_same ha (h.own act).2) trivial
  | toPeer lost =>
    refine iff_of_true (attributed_same ha ?_) trivial
    simp only [Link.step]
    split <;> rfl
  | answer i payload =>
    refine iff_of_true (attributed_same ha ?_) trivial
    simp only [Link.step]
    split
    · rfl
    · split <;> rfl
  | toEsp lost =>
    cases hu : L.up with
    | nil =>
      have hsame : L.step (.toEsp lost) = L := by simp only [Link.step, hu]
      rw [hsame]
      refine iff_of_true ha ?_
      cases lost <;> simp [Link.Unambiguous, hu]
    | cons reply rest =>
      cases lost with
      | true =>
        refine iff_of_true (attributed_same ha ?_) trivial
        simp only [Link.step, hu, if_true]
      | false =>
        have hstep : L.step (.toEsp false) = { L with up := rest }.deliver reply := by
          simp only [Link.step, hu, Bool.false_eq_true, if_false]
        obtain ⟨hid, hconf⟩ := h.up reply (by simp [hu])
        have hrest : Mirrors { L with up := rest } :=
          { h with up := fun r hr => h.up r (by rw [hu]; exact List.mem_cons_of_mem _ hr) }
        have hclosed := (hrest.deliver hconf.1).2
        rw [hrest.find hid] at hclosed
        rw [hstep]
        simp only [Link.Unambiguous, hu, List.head?_cons, Option.mem_some_iff, forall_eq']
        cases hf : (Slots.live L.labels).find? fun l => l.1.2 % 128 == reply.request.number % 128 with
        | none =>
          rw [hf] at hclosed
          exact iff_of_true (attributed_same ha hclosed) (by simp)
        | some l =>
          rw [hf] at hclosed
          dsimp only at hclosed
          simp only [Option.mem_some_iff, forall_eq']
          rw [attributed_snoc ha hclosed, Bool.not_eq_true', decide_eq_false_iff_not]
          exact (or_comm.trans Decidable.or_iff_not_imp_left).symm

theorem run_mirrored (msgIds : Nat → Int) (moves : List Move) :
    Runs.Along Link.step Mirrored (Link.start msgIds) moves := by
  apply (Runs.along_iff_prefix Link.step).mpr
  intro past rest _
  have h := Runs.invariant Link.step (I := Mirrors) (fun _ move h => step_mirrors h move)
    (start_mirrors msgIds) past
  exact h.erase

/-- The labels are the endpoint's slots all along a run, and the listeners closed are
those of the requests answered exactly as long as no reply is delivered while the first
query under its ID is another's. -/
theorem attributed_iff_unambiguous (msgIds : Nat → Int) (moves : List Move) :
    Runs.Along Link.step Mirrored (Link.start msgIds) moves ∧
      (Runs.Along Link.step Link.Attributed (Link.start msgIds) moves ↔
        Runs.Meets Link.step Link.Unambiguous (Link.start msgIds) moves) := by
  refine ⟨run_mirrored msgIds moves, ?_⟩
  apply Runs.along_iff_meets Link.step (I := Mirrors)
  · intro L move h
    exact step_mirrors h move
  · intro L move h ha
    exact step_attributed h ha move
  · exact start_mirrors msgIds
  · intro p hp
    cases hp

def mqttData (payload : String) : Move :=
  .own (.mqttEvent (.data mqttTopicCmd mqttTopicCmd.length (ascii payload) payload.length 0
    payload.length))

/-- Of two status requests the first is answered, and its slot then goes to the request
that follows 127 e-stops later. The second answer finds that one first. -/
def reusedSlot : List Move :=
  [.own (.mqttInit true), .own (.mqttEvent .connected), mqttData "status", mqttData "status",
    .toPeer false, .toPeer false, .answer 0 (0x01 :: List.replicate 18 0),
    .answer 1 (0x01 :: List.replicate 18 0), .toEsp false] ++
  List.replicate 127 (mqttData "estop") ++ [mqttData "status", .toEsp false]

theorem reused_slot_misattributed :
    ¬ Runs.Along Link.step Link.Attributed (Link.start fun _ => 0) reusedSlot := by
  intro h
  have hlast : (Runs.run Link.step (Link.start fun _ => 0) reusedSlot).closed =
      [⟨0, 0, true⟩, ⟨129, 1, true⟩] := by
    decide +kernel
  have hp := h.last Link.step ⟨129, 1, true⟩ (by rw [hlast]; simp) rfl
  exact absurd hp (by decide)

end UpAndDownESP.Proofs.Attribution
