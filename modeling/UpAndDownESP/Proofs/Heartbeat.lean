import UpAndDownESP.Lib.Mealy
import UpAndDownESP.Proofs.Capacity

namespace UpAndDownESP.Proofs.Heartbeat
open Table Refinement Capacity Session

/-- How many publications of `max32655_disconnected` were attempted. -/
def disconnects (a : App) : Nat := a.mqtt.attempts.countP fun p => p.1 == "max32655_disconnected"

def isHeartbeat (q : PendingQuery) : Bool := q.fn == .heartbeatResponseListener

/-- The action hands up no frame. -/
def Silent (s : Endpoint) : Act → Prop
  | .uartRead rx => (Mealy.run parseChar s.tf.parser rx).2 = []
  | _ => True

/-- However the run goes on after a heartbeat, if no frame is received then 500 ticks
later the link is known to be down, and that was published once if it was up. -/
def DeadPeerDetected (s : Endpoint) : Prop :=
  ∀ acts, Runs.Meets step Silent (sendHeartbeat s) acts → 500 ≤ ticks acts →
    (run (sendHeartbeat s) acts).app.max32655Connected = false ∧
    (s.app.max32655Connected = true →
      disconnects (run (sendHeartbeat s) acts).app = disconnects s.app + 1)

/-! ### Timeouts -/

theorem disconnects_publish (a : App) (payload : String) :
    disconnects (a.publish payload) =
      disconnects a + if payload = "max32655_disconnected" then 1 else 0 := by
  obtain ⟨ok, h⟩ := a.publish_attempts payload
  simp [disconnects, h, List.countP_append, List.countP_cons]

theorem disconnects_called (a : App) (c : Call) : disconnects (a.called c) = disconnects a := rfl

/-- A command's timeout is not a link event. -/
theorem expire_command (a : App) (id : UInt8) :
    (expire (callbacks protoCfg) a (commandQuery id)).max32655Connected = a.max32655Connected ∧
      disconnects (expire (callbacks protoCfg) a (commandQuery id)) = disconnects a := by
  refine ⟨rfl, ?_⟩
  change disconnects (onCmdTimeout a) = _
  rw [onCmdTimeout, disconnects_publish, disconnects_called, if_neg (by decide), Nat.add_zero]

theorem expire_heartbeat (a : App) (id : UInt8) :
    (expire (callbacks protoCfg) a (heartbeatQuery id)).max32655Connected = false ∧
      disconnects (expire (callbacks protoCfg) a (heartbeatQuery id)) =
        disconnects a + if a.max32655Connected then 1 else 0 := by
  change (onHeartbeatTimeout a).max32655Connected = false ∧ disconnects (onHeartbeatTimeout a) = _
  cases hc : a.max32655Connected with
  | false => simp [onHeartbeatTimeout, hc, disconnects_called]
  | true =>
    simp only [onHeartbeatTimeout, App.called_connected, hc, if_true, disconnects_publish]
    exact ⟨rfl, rfl⟩

/-- The timeouts of one tick: any heartbeat among them takes the link down, once. -/
theorem expire_all (qs : List PendingQuery)
    (hq : ∀ q ∈ qs, q = commandQuery q.id ∨ q = heartbeatQuery q.id) (a : App) :
    let a' := qs.foldl (expire (callbacks protoCfg)) a
    a'.max32655Connected = (a.max32655Connected && !qs.any isHeartbeat) ∧
      disconnects a' = disconnects a + if a.max32655Connected && qs.any isHeartbeat then 1 else 0 := by
  induction qs generalizing a with
  | nil => simp
  | cons q qs ih =>
    obtain ⟨hc, hd⟩ := ih (fun x hx => hq x (by simp [hx])) (expire (callbacks protoCfg) a q)
    dsimp only
    rw [List.foldl_cons, hc, hd, List.any_cons]
    rcases hq q (by simp) with he | he
    · have hk : isHeartbeat q = false := by rw [he]; rfl
      rw [hk, he, (expire_command a q.id).1, (expire_command a q.id).2]
      simp
    · have hk : isHeartbeat q = true := by rw [he]; rfl
      rw [hk, he, (expire_heartbeat a q.id).1, (expire_heartbeat a q.id).2]
      simp

/-! ### Steps without a received frame -/

theorem read_silent (rx : List UInt8) {s : Session} (h : (Mealy.run parseChar s.parser rx).2 = []) :
    rx.foldl acceptByte s = { s with parser := (Mealy.run parseChar s.parser rx).1 } := by
  rw [read_deliver, h]
  rfl

theorem ask_keeps (q : UInt8 → PendingQuery) (msgType : UInt8) (data : List UInt8) {s : Session}
    {e : PendingQuery × Nat} (he : e ∈ Slots.live s.table) :
    e ∈ Slots.live (ask q msgType data s).2.table := by
  cases hi : Slots.insert (q s.ownId) queryTicks s.table with
  | none =>
    rw [ask_none hi]
    exact he
  | some t =>
    rw [ask_some hi]
    exact (Slots.mem_insert hi e).mpr (Or.inr he)

/-- Between ticks the link keeps its state, and no pending query goes away. -/
theorem step_steady (s : Endpoint) {act : Act} (hq : Silent s act) (ht : ticks [act] = 0) :
    let s' := (session s).step act
    s'.app.max32655Connected = s.app.max32655Connected ∧ disconnects s'.app = disconnects s.app ∧
      ∀ e ∈ pending s, e ∈ Slots.live s'.table := by
  have hcommand : ∀ cmd, (command cmd (session s)).2.app = s.app ∧
      ∀ e ∈ pending s, e ∈ Slots.live (command cmd (session s)).2.table :=
    fun cmd => ⟨(command_input cmd (session s)).app,
      fun e he => ask_keeps commandQuery msgTypeCmd cmd.bytes (s := session s) he⟩
  cases act with
  | mqttInit client =>
    simp only [Session.step]
    split
    · exact ⟨rfl, rfl, fun e he => he⟩
    · exact ⟨rfl, rfl, fun e he => he⟩
  | mqttEvent event =>
    simp only [Session.step]
    split
    · rcases mqttEvent_cases (session s) event with ⟨m, he, ha⟩ | ⟨cmd, he⟩ | he
      · rw [he]
        refine ⟨rfl, ?_, fun e he => he⟩
        simp only [disconnects, ha]
        rfl
      · rw [he, (hcommand cmd).1]
        exact ⟨rfl, rfl, (hcommand cmd).2⟩
      · rw [he]
        exact ⟨rfl, rfl, fun e he => he⟩
    · exact ⟨rfl, rfl, fun e he => he⟩
  | sendCmd cmd =>
    simp only [Session.step, (hcommand cmd).1]
    exact ⟨trivial, trivial, (hcommand cmd).2⟩
  | sendEstop => exact ⟨rfl, rfl, fun e he => he⟩
  | heartbeat =>
    simp only [Session.step, (heartbeat_input (session s)).app]
    exact ⟨rfl, rfl, fun e he => ask_keeps heartbeatQuery msgTypeHeartbeat _
      (s := { session s with heartbeatCounter := (session s).heartbeatCounter + 1 }) he⟩
  | uartRead rx =>
    simp only [Session.step, read_silent rx (s := session s) hq]
    exact ⟨rfl, rfl, fun e he => he⟩
  | tick => cases ht

/-- A tick in terms of the heartbeats among the queries that expire with it. -/
theorem tick_link {s : Session} (h : Legal s) :
    let expired := (Slots.tick s.table).1.any isHeartbeat
    s.tick.app.max32655Connected = (s.app.max32655Connected && !expired) ∧
      disconnects s.tick.app =
        disconnects s.app + if s.app.max32655Connected && expired then 1 else 0 := by
  apply expire_all
  intro q hq
  obtain ⟨n, hn⟩ := Slots.expired_mem hq
  exact (h.queries _ hn).kind

/-! ### The watch over a link -/

/-- A link known to be down, after `n` publications of that. -/
def Down (n : Nat) (s : Session) : Prop :=
  s.app.max32655Connected = false ∧ disconnects s.app = n

/-- A link believed to be up with a heartbeat due `k` ticks before its timeout at the
latest, or else found to be down. -/
def Watched (n k : Nat) (s : Session) : Prop :=
  (s.app.max32655Connected = true ∧ disconnects s.app = n ∧
    ∃ e ∈ Slots.live s.table, isHeartbeat e.1 = true ∧ e.2 + k ≤ queryTicks) ∨ Down (n + 1) s

theorem down_tick {s : Session} (h : Legal s) (hd : Down n s) : Down n s.tick := by
  obtain ⟨hc, hn⟩ := tick_link h
  simp only [Down, hc, hn, hd.1]
  simpa using hd.2

theorem watched_tick {s : Session} (h : Legal s) (hw : Watched n k s) : Watched n (k + 1) s.tick := by
  rcases hw with ⟨hup, hn, e, he, hb, hle⟩ | hd
  · obtain ⟨hc, hn'⟩ := tick_link h
    cases hx : (Slots.tick s.table).1.any isHeartbeat with
    | true =>
      simp only [hx, hup] at hc hn'
      exact Or.inr ⟨hc, by rw [hn', hn]; rfl⟩
    | false =>
      simp only [hx, hup] at hc hn'
      refine Or.inl ⟨hc, by rw [hn', hn]; rfl, ?_⟩
      rcases Slots.tick_of_mem he with ⟨_, hexp⟩ | ⟨hlt, hleft⟩
      · rw [List.any_eq_false] at hx
        exact absurd hb (hx _ hexp)
      · exact ⟨_, hleft, hb, by dsimp only; omega⟩
  · exact Or.inr (down_tick h hd)

/-- What a run without received frames keeps, given what a tick and any other step
keep of it. -/
theorem silent_run {P : Nat → Session → Prop}
    (htick : ∀ k s, Legal s → P k s → P (k + 1) s.tick)
    (hsteady : ∀ k (s s' : Session), s'.app.max32655Connected = s.app.max32655Connected →
      disconnects s'.app = disconnects s.app → (∀ e ∈ Slots.live s.table, e ∈ Slots.live s'.table) →
      P k s → P k s')
    {s : Endpoint} (hr : Regular s) (hp : P k (session s)) {acts : List Act}
    (hq : Runs.Meets step Silent s acts) : P (k + ticks acts) (session (run s acts)) := by
  induction acts generalizing s k with
  | nil => exact hp
  | cons act acts ih =>
    obtain ⟨hs, hr'⟩ := step_refines hr act
    have hstep : P (k + ticks [act]) (session (step s act)) := by
      rw [hs]
      by_cases ht : ticks [act] = 0
      · obtain ⟨hc, hd, hm⟩ := step_steady s hq.1 ht
        rw [ht]
        exact hsteady _ (session s) _ hc hd hm hp
      · cases act with
        | tick => exact htick k _ hr.legal hp
        | _ => exact absurd rfl ht
    have := ih hr' hstep hq.2
    rw [ticks_cons, Nat.add_comm (ticks acts), ← Nat.add_assoc]
    exact this

/-! ### Detection -/

/-- The query of a heartbeat is on watch: it found a slot, or an earlier one holds one. -/
def HeartbeatPending (s : Endpoint) : Prop := ∃ e ∈ pending s, isHeartbeat e.1 = true

theorem heartbeat_pending {s : Endpoint} (hr : Regular s)
    (h : (pending s).length < tfMaxIdLst ∨ HeartbeatPending s) :
    ∃ e ∈ Slots.live (session s).heartbeat.table, isHeartbeat e.1 = true ∧ e.2 ≤ queryTicks := by
  let s0 : Session := { session s with heartbeatCounter := (session s).heartbeatCounter + 1 }
  let text := heartbeatText (session s).heartbeatCounter
  cases hi : Slots.insert (heartbeatQuery s0.ownId) queryTicks s0.table with
  | none =>
    have hn := (Slots.insert_isSome (heartbeatQuery s0.ownId) queryTicks s0.table).not.mp
      (by simp [hi])
    rw [show s0.table.length = tfMaxIdLst from hr.legal.slots] at hn
    obtain ⟨e, he, hb⟩ := h.resolve_left hn
    have hm := ask_keeps heartbeatQuery msgTypeHeartbeat text (s := s0) he
    exact ⟨e, hm, hb, (hr.legal.queries e he).left.2⟩
  | some t =>
    have ht : (session s).heartbeat.table = t :=
      congrArg (·.2.table) (ask_some (s := s0) hi msgTypeHeartbeat text)
    rw [ht]
    exact ⟨_, (Slots.mem_insert hi _).mpr (Or.inl rfl), rfl, Nat.le_refl _⟩

theorem detected_of_watch {s : Endpoint} (hr : Regular s) (hup : s.app.max32655Connected = true)
    (h : (pending s).length < tfMaxIdLst ∨ HeartbeatPending s) : DeadPeerDetected s := by
  intro acts hq hticks
  obtain ⟨hs, hr'⟩ := heartbeat_refines hr
  obtain ⟨e, he, hb, hle⟩ := heartbeat_pending hr h
  have hw : Watched (disconnects s.app) 0 (session (sendHeartbeat s)) := by
    rw [hs]
    exact Or.inl ⟨by rw [(heartbeat_input _).app]; exact hup, by rw [(heartbeat_input _).app]; rfl, e, he, hb, hle⟩
  have hend := silent_run (P := Watched (disconnects s.app)) (fun k s hl hp => watched_tick hl hp)
    (fun k s s' hc hd hm hp => hp.imp
      (fun ⟨h1, h2, e, he, h3⟩ => ⟨hc.trans h1, hd.trans h2, e, hm e he, h3⟩)
      (fun ⟨h1, h2⟩ => ⟨hc.trans h1, hd.trans h2⟩)) hr' hw hq
  rcases hend with ⟨_, _, e, he, _, hle⟩ | ⟨hc, hd⟩
  · have hleft := ((run_refines hr' acts).2.legal.queries e he).left.1
    simp only [queryTicks] at hle
    omega
  · exact ⟨hc, fun _ => hd⟩

theorem detected_of_down {s : Endpoint} (hr : Regular s)
    (hdown : s.app.max32655Connected = false) : DeadPeerDetected s := by
  intro acts hq _
  obtain ⟨hs, hr'⟩ := heartbeat_refines hr
  have hd : Down (disconnects s.app) (session (sendHeartbeat s)) := by
    rw [hs]
    exact ⟨by rw [(heartbeat_input _).app]; exact hdown, by rw [(heartbeat_input _).app]; rfl⟩
  have hend := silent_run (k := 0) (P := fun _ => Down (disconnects s.app))
    (fun _ s hl hp => down_tick hl hp)
    (fun _ s s' hc hd _ hp => ⟨hc.trans hp.1, hd.trans hp.2⟩) hr' hd hq
  exact ⟨hend.1, fun hup => by rw [hdown] at hup; cases hup⟩

theorem ticks_without_heartbeat (n : Nat) {s : Endpoint} (hr : Regular s)
    (hup : s.app.max32655Connected = true) (hn : ∀ e ∈ pending s, isHeartbeat e.1 = false) :
    (run s (List.replicate n .tick)).app.max32655Connected = true := by
  induction n generalizing s with
  | zero => exact hup
  | succ n ih =>
    obtain ⟨hs, hr'⟩ := tick_refines hr
    have hx : (Slots.tick (session s).table).1.any isHeartbeat = false := by
      rw [List.any_eq_false]
      intro q hq
      obtain ⟨m, hm⟩ := Slots.expired_mem hq
      simp [hn _ hm]
    have hc := (tick_link hr.legal).1
    rw [hx, ← hs, session_app, session_app, hup] at hc
    refine ih hr' hc ?_
    intro e he
    rw [pending_session, show session (step s .tick) = _ from hs] at he
    exact hn (e.1, e.2 + 1) (Slots.mem_tick he).2

/-- Where commands hold all four slots, the heartbeat is refused unseen and ticks alone
never take the link down. -/
theorem undetected {s : Endpoint} (hr : Regular s) (hup : s.app.max32655Connected = true)
    (hfull : ¬ (pending s).length < tfMaxIdLst) (hnone : ¬ HeartbeatPending s) :
    ¬ DeadPeerDetected s := by
  intro hdet
  obtain ⟨hs, hr'⟩ := heartbeat_refines hr
  let s0 : Session := { session s with heartbeatCounter := (session s).heartbeatCounter + 1 }
  have hi : Slots.insert (heartbeatQuery s0.ownId) queryTicks s0.table = none := by
    rw [← Option.not_isSome_iff_eq_none, Slots.insert_isSome]
    rw [show s0.table.length = tfMaxIdLst from hr.legal.slots]
    exact hfull
  have htable : (session (sendHeartbeat s)).table = (session s).table := by
    rw [hs]
    exact congrArg (·.2.table) (ask_none (s := s0) hi msgTypeHeartbeat _)
  have hquiet : ∀ n (t : Endpoint), Runs.Meets step Silent t (List.replicate n .tick) := by
    intro n
    induction n with
    | zero =>
      intro _
      trivial
    | succ n ih =>
      intro t
      exact ⟨trivial, ih (transportTick t)⟩
  have hup' := ticks_without_heartbeat 500 hr' (by
    rw [show (sendHeartbeat s).app = (session (sendHeartbeat s)).app from rfl, hs,
      (heartbeat_input _).app]
    exact hup) (by
    intro e he
    rw [pending_session, htable] at he
    by_contra hb
    exact hnone ⟨e, he, by simpa using hb⟩)
  have hdown := (hdet _ (hquiet 500 _) (ticks_replicate 500).ge).1
  rw [hup'] at hdown
  cases hdown

/-- The peer's death is detected exactly when the link is already down, or a query
slot is free for the heartbeat, or an earlier heartbeat is still pending. -/
theorem dead_peer_detected_iff {s : Endpoint} (h : Reachable s) :
    DeadPeerDetected s ↔ s.app.max32655Connected = false ∨
      (pending s).length < tfMaxIdLst ∨ HeartbeatPending s := by
  have hr := regular_of_reachable h
  constructor
  · intro hdet
    by_contra hnot
    simp only [not_or, Bool.not_eq_false] at hnot
    obtain ⟨hup, hfull, hnone⟩ := hnot
    exact undetected hr hup hfull hnone hdet
  · rintro (hdown | hwatch)
    · exact detected_of_down hr hdown
    · cases hc : s.app.max32655Connected with
      | false => exact detected_of_down hr hc
      | true => exact detected_of_watch hr hc hwatch

/-- The first heartbeat has been answered: the link is up and all slots are free. -/
def answered : Endpoint :=
  run (boot fun _ => 0) [.heartbeat, .uartRead (frameBytes 0x80 msgTypeHeartbeat (ascii "HB 0"))]

/-- From then on, the next heartbeat finds a peer that has died. -/
theorem second_heartbeat_detected :
    answered.app.max32655Connected = true ∧ DeadPeerDetected answered := by
  have hup : answered.app.max32655Connected = true := by decide +kernel
  have hfree : (pending answered).length < tfMaxIdLst := by decide +kernel
  exact ⟨hup, (dead_peer_detected_iff ⟨_, _, rfl⟩).mpr (Or.inr (Or.inl hfree))⟩

/-- The peer has answered the first heartbeat, and then four commands have gone out. -/
def crowded : Endpoint :=
  run (boot fun _ => 0)
    ([.heartbeat, .uartRead (frameBytes 0x80 msgTypeHeartbeat (ascii "HB 0"))] ++
      List.replicate 4 (.sendCmd getStatusCmd))

theorem crowded_reachable : Reachable crowded := ⟨_, _, rfl⟩

theorem crowded_undetected : Reachable crowded ∧ ¬ DeadPeerDetected crowded := by
  refine ⟨crowded_reachable, undetected (regular_of_reachable crowded_reachable) ?_ ?_ ?_⟩
  · decide +kernel
  · decide +kernel
  · have h : (pending crowded).all (fun e => !isHeartbeat e.1) = true := by decide +kernel
    rintro ⟨e, he, hb⟩
    simpa [hb] using List.all_eq_true.mp h e he

end UpAndDownESP.Proofs.Heartbeat
