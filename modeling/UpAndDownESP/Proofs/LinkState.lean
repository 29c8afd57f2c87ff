import UpAndDownESP.App.Endpoint

namespace UpAndDownESP.Proofs.LinkState

/-- What bears on the link state and on the reports about it. -/
inductive LinkAct where
  | brokerConnected
  | brokerDisconnected
  | heartbeatReply (data : List UInt8) (len : UInt16)
  | heartbeatTimeout

def linkStep (a : App) : LinkAct → App
  | .brokerConnected => { a with mqtt := (mqttEventHandler .connected a.mqtt).1 }
  | .brokerDisconnected => { a with mqtt := (mqttEventHandler .disconnected a.mqtt).1 }
  | .heartbeatReply data len => onHeartbeat data len a
  | .heartbeatTimeout => onHeartbeatTimeout a

/-- The application once `app_main` is through. -/
def started (msgIds : Nat → Int) : App := (run (boot msgIds) [.mqttInit true]).app

/-- The link reports that were published with success, `true` for connected. -/
def reported (a : App) : List Bool :=
  a.mqtt.attempts.filterMap fun p =>
    if p = ("max32655_connected", true) then some true
    else if p = ("max32655_disconnected", true) then some false
    else none

/-- The list is `b`, not `b`, `b`, and so on. -/
def Alternates : Bool → List Bool → Prop
  | _, [] => True
  | b, x :: xs => x = b ∧ Alternates (!b) xs

/-- The reports alternate from connected on, and while the broker is connected the
last one is right about the link. -/
def Consistent (a : App) : Prop :=
  Alternates true (reported a) ∧
    (mqttIsConnected a.mqtt = true → (reported a).getLastD false = a.max32655Connected)

/-- The link, as the heartbeats show it, is back in the state it had when the broker was
last connected whenever the broker connects again. `up` is the broker connection, `link`
the last heartbeat outcome and `seen` what that was at the last disconnection. -/
def SteadyOffline (up link seen : Bool) : List LinkAct → Prop
  | [] => True
  | .brokerConnected :: acts => (up = true ∨ link = seen) ∧ SteadyOffline true link seen acts
  | .brokerDisconnected :: acts => SteadyOffline false link (if up then link else seen) acts
  | .heartbeatReply _ _ :: acts => SteadyOffline up true seen acts
  | .heartbeatTimeout :: acts => SteadyOffline up false seen acts

theorem alternates_snoc (b : Bool) (xs : List Bool) (x : Bool) :
    Alternates b (xs ++ [x]) ↔ Alternates b xs ∧ x = !xs.getLastD (!b) := by
  induction xs generalizing b with
  | nil => simp [Alternates]
  | cons y ys ih =>
    rw [List.cons_append, Alternates, Alternates, ih, and_assoc]
    refine and_congr_right fun hy => and_congr_right fun _ => ?_
    rw [hy, List.getLastD_cons, Bool.not_not]

/-- The application follows the events, given that it may publish. -/
structure Tracks (up link seen : Bool) (a : App) : Prop where
  broker : a.mqtt.sConnected = up
  flag : a.max32655Connected = link
  client : a.mqtt.sMqttClient = true
  topic : a.mqtt.sTopicEvents.isSome = true
  succeeds : ∀ n, 0 ≤ a.mqtt.msgIds n
  alternates : Alternates true (reported a)
  last : (reported a).getLastD false = if up then link else seen

theorem Tracks.consistent (h : Tracks up link seen a) : Consistent a := by
  refine ⟨h.alternates, ?_⟩
  intro hc
  have hup : up = true := h.broker.symm.trans hc
  rw [h.last, h.flag, if_pos hup]

/-- What the link callbacks publish, and the report that makes if it succeeds. -/
def linkText : Bool → String
  | true => "max32655_connected"
  | false => "max32655_disconnected"

/-- A publication succeeds exactly while the broker is connected. -/
theorem Tracks.reported_publish (h : Tracks up link seen a) (b : Bool) :
    reported (a.publish (linkText b)) = reported a ++ if up then [b] else [] := by
  have ht : a.mqtt.sTopicEvents.isNone = false := by
    rw [← Option.not_isSome, h.topic]
    rfl
  have hp : (a.publish (linkText b)).mqtt.attempts = a.mqtt.attempts ++ [(linkText b, up)] := by
    cases up with
    | false => simp [App.publish, mqttPublishEvent, h.broker]
    | true => simp [App.publish, mqttPublishEvent, h.broker, h.client, ht, h.succeeds]
  rw [reported, hp, List.filterMap_append]
  congr 1
  cases b <;> cases up <;> decide

/-- A change of the link is published, with success or not. -/
theorem Tracks.change (h : Tracks up link seen a) {b : Bool} (hb : link = !b) :
    Tracks up b seen ({ a with max32655Connected := b }.publish (linkText b)) := by
  have hr : reported ({ a with max32655Connected := b }.publish (linkText b)) = _ :=
    h.reported_publish b
  have hm : ({ a with max32655Connected := b }.publish (linkText b)).mqtt.sConnected = up ∧
      ({ a with max32655Connected := b }.publish (linkText b)).mqtt.sMqttClient = true ∧
      ({ a with max32655Connected := b }.publish (linkText b)).mqtt.sTopicEvents.isSome = true ∧
      ∀ n, 0 ≤ ({ a with max32655Connected := b }.publish (linkText b)).mqtt.msgIds n := by
    simp only [App.publish, mqttPublishEvent]
    split
    · exact ⟨h.broker, h.client, h.topic, h.succeeds⟩
    · exact ⟨h.broker, h.client, h.topic, h.succeeds⟩
  refine ⟨hm.1, rfl, hm.2.1, hm.2.2.1, hm.2.2.2, ?_, ?_⟩
  · rw [hr]
    cases up with
    | false => simpa using h.alternates
    | true =>
      rw [if_pos rfl, alternates_snoc]
      exact ⟨h.alternates, by rw [Bool.not_true, h.last, if_pos rfl, hb, Bool.not_not]⟩
  · rw [hr]
    cases up with
    | false => simpa using h.last
    | true => simp

theorem Tracks.reply (h : Tracks up link seen a) (data : List UInt8) (len : UInt16) :
    Tracks up true seen (onHeartbeat data len a) := by
  let a1 := a.called (.onHeartbeat (data.take len.toNat))
  have h1 : Tracks up link seen a1 := { h with }
  cases link with
  | true =>
    have he : onHeartbeat data len a = a1 := by simp [onHeartbeat, h.flag, a1]
    rw [he]
    exact h1
  | false =>
    have he : onHeartbeat data len a =
        { a1 with max32655Connected := true }.publish (linkText true) := by
      simp [onHeartbeat, h.flag, a1, linkText]
    rw [he]
    exact h1.change rfl

theorem Tracks.timeout (h : Tracks up link seen a) : Tracks up false seen (onHeartbeatTimeout a) := by
  let a1 := a.called .onHeartbeatTimeout
  have h1 : Tracks up link seen a1 := { h with }
  cases link with
  | false =>
    have he : onHeartbeatTimeout a = a1 := by simp [onHeartbeatTimeout, h.flag, a1]
    rw [he]
    exact h1
  | true =>
    have he : onHeartbeatTimeout a =
        { a1 with max32655Connected := false }.publish (linkText false) := by
      simp [onHeartbeatTimeout, h.flag, a1, linkText]
    rw [he]
    exact h1.change rfl

/-- From a tracked state the reports stay consistent exactly as long as the link is not
found changed when the broker connects. -/
theorem consistent_iff (acts : List LinkAct) {up link seen : Bool} {a : App}
    (h : Tracks up link seen a) :
    Runs.Along linkStep Consistent a acts ↔ SteadyOffline up link seen acts := by
  induction acts generalizing up link seen a with
  | nil => exact ⟨fun _ => trivial, fun _ => h.consistent⟩
  | cons act acts ih =>
    have hcons : Runs.Along linkStep Consistent a (act :: acts) ↔
        Runs.Along linkStep Consistent (linkStep a act) acts :=
      ⟨fun hr => hr.2, fun hr => ⟨h.consistent, hr⟩⟩
    rw [hcons]
    cases act with
    | brokerConnected =>
      by_cases hs : up = true ∨ link = seen
      · have h' : Tracks true link seen (linkStep a .brokerConnected) :=
          { h with
            broker := rfl
            last := by
              rw [if_pos rfl]
              refine h.last.trans ?_
              rcases hs with hup | he
              · rw [if_pos hup]
              · rw [he, ite_self] }
        rw [ih h', SteadyOffline, and_iff_right hs]
      · -- the report on record is wrong from here on
        refine ⟨fun hr => ?_, fun hm => absurd hm.1 hs⟩
        obtain ⟨hdown, hne⟩ := not_or.mp hs
        have hlast := (hr.first linkStep).2 rfl
        have hrec : (reported (linkStep a .brokerConnected)).getLastD false = seen := by
          refine h.last.trans ?_
          rw [if_neg hdown]
        rw [hrec] at hlast
        exact absurd (h.flag.symm.trans hlast.symm) hne
    | brokerDisconnected =>
      exact ih { h with broker := rfl, last := by rw [if_neg (by decide)]; exact h.last }
    | heartbeatReply data len => exact ih (h.reply data len)
    | heartbeatTimeout => exact ih h.timeout

theorem started_tracks {msgIds : Nat → Int} (h : ∀ n, 0 ≤ msgIds n) :
    Tracks false false false (started msgIds) where
  broker := rfl
  flag := rfl
  client := rfl
  topic := rfl
  succeeds := h
  alternates := trivial
  last := rfl

/-- Where publishing while connected succeeds, the reports are consistent along a run
exactly when no broker connection finds the link in another state than the last one
left it in. -/
theorem link_reports_consistent_iff {msgIds : Nat → Int} (h : ∀ n, 0 ≤ msgIds n)
    (acts : List LinkAct) :
    Runs.Along linkStep Consistent (started msgIds) acts ↔ SteadyOffline false false false acts :=
  consistent_iff acts (started_tracks h)

theorem link_reports_through_outage :
    Runs.Along linkStep Consistent (started fun _ => 0)
      [.brokerConnected, .heartbeatReply [] 0, .brokerDisconnected, .brokerConnected] :=
  (link_reports_consistent_iff (fun _ => le_refl 0) _).mpr (by simp [SteadyOffline])

/-- The link is lost while the broker is away, and the old report stands. -/
theorem link_lost_offline :
    ¬ Runs.Along linkStep Consistent (started fun _ => 0)
      [.brokerConnected, .heartbeatReply [] 0, .brokerDisconnected, .heartbeatTimeout,
        .brokerConnected] := by
  rw [consistent_iff _ (started_tracks fun _ => le_refl 0)]
  simp [SteadyOffline]

end UpAndDownESP.Proofs.LinkState
