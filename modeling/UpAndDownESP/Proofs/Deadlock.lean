import UpAndDownESP.Lib.Runs
import UpAndDownESP.System.Tasks

namespace UpAndDownESP.Proofs.Deadlock
open RecMutex

/-! ### Who has which lock -/

/-- How often each task has `tf_mutex`, by where it is. -/
def tfDepth (s : Tasks) : Task → Nat
  | .tfTask => match s.tf with
    | .reading | .taking _ => 0
    | _ => 1
  | .mqttTask => match s.mqtt with
    | .sent => 1
    | _ => 0
  | .protocolTask => match s.protocol with
    | .inside => 1
    | _ => 0

def clientDepth (s : Tasks) : Task → Nat
  | .tfTask => match s.tf with
    | .published _ _ => 1
    | _ => 0
  | .mqttTask => match s.mqtt with
    | .waiting | .dispatching _ => 0
    | .subscribed => 2
    | _ => 1
  | .protocolTask => 0

/-- The locks are where the tasks think they are, and events come only to a client that
`mqtt_init` has made. -/
structure Consistent (s : Tasks) : Prop where
  tf : s.tfMutex.Agrees (tfDepth s)
  client : s.clientLock.Agrees (clientDepth s)
  made : s.esp.app.mqtt.sMqttClient = true → s.esp.app.mqtt.sTopicCmd.isSome = true
  event : s.mqtt = .waiting ∨ s.esp.app.mqtt.sTopicCmd.isSome = true

theorem start_consistent (msgIds : Nat → Int) : Consistent (Tasks.start msgIds) where
  tf := fun t => by cases t <;> rfl
  client := fun t => by cases t <;> rfl
  made := by intro h; cases h
  event := Or.inl rfl

theorem handler_topic (event : MqttEvent) (m : Mqtt) :
    (mqttEventHandler event m).1.sTopicCmd = m.sTopicCmd ∧
      (mqttEventHandler event m).1.sMqttClient = m.sMqttClient := by
  cases event <;> exact ⟨rfl, rfl⟩

theorem command_app (payload : List UInt8) (len : Nat) (s : Endpoint) :
    (maxCommOnMqttCommand payload len s).app = s.app := by
  unfold maxCommOnMqttCommand
  split <;> rfl

/-- A step of `tf_task`: the other tasks are where they were, and the statics that
`mqtt_init` sets are as it set them. -/
theorem Consistent.tf_moved {s s' : Tasks} (h : Consistent s)
    (htf : Moved .tfTask s.tfMutex (tfDepth s .tfTask) s'.tfMutex (tfDepth s' .tfTask))
    (hclient : Moved .tfTask s.clientLock (clientDepth s .tfTask) s'.clientLock
      (clientDepth s' .tfTask))
    (hmqtt : s'.mqtt = s.mqtt) (hprotocol : s'.protocol = s.protocol)
    (htopic : s'.esp.app.mqtt.sTopicCmd = s.esp.app.mqtt.sTopicCmd)
    (hmade : s'.esp.app.mqtt.sMqttClient = s.esp.app.mqtt.sMqttClient) : Consistent s' where
  tf := h.tf.moved htf fun u hu => by
    cases u with
    | tfTask => exact absurd rfl hu
    | mqttTask => simp only [tfDepth, hmqtt]
    | protocolTask => simp only [tfDepth, hprotocol]
  client := h.client.moved hclient fun u hu => by
    cases u with
    | tfTask => exact absurd rfl hu
    | mqttTask => simp only [clientDepth, hmqtt]
    | protocolTask => rfl
  made := by rw [hmade, htopic]; exact h.made
  event := by rw [hmqtt, htopic]; exact h.event

/-- A step of the MQTT task. It handles events only with the topics set. -/
theorem Consistent.mqtt_moved {s s' : Tasks} (h : Consistent s)
    (htf : Moved .mqttTask s.tfMutex (tfDepth s .mqttTask) s'.tfMutex (tfDepth s' .mqttTask))
    (hclient : Moved .mqttTask s.clientLock (clientDepth s .mqttTask) s'.clientLock
      (clientDepth s' .mqttTask))
    (htask : s'.tf = s.tf) (hprotocol : s'.protocol = s.protocol)
    (htopic : s'.esp.app.mqtt.sTopicCmd = s.esp.app.mqtt.sTopicCmd)
    (hmade : s'.esp.app.mqtt.sMqttClient = s.esp.app.mqtt.sMqttClient)
    (hevent : s'.mqtt = .waiting ∨ s.esp.app.mqtt.sTopicCmd.isSome = true) : Consistent s' where
  tf := h.tf.moved htf fun u hu => by
    cases u with
    | tfTask => simp only [tfDepth, htask]
    | mqttTask => exact absurd rfl hu
    | protocolTask => simp only [tfDepth, hprotocol]
  client := h.client.moved hclient fun u hu => by
    cases u with
    | tfTask => simp only [clientDepth, htask]
    | mqttTask => exact absurd rfl hu
    | protocolTask => rfl
  made := by rw [hmade, htopic]; exact h.made
  event := by rw [htopic]; exact hevent

/-- A step of `protocol_task`, which never has the client lock. -/
theorem Consistent.protocol_moved {s s' : Tasks} (h : Consistent s)
    (htf : Moved .protocolTask s.tfMutex (tfDepth s .protocolTask) s'.tfMutex
      (tfDepth s' .protocolTask))
    (hclient : s'.clientLock = s.clientLock) (htask : s'.tf = s.tf) (hmqtt : s'.mqtt = s.mqtt)
    (happ : s'.esp.app = s.esp.app) : Consistent s' where
  tf := h.tf.moved htf fun u hu => by
    cases u with
    | tfTask => simp only [tfDepth, htask]
    | mqttTask => simp only [tfDepth, hmqtt]
    | protocolTask => exact absurd rfl hu
  client := by
    have hsame : clientDepth s' = clientDepth s := by
      funext u
      cases u <;> simp only [clientDepth, htask, hmqtt]
    rw [hclient, hsame]
    exact h.client
  made := by rw [happ]; exact h.made
  event := by rw [hmqtt, happ]; exact h.event

theorem runTf_consistent {s : Tasks} (h : Consistent s) : Consistent s.runTf := by
  obtain ⟨esp, tfMutex, clientLock, tf, mqtt, protocol⟩ := s
  cases tf with
  | reading => exact h
  | taking rx =>
    simp only [Tasks.runTf]
    cases ht : tfMutex.take .tfTask with
    | none => exact h
    | some m => exact h.tf_moved (.take ht) .stay rfl rfl rfl rfl
  | inside todo =>
    cases todo with
    | nil => exact h.tf_moved .give .stay rfl rfl rfl rfl
    | cons payload todo =>
      simp only [Tasks.runTf]
      split
      · exact h.tf_moved .stay .stay rfl rfl rfl rfl
      · exact h.tf_moved .stay .stay rfl rfl rfl rfl
  | publishing payload todo =>
    simp only [Tasks.runTf]
    cases ht : clientLock.take .tfTask with
    | none => exact h
    | some m => exact h.tf_moved .stay (.take ht) rfl rfl rfl rfl
  | published payload todo => exact h.tf_moved .stay .give rfl rfl rfl rfl

theorem runMqtt_consistent {s : Tasks} (h : Consistent s) : Consistent s.runMqtt := by
  obtain ⟨esp, tfMutex, clientLock, tf, mqtt, protocol⟩ := s
  cases mqtt with
  | waiting => exact h
  | dispatching event =>
    have hready := h.event.resolve_left (by simp)
    simp only [Tasks.runMqtt]
    cases ht : clientLock.take .mqttTask with
    | none => exact h
    | some m => exact h.mqtt_moved .stay (.take ht) rfl rfl rfl rfl (Or.inr hready)
  | handling event =>
    have hready := h.event.resolve_left (by simp)
    obtain ⟨htopic, hclient⟩ := handler_topic event esp.app.mqtt
    simp only [Tasks.runMqtt]
    -- wherever the task goes on, it keeps the client lock
    split
    · split
      · exact h.mqtt_moved .stay .stay rfl rfl htopic hclient (Or.inr hready)
      · exact h.mqtt_moved .stay .stay rfl rfl htopic hclient (Or.inr hready)
    · split
      · exact h.mqtt_moved .stay .stay rfl rfl htopic hclient (Or.inr hready)
      · exact h.mqtt_moved .stay .stay rfl rfl htopic hclient (Or.inr hready)
  | subscribing =>
    have hready := h.event.resolve_left (by simp)
    simp only [Tasks.runMqtt]
    cases ht : clientLock.take .mqttTask with
    | none => exact h
    | some m => exact h.mqtt_moved .stay (.take ht) rfl rfl rfl rfl (Or.inr hready)
  | subscribed =>
    have hready := h.event.resolve_left (by simp)
    exact h.mqtt_moved .stay .give rfl rfl rfl rfl (Or.inr hready)
  | sending payload len =>
    have hready := h.event.resolve_left (by simp)
    have happ := command_app payload len esp
    simp only [Tasks.runMqtt]
    cases ht : tfMutex.take .mqttTask with
    | none => exact h
    | some m =>
      exact h.mqtt_moved (.take ht) .stay rfl rfl (by rw [happ]) (by rw [happ]) (Or.inr hready)
  | sent =>
    have hready := h.event.resolve_left (by simp)
    exact h.mqtt_moved .give .stay rfl rfl rfl rfl (Or.inr hready)
  | leaving => exact h.mqtt_moved .stay .give rfl rfl rfl rfl (Or.inl rfl)

theorem runProtocol_consistent {s : Tasks} (h : Consistent s) : Consistent s.runProtocol := by
  obtain ⟨esp, tfMutex, clientLock, tf, mqtt, protocol⟩ := s
  cases protocol with
  | sleeping => exact h
  | taking =>
    simp only [Tasks.runProtocol]
    cases ht : tfMutex.take .protocolTask with
    | none => exact h
    | some m => exact h.protocol_moved (.take ht) rfl rfl rfl rfl
  | inside => exact h.protocol_moved .give rfl rfl rfl rfl

theorem step_consistent {s : Tasks} (h : Consistent s) (a : Sched) : Consistent (s.step a) := by
  cases a with
  | mqttInit client =>
    have hinit : (UpAndDownESP.step s.esp (.mqttInit client)).app.mqtt.sTopicCmd.isSome = true := by
      simp only [UpAndDownESP.step]
      split
      · rfl
      · rename_i hsome
        exact Option.isSome_iff_ne_none.mpr hsome
    exact ⟨h.tf, h.client, fun _ => hinit, Or.inr hinit⟩
  | uartRead rx =>
    obtain ⟨esp, tfMutex, clientLock, tf, mqtt, protocol⟩ := s
    cases tf with
    | reading => exact h.tf_moved .stay .stay rfl rfl rfl rfl
    | _ => exact h
  | mqttEvent event =>
    obtain ⟨esp, tfMutex, clientLock, tf, mqtt, protocol⟩ := s
    cases mqtt with
    | waiting =>
      simp only [Tasks.step]
      split
      · rename_i hmade
        exact h.mqtt_moved .stay .stay rfl rfl rfl rfl (Or.inr (h.made hmade))
      · exact h
    | _ => exact h
  | heartbeatDue =>
    obtain ⟨esp, tfMutex, clientLock, tf, mqtt, protocol⟩ := s
    cases protocol with
    | sleeping => exact h.protocol_moved .stay rfl rfl rfl rfl
    | _ => exact h
  | run t =>
    cases t with
    | tfTask => exact runTf_consistent h
    | mqttTask => exact runMqtt_consistent h
    | protocolTask => exact runProtocol_consistent h

/-! ### Commitment -/

/-- Two committed tasks: each waits, now or soon, for the other's lock. -/
def Collide (s : Tasks) : Prop := s.tfCommitted = true ∧ s.mqttCommitted = true

/-- The only tasks that can wait for each other. -/
theorem cyclic_iff {s : Tasks} (h : Consistent s) : s.CyclicWait ↔
    (∃ payload todo, s.tf = .publishing payload todo) ∧ ∃ data len, s.mqtt = .sending data len := by
  constructor
  · intro hboth
    obtain ⟨t, u, -, ht, hwt, hu, hwu⟩ := hboth
    have htd := (h.tf.heldBy_iff t).mp ht
    have hud := (h.client.heldBy_iff u).mp hu
    have htf : t = .tfTask := by
      cases t with
      | tfTask => rfl
      | mqttTask =>
        rcases hwt with ⟨event, hc⟩ | hc <;> simp [tfDepth, hc] at htd
      | protocolTask => exact hwt.elim
    have hmqtt : u = .mqttTask := by
      cases u with
      | tfTask =>
        obtain ⟨rx, hc⟩ := hwu
        simp [clientDepth, hc] at hud
      | mqttTask => rfl
      | protocolTask => cases hud
    subst htf hmqtt
    exact ⟨hwt, hwu⟩
  · intro hboth
    obtain ⟨⟨payload, todo, hc⟩, data, len, hm⟩ := hboth
    exact ⟨.tfTask, .mqttTask, by decide, (h.tf.heldBy_iff _).mpr (by simp [tfDepth, hc]),
      ⟨payload, todo, hc⟩, (h.client.heldBy_iff _).mpr (by simp [clientDepth, hm]),
      ⟨data, len, hm⟩⟩

theorem cyclic_collide {s : Tasks} (h : Consistent s) (hw : s.CyclicWait) : Collide s := by
  obtain ⟨⟨payload, todo, hc⟩, data, len, hm⟩ := (cyclic_iff h).mp hw
  exact ⟨by simp only [Tasks.tfCommitted, hc], by simp only [Tasks.mqttCommitted, hm]⟩

theorem apart_of_tf {s : Tasks} (h : s.tfCommitted = false) : ¬ Collide s := by
  intro hc
  rw [hc.1] at h
  cases h

theorem apart_of_mqtt {s : Tasks} (h : s.mqttCommitted = false) : ¬ Collide s := by
  intro hc
  rw [hc.2] at h
  cases h

/-- The MQTT statics decide both commitments together with the tasks' places. -/
theorem collide_same {s s' : Tasks} (hn : ¬ Collide s) (ht : s'.tf = s.tf) (hm : s'.mqtt = s.mqtt)
    (hs : s'.esp.app.mqtt = s.esp.app.mqtt) : ¬ Collide s' := by
  simp only [Collide, Tasks.tfCommitted, Tasks.mqttCommitted, ht, hm, hs] at hn ⊢
  exact hn

/-- A committed task has the lock it is committed on. -/
theorem committed_holds {s : Tasks} (hm : s.mqttCommitted = true) :
    0 < clientDepth s .mqttTask := by
  simp only [Tasks.mqttCommitted] at hm
  split at hm
  · rename_i hc
    simp [clientDepth, hc]
  · rename_i hc
    simp [clientDepth, hc]
  · cases hm

theorem runTf_apart {s : Tasks} (h : Consistent s) (hn : ¬ Collide s)
    (ha : s.Apart (.run .tfTask)) : ¬ Collide s.runTf := by
  cases hc : s.tf with
  | reading =>
    simp only [Tasks.runTf, hc]
    exact hn
  | taking rx =>
    simp only [Tasks.runTf, hc]
    cases ht : s.tfMutex.take .tfTask with
    | none => exact hn
    | some m =>
      intro hboth
      obtain ⟨htf, hmqtt⟩ := hboth
      have hfree := h.tf.free ht (by simp [tfDepth, hc])
      have hpub : publications s.esp (tfTask rx s.esp) ≠ [] ∧ canPublish s.esp.app.mqtt = true := by
        simp only [Tasks.tfCommitted] at htf
        split at htf
        · rename_i payload todo he
          injection he with he
          exact ⟨by rw [he]; simp, htf⟩
        · rename_i he
          cases he
        · cases htf
      have hno := ha rx hc hfree hpub.2 hpub.1
      have hsame : Tasks.mqttCommitted s = true := hmqtt
      rw [hsame] at hno
      cases hno
  | inside todo =>
    cases todo with
    | nil =>
      simp only [Tasks.runTf, hc]
      exact apart_of_tf rfl
    | cons payload todo =>
      simp only [Tasks.runTf, hc]
      split
      · rename_i hp
        intro hboth
        obtain ⟨-, hmqtt⟩ := hboth
        exact hn ⟨by simp [Tasks.tfCommitted, hc, hp], hmqtt⟩
      · rename_i hp
        intro hboth
        obtain ⟨htf, -⟩ := hboth
        simp only [Tasks.tfCommitted] at htf
        split at htf
        · exact hp htf
        · rename_i he
          cases he
        · cases htf
  | publishing payload todo =>
    simp only [Tasks.runTf, hc]
    cases ht : s.clientLock.take .tfTask with
    | none => exact hn
    | some m =>
      exact apart_of_tf rfl
  | published payload todo =>
    simp only [Tasks.runTf, hc]
    intro hboth
    obtain ⟨-, hmqtt⟩ := hboth
    have hm := committed_holds hmqtt
    cases h.client.exclusive (t := .tfTask) (u := .mqttTask) (by simp [clientDepth, hc]) hm

theorem handler_data {event : MqttEvent} {m : Mqtt} (h : (mqttEventHandler event m).2 = some r) :
    (mqttEventHandler event m).1 = m := by
  cases event <;> first | rfl | cases h

theorem runMqtt_apart {s : Tasks} (hn : ¬ Collide s)
    (h : Consistent s) (ha : s.Apart (.run .mqttTask)) : ¬ Collide s.runMqtt := by
  cases hc : s.mqtt with
  | waiting =>
    simp only [Tasks.runMqtt, hc]
    exact hn
  | dispatching event =>
    simp only [Tasks.runMqtt, hc]
    cases ht : s.clientLock.take .mqttTask with
    | none => exact hn
    | some m =>
      intro hboth
      obtain ⟨htf, hmqtt⟩ := hboth
      have hfree := h.client.free ht (by simp [clientDepth, hc])
      have hno := ha event hc hfree hmqtt
      have hsame : Tasks.tfCommitted s = true := htf
      rw [hsame] at hno
      cases hno
  | handling event =>
    simp only [Tasks.runMqtt, hc]
    cases hr : (mqttEventHandler event s.esp.app.mqtt).2 with
    | some r =>
      rw [handler_data hr]
      dsimp only
      split
      · rename_i hsome
        intro hboth
        obtain ⟨htf, -⟩ := hboth
        exact hn ⟨htf, by simp [Tasks.mqttCommitted, hc, sendsCommand, hr, hsome]⟩
      · exact apart_of_mqtt rfl
    | none =>
      dsimp only
      split
      · exact apart_of_mqtt rfl
      · exact apart_of_mqtt rfl
  | subscribing =>
    simp only [Tasks.runMqtt, hc]
    cases ht : s.clientLock.take .mqttTask with
    | none => exact hn
    | some m =>
      exact apart_of_mqtt rfl
  | sending payload len =>
    simp only [Tasks.runMqtt, hc]
    cases ht : s.tfMutex.take .mqttTask with
    | none => exact hn
    | some m =>
      exact apart_of_mqtt rfl
  | _ =>
    simp only [Tasks.runMqtt, hc]
    exact apart_of_mqtt rfl

theorem runProtocol_apart {s : Tasks} (hn : ¬ Collide s) : ¬ Collide s.runProtocol := by
  unfold Tasks.runProtocol
  split
  · exact hn
  · split
    · exact hn
    · exact collide_same hn rfl rfl rfl
  · exact collide_same hn rfl rfl rfl

/-- Steps that keep the tasks apart do not let them collide. -/
theorem step_apart {s : Tasks} (h : Consistent s) (hn : ¬ Collide s) {a : Sched}
    (ha : s.Apart a) : ¬ Collide (s.step a) := by
  cases a with
  | mqttInit client =>
    simp only [Tasks.step, UpAndDownESP.step]
    split
    · rename_i htopic
      have hwait := h.event.resolve_right (by rw [htopic]; decide)
      intro hboth
      obtain ⟨-, hmqtt⟩ := hboth
      simp only [Tasks.mqttCommitted, hwait] at hmqtt
      cases hmqtt
    · exact hn
  | uartRead rx =>
    simp only [Tasks.step]
    split
    · exact apart_of_tf rfl
    · exact hn
  | mqttEvent event =>
    simp only [Tasks.step]
    split
    · split
      · exact apart_of_mqtt rfl
      · exact hn
    · exact hn
  | heartbeatDue =>
    simp only [Tasks.step]
    split
    · exact collide_same hn rfl rfl rfl
    · exact hn
  | run t =>
    cases t with
    | tfTask => exact runTf_apart h hn ha
    | mqttTask => exact runMqtt_apart hn h ha
    | protocolTask => exact runProtocol_apart hn

/-! ### Collisions -/

/-- A step that does not keep the tasks apart makes them collide. -/
theorem apart_exact {s : Tasks} {a : Sched} (ha : ¬ s.Apart a) : Collide (s.step a) := by
  cases a with
  | run t =>
    cases t with
    | tfTask =>
      simp only [Tasks.Apart, not_forall, Bool.not_eq_false] at ha
      obtain ⟨rx, hc, hfree, hcan, hpub, hm⟩ := ha
      obtain ⟨payload, todo, hp⟩ := List.exists_cons_of_ne_nil hpub
      simp only [Tasks.step, Tasks.runTf, hc, hfree, take, hp]
      exact ⟨hcan, hm⟩
    | mqttTask =>
      simp only [Tasks.Apart, not_forall, Bool.not_eq_false] at ha
      obtain ⟨event, hc, hfree, hsends, ht⟩ := ha
      simp only [Tasks.step, Tasks.runMqtt, hc, hfree, take]
      exact ⟨ht, hsends⟩
    | protocolTask => exact absurd trivial ha
  | _ => exact absurd trivial ha

/-- Of colliding tasks each has the lock that the other will want. -/
theorem collide_blocked {s : Tasks} (h : Consistent s) (hc : Collide s) :
    s.clientLock.take .tfTask = none ∧ s.tfMutex.take .mqttTask = none := by
  have htf : 0 < tfDepth s .tfTask := by
    have ht := hc.1
    simp only [Tasks.tfCommitted] at ht
    split at ht
    · rename_i he
      simp [tfDepth, he]
    · rename_i he
      simp [tfDepth, he]
    · cases ht
  exact ⟨(blocked_iff _ _).mpr ⟨.mqttTask, by decide,
      (h.client.heldBy_iff _).mpr (committed_holds hc.2)⟩,
    (blocked_iff _ _).mpr ⟨.tfTask, by decide, (h.tf.heldBy_iff _).mpr htf⟩⟩

theorem collide_tf {s : Tasks} (h : Consistent s) (hc : Collide s) :
    ∃ payload todo, s.runTf = { s with tf := .publishing payload todo } := by
  have ht := hc.1
  simp only [Tasks.tfCommitted] at ht
  split at ht
  · rename_i payload todo he
    exact ⟨payload, todo, by simp only [Tasks.runTf, he, ht, if_true]⟩
  · rename_i payload todo he
    refine ⟨payload, todo, ?_⟩
    simp only [Tasks.runTf, he, (collide_blocked h hc).1]
    rw [← he]
  · cases ht

theorem collide_mqtt {s : Tasks} (h : Consistent s) (hc : Collide s) :
    ∃ data len, s.runMqtt = { s with mqtt := .sending data len } := by
  have hm := hc.2
  simp only [Tasks.mqttCommitted] at hm
  split at hm
  · rename_i event he
    simp only [sendsCommand] at hm
    split at hm
    · rename_i data len hr
      refine ⟨data, len, ?_⟩
      simp only [Tasks.runMqtt, he, hr, hm, if_true, handler_data hr]
    · cases hm
  · rename_i data len he
    refine ⟨data, len, ?_⟩
    simp only [Tasks.runMqtt, he, (collide_blocked h hc).2]
    rw [← he]
  · cases hm

/-- Colliding tasks wait for each other as soon as each has gone on. -/
theorem collide_cyclic {s : Tasks} (h : Consistent s) (hc : Collide s) :
    (Runs.run Tasks.step s [.run .tfTask, .run .mqttTask]).CyclicWait := by
  obtain ⟨payload, todo, ht⟩ := collide_tf h hc
  have h1 : Consistent s.runTf := runTf_consistent h
  have hc1 : Collide s.runTf := by
    rw [ht]
    exact ⟨rfl, hc.2⟩
  obtain ⟨data, len, hm⟩ := collide_mqtt h1 hc1
  apply (cyclic_iff (runMqtt_consistent h1)).mpr
  rw [hm, ht]
  exact ⟨⟨payload, todo, rfl⟩, data, len, rfl⟩

/-- Nothing ends a cyclic wait. -/
theorem step_cyclic {s : Tasks} (h : Consistent s) (hw : s.CyclicWait) (a : Sched) :
    (s.step a).CyclicWait := by
  obtain ⟨htf, hmqtt⟩ := collide_blocked h (cyclic_collide h hw)
  obtain ⟨⟨payload, todo, hc⟩, data, len, hm⟩ := (cyclic_iff h).mp hw
  apply (cyclic_iff (step_consistent h a)).mpr
  have hsame : (s.step a).tf = s.tf ∧ (s.step a).mqtt = s.mqtt := by
    cases a with
    | mqttInit client => exact ⟨rfl, rfl⟩
    | uartRead rx => simp only [Tasks.step, hc, and_self]
    | mqttEvent event => simp only [Tasks.step, hm, and_self]
    | heartbeatDue =>
      simp only [Tasks.step]
      split <;> exact ⟨rfl, rfl⟩
    | run t =>
      cases t with
      | tfTask => simp only [Tasks.step, Tasks.runTf, hc, htf, and_self]
      | mqttTask => simp only [Tasks.step, Tasks.runMqtt, hm, hmqtt, and_self]
      | protocolTask =>
        simp only [Tasks.step, Tasks.runProtocol]
        split
        · exact ⟨rfl, rfl⟩
        · split <;> exact ⟨rfl, rfl⟩
        · exact ⟨rfl, rfl⟩
  rw [hsame.1, hsame.2]
  exact ⟨⟨payload, todo, hc⟩, data, len, hm⟩

/-- As long as the tasks are kept apart they never wait for each other; otherwise they do
as soon as each has gone on, and for ever. -/
theorem deadlock_free_while_apart (msgIds : Nat → Int) (as : List Sched) :
    (Runs.Meets Tasks.step Tasks.Apart (Tasks.start msgIds) as →
      Runs.Along Tasks.step (fun s => ¬ s.CyclicWait) (Tasks.start msgIds) as) ∧
    ∀ a, ¬ (Runs.run Tasks.step (Tasks.start msgIds) as).Apart a → ∀ more,
      (Runs.run Tasks.step (Tasks.start msgIds)
        (as ++ a :: .run .tfTask :: .run .mqttTask :: more)).CyclicWait := by
  have hstart := start_consistent msgIds
  constructor
  · intro hm
    rw [Runs.along_iff_prefix]
    rintro bs cs rfl
    obtain ⟨hbs, -⟩ := (Runs.Meets.append Tasks.step).mp hm
    have hinv := Runs.invariant_of_meets Tasks.step (I := fun s => Consistent s ∧ ¬ Collide s)
      (fun s a hs ha => ⟨step_consistent hs.1 a, step_apart hs.1 hs.2 ha⟩)
      ⟨hstart, fun hc => by cases hc.1⟩ hbs
    intro hw
    exact hinv.2 (cyclic_collide hinv.1 hw)
  · intro a ha more
    have hs := Runs.invariant Tasks.step (I := Consistent) (fun s a hs => step_consistent hs a)
      hstart as
    have hwait := collide_cyclic (step_consistent hs a) (apart_exact ha)
    have hcons := Runs.invariant Tasks.step (I := Consistent)
      (fun s a hs => step_consistent hs a) (step_consistent hs a) [.run .tfTask, .run .mqttTask]
    rw [Runs.run_append]
    exact (Runs.invariant Tasks.step (I := fun s => Consistent s ∧ s.CyclicWait)
      (fun s a hs => ⟨step_consistent hs.1 a, step_cyclic hs.1 hs.2 a⟩) ⟨hcons, hwait⟩ more).2

/-- The MAX32655 reports a floor while the broker delivers an e-stop. -/
def estopMeetsReport : List Sched :=
  [.mqttInit true, .mqttEvent .connected] ++ List.replicate 5 (.run .mqttTask) ++
  [.uartRead (frameBytes 0x00 msgTypeEvent [protoEvtStoppedAtFloor, 0x02]), .run .tfTask,
    .mqttEvent (.data mqttTopicCmd mqttTopicCmd.length (ascii "estop") 5 0 5),
    .run .mqttTask, .run .mqttTask, .run .tfTask]

theorem estop_deadlocks :
    ¬ Runs.Along Tasks.step (fun s => ¬ s.CyclicWait) (Tasks.start fun _ => 0)
      estopMeetsReport := by
  intro h
  have hwait : (Runs.run Tasks.step (Tasks.start fun _ => 0) estopMeetsReport).CyclicWait :=
    ⟨.tfTask, .mqttTask, by decide, ⟨0, by decide +kernel⟩,
      ⟨"stopped_at_floor_2", [], by decide +kernel⟩, ⟨0, by decide +kernel⟩,
      ⟨ascii "estop", 5, by decide +kernel⟩⟩
  exact h.last Tasks.step hwait

end UpAndDownESP.Proofs.Deadlock
