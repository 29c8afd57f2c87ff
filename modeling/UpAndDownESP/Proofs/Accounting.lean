import UpAndDownESP.Proofs.Capacity
import UpAndDownESP.Proofs.Dashboard

namespace UpAndDownESP.Proofs.Accounting
open Table Receiving Refinement Capacity Session Dashboard

def isCommand (q : PendingQuery) : Bool := q.fn == .cmdResponseListener

/-- The command listeners still pending. -/
def pendingCommands (s : Endpoint) : Nat := (pending s).countP fun e => isCommand e.1

def isResponse : Call → Bool
  | .onCmdResponse _ => true
  | _ => false

def responses (a : App) : Nat := a.calls.countP isResponse

def timeouts (a : App) : Nat := a.calls.countP (· == .onCmdTimeout)

/-- Every accepted command is pending or has had its one outcome. -/
def Balanced (s : Endpoint) : Prop :=
  acceptedCmds s = pendingCommands s + responses s.app + timeouts s.app

/-- An outcome in the dashboard's words. -/
def isOutcomeText (text : String) : Bool :=
  text.toList.take 4 == "cmd_".toList || text.toList.take 7 == "status:".toList

/-- Each reported outcome has been passed to `mqtt_publish_event`, once. -/
def Published (s : Endpoint) : Prop :=
  (s.app.mqtt.attempts.map Prod.fst).countP isOutcomeText = responses s.app + timeouts s.app

/-- The byte completes a frame too short for a response, and the first query that
waits for the frame's ID is a command. -/
def Malformed (s : Endpoint) (c : UInt8) : Prop :=
  ∃ msg e, (parseChar s.tf.parser c).2 = some msg ∧
    (pending s).find? (fun e => awaits msg e.1) = some e ∧ isCommand e.1 = true ∧
    msg.len.toNat < sizeofCmdResponse

/-- No byte of the read does. -/
def WellFormed (s : Endpoint) : Act → Prop
  | .uartRead rx => ∀ before c after, rx = before ++ c :: after → ¬ Malformed (uartRead before s) c
  | _ => True

/-! ### Outcomes of the listeners -/

/-- The commands accounted for, all but those lost. -/
def outcomes (a : App) : Nat := responses a + timeouts a

theorem outcomes_called {a a' : App} {c : Call} (h : a'.calls = a.calls ++ [c]) :
    outcomes a' = outcomes a + if isResponse c || c == .onCmdTimeout then 1 else 0 := by
  simp only [outcomes, responses, timeouts, h, List.countP_append, List.countP_singleton]
  cases c <;> simp [isResponse] <;> omega

theorem answer_command (id : UInt8) (p : Parser) (a : App) :
    outcomes (answer (commandQuery id) (receivedMsg p) a) =
      outcomes a + if p.len.toNat < sizeofCmdResponse then 0 else 1 := by
  by_cases hl : p.len.toNat < sizeofCmdResponse
  · simp [answer, commandQuery, callbacks, cmdResponseListener, receivedMsg, hl]
  · rw [if_neg hl, outcomes_called (c := .onCmdResponse (CmdResponse.ofBytes p.data.toList))]
    · rfl
    · simp [answer, commandQuery, callbacks, cmdResponseListener, receivedMsg, hl, protoCfg]

theorem answer_heartbeat (id : UInt8) (p : Parser) (a : App) :
    outcomes (answer (heartbeatQuery id) (receivedMsg p) a) = outcomes a := by
  rw [outcomes_called (c := .onHeartbeat (p.data.toList.take p.len.toNat))]
  · rfl
  · exact onHeartbeat_calls _ _ a

theorem event_outcomes (p : Parser) (a : App) :
    outcomes (eventListener protoCfg (receivedMsg p) a).2 = outcomes a := by
  by_cases hl : p.len.toNat < sizeofStateEvent
  · simp [eventListener, receivedMsg, hl]
  · rw [outcomes_called (c := .onStateEvent (StateEvent.ofBytes p.data.toList))]
    · rfl
    · simp [eventListener, receivedMsg, hl, protoCfg]

theorem expire_outcomes {q : PendingQuery} (hq : q = commandQuery q.id ∨ q = heartbeatQuery q.id)
    (a : App) : outcomes (expire (callbacks protoCfg) a q) =
      outcomes a + if isCommand q then 1 else 0 := by
  rcases hq with he | he
  · rw [he]
    exact outcomes_called (onCmdTimeout_calls a)
  · rw [he]
    exact outcomes_called (onHeartbeatTimeout_calls a)

theorem expire_all_outcomes (qs : List PendingQuery)
    (hq : ∀ q ∈ qs, q = commandQuery q.id ∨ q = heartbeatQuery q.id) (a : App) :
    outcomes (qs.foldl (expire (callbacks protoCfg)) a) = outcomes a + qs.countP isCommand := by
  induction qs generalizing a with
  | nil => rfl
  | cons q qs ih =>
    rw [List.foldl_cons, ih (fun x hx => hq x (by simp [hx])), expire_outcomes (hq q (by simp)),
      List.countP_cons]
    omega

/-! ### Outcomes published -/

def isOutcome (c : Call) : Bool := isResponse c || c == .onCmdTimeout

theorem countP_outcome (cs : List Call) :
    cs.countP isOutcome = cs.countP isResponse + cs.countP (· == .onCmdTimeout) := by
  induction cs with
  | nil => rfl
  | cons c cs ih =>
    simp only [List.countP_cons, ih]
    cases c <;> simp [isOutcome, isResponse] <;> omega

def isOutcomeKind : Kind → Bool
  | .cmdError | .cmdOk | .status | .cmdTimeout => true
  | _ => false

theorem label_outcome (k : Kind) : isOutcomeText (labelOf k) = isOutcomeKind k := by
  cases k <;> decide

theorem text_outcome (r : Spec.Report) : isOutcomeText r.text = isOutcomeKind (kindOf r) := by
  have htake : ∀ (text : String) (n : Nat), n ≤ 8 →
      text.toList.take n = (text.toList.take 8).take n := by
    intro text n hn
    rw [List.take_take, Nat.min_eq_left hn]
  rw [← label_outcome]
  simp only [isOutcomeText]
  rw [htake r.text 4 (by decide), htake r.text 7 (by decide), text_head,
    ← htake _ 4 (by decide), ← htake _ 7 (by decide)]

theorem response_outcome (resp : CmdResponse) :
    isOutcomeText (Spec.responseReport resp).text = true := by
  rw [text_outcome]
  unfold Spec.responseReport
  split
  · rfl
  · split <;> rfl

theorem event_outcome (evt : StateEvent) :
    isOutcomeText (Spec.eventReport evt).text = false := by
  rw [text_outcome]
  unfold Spec.eventReport
  repeat' split
  all_goals rfl

/-- A call is reported in an outcome's words just when it is one. -/
theorem reports_outcome (linked : Bool) (c : Call) :
    ((Spec.reportsOf linked c).map Spec.Report.text).countP isOutcomeText =
      if isOutcome c then 1 else 0 := by
  cases c with
  | onCmdResponse resp =>
    simp only [Spec.reportsOf, List.map_singleton, List.countP_singleton, response_outcome]
    rfl
  | onCmdTimeout => rfl
  | onStateEvent evt =>
    simp only [Spec.reportsOf, List.map_singleton, List.countP_singleton, event_outcome]
    rfl
  | onHeartbeat data => cases linked <;> rfl
  | onHeartbeatTimeout => cases linked <;> rfl

theorem narrate_outcomes (linked : Bool) (cs : List Call) :
    ((Spec.narrate linked cs).map Spec.Report.text).countP isOutcomeText = cs.countP isOutcome := by
  induction cs generalizing linked with
  | nil => rfl
  | cons c cs ih =>
    simp only [Spec.narrate, List.map_append, List.countP_append, List.countP_cons, ih,
      reports_outcome]
    omega

theorem run_published (msgIds : Nat → Int) (acts : List Act) : Published (run (boot msgIds) acts) := by
  have htold : Told (run (boot msgIds) acts).app := told_kept.run msgIds (boot_told msgIds) acts
  rw [Published, htold.said, narrate_outcomes, countP_outcome]
  rfl

/-! ### The balance, step by step -/

/-- All but `d` of the accepted commands are accounted for. -/
def Deficit (d : Nat) (s : Session) : Prop :=
  (acceptedCmdsOf s.wire).length = Slots.count isCommand s.table + outcomes s.app + d

theorem balanced_iff (s : Endpoint) : Balanced s ↔ Deficit 0 (session s) := by
  simp only [Balanced, Deficit, outcomes, Nat.add_zero, Nat.add_assoc]
  rfl

/-- How many commands the byte loses: one if it completes a short frame for one. -/
def lostBy (s : Session) (c : UInt8) : Nat :=
  match (parseChar s.parser c).2 with
  | none => 0
  | some msg =>
    match (Slots.live s.table).find? (fun e => awaits msg e.1) with
    | none => 0
    | some e => if isCommand e.1 ∧ msg.len.toNat < sizeofCmdResponse then 1 else 0

def lost : Session → List UInt8 → Nat
  | _, [] => 0
  | s, c :: rx => lostBy s c + lost (s.acceptByte c) rx

theorem malformed_iff (s : Endpoint) (c : UInt8) : Malformed s c ↔ lostBy (session s) c ≠ 0 := by
  constructor
  · rintro ⟨msg, e, hm, hf, hc, hl⟩
    simp [lostBy, hm, show (Slots.live (view s.tf.idListeners)).find? _ = some e from hf, hc, hl]
  · intro h
    simp only [lostBy] at h
    split at h
    · contradiction
    · rename_i msg hm
      split at h
      · contradiction
      · rename_i e hf
        split at h
        · rename_i hc
          exact ⟨msg, e, hm, hf, hc⟩
        · contradiction

theorem accept_deficit {s : Session} (hl : Legal s) (h : Deficit d s) (c : UInt8) :
    Deficit (d + lostBy s c) (s.acceptByte c) := by
  cases hm : (parseChar s.parser c).2 with
  | none => simpa [Deficit, acceptByte, lostBy, hm] using h
  | some msg =>
    obtain ⟨p, rfl⟩ := parseChar_msg hm
    have hfind := Slots.remove_find (awaits (receivedMsg p)) s.table
    cases hr : Slots.remove (awaits (receivedMsg p)) s.table with
    | none =>
      rw [hr] at hfind
      have hnone := Option.map_eq_none_iff.mp hfind.symm
      have hout : outcomes (s.acceptByte c).app = outcomes s.app ∧
          (s.acceptByte c).table = s.table ∧ (s.acceptByte c).wire = s.wire := by
        simp only [acceptByte, hm, deliver, hr]
        split
        · exact ⟨event_outcomes p s.app, rfl, rfl⟩
        · exact ⟨rfl, rfl, rfl⟩
      simp only [Deficit, lostBy, hm, hnone, hout.1, hout.2.1, hout.2.2, Nat.add_zero]
      exact h
    | some r =>
      obtain ⟨q, t⟩ := r
      rw [hr] at hfind
      obtain ⟨e, hfound, he⟩ := Option.map_eq_some_iff.mp hfind.symm
      dsimp only at he
      have hcount := Slots.count_remove isCommand hr
      have hstep : s.acceptByte c = { s with
          parser := (parseChar s.parser c).1, table := t, app := answer q (receivedMsg p) s.app } := by
        simp only [acceptByte, hm, deliver, hr]
      have hkind := (hl.queries e (List.mem_of_find?_eq_some hfound)).kind
      simp only [Deficit, hstep, lostBy, hm, hfound] at h ⊢
      rw [he] at hkind ⊢
      rcases hkind with hk | hk
      · have hc : isCommand q = true := by rw [hk]; rfl
        rw [hk, answer_command, ← hk]
        simp only [hc, if_true, true_and] at hcount ⊢
        by_cases hs : p.len.toNat < sizeofCmdResponse
        · simp only [receivedMsg, hs, if_true]
          omega
        · simp only [receivedMsg, hs, if_false]
          omega
      · have hc : isCommand q = false := by rw [hk]; rfl
        rw [hk, answer_heartbeat, ← hk]
        simp only [hc, Bool.false_eq_true, if_false, false_and] at hcount ⊢
        omega

theorem read_deficit (rx : List UInt8) {s : Session} (hl : Legal s) (h : Deficit d s) :
    Deficit (d + lost s rx) (rx.foldl acceptByte s) := by
  induction rx generalizing s d with
  | nil => exact h
  | cons c rx ih =>
    have := ih (hl.acceptByte c) (accept_deficit hl h c)
    rw [Nat.add_assoc] at this
    exact this

theorem lost_eq_zero (rx : List UInt8) (s : Session) :
    lost s rx = 0 ↔
      ∀ before c after, rx = before ++ c :: after → lostBy (before.foldl acceptByte s) c = 0 := by
  induction rx generalizing s with
  | nil =>
    refine ⟨fun _ before c after he => ?_, fun _ => rfl⟩
    simp at he
  | cons c rx ih =>
    simp only [lost, Nat.add_eq_zero_iff, ih]
    constructor
    · rintro ⟨hc, hrest⟩ before b after he
      cases before with
      | nil =>
        obtain ⟨rfl, _⟩ := List.cons.inj he
        exact hc
      | cons x before =>
        obtain ⟨rfl, he'⟩ := List.cons.inj he
        exact hrest before b after he'
    · intro h
      refine ⟨h [] c rx rfl, ?_⟩
      intro before b after he
      exact h (c :: before) b after (by rw [he]; rfl)

theorem command_deficit {s : Session} (h : Deficit d s) (cmd : CmdRequest) :
    Deficit d (command cmd s).2 := by
  cases hi : Slots.insert (commandQuery s.ownId) queryTicks s.table with
  | none => simpa [Deficit, command, ask_none hi, acceptedCmdsOf] using h
  | some t =>
    have hc := Slots.count_insert isCommand hi
    rw [if_pos (show isCommand (commandQuery s.ownId) = true from rfl)] at hc
    simp only [Deficit, command, ask_some hi, sent, acceptedCmdsOf] at h ⊢
    simp only [List.filterMap_append, List.length_append, List.filterMap_cons, List.filterMap_nil,
      List.length_nil, List.length_singleton]
    omega

theorem heartbeat_deficit {s : Session} (h : Deficit d s) : Deficit d s.heartbeat := by
  let s0 : Session := { s with heartbeatCounter := s.heartbeatCounter + 1 }
  cases hi : Slots.insert (heartbeatQuery s0.ownId) queryTicks s0.table with
  | none =>
    rw [Session.heartbeat, ask_none (s := s0) hi]
    simpa [Deficit, s0, acceptedCmdsOf] using h
  | some t =>
    have hc := Slots.count_insert isCommand hi
    have hk : isCommand (heartbeatQuery s0.ownId) = false := rfl
    rw [hk] at hc
    rw [Session.heartbeat, ask_some (s := s0) hi]
    simpa [Deficit, sent, s0, acceptedCmdsOf, hc] using h

theorem estop_deficit {s : Session} (h : Deficit d s) : Deficit d s.estop := by
  simpa [Deficit, estop, sent, acceptedCmdsOf] using h

theorem tick_deficit {s : Session} (hl : Legal s) (h : Deficit d s) : Deficit d s.tick := by
  have hc := Slots.count_tick isCommand s.table
  have ho := expire_all_outcomes (Slots.tick s.table).1 (fun q hq => by
    obtain ⟨n, hn⟩ := Slots.expired_mem hq
    exact (hl.queries _ hn).kind) s.app
  simp only [Deficit, Session.tick, ho] at h ⊢
  omega

/-- Only a read can unbalance the account, by as many commands as it loses. -/
theorem step_deficit {s : Session} (hl : Legal s) (h : Deficit d s) (act : Act) :
    Deficit (d + match act with | .uartRead rx => lost s rx | _ => 0) (s.step act) := by
  cases act with
  | mqttInit client =>
    simp only [Session.step]
    split
    · exact h
    · exact h
  | mqttEvent event =>
    simp only [Session.step]
    split
    · rcases mqttEvent_cases s event with ⟨m, he, _⟩ | ⟨cmd, he⟩ | he
      · rw [he]
        exact h
      · rw [he]
        exact command_deficit h cmd
      · rw [he]
        exact estop_deficit h
    · exact h
  | sendCmd cmd => exact command_deficit h cmd
  | sendEstop => exact estop_deficit h
  | heartbeat => exact heartbeat_deficit h
  | uartRead rx => exact read_deficit rx hl h
  | tick => exact tick_deficit hl h

/-- From a balanced state a step leads to a balanced one exactly when it reads no
malformed response. -/
theorem step_balanced {s : Endpoint} (hr : Regular s) (h : Balanced s) (act : Act) :
    Balanced (step s act) ↔ WellFormed s act := by
  have hd := step_deficit hr.legal ((balanced_iff s).mp h) act
  rw [balanced_iff, (step_refines hr act).1]
  cases act with
  | uartRead rx =>
    have hzero : Deficit 0 ((session s).step (.uartRead rx)) ↔ lost (session s) rx = 0 := by
      simp only [Deficit] at hd ⊢
      omega
    rw [hzero, lost_eq_zero]
    refine forall_congr' fun before => forall_congr' fun c => forall_congr' fun after =>
      imp_congr_right fun _ => ?_
    rw [malformed_iff, (read_refines hr before).1, not_not]
  | _ => exact ⟨fun _ => trivial, fun _ => hd⟩

theorem boot_balanced (msgIds : Nat → Int) : Balanced (boot msgIds) := rfl

/-- Along a run the accepted commands are the pending ones and the reported outcomes,
exactly when no read of the run completes a malformed response to a pending command. What is
reported is published, once each, in any case. -/
theorem outcomes_balanced_iff (msgIds : Nat → Int) (acts : List Act) :
    (Runs.Along step Balanced (boot msgIds) acts ↔
      Runs.Meets step WellFormed (boot msgIds) acts) ∧
    Runs.Along step Published (boot msgIds) acts := by
  constructor
  · exact Runs.along_iff_meets step (I := Regular)
      (fun _ act hs => (step_refines hs act).2) (fun _ act hs hb => step_balanced hs hb act)
      (boot_regular msgIds) (boot_balanced msgIds) acts
  · rw [Runs.along_iff_prefix]
    intro before _ _
    exact run_published msgIds before

/-- A status command, and a response to it that stops after the status byte. -/
def shortResponse : List Act :=
  [.sendCmd getStatusCmd, .uartRead (frameBytes 0x80 msgTypeCmd [cmdGetStatus, cmdOk])]

/-- The command is gone and neither a response nor a timeout was reported. -/
theorem short_response_unbalanced :
    ¬ Runs.Along step Balanced (boot fun _ => 0) shortResponse := by
  intro h
  have hlast : Balanced (run (boot fun _ => 0) shortResponse) := h.last step
  have hne : acceptedCmds (run (boot fun _ => 0) shortResponse) ≠
      pendingCommands (run (boot fun _ => 0) shortResponse) +
        responses (run (boot fun _ => 0) shortResponse).app +
        timeouts (run (boot fun _ => 0) shortResponse).app := by
    decide +kernel
  exact hne hlast

end UpAndDownESP.Proofs.Accounting
