import UpAndDownESP.Proofs.Application
import UpAndDownESP.Proofs.Capacity
import UpAndDownESP.Proofs.LinkState
import UpAndDownESP.Spec.Reports

namespace UpAndDownESP.Proofs.Dashboard
open Table Refinement Capacity Session Spec

/-! ### What every callback keeps, a run keeps -/

/-- A property of the application that its callbacks keep, and that the state of the
MQTT client does not touch. -/
structure Kept (I : App → Prop) : Prop where
  response : ∀ resp a, I a → I (onCmdResponse resp a)
  timeout : ∀ a, I a → I (onCmdTimeout a)
  event : ∀ evt a, I a → I (onStateEvent evt a)
  heartbeat : ∀ data len a, I a → I (onHeartbeat data len a)
  heartbeatTimeout : ∀ a, I a → I (onHeartbeatTimeout a)
  mqtt : ∀ m a, m.attempts = a.mqtt.attempts → I a → I { a with mqtt := m }

theorem Kept.related {I : App → Prop} (h : Kept I) : Application.Kept fun a _ => I a where
  response resp ha := h.response resp _ ha
  timeout ha := h.timeout _ ha
  event evt ha := h.event evt _ ha
  heartbeat data len ha := h.heartbeat data len _ ha
  heartbeatTimeout ha := h.heartbeatTimeout _ ha

theorem Kept.deliver {I : App → Prop} (h : Kept I) {s : Session} (msg : TfMsg) (hs : I s.app) :
    I (s.deliver msg).app := by
  unfold Session.deliver
  split
  · exact h.related.fn _ msg (b := s.app) hs
  · split
    · exact h.related.fn .eventListener msg (b := s.app) hs
    · exact hs

theorem Kept.accept {I : App → Prop} (h : Kept I) (s : Session) (c : UInt8) (hs : I s.app) :
    I (s.acceptByte c).app := by
  simp only [Session.acceptByte]
  split
  · exact hs
  · exact h.deliver (s := { s with parser := (parseChar s.parser c).1 }) _ hs

theorem Kept.step {I : App → Prop} (h : Kept I) (s : Session) (act : Act) (hs : I s.app) :
    I (s.step act).app := by
  cases act with
  | mqttInit client =>
    simp only [Session.step]
    split
    · exact h.mqtt (mqttInit mqttTopicEvents mqttTopicCmd client s.app.mqtt) s.app rfl hs
    · exact hs
  | mqttEvent event =>
    simp only [Session.step]
    split
    · rcases mqttEvent_cases s event with ⟨m, he, hm⟩ | ⟨cmd, he⟩ | he
      · rw [he]
        exact h.mqtt m s.app hm hs
      · rw [he, (command_input cmd s).app]
        exact hs
      · rw [he]
        exact hs
    · exact hs
  | sendCmd cmd =>
    change I (command cmd s).2.app
    rw [(command_input cmd s).app]
    exact hs
  | sendEstop => exact hs
  | heartbeat =>
    change I s.heartbeat.app
    rw [(heartbeat_input s).app]
    exact hs
  | uartRead rx =>
    exact Runs.invariant acceptByte (I := fun s => I s.app) (fun s c => h.accept s c) hs rx
  | tick =>
    exact h.related.expire_all (Slots.tick s.table).1 (b := s.app) hs

/-- The rule for the application: over any run of the program what its callbacks keep
stays true. -/
theorem Kept.run {I : App → Prop} (h : Kept I) (msgIds : Nat → Int) (h₀ : I (boot msgIds).app)
    (acts : List Act) : I (run (boot msgIds) acts).app := by
  have hr := (run_refines (boot_regular msgIds) acts).1
  rw [← session_app, hr]
  exact Runs.invariant Session.step (I := fun s => I s.app) h.step h₀ acts

/-! ### Every text fits its buffer -/

theorem byte_digits (n : UInt8) : (toString n.toNat).length ≤ 3 := by
  have hlt : n.toNat < 10 ^ 3 := n.toNat_lt.trans (by decide)
  rw [Nat.toString_eq_ofList_toDigits, String.length_ofList]
  exact (Nat.length_toDigits_le_iff (by decide) (by decide)).mpr hlt

theorem snprintf_fits {size : Nat} {text : String} (h : text.length < size) :
    snprintf size text = text := if_pos h

theorem numbered_fits {label : String} {size : Nat} (n : UInt8) (h : label.length + 3 < size) :
    snprintf size (label ++ toString n.toNat) = label ++ toString n.toNat := by
  apply snprintf_fits
  have hn := byte_digits n
  rw [String.length_append]
  omega

theorem direction_text (dir : UInt8) : directionStr dir = (Direction.of dir).text := by
  by_cases h0 : dir = 0
  · rw [h0]
    rfl
  by_cases h1 : dir = 1
  · rw [h1]
    rfl
  by_cases h2 : dir = 2
  · rw [h2]
    rfl
  · simp [directionStr, Direction.of, Direction.text]

theorem direction_length (d : Direction) : d.text.length ≤ 7 := by
  cases d <;> decide

theorem event_text (evt : StateEvent) : stateEventText evt = (eventReport evt).text := by
  simp only [stateEventText, eventReport]
  split
  · exact numbered_fits evt.data (by decide)
  split
  · exact numbered_fits evt.data (by decide)
  split
  · exact numbered_fits evt.data (by decide)
  split
  · exact snprintf_fits (by decide)
  split
  · exact snprintf_fits (by decide)
  · exact numbered_fits evt.eventType (by decide)

theorem status_length (floor : UInt8) (d : Direction) (dest : UInt8) :
    (Report.status floor d dest).text.length =
      13 + (toString floor.toNat).length + 5 + d.text.length + 8 + 2 := by
  have hlabels : "status:floor=".length = 13 ∧ ",dir=".length = 5 ∧ ",dest=0x".length = 8 := by
    decide
  have hdest : (hex2 dest).length = 2 := String.length_ofList
  change ("status:floor=" ++ toString floor.toNat ++ ",dir=" ++ d.text ++ ",dest=0x" ++
    hex2 dest).length = _
  rw [String.length_append, String.length_append, String.length_append,
    String.length_append, String.length_append, hlabels.1, hlabels.2.1, hlabels.2.2, hdest]

theorem status_fits (floor : UInt8) (d : Direction) (dest : UInt8) :
    snprintf 64 (Report.status floor d dest).text = (Report.status floor d dest).text := by
  apply snprintf_fits
  rw [status_length]
  have hroom : ∀ m n, m ≤ 3 → n ≤ 7 → 13 + m + 5 + n + 8 + 2 < 64 := by omega
  exact hroom _ _ (byte_digits floor) (direction_length d)

/-! ### What is published -/

theorem narrate_snoc (linked : Bool) (cs : List Call) (c : Call) :
    narrate linked (cs ++ [c]) = narrate linked cs ++ reportsOf (cs.foldl linkAfter linked) c := by
  induction cs generalizing linked with
  | nil => simp [narrate]
  | cons d cs ih => simp [narrate, ih]

/-- The application has said what its calls told it, and knows about the link what they
told it last. -/
structure Told (a : App) : Prop where
  said : a.mqtt.attempts.map Prod.fst = (narrate false a.calls).map Report.text
  linked : a.max32655Connected = a.calls.foldl linkAfter false

/-- One more call, with the reports it makes. -/
theorem Told.call {a a' : App} (h : Told a) {c : Call} (hcalls : a'.calls = a.calls ++ [c])
    (hsaid : a'.mqtt.attempts.map Prod.fst =
      a.mqtt.attempts.map Prod.fst ++ (reportsOf a.max32655Connected c).map Report.text)
    (hlinked : a'.max32655Connected = linkAfter a.max32655Connected c) : Told a' := by
  constructor
  · rw [hsaid, hcalls, narrate_snoc, List.map_append, h.said, h.linked]
  · rw [hlinked, hcalls, List.foldl_append, h.linked]
    rfl

theorem response_texts (resp : CmdResponse) (a : App) :
    (onCmdResponse resp a).mqtt.attempts.map Prod.fst =
        a.mqtt.attempts.map Prod.fst ++ [(responseReport resp).text] ∧
      (onCmdResponse resp a).max32655Connected = a.max32655Connected := by
  simp only [onCmdResponse, responseReport]
  split
  · rw [App.publish_texts, numbered_fits resp.status (by decide)]
    exact ⟨rfl, rfl⟩
  split
  · rw [App.publish_texts, direction_text]
    refine ⟨?_, rfl⟩
    exact congrArg (fun text => a.mqtt.attempts.map Prod.fst ++ [text]) (status_fits _ _ _)
  · rw [App.publish_texts]
    exact ⟨rfl, rfl⟩

theorem told_kept : Kept Told where
  response := by
    intro resp a h
    obtain ⟨hsaid, hlinked⟩ := response_texts resp a
    exact h.call (onCmdResponse_calls resp a) hsaid hlinked
  timeout := by
    intro a h
    exact h.call (onCmdTimeout_calls a) (App.publish_texts _ _) rfl
  event := by
    intro evt a h
    apply h.call (onStateEvent_calls evt a) _ rfl
    change ((a.called _).publish (stateEventText evt)).mqtt.attempts.map Prod.fst = _
    rw [App.publish_texts, event_text]
    rfl
  heartbeat := by
    intro data len a h
    apply h.call (onHeartbeat_calls data len a)
    · cases hl : a.max32655Connected with
      | true => simp [onHeartbeat, hl, reportsOf]
      | false =>
        simp only [onHeartbeat, App.called_connected, hl]
        exact App.publish_texts _ _
    · simp only [onHeartbeat]
      split
      · rfl
      · rename_i hl
        simpa [linkAfter] using hl
  heartbeatTimeout := by
    intro a h
    apply h.call (onHeartbeatTimeout_calls a)
    · cases hl : a.max32655Connected with
      | false => simp [onHeartbeatTimeout, hl, reportsOf]
      | true =>
        simp only [onHeartbeatTimeout, App.called_connected, hl]
        exact App.publish_texts _ _
    · simp only [onHeartbeatTimeout]
      split
      · rfl
      · rename_i hl
        simpa [linkAfter] using hl
  mqtt := by
    intro m a hm h
    exact ⟨by rw [hm]; exact h.said, h.linked⟩

/-! ### Reading a text -/

theorem number_text {m n : Nat} (h : toString m = toString n) : m = n := by
  rw [Nat.toString_eq_repr, Nat.toString_eq_repr] at h
  have hdigits := congrArg (Nat.ofDigitChars 10 ·.toList 0) h
  simpa only [Nat.toList_repr, Nat.ofDigitChars_ten_toDigits] using hdigits

theorem numbered_text {label : String} {m n : UInt8}
    (h : label ++ toString m.toNat = label ++ toString n.toNat) : m = n :=
  UInt8.toNat_inj.mp (number_text ((String.append_right_inj label).mp h))

theorem hexChar_inj : ∀ m < 16, ∀ n < 16, hexChar m = hexChar n → m = n := by decide

theorem hex2_inj {x y : UInt8} (h : hex2 x = hex2 y) : x = y := by
  have hx := x.toNat_lt
  have hy := y.toNat_lt
  have hlist := congrArg String.toList h
  simp only [hex2, String.toList_ofList, List.cons.injEq, and_true] at hlist
  have hhigh := hexChar_inj _ (by omega) _ (by omega) hlist.1
  have hlow := hexChar_inj _ (by omega) _ (by omega) hlist.2
  apply UInt8.toNat_inj.mp
  omega

/-- A number ends where its digits do. -/
theorem number_split {m n : Nat} {s t : List Char}
    (h : (toString m).toList ++ ',' :: s = (toString n).toList ++ ',' :: t) : m = n ∧ s = t := by
  have hdigits : ∀ (k : Nat) (u : List Char),
      ((toString k).toList ++ ',' :: u).takeWhile Char.isDigit = (toString k).toList := by
    intro k u
    have hall : ∀ c ∈ (toString k).toList, c.isDigit = true := by
      intro c hc
      rw [Nat.toString_eq_repr, Nat.toList_repr] at hc
      exact Nat.isDigit_of_mem_toDigits (by decide) (by decide) hc
    rw [List.takeWhile_append_of_pos hall]
    simp
  have hnum : (toString m).toList = (toString n).toList := by
    rw [← hdigits m s, h, hdigits n t]
  rw [hnum] at h
  exact ⟨number_text (String.toList_inj.mp hnum), (List.cons.inj (List.append_cancel_left h)).2⟩

/-- The direction is read up to the comma. -/
theorem direction_split {d e : Direction} {s t : List Char}
    (h : d.text.toList ++ ',' :: s = e.text.toList ++ ',' :: t) : d = e ∧ s = t := by
  have hread : ∀ (d : Direction) (u : List Char),
      (d.text.toList ++ ',' :: u).takeWhile (· ≠ ',') = d.text.toList := by
    intro d u
    cases d <;> rfl
  have hsame : d.text.toList = e.text.toList := by
    rw [← hread d s, h, hread e t]
  rw [hsame] at h
  refine ⟨?_, (List.cons.inj (List.append_cancel_left h)).2⟩
  revert hsame
  cases d <;> cases e <;> decide

inductive Kind where
  | cmdError
  | cmdOk
  | status
  | cmdTimeout
  | stoppedAtFloor
  | cabinButton
  | callButton
  | estopActivated
  | estopReleased
  | unknownEvent
  | link
  deriving DecidableEq

def kindOf : Report → Kind
  | .cmdError _ => .cmdError
  | .cmdOk => .cmdOk
  | .status _ _ _ => .status
  | .cmdTimeout => .cmdTimeout
  | .stoppedAtFloor _ => .stoppedAtFloor
  | .cabinButton _ => .cabinButton
  | .callButton _ => .callButton
  | .estopActivated => .estopActivated
  | .estopReleased => .estopReleased
  | .unknownEvent _ => .unknownEvent
  | .link _ => .link

/-- What a text of this kind begins with. -/
def labelOf : Kind → String
  | .cmdError => "cmd_err_"
  | .cmdOk => "cmd_ok"
  | .status => "status:floor="
  | .cmdTimeout => "cmd_timeout"
  | .stoppedAtFloor => "stopped_at_floor_"
  | .cabinButton => "cabin_button_"
  | .callButton => "call_button_"
  | .estopActivated => "estop_activated"
  | .estopReleased => "estop_released"
  | .unknownEvent => "unknown_event_"
  | .link => "max32655_"

theorem label_head {label rest : String} (h : 8 ≤ label.toList.length) :
    (label ++ rest).toList.take 8 = label.toList.take 8 := by
  rw [String.toList_append, List.take_append_of_le_length h]

/-- Eight characters tell the kinds apart. -/
theorem text_head (r : Report) : r.text.toList.take 8 = (labelOf (kindOf r)).toList.take 8 := by
  cases r with
  | cmdError n | stoppedAtFloor n | cabinButton n | callButton n | unknownEvent n =>
    exact label_head (by decide)
  | status floor d dest =>
    change ("status:floor=" ++ toString floor.toNat ++ ",dir=" ++ d.text ++ ",dest=0x" ++
      hex2 dest).toList.take 8 = _
    rw [String.append_assoc, String.append_assoc, String.append_assoc, String.append_assoc]
    exact label_head (by decide)
  | cmdOk | cmdTimeout | estopActivated | estopReleased => rfl
  | link up => cases up <;> decide

theorem label_inj {k l : Kind}
    (h : (labelOf k).toList.take 8 = (labelOf l).toList.take 8) : k = l := by
  revert h
  cases k <;> cases l <;> decide

theorem status_text {floor floor' dest dest' : UInt8} {d d' : Direction}
    (h : (Report.status floor d dest).text = (Report.status floor' d' dest').text) :
    floor = floor' ∧ d = d' ∧ dest = dest' := by
  have hlist : ∀ (floor dest : UInt8) (d : Direction), (Report.status floor d dest).text.toList =
      "status:floor=".toList ++ ((toString floor.toNat).toList ++ ',' :: ("dir=".toList ++
        (d.text.toList ++ ',' :: ("dest=0x".toList ++ (hex2 dest).toList)))) := by
    intro floor dest d
    change ("status:floor=" ++ toString floor.toNat ++ ",dir=" ++ d.text ++ ",dest=0x" ++
      hex2 dest).toList = _
    simp only [String.toList_append, List.append_assoc]
    rfl
  have hsplit := congrArg String.toList h
  rw [hlist, hlist] at hsplit
  obtain ⟨hfloor, hrest⟩ := number_split (List.append_cancel_left hsplit)
  obtain ⟨hd, hdest⟩ := direction_split (List.append_cancel_left hrest)
  exact ⟨UInt8.toNat_inj.mp hfloor, hd,
    hex2_inj (String.toList_inj.mp (List.append_cancel_left hdest))⟩

/-- No two reports have the same words. -/
theorem text_injective : Function.Injective Report.text := by
  intro r r' h
  have hkind : kindOf r = kindOf r' := by
    apply label_inj
    rw [← text_head, ← text_head, h]
  cases r <;> cases r' <;> cases hkind
  case cmdOk.cmdOk | cmdTimeout.cmdTimeout | estopActivated.estopActivated
    | estopReleased.estopReleased => rfl
  case cmdError.cmdError | stoppedAtFloor.stoppedAtFloor | cabinButton.cabinButton
    | callButton.callButton | unknownEvent.unknownEvent => exact congrArg _ (numbered_text h)
  case status.status =>
    obtain ⟨rfl, rfl, rfl⟩ := status_text h
    rfl
  case link.link up up' =>
    have happart : (Report.link true).text ≠ (Report.link false).text := by decide
    cases up <;> cases up'
    · rfl
    · exact absurd h.symm happart
    · exact absurd h happart
    · rfl

/-! ### Runs -/

theorem boot_told (msgIds : Nat → Int) : Told (boot msgIds).app := ⟨rfl, rfl⟩

/-- The link reports among the reports. -/
def linkOf : Report → Option Bool
  | .link up => some up
  | _ => none

theorem responseReport_link (resp : CmdResponse) : linkOf (responseReport resp) = none := by
  unfold responseReport
  split
  · rfl
  · split <;> rfl

theorem eventReport_link (evt : StateEvent) : linkOf (eventReport evt) = none := by
  unfold eventReport
  repeat' split
  all_goals rfl

/-- Link reports alternate, and the last one says what was heard last. -/
theorem narrate_links (cs : List Call) (linked : Bool) :
    LinkState.Alternates (!linked) ((narrate linked cs).filterMap linkOf) ∧
      ((narrate linked cs).filterMap linkOf).getLastD linked = cs.foldl linkAfter linked := by
  induction cs generalizing linked with
  | nil => exact ⟨trivial, rfl⟩
  | cons c cs ih =>
    have hsame : ∀ rs : List Report, rs.filterMap linkOf = [] → reportsOf linked c = rs →
        linkAfter linked c = linked →
        LinkState.Alternates (!linked) ((narrate linked (c :: cs)).filterMap linkOf) ∧
          ((narrate linked (c :: cs)).filterMap linkOf).getLastD linked =
            (c :: cs).foldl linkAfter linked := by
      intro rs hrs hreports hlink
      simp only [narrate, hreports, hlink, List.filterMap_append, hrs, List.nil_append,
        List.foldl_cons]
      exact ih linked
    cases c with
    | onCmdResponse resp => exact hsame [responseReport resp] (by simp [responseReport_link]) rfl rfl
    | onCmdTimeout => exact hsame [.cmdTimeout] rfl rfl rfl
    | onStateEvent evt => exact hsame [eventReport evt] (by simp [eventReport_link]) rfl rfl
    | onHeartbeat data =>
      cases linked with
      | true => exact hsame [] rfl rfl rfl
      | false =>
        obtain ⟨halt, hlast⟩ := ih true
        exact ⟨⟨rfl, halt⟩, List.getLastD_cons.trans hlast⟩
    | onHeartbeatTimeout =>
      cases linked with
      | false => exact hsame [] rfl rfl rfl
      | true =>
        obtain ⟨halt, hlast⟩ := ih false
        exact ⟨⟨rfl, halt⟩, List.getLastD_cons.trans hlast⟩

/-- In every run the endpoint publishes, in order and in full, what its callbacks have
to report, and nothing else. What it reports about the link alternates, beginning with
connected, and ends with what it takes the link to be. -/
theorem reports_published (msgIds : Nat → Int) (acts : List Act) :
    let s := run (boot msgIds) acts
    texts s = (reports s).map Report.text ∧
      LinkState.Alternates true ((reports s).filterMap linkOf) ∧
      ((reports s).filterMap linkOf).getLastD false = s.app.max32655Connected := by
  intro s
  have htold : Told s.app := told_kept.run msgIds (boot_told msgIds) acts
  obtain ⟨halt, hlast⟩ := narrate_links s.app.calls false
  refine ⟨htold.said, halt, ?_⟩
  rw [htold.linked]
  exact hlast

/-- The texts can be read back: two runs that publish the same had the same to report. -/
theorem texts_readable (msgIds msgIds' : Nat → Int) (acts acts' : List Act) :
    texts (run (boot msgIds) acts) = texts (run (boot msgIds') acts') ↔
      reports (run (boot msgIds) acts) = reports (run (boot msgIds') acts') := by
  have htold := (told_kept.run msgIds (boot_told msgIds) acts).said
  have htold' := (told_kept.run msgIds' (boot_told msgIds') acts').said
  rw [texts, texts, htold, htold']
  exact (List.map_injective_iff.mpr text_injective).eq_iff

end UpAndDownESP.Proofs.Dashboard
